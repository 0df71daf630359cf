import Worksheet.Proofs.Expression.Token
import Worksheet.Proofs.Text.Digits

/-!
# Numbers in the notation

The notation takes digits of any script and both letters of an exponent for a number. Expressions are
pickier, so that a number that is passed on to an expression may be no number there.

* **`Numeral`** — a number as the notation takes it.
* **`Numeral.tokens`** — as the beginning of an expression such a number is one token, or nothing that
  begins with it is an expression.
-/

namespace Worksheet.Expression

open Text

/-! ## What stands behind the digits -/

/-- Does a text begin with nothing that could go on with a number? -/
def Stops (rest : List Char) : Prop := ∀ c ∈ rest.head?, isNameChar c = false ∧ c ≠ '.'

/-- A letter that stands for a base is a character of a name. -/
theorem baseOfLetter?_eq_none {c : Char} (h : isNameChar c = false) : baseOfLetter? c = none := by
  have hlower : isNameChar (lower c) = false := by
    unfold lower
    split
    · next hupper =>
      have hletter : isLetter c = true := by
        unfold isLetter
        rw [hupper, Bool.or_true]
      rw [isNameChar_of_isLetter hletter] at h
      cases h
    · exact h
  unfold baseOfLetter?
  split
  · next heq =>
    rw [heq] at hlower
    exact absurd hlower (by decide)
  · next heq =>
    rw [heq] at hlower
    exact absurd hlower (by decide)
  · next heq =>
    rw [heq] at hlower
    exact absurd hlower (by decide)
  · rfl

theorem Stops.endsWhole {rest : List Char} (h : Stops rest) : EndsWhole rest := by
  intro c hc
  have hname := (h c hc).1
  refine ⟨?_, ?_, baseOfLetter?_eq_none hname⟩
  · rw [Bool.eq_false_iff]
    intro hdigit
    rw [isNameChar_of_isDigit hdigit] at hname
    cases hname
  · rintro rfl
    exact absurd hname (by decide)

theorem EndsWhole.endsDigits {rest : List Char} (h : EndsWhole rest) : EndsDigits rest :=
  fun c hc => ⟨(h c hc).1, (h c hc).2.1⟩

theorem IsForeign.stops {d : Char} (hd : IsForeign d) (r : List Char) : Stops (d :: r) := by
  rintro c ⟨⟩
  exact ⟨hd.isNameChar, hd.ne (by decide)⟩

theorem Stops.afterPoint? {rest : List Char} (h : Stops rest) : afterPoint? rest = none := by
  unfold Expression.afterPoint?
  split
  · exact absurd rfl (h '.' rfl).2
  · rfl

theorem Stops.afterExponent? {rest : List Char} (h : Stops rest) : afterExponent? rest = none := by
  unfold Expression.afterExponent?
  split
  · exact absurd (h 'e' rfl).1 (by decide)
  · rfl

/-- Can nothing at the beginning of a text go on with a number in base ten, but an exponent? -/
structure EndsFraction (rest : List Char) : Prop where
  whole : EndsWhole rest
  point : afterPoint? rest = none

theorem Stops.endsFraction {rest : List Char} (h : Stops rest) : EndsFraction rest :=
  ⟨h.endsWhole, h.afterPoint?⟩

theorem afterPoint?_digits {a last : List Char} (ha : ∀ c ∈ a, isDigit c = true) (hne : a ≠ [])
    (hlast : EndsDigits last) : afterPoint? ('.' :: (a ++ last)) = some (a, last) := by
  cases a with
  | nil => exact absurd rfl hne
  | cons c a =>
    have hrun := digitRun_append ha hlast
    rw [List.cons_append] at hrun ⊢
    simp [Expression.afterPoint?, ha c List.mem_cons_self, hrun]

/-- A point may stand alone in front of a digit that expressions do not know. -/
theorem afterPoint?_foreign {a : List Char} (ha : ∀ c ∈ a, isDigit c = true) {d : Char}
    (hd : IsForeign d) (r : List Char) :
    afterPoint? ('.' :: (a ++ d :: r)) = some (a, d :: r) := by
  cases a with
  | nil =>
    have hunderscore : d ≠ '_' := hd.ne (by decide)
    have hpoint : d ≠ '.' := hd.ne (by decide)
    have hletter : isLetter d = false := by
      have hname := hd.isNameChar
      simp only [isNameChar, Bool.or_eq_false_iff] at hname
      exact hname.1.1
    simp [Expression.afterPoint?, hd.2, hunderscore, hpoint, hletter]
  | cons c a => exact afterPoint?_digits ha (List.cons_ne_nil c a) (hd.stops r).endsWhole.endsDigits

/-- The value of an exponent. -/
def exponentValue (sign : Option Char) (digits : List Char) : Int :=
  if sign = some '-' then -(readDigits digits : Int) else readDigits digits

/-- The digits behind the letter of an exponent and its sign: without a sign none of them are missing,
or the letter is none of an exponent. -/
theorem afterExponent?_digits {sign : Option Char} (hsign : ∀ c ∈ sign, c = '+' ∨ c = '-')
    {a last : List Char} (ha : ∀ c ∈ a, isDigit c = true) (hlast : Stops last) (hne : a ≠ []) :
    afterExponent? ('e' :: (sign.toList ++ (a ++ last))) = some (some (exponentValue sign a), last) := by
  have hrun := digitRun_append ha hlast.endsWhole.endsDigits
  cases sign with
  | none =>
    cases a with
    | nil => exact absurd rfl hne
    | cons c a =>
      rw [List.cons_append] at hrun
      simp [Expression.afterExponent?, ha c List.mem_cons_self, hrun, exponentValue]
  | some c =>
    have hempty : a.isEmpty = false := by simpa using hne
    have hdigit : isDigit c = false := by
      rcases hsign c rfl with rfl | rfl <;> decide
    have hc : (c == '+' || c == '-') = true := by
      rcases hsign c rfl with rfl | rfl <;> decide
    have hvalue : exponentValue (some c) a = if c == '-' then -(readDigits a : Int) else readDigits a := by
      rcases hsign c rfl with rfl | rfl <;> rfl
    rw [hvalue]
    simp only [Expression.afterExponent?, Option.toList_some, List.singleton_append, hdigit, hc, hrun,
      hempty, Bool.false_eq_true, if_false, if_true]

theorem afterExponent?_sign {c : Char} (hc : c = '+' ∨ c = '-') {last : List Char}
    (hlast : Stops last) : afterExponent? ('e' :: c :: last) = some (none, last) := by
  have hrun := digitRun_append (s := []) (by simp) hlast.endsWhole.endsDigits
  rw [List.nil_append] at hrun
  rcases hc with rfl | rfl <;> simp [Expression.afterExponent?, isDigit, hrun]

theorem tokensFrom?_digits_foreign (mode : Mode) {a : List Char} (ha : ∀ c ∈ a, isDigit c = true)
    {d : Char} (hd : IsForeign d) (r : List Char) : tokensFrom? mode 0 (a ++ d :: r) = none := by
  cases a with
  | nil => exact tokensFrom?_foreign hd r
  | cons c a =>
    have hdigits : IsDigits (c :: a) := ⟨List.cons_ne_nil c a, ha⟩
    have hstops := hd.stops r
    have hpoint : afterPoint? (d :: r) = (none : Option (List Char)).map fun f => (f, d :: r) :=
      hstops.afterPoint?
    have hread := readNumber?_append false hdigits hstops.endsWhole hpoint fun _ => rfl
    rw [hstops.afterExponent?] at hread
    have htokens := tokensFrom?_digits mode (a := []) hdigits hread
    rw [List.nil_append, tokensFrom?_foreign hd r] at htokens
    exact htokens

/-- The letter of an exponent begins a word, if it belongs to no exponent. -/
theorem tokensFrom?_letter {mode : Mode} {letter : Char} (h : letter = 'e' ∨ letter = 'E')
    {r : List Char} {ts : List Token} (hts : tokensFrom? mode 0 (letter :: r) = some ts) :
    ∃ w more, w ≠ "in" ∧ ts = .word w :: more := by
  have hletter : isNameChar letter = true ∧ isBlank letter = false ∧ isDigit letter = false ∧
      (letter == '-') = false ∧ isNameStart letter = true ∧ (letter == '_') = false ∧
      isLetter letter = true ∧ letter ≠ 'i' := by
    rcases h with rfl | rfl <;> decide
  obtain ⟨hname, hblank, hdigit, hminus, hstart, hunderscore, hletter, hne⟩ := hletter
  have hword : ∀ w : String, w.toList.head? = some 'i' →
      String.ofList (letter :: r.takeWhile isNameChar) ≠ w := by
    rintro w hw rfl
    rw [String.toList_ofList, List.head?_cons, Option.some.injEq] at hw
    exact hne hw
  have hproper : isProperName (letter :: r.takeWhile isNameChar) = true := by
    simp [isProperName, hunderscore, hletter]
  have hoperand : isOperandWord (String.ofList (letter :: r.takeWhile isNameChar)) = false := by
    rw [isOperandWord, Bool.or_eq_false_iff]
    exact ⟨beq_false_of_ne (hword "if" (by decide)), beq_false_of_ne (hword "in" (by decide))⟩
  have hread : readToken? mode (letter :: r)
      = some (some (.word (String.ofList (letter :: r.takeWhile isNameChar))),
        { mode with afterOperand := true }, r.dropWhile isNameChar) := by
    unfold readToken?
    simp only [hblank, hdigit, hminus, hstart, List.takeWhile_cons_of_pos hname,
      List.dropWhile_cons_of_pos hname, hproper, hoperand, Bool.false_and, Bool.not_true,
      Bool.false_eq_true, if_false, if_true]
  rw [tokensFrom?_cons, hread] at hts
  obtain ⟨more, -, rfl⟩ := Option.map_eq_some_iff.mp hts
  exact ⟨_, more, hword "in" (by decide), rfl⟩

end Worksheet.Expression

namespace Worksheet.Notation

open Text Expression

/-- A run of digits of any script. -/
structure Decimals where
  /-- The digits. -/
  chars : List Char
  nonempty : chars ≠ []
  decimal : ∀ c ∈ chars, isDecimal c = true

/-- An exponent. -/
structure Exponent where
  /-- The letter, small or capital. -/
  letter : Char
  /-- The sign. -/
  sign : Option Char
  /-- The digits. -/
  digits : Decimals
  letter_eq : letter = 'e' ∨ letter = 'E'
  sign_eq : ∀ c ∈ sign, c = '+' ∨ c = '-'

/-- A number. -/
structure Numeral where
  /-- The digits in front of the point. -/
  whole : Decimals
  /-- The digits behind the point. -/
  fraction : Option Decimals
  /-- The exponent. -/
  exponent : Option Exponent

/-- How an exponent is written. -/
def Exponent.text (e : Exponent) : List Char := e.letter :: (e.sign.toList ++ e.digits.chars)

/-- How a fraction is written. -/
def fractionText : Option Decimals → List Char
  | none => []
  | some f => '.' :: f.chars

/-- How an exponent that may be missing is written. -/
def exponentText : Option Exponent → List Char
  | none => []
  | some e => e.text

/-- How a number is written. -/
def Numeral.text (n : Numeral) : List Char :=
  n.whole.chars ++ (fractionText n.fraction ++ exponentText n.exponent)

/-! ## Digits that expressions know -/

/-- Digits are those of expressions up to the first one that is not. -/
theorem Decimals.digits_or_foreign (d : Decimals) :
    IsDigits d.chars ∨ ∃ a c r, d.chars = a ++ c :: r ∧ (∀ x ∈ a, isDigit x = true) ∧
      IsForeign c := by
  obtain ⟨s, hne, hdecimal⟩ := d
  dsimp only
  cases hrest : s.dropWhile isDigit with
  | nil => exact Or.inl ⟨hne, List.dropWhile_eq_nil_iff.mp hrest⟩
  | cons c r =>
    have hsplit : s.takeWhile isDigit ++ c :: r = s := by
      rw [← hrest]
      exact List.takeWhile_append_dropWhile
    have hdigit : isDigit c = false := by
      have hhead := List.head?_dropWhile_not isDigit s
      rw [hrest] at hhead
      simpa using hhead
    refine Or.inr ⟨s.takeWhile isDigit, c, r, hsplit.symm, fun x hx => List.mem_takeWhile_imp hx,
      hdecimal c ?_, hdigit⟩
    rw [← hsplit]
    simp

/-! ## Tokens of numbers -/

/-- Behind a text the tokens go on as if the text was one number. -/
def OneToken (mode : Mode) (s rest : List Char) : Prop :=
  ∃ t, IsNumber t ∧ tokensFrom? mode 0 (s ++ rest)
    = (tokensFrom? { mode with afterOperand := true } 0 rest).map fun ts => t :: ts

/-- Does a text not begin with an operand? It has no tokens, or a number is followed by a word that is
no operator. -/
def NoOperand (mode : Mode) (s : List Char) : Prop :=
  ∀ ts, tokensFrom? mode 0 s = some ts →
    ∃ t w more, IsNumber t ∧ w ≠ "in" ∧ ts = t :: .word w :: more

theorem NoOperand.of_none {mode : Mode} {s : List Char} (h : tokensFrom? mode 0 s = none) :
    NoOperand mode s := by
  intro ts hts
  rw [h] at hts
  cases hts

/-- Digits and a fraction that may be missing are read up to an exponent. -/
def ReadUpTo (s fraction : List Char) (f : Option (List Char)) : Prop :=
  ∀ behind, EndsFraction behind → readNumber? false (s ++ (fraction ++ behind))
    = match afterExponent? behind with
      | some (some x, last) => some (decimalToken false s f (some x), last)
      | some (none, _) => none
      | none => some (decimalToken false s f none, behind)

theorem readUpTo_digits {whole : List Char} {fraction : Option Decimals} (hwhole : IsDigits whole)
    (hfraction : ∀ f ∈ fraction, IsDigits f.chars) :
    ReadUpTo whole (fractionText fraction) (fraction.map Decimals.chars) := by
  intro behind hbehind
  cases fraction with
  | none => exact readNumber?_append false hwhole hbehind.whole hbehind.point fun _ => rfl
  | some f =>
    obtain ⟨hne, hdigits⟩ := hfraction f rfl
    have hpoint : EndsWhole ('.' :: (f.chars ++ behind)) := by
      rintro c ⟨⟩
      decide
    exact readNumber?_append false hwhole hpoint (afterPoint?_digits hdigits hne hbehind.whole.endsDigits) (by simp)

section Exponent

variable {s fraction : List Char} {f : Option (List Char)} (mode : Mode)

theorem ReadUpTo.oneToken (h : ReadUpTo s fraction f) (hs : IsDigits s) {behind : List Char}
    (hbehind : EndsFraction behind) (hexponent : afterExponent? behind = none) :
    OneToken mode (s ++ fraction) behind := by
  have hread := h behind hbehind
  rw [hexponent] at hread
  have htokens := tokensFrom?_digits mode hs hread
  rw [← List.append_assoc] at htokens
  exact ⟨_, isNumber_decimalToken .., htokens⟩

theorem ReadUpTo.oneToken_exponent (h : ReadUpTo s fraction f) (hs : IsDigits s) {a last : List Char}
    (hbehind : EndsFraction (a ++ last)) {v : Int}
    (hexponent : afterExponent? (a ++ last) = some (some v, last)) :
    OneToken mode (s ++ fraction ++ a) last := by
  have hread := h (a ++ last) hbehind
  rw [hexponent, ← List.append_assoc fraction] at hread
  have htokens := tokensFrom?_digits mode hs hread
  rw [← List.append_assoc, ← List.append_assoc] at htokens
  exact ⟨_, isNumber_decimalToken .., htokens⟩

/-- A letter of an exponent that belongs to none begins a word behind the number. -/
theorem ReadUpTo.noOperand (h : ReadUpTo s fraction f) (hs : IsDigits s) {letter : Char}
    (hletter : letter = 'e' ∨ letter = 'E') {r : List Char} (hbehind : EndsFraction (letter :: r))
    (hexponent : afterExponent? (letter :: r) = none) :
    NoOperand mode (s ++ fraction ++ letter :: r) := by
  intro ts hts
  obtain ⟨t, ht, htokens⟩ := h.oneToken mode hs hbehind hexponent
  rw [htokens] at hts
  obtain ⟨us, hus, rfl⟩ := Option.map_eq_some_iff.mp hts
  obtain ⟨w, more, hw, rfl⟩ := tokensFrom?_letter hletter hus
  exact ⟨t, w, more, ht, hw, rfl⟩

/-- In the digits of an exponent stands a character that is a digit of another script. -/
theorem ReadUpTo.noOperand_foreign (h : ReadUpTo s fraction f) (hs : IsDigits s) {sign : Option Char}
    (hsign : ∀ c ∈ sign, c = '+' ∨ c = '-') {a r : List Char} {d : Char}
    (ha : ∀ c ∈ a, isDigit c = true) (hd : IsForeign d)
    (hends : ∀ r, EndsFraction ('e' :: r)) :
    NoOperand mode (s ++ fraction ++ 'e' :: (sign.toList ++ (a ++ d :: r))) := by
  have hlast := hd.stops r
  by_cases hne : a = []
  · subst hne
    cases sign with
    | none =>
      -- without a sign and a digit the letter is no exponent, but begins a word
      refine h.noOperand mode hs (Or.inl rfl) (hends _) ?_
      simp [afterExponent?, hd.2, hd.ne (c := '+') (by decide), hd.ne (c := '-') (by decide)]
    | some c =>
      have hexponent := afterExponent?_sign (hsign c rfl) hlast
      have hread := h _ (hends (c :: d :: r))
      rw [hexponent] at hread
      refine .of_none ?_
      rw [List.append_assoc]
      exact tokensFrom?_digits_none hs hread
  · -- the number is read up to the foreign digit, which begins no token
    have hexponent := afterExponent?_digits hsign ha hlast hne
    rw [← List.append_assoc, ← List.cons_append] at hexponent
    obtain ⟨t, -, htokens⟩ := h.oneToken_exponent mode hs (hends _) hexponent
    refine .of_none ?_
    rw [tokensFrom?_foreign hd] at htokens
    simpa using htokens

theorem ReadUpTo.exponent (h : ReadUpTo s fraction f) (hs : IsDigits s) (e : Exponent)
    {rest : List Char} (hrest : Stops rest) :
    OneToken mode (s ++ fraction ++ e.text) rest ∨
      NoOperand mode (s ++ fraction ++ (e.text ++ rest)) := by
  obtain ⟨letter, sign, digits, hletter, hsign⟩ := e
  have hends : ∀ r, EndsFraction (letter :: r) := by
    intro r
    refine ⟨?_, ?_⟩
    · rintro c ⟨⟩
      rcases hletter with rfl | rfl <;> decide
    · rcases hletter with rfl | rfl <;> rfl
  dsimp only [Exponent.text]
  rcases hletter with rfl | rfl
  · rcases digits.digits_or_foreign with hdigits | ⟨a, d, r, hsplit, ha, hd⟩
    · have hexponent := afterExponent?_digits hsign hdigits.digits hrest hdigits.nonempty
      rw [← List.append_assoc, ← List.cons_append] at hexponent
      exact Or.inl (h.oneToken_exponent mode hs (hends _) hexponent)
    · right
      have htext : 'e' :: (sign.toList ++ digits.chars) ++ rest
          = 'e' :: (sign.toList ++ (a ++ d :: (r ++ rest))) := by simp [hsplit]
      rw [htext]
      exact h.noOperand_foreign mode hs hsign ha hd hends
  · exact Or.inr (h.noOperand mode hs (Or.inr rfl) (hends _) rfl)

end Exponent

/-- If expressions do not know all of the digits, they begin no expression. -/
theorem readUpTo_or_none (whole : Decimals) (fraction : Option Decimals) :
    (IsDigits whole.chars ∧ ∃ f, ReadUpTo whole.chars (fractionText fraction) f) ∨
      ∀ mode rest, tokensFrom? mode 0 (whole.chars ++ (fractionText fraction ++ rest)) = none := by
  rcases whole.digits_or_foreign with hwhole | ⟨a, d, r, hsplit, ha, hd⟩
  · cases fraction with
    | none => exact Or.inl ⟨hwhole, none, readUpTo_digits hwhole (by simp)⟩
    | some d =>
      rcases d.digits_or_foreign with hdigits | ⟨a, c, r, hsplit, ha, hc⟩
      · exact Or.inl ⟨hwhole, some d.chars, readUpTo_digits hwhole fun f hf => Option.some.inj hf ▸ hdigits⟩
      · refine Or.inr fun mode rest => ?_
        have hbehind : afterPoint? ('.' :: (a ++ c :: (r ++ rest)))
            = (some a).map fun f => (f, c :: (r ++ rest)) := afterPoint?_foreign ha hc (r ++ rest)
        have hpoint : EndsWhole ('.' :: (a ++ c :: (r ++ rest))) := by
          rintro d ⟨⟩
          decide
        have hread := readNumber?_append false hwhole hpoint hbehind (by simp)
        rw [(hc.stops _).afterExponent?] at hread
        have htokens := tokensFrom?_digits mode (a := '.' :: a) hwhole hread
        rw [tokensFrom?_foreign hc] at htokens
        simpa [fractionText, hsplit] using htokens
  · refine Or.inr fun mode rest => ?_
    have hnone := tokensFrom?_digits_foreign mode ha hd
    simpa [hsplit] using hnone (r ++ (fractionText fraction ++ rest))

/-- A number without an exponent is one token, or it begins no expression. -/
theorem tokens_decimal (mode : Mode) (whole : Decimals) (fraction : Option Decimals)
    {rest : List Char} (hrest : Stops rest) :
    OneToken mode (whole.chars ++ fractionText fraction) rest ∨
      tokensFrom? mode 0 (whole.chars ++ fractionText fraction ++ rest) = none := by
  rcases readUpTo_or_none whole fraction with ⟨hwhole, f, hread⟩ | hnone
  · exact Or.inl (hread.oneToken mode hwhole hrest.endsFraction hrest.afterExponent?)
  · rw [List.append_assoc]
    exact Or.inr (hnone mode rest)

/-- **A number of the notation in an expression.** It is one token, or nothing that begins with it is an
expression. -/
theorem Numeral.tokens (mode : Mode) (n : Numeral) {rest : List Char} (hrest : Stops rest) :
    OneToken mode n.text rest ∨ NoOperand mode (n.text ++ rest) := by
  obtain ⟨whole, fraction, exponent⟩ := n
  dsimp only [Numeral.text]
  rw [← List.append_assoc]
  cases exponent with
  | none =>
    rw [exponentText, List.append_nil]
    exact (tokens_decimal mode whole fraction hrest).imp_right .of_none
  | some e =>
    rw [exponentText, List.append_assoc]
    rcases readUpTo_or_none whole fraction with ⟨hwhole, f, hread⟩ | hnone
    · simpa only [List.append_assoc] using hread.exponent mode hwhole e hrest
    · exact Or.inr (.of_none (by simpa using hnone mode (e.text ++ rest)))

/-! ## Integers as they are written -/

theorem readNumber?_digits (negative : Bool) {s rest : List Char} (hs : IsDigits s)
    (hrest : Stops rest) :
    readNumber? negative (s ++ rest) = some (decimalToken negative s none none, rest) := by
  have hpoint : afterPoint? rest = (none : Option (List Char)).map fun f => (f, rest) :=
    hrest.afterPoint?
  rw [readNumber?_append negative hs hrest.endsWhole hpoint fun _ => rfl, hrest.afterExponent?]

theorem isDigits_showNat (n : Nat) : IsDigits (showNat n) :=
  ⟨Nat.toDigits_ne_nil, fun _ hc => isDigit_of_mem_showNat hc⟩

theorem oneToken_digits (mode : Mode) {s rest : List Char} (hs : IsDigits s) (hrest : Stops rest) :
    OneToken mode s rest := by
  have hread := readNumber?_digits false hs hrest
  have htokens := tokensFrom?_digits mode (a := []) hs hread
  exact ⟨_, isNumber_decimalToken .., htokens⟩

/-- The token that an integer is. -/
def integerToken (n : Int) : Token := decimalToken (decide (n < 0)) (showNat n.natAbs) none none

theorem isNumber_integerToken (n : Int) : IsNumber (integerToken n) := isNumber_decimalToken ..

/-- The sign of an integer belongs to it where an operand begins. -/
theorem tokensFrom?_showInt {mode : Mode} (hmode : mode.afterOperand = false) (n : Int)
    {rest : List Char} (hrest : Stops rest) :
    tokensFrom? mode 0 (showInt n ++ rest)
      = (tokensFrom? { mode with afterOperand := true } 0 rest).map fun ts => integerToken n :: ts := by
  have hs := isDigits_showNat n.natAbs
  unfold showInt integerToken
  split
  · next hnegative =>
    have hread := readNumber?_digits true hs hrest
    have hdigit : ((showNat n.natAbs ++ rest).head?.map isDigit).getD false = true := by
      obtain ⟨c, r, hc⟩ := List.exists_cons_of_ne_nil hs.nonempty
      rw [hc]
      exact hs.digits c (by rw [hc]; exact List.mem_cons_self)
    have htoken : readToken? mode ('-' :: (showNat n.natAbs ++ rest))
        = some (some (decimalToken true (showNat n.natAbs) none none),
          { mode with afterOperand := true }, rest) := by
      have hblank : isBlank '-' = false := by decide
      have hminus : isDigit '-' = false := by decide
      unfold readToken?
      simp only [hblank, hminus, hmode, hdigit, hread, Bool.false_eq_true, if_false, beq_self_eq_true,
        Bool.not_false, Bool.and_self, if_true, Option.bind_some]
    rw [decide_eq_true hnegative]
    exact tokensFrom?_of_read htoken
  · next hnegative =>
    have hread := readNumber?_digits false hs hrest
    rw [decide_eq_false hnegative]
    exact tokensFrom?_digits mode (a := []) hs hread

theorem oneToken_showInt {mode : Mode} (hmode : mode.afterOperand = false) (n : Int)
    {rest : List Char} (hrest : Stops rest) : OneToken mode (showInt n) rest :=
  ⟨_, isNumber_integerToken n, tokensFrom?_showInt hmode n hrest⟩

end Worksheet.Notation
