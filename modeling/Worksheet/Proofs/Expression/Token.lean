import Worksheet.Expression.Token
import Worksheet.Proofs.Text.Class

/-!
# Tokens one after the other

A text that is written by a rule is read token by token, whatever the digits and names in it are.

* **`tokensFrom?_of_read`** — a token at the beginning, and the tokens behind it.
* **`tokensFrom?_name`**, **`tokensFrom?_text`** — names and texts; marks have a lemma each.
* **`readNumber?_append`** — a number ends in front of a character that cannot go on with it.
* **`tokensFrom?_foreign`** — the digits of other scripts begin no token.
-/

namespace Worksheet.Expression

open Text

variable {mode : Mode}

/-! ## A token at the beginning -/

theorem tokensFrom?_succ (mode : Mode) (k : Nat) (c : Char) (r : List Char) :
    tokensFrom? mode (k + 1) (c :: r) = tokensFrom? mode k r := by
  rfl

theorem tokensFrom?_cons (mode : Mode) (c : Char) (r : List Char) :
    tokensFrom? mode 0 (c :: r) = match readToken? mode (c :: r) with
      | none => none
      | some (token, mode', rest) =>
        (tokensFrom? mode' (r.length - rest.length) r).map fun ts => token.toList ++ ts := by
  rfl

theorem tokensFrom?_length (mode : Mode) (a s : List Char) :
    tokensFrom? mode a.length (a ++ s) = tokensFrom? mode 0 s := by
  induction a with
  | nil => rfl
  | cons c a ih =>
    rw [List.length_cons, List.cons_append, tokensFrom?_succ]
    exact ih

theorem tokensFrom?_of_read {mode' : Mode} {c : Char} {a rest : List Char} {token : Option Token}
    (h : readToken? mode (c :: (a ++ rest)) = some (token, mode', rest)) :
    tokensFrom? mode 0 (c :: (a ++ rest))
      = (tokensFrom? mode' 0 rest).map fun ts => token.toList ++ ts := by
  have hskip : (a ++ rest).length - rest.length = a.length := by simp
  rw [tokensFrom?_cons, h]
  dsimp only
  rw [hskip, tokensFrom?_length]

theorem tokensFrom?_of_read_none {c : Char} {r : List Char} (h : readToken? mode (c :: r) = none) :
    tokensFrom? mode 0 (c :: r) = none := by
  rw [tokensFrom?_cons, h]

/-! ## Names -/

/-- A text that is read as one name. -/
structure IsWord (s : List Char) : Prop where
  start : ∃ c r, s = c :: r ∧ isNameStart c = true
  chars : ∀ c ∈ s, isNameChar c = true
  proper : isProperName s = true
  operand : isOperandWord (String.ofList s) = false

/-- Does a text not go on with a character of a name? -/
def EndsName (rest : List Char) : Prop := ∀ c ∈ rest.head?, isNameChar c = false

theorem isDigit_of_isNameStart {c : Char} (h : isNameStart c = true) : isDigit c = false := by
  simp only [isNameStart, isLetter, Bool.or_eq_true, Bool.and_eq_true, decide_eq_true_eq,
    beq_iff_eq] at h
  rw [Bool.eq_false_iff]
  intro hdigit
  simp only [isDigit, Bool.and_eq_true, decide_eq_true_eq] at hdigit
  rcases h with (h | h) | rfl
  · exact absurd (Char.le_trans h.1 hdigit.2) (by decide)
  · exact absurd (Char.le_trans h.1 hdigit.2) (by decide)
  · exact absurd hdigit.2 (by decide)

theorem readToken?_name (mode : Mode) {s rest : List Char} (hs : IsWord s) (hrest : EndsName rest) :
    readToken? mode (s ++ rest)
      = some (some (.word (String.ofList s)), { mode with afterOperand := true }, rest) := by
  have htake := takeWhile_run hs.chars hrest
  have hdrop := dropWhile_run hs.chars hrest
  obtain ⟨c, r, rfl, hstart⟩ := hs.start
  have hblank := isBlank_of_isNameChar (hs.chars c List.mem_cons_self)
  have hdigit := isDigit_of_isNameStart hstart
  have hminus : (c == '-') = false := by
    rw [beq_eq_false_iff_ne]
    rintro rfl
    exact absurd hstart (by decide)
  have hproper := hs.proper
  have hoperand := hs.operand
  rw [List.cons_append] at htake hdrop ⊢
  unfold readToken?
  simp only [hblank, hdigit, hminus, hstart, htake, hdrop, hproper, hoperand, Bool.false_and,
    Bool.not_true, Bool.false_eq_true, if_false, if_true]

theorem tokensFrom?_name {s rest : List Char} (hs : IsWord s) (hrest : EndsName rest) :
    tokensFrom? mode 0 (s ++ rest)
      = (tokensFrom? { mode with afterOperand := true } 0 rest).map
        fun ts => .word (String.ofList s) :: ts := by
  have hread := readToken?_name mode hs hrest
  obtain ⟨c, r, rfl, -⟩ := hs.start
  exact tokensFrom?_of_read hread

/-! ## Marks and blanks -/

theorem tokensFrom?_open (rest : List Char) :
    tokensFrom? mode 0 ('(' :: rest)
      = (tokensFrom? { mode with afterOperand := false } 0 rest).map fun ts => .symbol "(" :: ts := by
  have hread : readToken? mode ('(' :: ([] ++ rest))
      = some (some (.symbol "("), { mode with afterOperand := false }, rest) := by rfl
  exact tokensFrom?_of_read hread

theorem tokensFrom?_close (rest : List Char) :
    tokensFrom? mode 0 (')' :: rest)
      = (tokensFrom? { mode with afterOperand := true } 0 rest).map fun ts => .symbol ")" :: ts := by
  have hread : readToken? mode (')' :: ([] ++ rest))
      = some (some (.symbol ")"), { mode with afterOperand := true }, rest) := by rfl
  exact tokensFrom?_of_read hread

theorem tokensFrom?_comma (rest : List Char) :
    tokensFrom? mode 0 (',' :: rest)
      = (tokensFrom? { mode with afterOperand := false } 0 rest).map fun ts => .symbol "," :: ts := by
  have hread : readToken? mode (',' :: ([] ++ rest))
      = some (some (.symbol ","), { mode with afterOperand := false }, rest) := by rfl
  exact tokensFrom?_of_read hread

theorem tokensFrom?_space (rest : List Char) :
    tokensFrom? mode 0 (' ' :: rest) = tokensFrom? mode 0 rest := by
  have hread : readToken? mode (' ' :: ([] ++ rest)) = some (none, mode, rest) := by rfl
  have htokens := tokensFrom?_of_read hread
  rw [List.nil_append] at htokens
  rw [htokens]
  cases tokensFrom? mode 0 rest <;> rfl

/-- A sign of multiplication, with a blank behind it so that it is no longer sign. -/
theorem tokensFrom?_times (rest : List Char) :
    tokensFrom? mode 0 ('*' :: ' ' :: rest)
      = (tokensFrom? { mode with afterOperand := false } 0 rest).map fun ts => .symbol "*" :: ts := by
  have hread : readToken? mode ('*' :: ([] ++ ' ' :: rest))
      = some (some (.symbol "*"), { mode with afterOperand := false }, ' ' :: rest) := by rfl
  have htokens := tokensFrom?_of_read hread
  rw [tokensFrom?_space] at htokens
  exact htokens

/-! ## Signs -/

/-- The characters that a sign of more than one character goes on with. -/
def secondSigns : List Char := "=+-*/><|:.?!&^[".toList

theorem strip?_of_second {w : String} (hw : ∃ k e v, w.toList = k :: e :: v ∧ e ∈ secondSigns) {d : Char}
    (hd : d ∉ secondSigns) (c : Char) (rest : List Char) : strip? w.toList (c :: d :: rest) = none := by
  obtain ⟨k, e, v, hlist, he⟩ := hw
  have hne : e ≠ d := by
    rintro rfl
    exact hd he
  rw [hlist]
  unfold strip?
  split
  · simp [strip?, hne]
  · rfl

theorem second_of_mem : ∀ w ∈ meaninglessSymbols ++ compoundSymbols,
    ∃ k e v, w.toList = k :: e :: v ∧ e ∈ secondSigns := by
  have hall : ∀ w ∈ meaninglessSymbols ++ compoundSymbols,
      (w.toList.drop 1).head?.any (secondSigns.contains ·) = true := by
    decide
  intro w hw
  have hsecond := hall w hw
  cases hlist : w.toList with
  | nil =>
    rw [hlist] at hsecond
    cases hsecond
  | cons k u =>
    cases u with
    | nil =>
      rw [hlist] at hsecond
      cases hsecond
    | cons e v =>
      rw [hlist] at hsecond
      exact ⟨k, e, v, rfl, List.contains_iff_mem.mp hsecond⟩

/-- A sign is by itself in front of a character that no longer sign goes on with. -/
theorem readSymbol?_one {c : Char} (hc : c ∈ simpleSymbols) {d : Char} (hd : d ∉ secondSigns) (rest : List Char) :
    readSymbol? (c :: d :: rest) = some (.symbol (String.singleton c), d :: rest) := by
  have hnone : ∀ w ∈ meaninglessSymbols ++ compoundSymbols, strip? w.toList (c :: d :: rest) = none :=
    fun w hw => strip?_of_second (second_of_mem w hw) hd c rest
  have hmeaningless : (meaninglessSymbols.any fun w => (strip? w.toList (c :: d :: rest)).isSome) = false := by
    rw [List.any_eq_false]
    intro w hw
    rw [hnone w (List.mem_append_left _ hw)]
    exact Bool.false_ne_true
  have hcompound : (compoundSymbols.findSome? fun w =>
      (strip? w.toList (c :: d :: rest)).map fun rest => (Token.symbol w, rest)) = none := by
    refine List.findSome?_eq_none_iff.mpr fun w hw => ?_
    rw [hnone w (List.mem_append_right _ hw)]
    rfl
  unfold readSymbol?
  dsimp only
  rw [hmeaningless, if_neg Bool.false_ne_true, hcompound]
  exact if_pos (List.contains_iff_mem.mpr hc)

theorem readSymbol?_power {d : Char} (hd : d ∉ secondSigns) (rest : List Char) :
    readSymbol? ('*' :: '*' :: d :: rest) = some (.symbol "**", d :: rest) := by
  have hne : ('=' == d) = false := by
    refine beq_false_of_ne ?_
    rintro rfl
    exact hd (by decide)
  have hlonger : strip? "**=".toList ('*' :: '*' :: d :: rest) = none := by
    show (if '=' == d then some rest else none) = none
    rw [hne, if_neg Bool.false_ne_true]
  have hcompound : (compoundSymbols.findSome? fun w =>
      (strip? w.toList ('*' :: '*' :: d :: rest)).map fun rest => (Token.symbol w, rest))
        = some (.symbol "**", d :: rest) := by
    unfold compoundSymbols
    rw [List.findSome?_cons, hlonger]
    rfl
  unfold readSymbol?
  dsimp only
  rw [hcompound]
  rfl

/-! ## Texts -/

theorem readText?_plain {s rest : List Char} (hquote : '"' ∉ s) (hescape : '\\' ∉ s)
    (hline : '\n' ∉ s) (hrest : rest.head? ≠ some '"') :
    readText? '"' (s ++ '"' :: rest) = some (s, rest) := by
  induction s with
  | nil =>
    cases rest with
    | nil => rfl
    | cons d r =>
      have hd : d ≠ '"' := by simpa using hrest
      simp [readText?, hd]
  | cons c s ih =>
    simp only [List.mem_cons, not_or] at hquote hescape hline
    have hs := ih hquote.2 hescape.2 hline.2
    rw [List.cons_append, readText?.eq_def]
    split
    · next heq => cases heq
    · next heq => exact absurd (List.cons.inj heq).1.symm hescape.1
    · next heq =>
      cases heq
      simp [Ne.symm hquote.1, Ne.symm hline.1, hs]

theorem tokensFrom?_text {s rest : List Char} (hquote : '"' ∉ s) (hescape : '\\' ∉ s)
    (hline : '\n' ∉ s) (hrest : rest.head? ≠ some '"') :
    tokensFrom? mode 0 ('"' :: (s ++ '"' :: rest))
      = (tokensFrom? { mode with afterOperand := true } 0 rest).map
        fun ts => .text (String.ofList s) :: ts := by
  have hread : readToken? mode ('"' :: ((s ++ ['"']) ++ rest))
      = some (some (.text (String.ofList s)), { mode with afterOperand := true }, rest) := by
    have htext := readText?_plain hquote hescape hline hrest
    rw [List.append_assoc]
    show (readText? '"' (s ++ '"' :: rest)).bind _ = _
    rw [htext]
    rfl
  have htokens := tokensFrom?_of_read hread
  rw [List.append_assoc] at htokens
  exact htokens

/-! ## Numbers -/

/-- A token of a number. -/
inductive IsNumber : Token → Prop where
  | int (n : Int64) : IsNumber (.int n)
  | real (x : Float) : IsNumber (.real x)

/-- A run of digits. -/
structure IsDigits (s : List Char) : Prop where
  nonempty : s ≠ []
  digits : ∀ c ∈ s, isDigit c = true

/-- Does a text begin with nothing that could go on with digits? -/
def EndsDigits (rest : List Char) : Prop := ∀ c ∈ rest.head?, isDigit c = false ∧ c ≠ '_'

theorem digitRun_append {s rest : List Char} (hs : ∀ c ∈ s, isDigit c = true)
    (hrest : EndsDigits rest) : digitRun isDigit (s ++ rest) = (s, rest) := by
  induction s with
  | nil =>
    cases rest with
    | nil => rfl
    | cons c r =>
      obtain ⟨hdigit, hunderscore⟩ := hrest c rfl
      simp [digitRun, hdigit, hunderscore]
  | cons c s ih =>
    have hdigit := hs c List.mem_cons_self
    have hunderscore : c ≠ '_' := by
      rintro rfl
      exact absurd hdigit (by decide)
    simp [digitRun, hdigit, hunderscore, ih fun d hd => hs d (List.mem_cons_of_mem c hd)]

/-- A digit is no letter that stands for a base. -/
theorem baseOfLetter?_digit {c : Char} (h : isDigit c = true) : baseOfLetter? c = none := by
  have hlower : lower c = c := by
    unfold lower
    rw [if_neg]
    intro hupper
    simp only [isDigit, Bool.and_eq_true, decide_eq_true_eq] at h hupper
    exact absurd (Char.le_trans hupper.1 h.2) (by decide)
  unfold baseOfLetter?
  rw [hlower]
  split
  · exact absurd h (by decide)
  · exact absurd h (by decide)
  · exact absurd h (by decide)
  · rfl

theorem isNumber_decimalToken (negative : Bool) (whole : List Char) (fraction : Option (List Char))
    (exponent : Option Int) : IsNumber (decimalToken negative whole fraction exponent) := by
  unfold decimalToken
  dsimp only
  split
  · split
    · exact .int _
    · exact .real _
  · exact .real _

theorem readNumber?_eq_readDecimal? {negative : Bool} {s : List Char}
    (h : ∀ c r, s = '0' :: c :: r → baseOfLetter? c = none) :
    readNumber? negative s = readDecimal? negative s := by
  unfold readNumber?
  split
  · next c r => rw [h c r rfl]
  · rfl

/-- Can nothing at the beginning of a text go on with the digits of a number in base ten? -/
def EndsWhole (rest : List Char) : Prop :=
  ∀ c ∈ rest.head?, isDigit c = false ∧ c ≠ '_' ∧ baseOfLetter? c = none

/-- What the digits, the fraction and the exponent of a number make of it, of which the last two may
be missing. An exponent without digits makes no number. -/
theorem readNumber?_append (negative : Bool) {s rest behind : List Char}
    {fraction : Option (List Char)} (hs : IsDigits s) (hrest : EndsWhole rest)
    (hpoint : afterPoint? rest = fraction.map fun f => (f, behind))
    (hbehind : fraction = none → behind = rest) :
    readNumber? negative (s ++ rest) = match afterExponent? behind with
      | some (some e, last) => some (decimalToken negative s fraction (some e), last)
      | some (none, _) => none
      | none => some (decimalToken negative s fraction none, behind) := by
  have hbase : ∀ c r, s ++ rest = '0' :: c :: r → baseOfLetter? c = none := by
    intro c r heq
    obtain ⟨hne, hdigits⟩ := hs
    cases s with
    | nil => exact absurd rfl hne
    | cons d s =>
      cases s with
      | nil =>
        have htail : rest = c :: r := (List.cons.inj heq).2
        exact (hrest c (by rw [htail]; rfl)).2.2
      | cons e s =>
        obtain rfl : e = c := (List.cons.inj (List.cons.inj heq).2).1
        exact baseOfLetter?_digit (hdigits e (by simp))
  have hrun : digitRun isDigit (s ++ rest) = (s, rest) :=
    digitRun_append hs.digits fun c hc => ⟨(hrest c hc).1, (hrest c hc).2.1⟩
  rw [readNumber?_eq_readDecimal? hbase, readDecimal?, hrun]
  dsimp only
  rw [hpoint]
  cases fraction with
  | none =>
    obtain rfl := hbehind rfl
    rfl
  | some f => rfl

theorem readToken?_digits (mode : Mode) {s : List Char} (hs : IsDigits s) (rest : List Char) :
    readToken? mode (s ++ rest) = (readNumber? false (s ++ rest)).bind
      fun p => some (some p.1, { mode with afterOperand := true }, p.2) := by
  obtain ⟨hne, hdigits⟩ := hs
  cases s with
  | nil => exact absurd rfl hne
  | cons c s =>
    have hdigit := hdigits c List.mem_cons_self
    have hblank := isBlank_of_isNameChar (isNameChar_of_isDigit hdigit)
    rw [List.cons_append]
    unfold readToken?
    simp only [hblank, hdigit, Bool.false_eq_true, if_false, if_true]

theorem tokensFrom?_digits (mode : Mode) {s a last : List Char} {t : Token} (hs : IsDigits s)
    (h : readNumber? false (s ++ (a ++ last)) = some (t, last)) :
    tokensFrom? mode 0 (s ++ (a ++ last))
      = (tokensFrom? { mode with afterOperand := true } 0 last).map fun ts => t :: ts := by
  have hread := readToken?_digits mode hs (a ++ last)
  rw [h] at hread
  rw [← List.append_assoc] at hread ⊢
  have hne : s ++ a ≠ [] := by simp [hs.nonempty]
  obtain ⟨c, r, hsa⟩ := List.exists_cons_of_ne_nil hne
  rw [hsa] at hread ⊢
  exact tokensFrom?_of_read hread

theorem tokensFrom?_digits_none {s rest : List Char} (hs : IsDigits s)
    (h : readNumber? false (s ++ rest) = none) : tokensFrom? mode 0 (s ++ rest) = none := by
  have hread := readToken?_digits mode hs rest
  rw [h] at hread
  obtain ⟨c, r, rfl⟩ := List.exists_cons_of_ne_nil hs.nonempty
  exact tokensFrom?_of_read_none hread

/-! ## Digits of other scripts -/

/-- A digit of another script than the one that expressions are written in. -/
def IsForeign (c : Char) : Prop := isDecimal c = true ∧ isDigit c = false

theorem IsForeign.ne {d c : Char} (hd : IsForeign d) (hc : c.toNat < 0x660) : d ≠ c := by
  rintro rfl
  exact absurd (le_toNat_of_isDecimal hd.1 hd.2) (by omega)

theorem IsForeign.isNameChar {d : Char} (hd : IsForeign d) : isNameChar d = false := by
  rw [Bool.eq_false_iff]
  intro h
  have hname := toNat_of_isNameChar h
  have hcode := le_toNat_of_isDecimal hd.1 hd.2
  omega

theorem IsForeign.strip? {d : Char} (hd : IsForeign d) (r : List Char) {w : String}
    (hw : (w.toList.head?.any fun c => c.toNat < 0x660) = true) : strip? w.toList (d :: r) = none := by
  cases hlist : w.toList with
  | nil =>
    rw [hlist] at hw
    cases hw
  | cons c u =>
    rw [hlist] at hw
    have hne : c ≠ d := (hd.ne (by simpa using hw)).symm
    simp [Text.strip?, hne]

theorem IsForeign.readSymbol? {d : Char} (hd : IsForeign d) (r : List Char) :
    readSymbol? (d :: r) = none := by
  have hmeaningless : ∀ w ∈ meaninglessSymbols,
      (w.toList.head?.any fun c => c.toNat < 0x660) = true := by decide
  have hcompound : ∀ w ∈ compoundSymbols,
      (w.toList.head?.any fun c => c.toNat < 0x660) = true := by decide
  have hsimple : d ∉ simpleSymbols := by
    have hcodes : ∀ c ∈ simpleSymbols, c.toNat < 0x660 := by decide
    exact fun hmem => hd.ne (hcodes d hmem) rfl
  unfold Expression.readSymbol?
  dsimp only
  rw [if_neg, List.findSome?_eq_none_iff.mpr]
  · simp [hsimple]
  · intro w hw
    rw [hd.strip? r (hcompound w hw)]
    rfl
  · rw [Bool.not_eq_true, List.any_eq_false]
    intro w hw
    simp [hd.strip? r (hmeaningless w hw)]

/-- No token begins with a digit of another script. -/
theorem tokensFrom?_foreign {d : Char} (hd : IsForeign d) (r : List Char) :
    tokensFrom? mode 0 (d :: r) = none := by
  refine tokensFrom?_of_read_none ?_
  have hstart : isNameStart d = false := by
    rw [Bool.eq_false_iff]
    intro h
    exact absurd (isNameChar_of_isNameStart h) (ne_true_of_eq_false hd.isNameChar)
  have hne : ∀ c : Char, c.toNat < 0x660 → (d == c) = false := fun c hc => beq_false_of_ne (hd.ne hc)
  have hnotIn : readNotIn? (d :: r) = none := by
    rw [readNotIn?, hd.strip? r (by decide)]
    rfl
  unfold readToken?
  simp only [isBlank_of_isDecimal hd.1, hd.2, hstart, hne '-' (by decide), hne '"' (by decide),
    hne '\x27' (by decide), hne '\x60' (by decide), hne '\x7b' (by decide), hne '\x7d' (by decide),
    Bool.false_and, Bool.false_eq_true, if_false]
  split
  · next heq => exact absurd (List.cons.inj heq).1 (hd.ne (by decide))
  · next heq => exact absurd (List.cons.inj heq).1 (hd.ne (by decide))
  · rw [hnotIn, hd.readSymbol? r]
    rfl

end Worksheet.Expression
