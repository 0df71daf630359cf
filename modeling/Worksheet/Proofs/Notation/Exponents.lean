import Worksheet.Proofs.Display.SingleLine
import Worksheet.Proofs.Notation.Matches
import Worksheet.Proofs.Notation.Pieces

/-!
# Powers of ten can be typed back

A very large or very small real is shown as `1.5·10⁻²⁰` in the style with pretty exponents. Two modules take
part in this: the display writes an exponent in superscript, and the rule for signs reads superscripts. Each
has a table of its own.

* **`superscriptDigit?_superscriptDigit`** — the one table is the other one backwards.
* **`signs_superscript`** — a whole exponent, with its sign, is one match.
* **`Mantissa`** — what stands in front of the power; nothing else does (`number_pretty`).
* **`substitute_signs_power`**, **`symbols_pretty_exponent`** — the rule makes `*10**` and the exponent of what
  is shown.
-/

namespace Worksheet

open Text

/-! ## Exponents -/

namespace Notation

/-- An exponent as an operand of a power. -/
def exponentOperand (k : Int) : List Char :=
  if k < 0 then "(-".toList ++ showNat k.natAbs ++ [')'] else showNat k.natAbs

theorem superscriptDigit?_superscriptDigit {c : Char} (hc : isDigit c = true) :
    superscriptDigit? (Display.superscriptDigit c) = some c := by
  have hcode := toNat_of_isDigit hc
  obtain ⟨d, hd, rfl⟩ : ∃ d ∈ "0123456789".toList, d = c := by
    refine ⟨Char.ofNat c.toNat, ?_, Char.ofNat_toNat c⟩
    have hall : ∀ n < 10, Char.ofNat (48 + n) ∈ "0123456789".toList := by decide
    have hmem := hall (c.toNat - 48) (by omega)
    rwa [Nat.add_sub_cancel' hcode.1] at hmem
  revert d
  decide

/-- A numeral in superscript is read to its end. -/
theorem superscriptDigits_superscript {s : List Char} (hs : ∀ c ∈ s, isDigit c = true) :
    superscriptDigits (s.map Display.superscriptDigit) = (s, []) := by
  induction s with
  | nil => rfl
  | cons c s ih =>
    have hrest := ih fun d hd => hs d (List.mem_cons_of_mem c hd)
    rw [List.map_cons, superscriptDigits, superscriptDigit?_superscriptDigit (hs c List.mem_cons_self)]
    dsimp only
    rw [hrest]

/-- The superscript of an exponent is one match, and the exponent is written for it. -/
theorem signs_superscript (before : List Char) (k : Int) :
    signs before (Display.superscript k) = some ("**".toList ++ exponentOperand k, []) := by
  obtain ⟨d, digits, hdigits⟩ := List.exists_cons_of_ne_nil (showNat_ne_nil k.natAbs)
  have hall : ∀ c ∈ d :: digits, isDigit c = true := fun c hc =>
    isDigit_of_mem_showNat (by rwa [hdigits])
  have hread := superscriptDigits_superscript hall
  unfold Display.superscript exponentOperand
  rw [hdigits]
  by_cases hk : k < 0
  · rw [if_pos hk, if_pos hk]
    change signs before ('⁻' :: (d :: digits).map Display.superscriptDigit) = _
    simp only [signs, hread]
    rfl
  · rw [if_neg hk, if_neg hk, List.nil_append]
    -- a superscript digit is none of the signs that are looked for first
    have hfirst : ∀ c ∈ "÷×⋅·⁻".toList, Display.superscriptDigit d ≠ c := by
      intro c hc heq
      have hdigit := superscriptDigit?_superscriptDigit (hall d List.mem_cons_self)
      rw [heq] at hdigit
      have hnone : ∀ c ∈ "÷×⋅·⁻".toList, superscriptDigit? c = none := by decide
      rw [hnone c hc] at hdigit
      cases hdigit
    rw [List.map_cons] at hread ⊢
    simp only [signs, hread, beq_eq_false_iff_ne.mpr (hfirst '÷' (by decide)),
      beq_eq_false_iff_ne.mpr (hfirst '×' (by decide)), beq_eq_false_iff_ne.mpr (hfirst '⋅' (by decide)),
      beq_eq_false_iff_ne.mpr (hfirst '·' (by decide)), beq_eq_false_iff_ne.mpr (hfirst '⁻' (by decide)),
      Bool.or_self, Bool.false_eq_true, if_false]
    rfl

/-! ## Signs in a text -/

/-- What the rule for signs makes of a place does not depend on what stands in front of it. -/
theorem scanFrom_signs (before before' : List Char) (skip : Nat) (s : List Char) :
    Pattern.scanFrom signs before skip s = Pattern.scanFrom signs before' skip s := by
  -- nothing of what stands in front counts, so that the feature is a constant
  let feature : List Char → Unit := fun _ => ()
  have hfeature : feature before = feature before' := rfl
  exact Pattern.scanFrom_congr (fun _ _ _ _ => rfl) (fun _ _ _ _ => rfl) hfeature skip s

/-- A match starts with a mark. -/
theorem signs_eq_none {c : Char} (hc : isOperatorMark c = false) (before r : List Char) :
    signs before (c :: r) = none := by
  cases hmatch : signs before (c :: r) with
  | none => rfl
  | some m =>
    have hmark : isOperatorMark c = true := by
      rcases covered_signs hmatch with ⟨d, hd, hafter, -⟩ | ⟨marks, -, hmarks, -, ⟨hafter, -⟩ | ⟨hafter, -⟩⟩
      · have hall : ∀ d ∈ "÷×⋅·".toList, isOperatorMark d = true := by decide
        rw [(List.cons.inj hafter).1]
        exact hall d hd
      · rw [(List.cons.inj hafter).1]
        rfl
      · obtain ⟨d, rest, rfl⟩ := List.exists_cons_of_ne_nil hmarks.nonempty
        have hall : ∀ d ∈ "⁰¹²³⁴⁵⁶⁷⁸⁹".toList, isOperatorMark d = true := by decide
        rw [(List.cons.inj hafter).1]
        exact hall d (mem_of_isSuperscript (hmarks.all d List.mem_cons_self))
    rw [hc] at hmark
    cases hmark

theorem substitute_signs_append {a : List Char} (ha : ∀ c ∈ a, isOperatorMark c = false) (t : List Char) :
    signs.substitute (a ++ t) = a ++ signs.substitute t := by
  have hscan : Pattern.scanFrom signs [] 0 (a ++ t)
      = a.map Sum.inl ++ Pattern.scanFrom signs (a.reverse ++ []) 0 t := by
    refine Pattern.scanFrom_append_of_none fun pre c r hsplit => signs_eq_none (ha c ?_) _ _
    rw [hsplit]
    exact List.mem_append_right pre List.mem_cons_self
  unfold Pattern.substitute
  rw [hscan, List.flatMap_append, Pattern.flatMap_inl, scanFrom_signs _ []]

theorem substitute_signs_fit {a out rest : List Char} (ha : a ≠ [])
    (h : signs [] (a ++ rest) = some (out, rest)) :
    signs.substitute (a ++ rest) = out ++ signs.substitute rest := by
  unfold Pattern.substitute
  rw [Pattern.scanFrom_of_fit ha h, List.flatMap_cons, scanFrom_signs _ []]
  rfl

/-! ## Mantissas -/

/-- What stands in front of a power of ten. -/
structure Mantissa where
  /-- Is there a minus? -/
  negative : Bool
  /-- The digits in front of the point. -/
  whole : Decimals
  /-- The digits behind the point. -/
  fraction : Option Decimals

/-- How a mantissa is written. -/
def Mantissa.text (m : Mantissa) : List Char :=
  (if m.negative then ['-'] else []) ++ (m.whole.chars ++ fractionText m.fraction)

theorem Mantissa.mem_text {m : Mantissa} {c : Char} (h : c ∈ m.text) :
    c = '-' ∨ isDecimal c = true ∨ c = '.' := by
  rcases List.mem_append.mp h with hsign | hcount
  · cases hm : m.negative with
    | false => simp [hm] at hsign
    | true => exact Or.inl (by simpa [hm] using hsign)
  · exact Or.inr (mem_count hcount)

theorem Mantissa.isOperatorMark_of_mem {m : Mantissa} {c : Char} (h : c ∈ m.text) :
    isOperatorMark c = false := by
  rcases mem_text h with rfl | hdecimal | rfl
  · decide
  · exact isOperatorMark_of_isDecimal hdecimal
  · decide

theorem Mantissa.quote_not_mem (m : Mantissa) : '"' ∉ m.text := by
  intro h
  rcases mem_text h with hquote | hdecimal | hquote
  · cases hquote
  · exact absurd hdecimal (by decide)
  · cases hquote

/-- The signs of a power of ten behind a mantissa are two matches: the point and the exponent. -/
theorem substitute_signs_power (m : Mantissa) (k : Int) :
    signs.substitute (m.text ++ "·10".toList ++ Display.superscript k)
      = m.text ++ "*10**".toList ++ exponentOperand k := by
  have hpoint : signs [] (['·'] ++ (['1', '0'] ++ Display.superscript k))
      = some (['*'], ['1', '0'] ++ Display.superscript k) := rfl
  have hexponent : signs [] (Display.superscript k ++ []) = some ("**".toList ++ exponentOperand k, []) := by
    rw [List.append_nil]
    exact signs_superscript [] k
  have hne : Display.superscript k ≠ [] := by
    intro hnil
    have hfit := signs_superscript [] k
    rw [hnil] at hfit
    cases hfit
  calc signs.substitute (m.text ++ "·10".toList ++ Display.superscript k)
      = signs.substitute (m.text ++ (['·'] ++ (['1', '0'] ++ Display.superscript k))) := by simp
    _ = m.text ++ (['*'] ++ (['1', '0'] ++ signs.substitute (Display.superscript k ++ []))) := by
      rw [substitute_signs_append fun c hc => m.isOperatorMark_of_mem hc,
        substitute_signs_fit (List.cons_ne_nil _ _) hpoint, substitute_signs_append (by decide),
        List.append_nil]
    _ = m.text ++ "*10**".toList ++ exponentOperand k := by
      rw [substitute_signs_fit hne hexponent]
      simp [Pattern.substitute, Pattern.scanFrom]

end Notation

/-! ## What is shown -/

namespace Display

open Notation Decimal

theorem dropTrailing_of_getLast? {c : Char} {s : List Char} (h : ∀ d ∈ s.getLast?, d ≠ c) :
    dropTrailing c s = s := by
  unfold dropTrailing
  rw [← List.head?_reverse] at h
  cases hs : s.reverse with
  | nil => simpa using hs.symm
  | cons d r =>
    rw [hs] at h
    rw [List.dropWhile_cons_of_neg (by simpa using h d rfl), ← hs, List.reverse_reverse]

/-- What is dropped at the end stands behind the last other character. -/
theorem dropTrailing_append {c d : Char} (hd : d ≠ c) (a r : List Char) :
    dropTrailing c (a ++ d :: r) = a ++ d :: dropTrailing c r := by
  unfold dropTrailing
  have hreverse : (a ++ d :: r).reverse = r.reverse ++ d :: a.reverse := by simp
  rw [hreverse, List.dropWhile_append]
  split
  · next hempty =>
    rw [List.dropWhile_cons_of_neg (by simpa using hd), List.isEmpty_iff.mp hempty]
    simp
  · simp

/-- Digits in front of a point lose nothing but the point, if nothing is left behind it. -/
theorem trimFraction_mantissa {sign : List Char} {negative : Bool}
    (hsign : sign = if negative then ['-'] else []) {c : Char} {r : List Char}
    (hdigits : ∀ d ∈ c :: r, isDigit d = true) :
    ∃ m : Mantissa, trimFraction (sign ++ c :: '.' :: r) = m.text := by
  have hdecimal : ∀ d ∈ c :: r, isDecimal d = true := fun d hd => isDecimal_of_isDigit (hdigits d hd)
  have hpoint : ∀ {d}, isDigit d = true → d ≠ '.' := by
    rintro d hd rfl
    cases hd
  let whole : Decimals := ⟨[c], List.cons_ne_nil _ _,
    List.forall_mem_singleton.mpr (hdecimal c List.mem_cons_self)⟩
  have htrim : trimFraction (sign ++ c :: '.' :: r)
      = dropTrailing '.' ((sign ++ [c]) ++ '.' :: dropTrailing '0' r) := by
    have hmem : (sign ++ c :: '.' :: r).contains '.' = true := by simp
    have hsplit : sign ++ c :: '.' :: r = (sign ++ [c]) ++ '.' :: r := by simp
    rw [trimFraction, if_pos hmem, hsplit, dropTrailing_append (by decide)]
  rw [htrim]
  by_cases hrest : dropTrailing '0' r = []
  · -- the point goes with the zeros, and stops at the digit in front
    refine ⟨⟨negative, whole, none⟩, ?_⟩
    rw [hrest]
    have hdot : dropTrailing '.' ((sign ++ [c]) ++ ['.']) = dropTrailing '.' (sign ++ [c]) := by
      simp [dropTrailing]
    rw [hdot, dropTrailing_of_getLast? fun d hd => ?_, hsign]
    · simp [Mantissa.text, fractionText, whole]
    · rw [List.getLast?_append_of_ne_nil _ (List.cons_ne_nil c [])] at hd
      obtain rfl : c = d := by simpa using hd
      exact hpoint (hdigits c List.mem_cons_self)
  · -- the last digit that is left keeps the point
    have hsub : ∀ d ∈ dropTrailing '0' r, d ∈ c :: r := fun d hd =>
      List.mem_cons_of_mem c (dropTrailing_subset '0' r hd)
    refine ⟨⟨negative, whole, some ⟨dropTrailing '0' r, hrest, fun d hd => hdecimal d (hsub d hd)⟩⟩, ?_⟩
    rw [dropTrailing_of_getLast? fun d hd => ?_, hsign]
    · simp [Mantissa.text, fractionText, whole]
    · rw [List.getLast?_append_of_ne_nil _ (List.cons_ne_nil _ _),
        List.getLast?_cons_of_ne_nil hrest] at hd
      exact hpoint (hdigits d (hsub d (List.mem_of_getLast? hd)))

theorem le_length_showPadded (width n : Nat) : width ≤ (showPadded width n).length := by
  simp only [showPadded, List.length_append, List.length_replicate]
  omega

/-- Scientific notation with digits behind the point has a mantissa in front of its exponent. -/
theorem scientificParts_mantissa {places : Nat} (hplaces : 0 < places) (x : Float) :
    ∃ m : Mantissa, trimFraction (scientificParts places x).1 = m.text := by
  have hlength := le_length_showPadded (places + 1) (roundDigits (places + 1) (Binary.ofFloat x)).digits
  have hdigits : ∀ c ∈ showPadded (places + 1) (roundDigits (places + 1) (Binary.ofFloat x)).digits,
      isDigit c = true := fun c hc => isDigit_of_mem_showPadded hc
  unfold scientificParts
  dsimp only
  generalize showPadded (places + 1) (roundDigits (places + 1) (Binary.ofFloat x)).digits = s
    at hlength hdigits
  match s, hlength, hdigits with
  | c :: d :: r, _, hdigits =>
    have hsigned : signed x (pointAfterFirst (c :: d :: r))
        = (if isNegative x then ['-'] else []) ++ c :: '.' :: d :: r := by
      unfold signed
      split <;> rfl
    rw [hsigned]
    exact trimFraction_mantissa rfl hdigits
  | [c], hlength, _ => exact absurd hlength (by simp; omega)
  | [], hlength, _ => exact absurd hlength (by simp)

/-- A style with pretty exponents changes nothing but the power of ten behind a mantissa. -/
theorem number_pretty (x : Float) :
    number ⟨true⟩ x = number ⟨false⟩ x ∨ ∃ (m : Mantissa) (k : Int),
      number ⟨false⟩ x = m.text ++ 'e' :: showInt k ∧
      number ⟨true⟩ x = m.text ++ "·10".toList ++ superscript k := by
  unfold number
  split
  · exact Or.inl rfl
  split
  · exact Or.inl rfl
  split
  · exact Or.inl rfl
  split
  · have hplaces : 0 < significantDigits - 1 := by decide
    obtain ⟨m, hm⟩ := scientificParts_mantissa hplaces x
    refine Or.inr ⟨m, (scientificParts (significantDigits - 1) x).2, ?_, ?_⟩
    · simp only [withPower, hm, Bool.false_eq_true, if_false]
    · simp [withPower, hm]
  · exact Or.inl rfl

end Display

/-! ## The headline -/

namespace Notation

/-- **What is shown with a pretty exponent can be typed back.** The rule for signs reads the power of ten behind
every mantissa, with every exponent; and a real that the style shows in another way than the plain style is
shown as such a mantissa with such a power, the ones of its plain text. -/
theorem symbols_pretty_exponent (o : Options) :
    (∀ (m : Mantissa) (k : Int), (Rule.find? "symbols").map (fun r =>
        r.apply o (m.text ++ "·10".toList ++ Display.superscript k))
      = some (m.text ++ "*10**".toList ++ exponentOperand k)) ∧
    ∀ x : Float, Display.number ⟨true⟩ x = Display.number ⟨false⟩ x ∨ ∃ (m : Mantissa) (k : Int),
      Display.number ⟨false⟩ x = m.text ++ 'e' :: showInt k ∧
      Display.number ⟨true⟩ x = m.text ++ "·10".toList ++ Display.superscript k := by
  refine ⟨fun m k => ?_, Display.number_pretty⟩
  have hquote : '"' ∉ m.text ++ "·10".toList ++ Display.superscript k := by
    have hexponent : '"' ∉ Display.superscript k := Display.not_mem_superscript (by decide) k
    simp [m.quote_not_mem, hexponent]
  change some (mapPlain signs.substitute _) = _
  rw [mapPlain_of_not_mem _ hquote, substitute_signs_power]

example : signs.substitute (Display.withPower ⟨true⟩ "-1.5".toList (-20)) = "-1.5*10**(-20)".toList := by decide

end Notation

end Worksheet
