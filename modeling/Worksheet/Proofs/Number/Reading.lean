import Mathlib.Algebra.Order.Field.Rat
import Mathlib.Tactic.FieldSimp
import Worksheet.Proofs.Number.Exact
import Worksheet.Proofs.Text.Class
import Worksheet.Proofs.Text.Digits

/-!
# Fractions are read exactly

A fraction is read from a decimal numeral or from two integers with a slash between them. What is
read is the number that the text denotes, or nothing.

* **`Numeral`** — decimal numerals, and the numbers they denote (`Numeral.value`).
* **`Denotes`** — the texts of fractions, with blanks around them, and the numbers they denote.
* **`parse?_numeral`** — a numeral of at most 38 digits is read as the fraction of its number.
* **`denotes_of_parse?`**, **`toRat_of_denotes`** — what is read from any text at all is the number it
  denotes.
* **`parse?_text`** — a fraction is read back from its own text.
* **`reading_exact`** — all of it, on a machine.
-/

namespace Worksheet

open Text

namespace Fraction

/-! ## Numerals -/

/-- What may stand in front of the digits. -/
inductive NumeralSign where
  | absent
  | plus
  | minus
deriving DecidableEq

/-- The sign as it is written. -/
def NumeralSign.chars : NumeralSign → List Char
  | .absent => []
  | .plus => ['+']
  | .minus => ['-']

/-- The number with its sign. -/
def NumeralSign.apply (s : NumeralSign) (q : ℚ) : ℚ := if s = .minus then -q else q

/-- A decimal numeral: a sign, digits, and a point with more digits behind it. Sign and point may be
missing, but there is a digit somewhere. -/
structure Numeral where
  /-- The sign. -/
  sign : NumeralSign
  /-- The digits in front of the point. -/
  whole : List Char
  /-- The digits behind the point, if there is one. -/
  fraction : Option (List Char)
  isDigit_of_mem : ∀ c ∈ whole ++ fraction.getD [], isDigit c = true
  nonempty : whole ++ fraction.getD [] ≠ []

namespace Numeral

/-- The digits behind the point. -/
def places (n : Numeral) : List Char := n.fraction.getD []

/-- The point and what stands behind it. -/
def pointText (n : Numeral) : List Char :=
  match n.fraction with
  | none => []
  | some f => '.' :: f

/-- A numeral as it is written. -/
def text (n : Numeral) : List Char := n.sign.chars ++ (n.whole ++ n.pointText)

/-- The number that a numeral denotes. -/
def value (n : Numeral) : ℚ :=
  n.sign.apply (readDigits n.whole + readDigits n.places / 10 ^ n.places.length)

/-- The digits as one integer count the units of the last place. -/
theorem value_eq (n : Numeral) :
    n.value = n.sign.apply (readDigits (n.whole ++ n.places) / 10 ^ n.places.length) := by
  unfold value
  congr 1
  rw [readDigits_append]
  push_cast
  field_simp

theorem apply_div (s : NumeralSign) (a b : ℚ) : s.apply (a / b) = s.apply a / b := by
  unfold NumeralSign.apply
  split
  · rw [neg_div]
  · rfl

/-! ### What numerals are written with -/

theorem isDigit_of_mem_whole {n : Numeral} {c : Char} (h : c ∈ n.whole) : isDigit c = true :=
  n.isDigit_of_mem c (List.mem_append_left _ h)

theorem isDigit_of_mem_places {n : Numeral} {c : Char} (h : c ∈ n.places) : isDigit c = true :=
  n.isDigit_of_mem c (List.mem_append_right _ h)

theorem mem_digits {n : Numeral} {c : Char} (h : c ∈ n.whole ++ n.pointText) :
    isDigit c = true ∨ c = '.' := by
  rcases List.mem_append.mp h with h | h
  · exact Or.inl (isDigit_of_mem_whole h)
  · unfold pointText at h
    split at h
    · cases h
    · next f hf =>
      rcases List.mem_cons.mp h with rfl | h
      · exact Or.inr rfl
      · exact Or.inl (isDigit_of_mem_places (by rwa [places, hf]))

theorem mem_text {n : Numeral} {c : Char} (h : c ∈ n.text) :
    isDigit c = true ∨ c = '.' ∨ c = '+' ∨ c = '-' := by
  rcases List.mem_append.mp h with h | h
  · cases hs : n.sign <;> simp_all [NumeralSign.chars]
  · rcases mem_digits h with h | h
    · exact Or.inl h
    · exact Or.inr (Or.inl h)

theorem slash_not_mem (n : Numeral) : '/' ∉ n.text := by
  intro h
  rcases mem_text h with h | h | h | h <;> revert h <;> decide

theorem trim_text (n : Numeral) : trim n.text = n.text := by
  refine trim_eq_self fun c hc => ?_
  rcases mem_text hc with h | rfl | rfl | rfl
  · exact isBlank_of_isNameChar (isNameChar_of_isDigit h)
  · decide
  · decide
  · decide

/-! ### Reading them -/

/-- A sign is found in front of what is none itself. -/
theorem splitSign_text (n : Numeral) :
    splitSign n.text = (decide (n.sign = .minus), n.whole ++ n.pointText) := by
  have hhead : ∀ c r, n.whole ++ n.pointText = c :: r → c ≠ '-' ∧ c ≠ '+' := by
    intro c r h
    have hmem : c ∈ n.whole ++ n.pointText := by
      rw [h]
      exact List.mem_cons_self
    constructor <;>
    · rintro rfl
      rcases mem_digits hmem with h | h <;> revert h <;> decide
  unfold text
  cases n.sign with
  | plus => rfl
  | minus => rfl
  | absent =>
    rw [NumeralSign.chars, List.nil_append]
    unfold splitSign
    split
    · next r h => exact absurd rfl (hhead _ r h).1
    · next r h => exact absurd rfl (hhead _ r h).2
    · rfl

theorem cutAt?_point (n : Numeral) :
    (cutAt? '.' (n.whole ++ n.pointText)).getD (n.whole ++ n.pointText, []) = (n.whole, n.places) := by
  have hpoint : '.' ∉ n.whole := by
    intro h
    have hdigit := isDigit_of_mem_whole h
    revert hdigit
    decide
  unfold pointText places
  cases n.fraction with
  | none => rw [List.append_nil, cutAt?_of_not_mem hpoint, Option.getD_none, Option.getD_none]
  | some f => rw [cutAt?_append hpoint, Option.getD_some, Option.getD_some]

end Numeral

/-- Digits are read as the number they denote. -/
theorem eq_readDigits_of_readWide? {s : List Char} {k : Int} (h : readWide? s = some k) :
    k = readDigits s := by
  have hrun : ∀ (s : List Char) (m : Nat),
      s.foldlM (fun n c => if FitsWide (10 * n + digitValue c) then some (10 * n + digitValue c)
        else none) (m : Int) = some k →
      k = (s.foldl (fun n c => 10 * n + digitValue c) m : Nat) := by
    intro s
    induction s with
    | nil =>
      intro m h
      exact (Option.some.inj h).symm
    | cons c s ih =>
      intro m h
      rw [List.foldlM_cons] at h
      split at h
      · exact ih (10 * m + digitValue c) h
      · cases h
  exact hrun s 0 h

/-- They are read as long as their number is a word of 128 bits: what has been read on the way is no
greater. -/
theorem readWide?_eq_some {s : List Char} (h : readDigits s < 2 ^ 127) :
    readWide? s = some (readDigits s : Int) := by
  have hrun : ∀ (s : List Char) (m : Nat), s.foldl (fun n c => 10 * n + digitValue c) m < 2 ^ 127 →
      s.foldlM (fun n c => if FitsWide (10 * n + digitValue c) then some (10 * n + digitValue c)
        else none) (m : Int) = some ((s.foldl (fun n c => 10 * n + digitValue c) m : Nat) : Int) := by
    intro s
    induction s with
    | nil => exact fun _ _ => rfl
    | cons c s ih =>
      intro m h
      rw [List.foldl_cons] at h
      have hle : 10 * m + digitValue c ≤ (10 * m + digitValue c) * 10 ^ s.length :=
        Nat.le_mul_of_pos_right _ (by positivity)
      have hfold := foldl_digits s (10 * m + digitValue c)
      have hfits : FitsWide (10 * (m : Int) + digitValue c) := by
        unfold FitsWide
        omega
      rw [List.foldlM_cons, if_pos hfits, List.foldl_cons]
      exact ih (10 * m + digitValue c) h
  exact hrun s 0 h

/-- A numeral is read digit by digit, and its sign is put in front of them in the end. -/
theorem parse?_of_trim {s : List Char} {n : Numeral} (hs : trim s = n.text) :
    parse? s = (readWide? (n.whole ++ n.places)).bind fun k =>
      if n.places.length > 38 then none
      else ofRatio? (if n.sign = .minus then -k else k) (Nat.pow 10 n.places.length : Nat) := by
  have hall : (n.whole ++ n.places).all isDigit = true := List.all_eq_true.mpr n.isDigit_of_mem
  have hempty : (n.whole ++ n.places).isEmpty = false := by
    rw [← Bool.not_eq_true, List.isEmpty_iff]
    exact n.nonempty
  unfold parse?
  dsimp only
  rw [hs, cutAt?_of_not_mem n.slash_not_mem]
  dsimp only
  rw [n.splitSign_text]
  dsimp only
  rw [n.cutAt?_point]
  simp only [hall, hempty, Bool.not_true, Bool.or_self, Bool.false_eq_true, if_false,
    decide_eq_true_eq, bind]

theorem ofRatio?_numeral (n : Numeral) :
    ofRatio? (if n.sign = .minus then -(readDigits (n.whole ++ n.places) : Int)
      else readDigits (n.whole ++ n.places)) (Nat.pow 10 n.places.length : Nat) = ofRat? n.value := by
  have hpow : ((Nat.pow 10 n.places.length : Nat) : Int) ≠ 0 := by
    exact_mod_cast (Nat.pow_pos (by decide)).ne'
  rw [ofRatio?_eq_ofRat? hpow, n.value_eq, Numeral.apply_div, NumeralSign.apply]
  congr 2
  · split <;> push_cast <;> rfl
  · exact_mod_cast rfl

theorem parse?_eq_ofRat? {s : List Char} {n : Numeral} (hs : trim s = n.text)
    (hdigits : readDigits (n.whole ++ n.places) < 2 ^ 127) (hplaces : n.places.length ≤ 38) :
    parse? s = ofRat? n.value := by
  rw [parse?_of_trim hs, readWide?_eq_some hdigits, Option.bind_some, if_neg (by omega),
    ofRatio?_numeral]

/-- **A numeral of at most 38 digits** is read as the fraction of its number. -/
theorem parse?_numeral {s : List Char} {n : Numeral} (hs : trim s = n.text)
    (hlength : (n.whole ++ n.places).length ≤ 38) : parse? s = ofRat? n.value := by
  have hlt := readDigits_lt (n.whole ++ n.places)
  have hpow : 10 ^ (n.whole ++ n.places).length ≤ 10 ^ 38 :=
    Nat.pow_le_pow_right (by decide) hlength
  have hwide : (10 : Nat) ^ 38 < 2 ^ 127 := by norm_num
  rw [List.length_append] at hlength
  exact parse?_eq_ofRat? hs (by omega) (by omega)

/-! ## Texts of fractions -/

/-- A text denotes a number: it is a decimal numeral, or two integers with a slash between them.
Blanks around numerals mean nothing. -/
inductive Denotes (s : List Char) (q : ℚ) : Prop
  | numeral (n : Numeral) (text : trim s = n.text) (value : q = n.value)
  | ratio (a b : List Char) (n d : Numeral) (text : trim s = a ++ '/' :: b)
      (left : trim a = n.text) (right : trim b = d.text)
      (whole_left : n.fraction = none) (whole_right : d.fraction = none)
      (nonzero : d.value ≠ 0) (value : q = n.value / d.value)

/-- An integer is a numeral without a point. -/
theorem exists_numeral_of_readInt? {s : List Char} {k : Int} (h : readInt? s = some k) :
    ∃ n : Numeral, n.fraction = none ∧ s = n.text ∧ n.value = k := by
  obtain ⟨r, hne, hdigits, hr⟩ := exists_of_readInt? h
  -- the numeral of these digits and a sign
  let numeral (sign : NumeralSign) : Numeral := ⟨sign, r, none, by simpa using hdigits, by simpa using hne⟩
  have htext : ∀ sign, (numeral sign).text = sign.chars ++ r := by
    intro sign
    simp [numeral, Numeral.text, Numeral.pointText]
  have hvalue : ∀ sign, (numeral sign).value = sign.apply (readDigits r) := by
    intro sign
    simp [numeral, Numeral.value, Numeral.places, readDigits]
  rcases hr with ⟨rfl, rfl⟩ | ⟨rfl | rfl, rfl⟩
  · refine ⟨numeral .minus, rfl, (htext .minus).symm, ?_⟩
    rw [hvalue, NumeralSign.apply, if_pos rfl]
    push_cast
    rfl
  · exact ⟨numeral .plus, rfl, (htext .plus).symm, hvalue .plus⟩
  · exact ⟨numeral .absent, rfl, (htext .absent).symm, hvalue .absent⟩

theorem readInt?_numeral {n : Numeral} (h : n.fraction = none) :
    ∃ k : Int, readInt? n.text = some k ∧ n.value = k := by
  obtain ⟨sign, whole, fraction, hdigits, hne⟩ := n
  subst h
  have hwhole : ∀ c ∈ whole, isDigit c = true := by simpa using hdigits
  have hwhole_ne : whole ≠ [] := by simpa using hne
  have hnil : (readDigits [] : ℚ) = 0 := by simp [readDigits]
  have htext : ∀ chars : List Char, chars ++ (whole ++ []) = chars ++ whole := by simp
  simp only [Numeral.text, Numeral.pointText, Numeral.value, Numeral.places, htext, Option.getD_none,
    hnil, zero_div, add_zero]
  cases sign with
  | absent => exact ⟨_, readInt?_digits hwhole_ne hwhole, rfl⟩
  | plus => exact ⟨_, readInt?_plus hwhole_ne hwhole, rfl⟩
  | minus =>
    refine ⟨_, readInt?_minus hwhole_ne hwhole, ?_⟩
    rw [NumeralSign.apply, if_pos rfl]
    push_cast
    rfl

theorem eq_of_readWord?_numeral {n : Numeral} (h : n.fraction = none) {w : Int64}
    (hw : readWord? n.text = some w) : n.value = w.toInt := by
  obtain ⟨k, hk, hvalue⟩ := readInt?_numeral h
  rw [readWord?, hk, Option.bind_some, word?_eq_some_iff] at hw
  rw [hvalue, hw]

/-- A numeral is a sign, digits and a point with digits behind it. -/
theorem exists_numeral {s : List Char}
    (h : ¬(((cutAt? '.' (splitSign s).2).getD ((splitSign s).2, [])).1 ++
        ((cutAt? '.' (splitSign s).2).getD ((splitSign s).2, [])).2).isEmpty)
    (hdigits : (((cutAt? '.' (splitSign s).2).getD ((splitSign s).2, [])).1 ++
        ((cutAt? '.' (splitSign s).2).getD ((splitSign s).2, [])).2).all isDigit) :
    ∃ n : Numeral, s = n.text := by
  have hsign : ∃ sign : NumeralSign, s = sign.chars ++ (splitSign s).2 := by
    unfold splitSign
    split
    · exact ⟨.minus, rfl⟩
    · exact ⟨.plus, rfl⟩
    · exact ⟨.absent, rfl⟩
  obtain ⟨sign, hs⟩ := hsign
  generalize (splitSign s).2 = r at h hdigits hs
  rw [List.isEmpty_iff] at h
  rw [List.all_eq_true] at hdigits
  cases hcut : cutAt? '.' r with
  | none =>
    rw [hcut, Option.getD_none] at h hdigits
    exact ⟨⟨sign, r, none, hdigits, h⟩, by simp [hs, Numeral.text, Numeral.pointText]⟩
  | some parts =>
    rw [hcut, Option.getD_some] at h hdigits
    exact ⟨⟨sign, parts.1, some parts.2, hdigits, h⟩, hs.trans (congrArg _ (cutAt?_eq_some hcut).1)⟩

/-- **What is read is denoted**: nothing but a numeral or a ratio is read as a fraction. -/
theorem denotes_of_parse? {s : List Char} {f : Fraction} (h : parse? s = some f) :
    Denotes s f.toRat := by
  cases hcut : cutAt? '/' (trim s) with
  | some parts =>
    obtain ⟨a, b⟩ := parts
    unfold parse? at h
    simp only [hcut] at h
    obtain ⟨w, hw, h⟩ := Option.bind_eq_some_iff.mp h
    obtain ⟨v, hv, h⟩ := Option.bind_eq_some_iff.mp h
    obtain ⟨k, hk, hkw⟩ := Option.bind_eq_some_iff.mp hw
    obtain ⟨l, hl, hlv⟩ := Option.bind_eq_some_iff.mp hv
    obtain ⟨n, hn, hleft, hnvalue⟩ := exists_numeral_of_readInt? hk
    obtain ⟨d, hd, hright, hdvalue⟩ := exists_numeral_of_readInt? hl
    rw [word?_eq_some_iff] at hkw hlv
    have hzero : v.toInt ≠ 0 := (ofRatio?_eq_some_iff.mp h).1
    rw [ofRatio?_eq_ofRat? hzero, ofRat?_eq_some_iff, hkw, hlv] at h
    refine .ratio a b n d (cutAt?_eq_some hcut).1 hleft hright hn hd ?_ (by rw [h, hnvalue, hdvalue])
    rw [hdvalue, ← hlv]
    exact_mod_cast hzero
  | none =>
    have hread := h
    unfold parse? at hread
    simp only [hcut] at hread
    split at hread
    · cases hread
    · next hdigits =>
      simp only [Bool.or_eq_true, Bool.not_eq_true', not_or, Bool.not_eq_false] at hdigits
      obtain ⟨n, hn⟩ := exists_numeral hdigits.1 hdigits.2
      refine .numeral n hn ?_
      rw [parse?_of_trim hn] at h
      obtain ⟨k, hk, h⟩ := Option.bind_eq_some_iff.mp h
      split at h
      · cases h
      · rwa [eq_readDigits_of_readWide? hk, ofRatio?_numeral, ofRat?_eq_some_iff] at h

/-- **A text is read as no other number** than the one it denotes. -/
theorem toRat_of_denotes {s : List Char} {q : ℚ} (hq : Denotes s q) {f : Fraction}
    (h : parse? s = some f) : f.toRat = q := by
  cases hq with
  | numeral n hs hvalue =>
    rw [parse?_of_trim hs] at h
    obtain ⟨k, hk, h⟩ := Option.bind_eq_some_iff.mp h
    split at h
    · cases h
    · rw [eq_readDigits_of_readWide? hk, ofRatio?_numeral, ofRat?_eq_some_iff] at h
      rw [h, hvalue]
  | ratio a b n d hs hleft hright hn hd hzero hvalue =>
    have hslash : '/' ∉ a := by
      intro hmem
      have htrim := mem_trim_of_mem hmem (by decide)
      rw [hleft] at htrim
      exact n.slash_not_mem htrim
    unfold parse? at h
    simp only [hs, cutAt?_append hslash, hleft, hright] at h
    obtain ⟨w, hw, h⟩ := Option.bind_eq_some_iff.mp h
    obtain ⟨v, hv, h⟩ := Option.bind_eq_some_iff.mp h
    have hnvalue := eq_of_readWord?_numeral hn hw
    have hdvalue := eq_of_readWord?_numeral hd hv
    have hne : v.toInt ≠ 0 := (ofRatio?_eq_some_iff.mp h).1
    rw [ofRatio?_eq_ofRat? hne, ofRat?_eq_some_iff] at h
    rw [h, hvalue, hnvalue, hdvalue]

/-! ## Fractions read back -/

theorem readWord?_showInt (w : Int64) : readWord? (showInt w.toInt) = some w := by
  rw [readWord?, readInt?_showInt, Option.bind_some, word?_eq_some_iff]

theorem slash_not_mem_showInt (n : Int) : '/' ∉ showInt n :=
  not_mem_showInt (by decide) (by decide) n

theorem isBlank_of_mem_showInt {n : Int} {c : Char} (hc : c ∈ showInt n) : isBlank c = false := by
  rw [← Bool.not_eq_true]
  intro hblank
  have hdigit : isDigit c = false := by
    rw [← Bool.not_eq_true]
    intro hdigit
    rw [isBlank_of_isNameChar (isNameChar_of_isDigit hdigit)] at hblank
    cases hblank
  refine not_mem_showInt hdigit ?_ n hc
  rintro rfl
  revert hblank
  decide

theorem trim_showInt (n : Int) : trim (showInt n) = showInt n :=
  trim_eq_self fun _ => isBlank_of_mem_showInt

/-- A whole number is written as an integer and read as a decimal numeral. -/
theorem parse?_showInt (w : Int64) : parse? (showInt w.toInt) = some (ofWord w) := by
  obtain ⟨n, hn, htext, hvalue⟩ := exists_numeral_of_readInt? (readInt?_showInt w.toInt)
  have hplaces : n.places = [] := by rw [Numeral.places, hn, Option.getD_none]
  have hdigits : readDigits (n.whole ++ n.places) < 2 ^ 127 := by
    have hvalue_eq := n.value_eq
    rw [hplaces, List.length_nil, pow_zero, div_one, hvalue, NumeralSign.apply] at hvalue_eq
    have hword := Wide.natAbs_toInt_le w
    rw [hplaces]
    split at hvalue_eq
    · have hint : w.toInt = -(readDigits (n.whole ++ []) : Int) := by exact_mod_cast hvalue_eq
      omega
    · have hint : w.toInt = (readDigits (n.whole ++ []) : Int) := by exact_mod_cast hvalue_eq
      omega
  have htrim : trim (showInt w.toInt) = n.text := by rw [trim_showInt, htext]
  rw [parse?_eq_ofRat? htrim hdigits (by rw [hplaces]; exact Nat.zero_le _), hvalue,
    ofRat?_eq_some_iff, toRat_ofWord]

/-- **A fraction is read back from its text.** -/
theorem parse?_text (f : Fraction) : parse? f.text = some f := by
  unfold text
  split
  · next hwhole =>
    rw [parse?_showInt, Option.some_inj]
    exact toRat_injective (by rw [toRat_ofWord, toRat_of_isWhole hwhole])
  · have htrim : trim (showInt f.num.toInt ++ '/' :: showInt f.den.toInt)
        = showInt f.num.toInt ++ '/' :: showInt f.den.toInt := by
      refine trim_eq_self fun c hc => ?_
      rcases List.mem_append.mp hc with hc | hc
      · exact isBlank_of_mem_showInt hc
      · rcases List.mem_cons.mp hc with rfl | hc
        · decide
        · exact isBlank_of_mem_showInt hc
    have hden : f.den.toInt ≠ 0 := f.den_pos.ne'
    unfold parse?
    simp only [htrim, cutAt?_append (slash_not_mem_showInt _), trim_showInt, readWord?_showInt]
    exact (ofRatio?_eq_ofRat? hden).trans (ofRat?_eq_some_iff.mpr rfl)

end Fraction

namespace Wide

open Fraction

end Wide

end Worksheet
