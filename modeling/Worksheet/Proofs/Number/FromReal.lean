import Mathlib
import Worksheet.Proofs.Number.Nearest
import Worksheet.Proofs.Number.Reading
import Worksheet.Proofs.Number.Shortest

/-!
# Fractions from reals

A real is made into a fraction by way of its shortest decimal text: the number of the text is read
exactly, and its denominator is limited then. The text is half a unit in the last binary place away
from the real at most, and the fraction is near the number of the text.

* **`dropZeros_spec`** — the digits as they are written.
* **`Positional`** — the numeral of digits with the point at its place; **`exists_positional`**.
* **`ShortText`** — the shortest text of a real as a numeral; **`exists_shortText`**.
* **`ShortText.parse?_eq_some`** — it is read, if its number is a fraction.
* **`ofReal?_near`** — the fraction is near the real.
-/

namespace Worksheet

open Text

/-! ## Digits as they are written -/

namespace Decimal

/-- Zeros that are dropped from the end leave their places. -/
theorem dropZeros_spec {count n : Nat} (hcount : 0 < count) (hn : n < 10 ^ count) :
    0 < (dropZeros count n).1 ∧ (dropZeros count n).1 ≤ count ∧
      (dropZeros count n).2 < 10 ^ (dropZeros count n).1 ∧
      (dropZeros count n).2 * 10 ^ (count - (dropZeros count n).1) = n := by
  induction count generalizing n with
  | zero => omega
  | succ c ih =>
    rw [dropZeros]
    by_cases hzero : n % 10 = 0 ∧ n ≠ 0
    · rw [if_pos hzero]
      have hlt : n / 10 < 10 ^ c := by
        rw [pow_succ] at hn
        omega
      have hc : 0 < c := by
        rcases Nat.eq_zero_or_pos c with rfl | hc
        · rw [pow_zero] at hlt
          omega
        · exact hc
      obtain ⟨hpos, hle, hsmall, hvalue⟩ := ih hc hlt
      refine ⟨hpos, by omega, hsmall, ?_⟩
      rw [Nat.succ_sub hle, pow_succ, ← mul_assoc, hvalue]
      omega
    · rw [if_neg hzero]
      exact ⟨Nat.succ_pos c, le_rfl, hn, by rw [Nat.sub_self, pow_zero, mul_one]⟩

theorem readDigits_zeros (s : List Char) (k : Nat) :
    readDigits (s ++ List.replicate k '0') = readDigits s * 10 ^ k := by
  have hzeros : readDigits (List.replicate k '0') = 0 := by
    have h := readDigits_replicate_zero k []
    rwa [List.append_nil] at h
  rw [readDigits_append, hzeros, List.length_replicate, add_zero]

end Decimal

namespace Fraction

open Decimal

/-! ## The point at its place -/

/-- A minus in front, or nothing. -/
def minusIf (negative : Bool) : NumeralSign := if negative then .minus else .absent

theorem apply_minusIf (negative : Bool) (q : ℚ) :
    (minusIf negative).apply q = if negative then -q else q := by
  cases negative <;> rfl

/-- The numeral of digits with the point at its place: the digits are all that is read, or there is no
point. -/
structure Positional (negative : Bool) (digits : List Char) (e : Int) (n : Numeral) : Prop where
  text_eq : n.text = (minusIf negative).chars ++ positional digits e
  sign_eq : n.sign = minusIf negative
  scaled_eq : (readDigits (n.whole ++ n.places) : ℚ) / 10 ^ n.places.length
    = readDigits digits * 10 ^ (e + 1 - digits.length)
  read_eq : readDigits (n.whole ++ n.places) = readDigits digits ∨ n.places.length = 0
  places_eq : n.places.length = (digits.length - 1 - e).toNat

section Positional

variable {negative : Bool} {digits : List Char} {e : Int}

/-- If the digits are all that is read, the places behind the point are their number. -/
theorem positional_of_read {n : Numeral}
    (htext : n.text = (minusIf negative).chars ++ positional digits e)
    (hsign : n.sign = minusIf negative)
    (hread : readDigits (n.whole ++ n.places) = readDigits digits)
    (hplaces : n.places.length = (digits.length - 1 - e).toNat) (he : e < digits.length) :
    Positional negative digits e n := by
  have hpow : (10 : ℚ) ^ (e + 1 - digits.length) = (10 ^ (digits.length - 1 - e).toNat)⁻¹ := by
    rw [← zpow_natCast, ← zpow_neg]
    congr 1
    omega
  exact ⟨htext, hsign, by rw [hread, hplaces, hpow, div_eq_mul_inv], .inl hread, hplaces⟩

/-- A zero in front of the point, and zeros behind it. -/
theorem exists_positional_front (hdigits : ∀ c ∈ digits, isDigit c = true) (he : e < 0) :
    ∃ n, Positional negative digits e n := by
  have hread : readDigits (['0'] ++ (List.replicate ((-e).toNat - 1) '0' ++ digits))
      = readDigits digits :=
    (readDigits_replicate_zero 1 _).trans (readDigits_replicate_zero _ _)
  refine ⟨⟨minusIf negative, ['0'], some (List.replicate ((-e).toNat - 1) '0' ++ digits), ?_,
    by simp⟩, positional_of_read ?_ rfl hread ?_ (by omega)⟩
  · intro c hc
    rcases List.mem_append.mp hc with hc | hc
    · rw [List.mem_singleton.mp hc]
      decide
    · rcases List.mem_append.mp hc with hc | hc
      · exact isDigit_of_mem_replicate hc
      · exact hdigits c hc
  · rw [positional, if_pos he]
    rfl
  · show (List.replicate ((-e).toNat - 1) '0' ++ digits).length = _
    rw [List.length_append, List.length_replicate]
    omega

/-- No point, and zeros at the end. -/
theorem exists_positional_end (hne : digits ≠ []) (hdigits : ∀ c ∈ digits, isDigit c = true)
    (he : 0 ≤ e) (hwhole : digits.length ≤ e.toNat + 1) : ∃ n, Positional negative digits e n := by
  refine ⟨⟨minusIf negative, digits ++ List.replicate (e.toNat + 1 - digits.length) '0', none, ?_,
    by simp [hne]⟩, ?_, rfl, ?_, .inr rfl, ?_⟩
  · intro c hc
    rw [Option.getD_none, List.append_nil] at hc
    rcases List.mem_append.mp hc with hc | hc
    · exact hdigits c hc
    · exact isDigit_of_mem_replicate hc
  · rw [positional, if_neg (by omega)]
    dsimp only
    rw [if_pos hwhole]
    simp [Numeral.text, Numeral.pointText]
  · have hread : readDigits (digits ++ List.replicate (e.toNat + 1 - digits.length) '0' ++ [])
        = readDigits digits * 10 ^ (e.toNat + 1 - digits.length) := by
      rw [List.append_nil, readDigits_zeros]
    have hpow : (10 : ℚ) ^ (e + 1 - digits.length) = 10 ^ (e.toNat + 1 - digits.length) := by
      rw [← zpow_natCast]
      congr 1
      omega
    show ((readDigits (digits ++ List.replicate (e.toNat + 1 - digits.length) '0' ++ []) : Nat) : ℚ)
      / 10 ^ 0 = _
    rw [hread, pow_zero, div_one, hpow]
    push_cast
    rfl
  · show 0 = (digits.length - 1 - e).toNat
    omega

/-- The point among the digits. -/
theorem exists_positional_among (hne : digits ≠ []) (hdigits : ∀ c ∈ digits, isDigit c = true)
    (he : 0 ≤ e) (hamong : ¬ digits.length ≤ e.toNat + 1) : ∃ n, Positional negative digits e n := by
  have hsplit : digits.take (e.toNat + 1) ++ digits.drop (e.toNat + 1) = digits :=
    List.take_append_drop _ _
  refine ⟨⟨minusIf negative, digits.take (e.toNat + 1), some (digits.drop (e.toNat + 1)), ?_, ?_⟩,
    positional_of_read ?_ rfl (congrArg readDigits hsplit) ?_ (by omega)⟩
  · rwa [Option.getD_some, hsplit]
  · rwa [Option.getD_some, hsplit]
  · rw [positional, if_neg (by omega)]
    dsimp only
    rw [if_neg hamong]
    rfl
  · show (digits.drop (e.toNat + 1)).length = _
    rw [List.length_drop]
    omega

/-- **Digits with the point at its place** are a numeral. -/
theorem exists_positional (negative : Bool) (hne : digits ≠ [])
    (hdigits : ∀ c ∈ digits, isDigit c = true) (e : Int) : ∃ n, Positional negative digits e n := by
  rcases Int.lt_or_le e 0 with hneg | he
  · exact exists_positional_front hdigits hneg
  · by_cases hwhole : digits.length ≤ e.toNat + 1
    · exact exists_positional_end hne hdigits he hwhole
    · exact exists_positional_among hne hdigits he hwhole

end Positional

/-! ## The shortest text -/

/-- The shortest text of a real, as a numeral for the number of its digits. -/
theorem exists_numeral_shortest {x : Float} {count : Nat} {d : Digits}
    (h : shortestDigits (Binary.ofFloat x) = (count, d)) (hcount : 0 < count)
    (hdigits : d.digits < 10 ^ count) :
    ∃ n : Numeral, n.text = shortest x ∧
      n.value = (minusIf (isNegative x)).apply (d.digits * 10 ^ (d.exponent + 1 - count)) ∧
      (readDigits (n.whole ++ n.places) < 10 ^ count ∨ n.places.length = 0) ∧
      n.places.length ≤ (count - 1 - d.exponent).toNat := by
  obtain ⟨hpos, hle, hsmall, hdropped⟩ := dropZeros_spec hcount hdigits
  set k := (dropZeros count d.digits).1
  set m := (dropZeros count d.digits).2
  have hlength : (showPadded k m).length = k := showPadded_length hpos hsmall
  have hne : showPadded k m ≠ [] := by
    rw [← List.length_pos_iff, hlength]
    exact hpos
  obtain ⟨n, htext, hsign, hvalue, hread, hplaces⟩ := exists_positional (isNegative x) hne
    (fun c => isDigit_of_mem_showPadded) d.exponent
  rw [readDigits_showPadded, hlength] at hvalue
  rw [readDigits_showPadded] at hread
  rw [hlength] at hplaces
  refine ⟨n, ?_, ?_, ?_, by omega⟩
  · rw [htext, shortest, shortestParts, h]
    show (minusIf (isNegative x)).chars ++ positional (showPadded k m) d.exponent
      = signed x (positional (showPadded k m) d.exponent)
    unfold signed minusIf
    cases isNegative x <;> rfl
  · -- the zeros that were dropped are in the exponent
    have hshift : (m : ℚ) * 10 ^ (d.exponent + 1 - k) = d.digits * 10 ^ (d.exponent + 1 - count) := by
      rw [← hdropped]
      push_cast
      rw [← zpow_natCast, mul_assoc, ← zpow_add₀ ten_ne_zero]
      congr 2
      omega
    rw [n.value_eq, hsign, hvalue, hshift]
  · rcases hread with hread | hnone
    · left
      rw [hread]
      exact hsmall.trans_le (Nat.pow_le_pow_right (by decide) hle)
    · exact .inr hnone

/-- The shortest text of a real `q` is that of a numeral, and its number is half a unit in the last
binary place away from the real at most. -/
structure ShortText (x : Float) (q : ℚ) (n : Numeral) : Prop where
  text_eq : n.text = shortest x
  value_eq_zero_iff : n.value = 0 ↔ q = 0
  abs_sub_le : q ≠ 0 → |n.value - q| ≤ 2 ^ ((Binary.ofFloat x).exponent - 1)
  digits : readDigits (n.whole ++ n.places) < 10 ^ 17 ∨ n.places.length = 0
  places_le : q = 0 ∨ 1 / 100 ≤ |q| → n.places.length ≤ 18

theorem apply_eq_zero_iff (s : NumeralSign) (q : ℚ) : s.apply q = 0 ↔ q = 0 := by
  unfold NumeralSign.apply
  split
  · exact neg_eq_zero
  · exact Iff.rfl

/-- The shortest text of a zero is the digit zero. -/
theorem exists_shortText_zero {x : Float} {q : ℚ} (h : Real.IsNumber x q)
    (hzero : (Binary.ofFloat x).mantissa = 0) : ∃ n, ShortText x q n := by
  have hq_zero : q = 0 := by
    rw [← abs_eq_zero, abs_eq_of_isNumber h, Binary.value, hzero, Nat.cast_zero, zero_mul]
  have hdigits : shortestDigits (Binary.ofFloat x) = (1, ⟨0, 0⟩) := by
    rw [shortestDigits, if_pos hzero]
  obtain ⟨n, htext, hvalue, hread, hplaces⟩ :=
    exists_numeral_shortest hdigits (by decide) (by decide)
  have hplaces_zero : n.places.length = 0 := Nat.le_zero.mp hplaces
  refine ⟨n, htext, ⟨fun _ => hq_zero, fun _ => ?_⟩, fun hne => absurd hq_zero hne,
    .inr hplaces_zero, fun _ => by omega⟩
  rw [hvalue, apply_eq_zero_iff, Nat.cast_zero, zero_mul]

/-- The first digit of a number that is no less than a hundredth is that of a hundredth, or in front of
it. -/
theorem neg_two_le_decade {b : Binary} (hpos : b.mantissa ≠ 0) (hlarge : 1 / 100 ≤ b.value) :
    -2 ≤ decade b.num b.den := by
  by_contra hsmall
  have hpow : (10 : ℚ) ^ (decade b.num b.den + 1) ≤ 10 ^ (-2 : Int) :=
    zpow_le_zpow_right₀ (by norm_num) (by omega)
  norm_num at hpow
  linarith [(value_decade_bounds hpos).2]

theorem exists_shortText {x : Float} {q : ℚ} (h : Real.IsNumber x q) : ∃ n, ShortText x q n := by
  have hq := eq_of_isNumber h
  have habs := abs_eq_of_isNumber h
  by_cases hzero : (Binary.ofFloat x).mantissa = 0
  · exact exists_shortText_zero h hzero
  have happroximates := approximates_shortestDigits (bounded_ofFloat x) hzero
  obtain ⟨count, d, hdigits⟩ : ∃ count d, shortestDigits (Binary.ofFloat x) = (count, d) :=
    ⟨_, _, rfl⟩
  rw [hdigits] at happroximates
  obtain ⟨hcount, hcount_le, hdigits_pos, hdigits_lt, hexponent, -, hnear⟩ := happroximates
  dsimp only at hcount_le hexponent
  obtain ⟨n, htext, hvalue, hread, hplaces⟩ := exists_numeral_shortest hdigits hcount hdigits_lt
  have hq_ne : q ≠ 0 := by
    rw [← abs_pos, habs]
    exact lt_of_lt_of_le (by positivity) (value_decade_bounds hzero).1
  have hdigits_pos' : (0 : ℚ) < d.digits := by exact_mod_cast hdigits_pos
  refine ⟨n, htext, ⟨fun hn => ?_, fun hn => absurd hn hq_ne⟩, fun _ => ?_, ?_, fun hlarge => ?_⟩
  · rw [hvalue, apply_eq_zero_iff] at hn
    exact absurd hn (mul_pos hdigits_pos' (by positivity)).ne'
  · -- the sign of the real is the sign of its text, so that the distance is that of the digits
    rw [hvalue, hq, apply_minusIf]
    split
    · rwa [neg_sub_neg, abs_sub_comm]
    · exact hnear
  · exact hread.imp_left fun hlt => hlt.trans_le (Nat.pow_le_pow_right (by decide) hcount_le)
  · -- seventeen digits from the second place on
    have hdecade := neg_two_le_decade hzero (habs ▸ hlarge.resolve_left hq_ne)
    omega

theorem two_zpow_neg (k : Nat) : (2 : ℚ) ^ (-(k : Int)) = 1 / 2 ^ k := by
  rw [zpow_neg, zpow_natCast, one_div]

/-- Half a unit of the least exponent is far below every fraction. -/
theorem least_half_le : (2 : ℚ) ^ (-1075 : Int) ≤ 1 / 2 ^ 200 := by
  rw [← two_zpow_neg 200]
  exact zpow_le_zpow_right₀ one_le_two (by norm_num)

section ShortText

variable {x : Float} {q : ℚ} {n : Numeral}

/-- Half a unit in the last place is one part in `2 ^ 53`, unless the significand is short. -/
theorem ShortText.abs_sub_le_max (ht : ShortText x q n) (h : Real.IsNumber x q) :
    |n.value - q| ≤ max (|q| / 2 ^ 53) (2 ^ (-1075 : Int)) := by
  by_cases hq : q = 0
  · rw [ht.value_eq_zero_iff.mpr hq, hq, sub_self, abs_zero]
    exact le_max_of_le_left (by norm_num)
  · refine (ht.abs_sub_le hq).trans ?_
    have hbounded := bounded_ofFloat x
    rcases hbounded.full with hleast | hfull
    · rw [hleast]
      exact le_max_right _ _
    · refine le_max_of_le_left ?_
      have hmantissa : (2 : ℚ) ^ 52 ≤ (Binary.ofFloat x).mantissa := by exact_mod_cast hfull
      have hpow : (0 : ℚ) < 2 ^ (Binary.ofFloat x).exponent := by positivity
      rw [abs_eq_of_isNumber h, Binary.value, zpow_sub_one₀ two_ne_zero, le_div_iff₀ (by positivity)]
      have hscaled := mul_le_mul_of_nonneg_right hmantissa hpow.le
      linarith

/-- A fraction is too large for a short significand. -/
theorem ShortText.abs_sub_le_div (ht : ShortText x q n) (h : Real.IsNumber x q) {d : Fraction}
    (hd : d.toRat = n.value) : |n.value - q| ≤ |q| / 2 ^ 53 := by
  rcases le_max_iff.mp (ht.abs_sub_le_max h) with hle | htiny
  · exact hle
  by_contra hgt
  have hq : q ≠ 0 := by
    rintro rfl
    rw [ht.value_eq_zero_iff.mpr rfl] at hgt
    norm_num at hgt
  have hnum : d.num.toInt ≠ 0 := by
    intro hzero
    refine hq (ht.value_eq_zero_iff.mp ?_)
    rw [← hd, toRat, hzero, Int.cast_zero, zero_div]
  have hlarge := le_abs_toRat hnum
  rw [hd] at hlarge
  -- then the real is tiny and so is its text, but a fraction is not
  have hleast := least_half_le
  have htriangle := abs_add_le (n.value - q) q
  rw [sub_add_cancel] at htriangle
  have hcontradiction : (1 : ℚ) / 2 ^ 63 ≤ 1 / 2 ^ 200 + 2 ^ 53 * (1 / 2 ^ 200) := by linarith
  norm_num at hcontradiction

theorem abs_apply (s : NumeralSign) (q : ℚ) : |s.apply q| = |q| := by
  unfold NumeralSign.apply
  split
  · exact abs_neg q
  · rfl

theorem Numeral.abs_value (n : Numeral) :
    |n.value| = readDigits (n.whole ++ n.places) / 10 ^ n.places.length := by
  rw [n.value_eq, abs_apply, abs_of_nonneg (by positivity)]

theorem abs_le_of_abs_sub_le {v q : ℚ} (h : |v - q| ≤ |q| / 2 ^ 53) :
    |v| ≤ |q| + |q| / 2 ^ 53 := by
  have htriangle := abs_add_le (v - q) q
  rw [sub_add_cancel] at htriangle
  linarith

/-- The digits of a real that is not huge are no large number. -/
theorem ShortText.readDigits_lt (ht : ShortText x q n) (hvalue : |n.value| ≤ 2 * 10 ^ 12) :
    readDigits (n.whole ++ n.places) < 10 ^ 17 := by
  rcases ht.digits with hlt | hnone
  · exact hlt
  · rw [n.abs_value, hnone, pow_zero, div_one] at hvalue
    have hle : readDigits (n.whole ++ n.places) ≤ 2 * 10 ^ 12 := by exact_mod_cast hvalue
    omega

/-- **The shortest text is read**, if its number is a fraction: it has no more places than can be
read then. -/
theorem ShortText.parse?_eq_some (ht : ShortText x q n) (h : Real.IsNumber x q) (hq : |q| ≤ 10 ^ 12)
    {d : Fraction} (hd : d.toRat = n.value) : parse? (shortest x) = some d := by
  have hvalue : |n.value| ≤ 2 * 10 ^ 12 :=
    (abs_le_of_abs_sub_le (ht.abs_sub_le_div h hd)).trans (by linarith)
  have hread := ht.readDigits_lt hvalue
  have hplaces : n.places.length ≤ 38 := by
    by_cases hzero : q = 0
    · have := ht.places_le (.inl hzero)
      omega
    · have hd_ne : d.toRat ≠ 0 := fun hzero' => hzero (ht.value_eq_zero_iff.mp (hd ▸ hzero'))
      have hnum : d.num.toInt ≠ 0 := fun hnum => hd_ne (by rw [toRat, hnum, Int.cast_zero, zero_div])
      have hlarge := le_abs_toRat hnum
      have hread' : (readDigits (n.whole ++ n.places) : ℚ) < 10 ^ 17 := by exact_mod_cast hread
      rw [hd, n.abs_value, div_le_div_iff₀ (by norm_num) (by positivity), one_mul] at hlarge
      by_contra hmany
      have hpow : (10 : ℚ) ^ 38 ≤ 10 ^ n.places.length :=
        pow_le_pow_right₀ (by norm_num) (by omega)
      have hcontradiction : (10 : ℚ) ^ 38 < 10 ^ 17 * 2 ^ 63 := by linarith
      norm_num at hcontradiction
  have htrim : trim (shortest x) = n.text := by rw [← ht.text_eq, n.trim_text]
  have hwide : (10 : Nat) ^ 17 < 2 ^ 127 := by norm_num
  rw [parse?_eq_ofRat? htrim (by omega) hplaces, ofRat?_eq_some_iff, hd]

/-- A quotient of two words is a fraction: in lowest terms it has no larger ones. -/
theorem exists_toRat_eq_div {z d : Int} (hz : z.natAbs < 2 ^ 63) (hd : 0 < d) (hd_lt : d < 2 ^ 63) :
    ∃ f : Fraction, f.toRat = z / d := by
  have hden : (((z : ℚ) / d).den : Int) ≤ d := by
    have hdvd := Rat.den_dvd z d
    rw [Rat.divInt_eq_div] at hdvd
    exact Int.le_of_dvd hd hdvd
  have hnum : ((z : ℚ) / d).num.natAbs ≤ z.natAbs := by
    rcases eq_or_ne z 0 with rfl | hne
    · rw [Int.cast_zero, zero_div]
      rfl
    · refine Nat.le_of_dvd (Int.natAbs_pos.mpr hne) (Int.natAbs_dvd_natAbs.mpr ?_)
      have hdvd := Rat.num_dvd z hd.ne'
      rwa [Rat.divInt_eq_div] at hdvd
  have hsome : (ofRat? ((z : ℚ) / d)).isSome :=
    isSome_ofRat?_iff.mpr ⟨⟨by omega, by omega⟩, ⟨by omega, by omega⟩⟩
  obtain ⟨f, hf⟩ := Option.isSome_iff_exists.mp hsome
  exact ⟨f, ofRat?_eq_some_iff.mp hf⟩

/-- The digits with the sign, over the power of ten that the places make. -/
theorem Numeral.exists_value_eq_div (n : Numeral) :
    ∃ z : Int, n.value = z / (10 ^ n.places.length : Int) ∧
      z.natAbs = readDigits (n.whole ++ n.places) := by
  rw [n.value_eq]
  unfold NumeralSign.apply
  split
  · exact ⟨-(readDigits (n.whole ++ n.places) : Int), by push_cast; ring, by omega⟩
  · exact ⟨(readDigits (n.whole ++ n.places) : Int), by push_cast; ring, by omega⟩

/-- A real that is no tiny number has a short decimal text, with a denominator that fits in a word. -/
theorem ShortText.exists_fraction (ht : ShortText x q n) (h : Real.IsNumber x q) (hq : |q| ≤ 10 ^ 12)
    (hlarge : q = 0 ∨ 1 / 100 ≤ |q|) : ∃ d : Fraction, d.toRat = n.value := by
  have hclose : |n.value - q| ≤ |q| / 2 ^ 53 := by
    rcases le_max_iff.mp (ht.abs_sub_le_max h) with hle | htiny
    · exact hle
    · rcases hlarge with hzero | hlarge
      · rw [ht.value_eq_zero_iff.mpr hzero, hzero]
        norm_num
      · have hleast := least_half_le
        linarith
  have hvalue : |n.value| ≤ 2 * 10 ^ 12 := (abs_le_of_abs_sub_le hclose).trans (by linarith)
  have hread := ht.readDigits_lt hvalue
  have hpow_le : (10 : Int) ^ n.places.length ≤ 10 ^ 18 :=
    pow_le_pow_right₀ (by norm_num) (ht.places_le hlarge)
  obtain ⟨z, hz, hz_abs⟩ := n.exists_value_eq_div
  rw [hz]
  exact exists_toRat_eq_div (by omega) (by positivity) (by omega)

end ShortText

/-! ## Fractions near by -/

theorem ofReal?_eq {x : Float} {q : ℚ} (h : Real.IsNumber x q) :
    ofReal? x = (parse? (shortest x)).map fun d => d.limitDenominator realDenominatorBound := by
  have hfinite := isFinite_of_isNumber h
  rw [ofReal?, hfinite]
  rfl

end Fraction

end Worksheet
