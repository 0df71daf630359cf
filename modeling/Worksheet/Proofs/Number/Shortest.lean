import Mathlib
import Worksheet.Proofs.Number.Binary
import Worksheet.Proofs.Text.Digits

/-!
# The fewest digits of a real

The decimal digits that stand for a real are searched on grids of powers of ten, from coarse to fine,
for a point that reads back. Whatever is found is half a unit in the last binary place away from the
real at most.

* **`decade_bounds`** — the decimal exponent of a number.
* **`gridPoint?_eq_some`** — a point of a grid is found within the interval of the real.
* **`Approximates`** — digits and exponent that stand for a real; **`approximates_shortestDigits`** —
  those of the shortest text do.
-/

namespace Worksheet.Decimal

open Text

/-! ## Powers -/

theorem zpow_eq_div {b : ℚ} (hb : b ≠ 0) (k : Int) : b ^ k = b ^ k.toNat / b ^ (-k).toNat := by
  rw [eq_div_iff (pow_ne_zero _ hb), ← zpow_natCast, ← zpow_natCast, ← zpow_add₀ hb]
  congr 1
  omega

theorem ten_ne_zero : (10 : ℚ) ≠ 0 := by norm_num

theorem Binary.num_div_den (b : Binary) : (b.num : ℚ) / b.den = b.value := by
  unfold num den value
  rw [zpow_eq_div two_ne_zero b.exponent]
  simp only [Nat.pow_eq]
  push_cast
  rw [mul_div_assoc]

theorem Binary.den_pos (b : Binary) : 0 < b.den := Nat.two_pow_pos _

theorem Binary.num_pos {b : Binary} (h : b.mantissa ≠ 0) : 0 < b.num :=
  Nat.mul_pos (Nat.pos_of_ne_zero h) (Nat.two_pow_pos _)

theorem scaled_div (num den : Nat) (k : Int) :
    ((scaled num den k).1 : ℚ) / (scaled num den k).2 = num / den * 10 ^ k := by
  unfold scaled
  rw [zpow_eq_div ten_ne_zero k, div_mul_div_comm]
  simp only [Nat.pow_eq]
  push_cast
  rfl

theorem scaled_den_pos (num : Nat) {den : Nat} (hden : 0 < den) (k : Int) :
    0 < (scaled num den k).2 := Nat.mul_pos hden (Nat.pow_pos (by decide))

/-! ## The decimal exponent -/

theorem showNat_length_pos (n : Nat) : 0 < (showNat n).length :=
  List.length_pos_iff.mpr (showNat_ne_nil n)

/-- The length of a numeral counts the powers of ten up to its number. -/
theorem showNat_length_bounds {n : Nat} (hn : 0 < n) :
    10 ^ ((showNat n).length - 1) ≤ n ∧ n < 10 ^ (showNat n).length := by
  have hpos := showNat_length_pos n
  have hle (k : Nat) (hk : 0 < k) : (showNat n).length ≤ k ↔ n < 10 ^ k :=
    Nat.length_toDigits_le_iff (by decide) hk
  refine ⟨?_, (hle _ hpos).mp le_rfl⟩
  by_contra hsmall
  rcases Nat.eq_zero_or_pos ((showNat n).length - 1) with hzero | hpos'
  · rw [hzero, pow_zero] at hsmall
    omega
  · have hshort := (hle _ hpos').mpr (not_le.mp hsmall)
    omega

/-- A power of ten is compared as integers, too. -/
theorem scaled_le_iff (num : Nat) {den : Nat} (hden : 0 < den) (k : Int) :
    (scaled num den (-k)).2 ≤ (scaled num den (-k)).1 ↔ (10 : ℚ) ^ k ≤ num / den := by
  have hscaled := scaled_div num den (-k)
  have hpos : (0 : ℚ) < (scaled num den (-k)).2 := by exact_mod_cast scaled_den_pos num hden _
  have hcast : ((scaled num den (-k)).2 : ℚ) ≤ (scaled num den (-k)).1 ↔
      (scaled num den (-k)).2 ≤ (scaled num den (-k)).1 := Nat.cast_le
  rw [zpow_neg, ← div_eq_mul_inv] at hscaled
  rw [← hcast, ← one_le_div hpos, hscaled, one_le_div (by positivity)]

theorem pow_div_pow (m n : Nat) : (10 : ℚ) ^ m / 10 ^ n = 10 ^ ((m : Int) - n) := by
  rw [← zpow_natCast, ← zpow_natCast, ← zpow_sub₀ ten_ne_zero]

/-- The numbers of digits of a numerator and a denominator leave two powers of ten for the fraction. -/
theorem bounds_of_lengths {num den : Nat} (hnum : 0 < num) (hden : 0 < den) {a b : Nat}
    (ha : (showNat num).length = a) (hb : (showNat den).length = b) :
    (10 : ℚ) ^ ((a : Int) - b - 1) ≤ num / den ∧ (num : ℚ) / den < 10 ^ ((a : Int) - b + 1) := by
  obtain ⟨hnum_low, hnum_high⟩ := showNat_length_bounds hnum
  obtain ⟨hden_low, hden_high⟩ := showNat_length_bounds hden
  have hnum_length := showNat_length_pos num
  have hden_length := showNat_length_pos den
  rw [ha] at hnum_low hnum_high hnum_length
  rw [hb] at hden_low hden_high hden_length
  have hnum_pos : (0 : ℚ) < num := by exact_mod_cast hnum
  have hden_pos : (0 : ℚ) < den := by exact_mod_cast hden
  have hnum_low' : (10 : ℚ) ^ (a - 1 : Nat) ≤ num := by exact_mod_cast hnum_low
  have hnum_high' : (num : ℚ) < 10 ^ a := by exact_mod_cast hnum_high
  have hden_low' : (10 : ℚ) ^ (b - 1 : Nat) ≤ den := by exact_mod_cast hden_low
  have hden_high' : (den : ℚ) < 10 ^ b := by exact_mod_cast hden_high
  constructor
  · rw [show (a : Int) - b - 1 = (a - 1 : Nat) - b by omega, ← pow_div_pow]
    exact div_le_div₀ hnum_pos.le hnum_low' hden_pos hden_high'.le
  · rw [show (a : Int) - b + 1 = a - (b - 1 : Nat) by omega, ← pow_div_pow]
    exact div_lt_div₀ hnum_high' hden_low' (by positivity) (by positivity)

/-- **The decade of a number** lies between two powers of ten. -/
theorem decade_bounds {num den : Nat} (hnum : 0 < num) (hden : 0 < den) :
    (10 : ℚ) ^ decade num den ≤ num / den ∧ (num : ℚ) / den < 10 ^ (decade num den + 1) := by
  obtain ⟨hlower, hupper⟩ := bounds_of_lengths hnum hden rfl rfl
  unfold decade
  dsimp only
  -- the comparison tells the two powers that are left apart
  have htest := scaled_le_iff num hden (((showNat num).length : Int) - (showNat den).length)
  split
  · next htrue => exact ⟨htest.mp htrue, hupper⟩
  · next hfalse =>
    rw [sub_add_cancel]
    exact ⟨hlower, not_le.mp fun hle => hfalse (htest.mpr hle)⟩

/-! ## Rounding to a given number of digits -/

theorem abs_roundHalfEven_sub_le (num : Nat) {den : Nat} (hden : 0 < den) :
    |(roundHalfEven num den : ℚ) - num / den| ≤ 1 / 2 := by
  have hden_pos : (0 : ℚ) < den := by exact_mod_cast hden
  have hlt : ((num % den : Nat) : ℚ) / den < 1 := by
    rw [div_lt_one hden_pos]
    exact_mod_cast Nat.mod_lt num hden
  have hnonneg : (0 : ℚ) ≤ ((num % den : Nat) : ℚ) / den := by positivity
  rw [← Real.cast_div_add_mod num hden, abs_le]
  unfold roundHalfEven
  dsimp only
  split
  · -- less than a half is dropped
    next hlow =>
    have hhalf : ((num % den : Nat) : ℚ) / den < 1 / 2 := by
      rw [div_lt_div_iff₀ hden_pos two_pos]
      exact_mod_cast (by omega : num % den * 2 < 1 * den)
    constructor <;> linarith
  · split
    · -- more than a half is filled up
      next hhigh =>
      have hhalf : 1 / 2 < ((num % den : Nat) : ℚ) / den := by
        rw [div_lt_div_iff₀ two_pos hden_pos]
        exact_mod_cast (by omega : 1 * den < num % den * 2)
      push_cast
      constructor <;> linarith
    · -- at a half both neighbours are equally near, whichever of them is even
      next hlow hhigh =>
      have hhalf : ((num % den : Nat) : ℚ) / den = 1 / 2 := by
        rw [div_eq_div_iff hden_pos.ne' two_ne_zero]
        exact_mod_cast (by omega : num % den * 2 = 1 * den)
      rcases Nat.mod_two_eq_zero_or_one (num / den) with heven | hodd
      · rw [heven]
        push_cast
        constructor <;> linarith
      · rw [hodd]
        push_cast
        constructor <;> linarith

/-! ## Points of a grid -/

/-- **A point of a grid that reads back** lies within the interval, next to the value. -/
theorem gridPoint?_eq_some {i : Interval} {unit step c : Nat} (h : gridPoint? i unit step = some c) :
    i.low * unit ≤ c * step ∧ c * step ≤ i.high * unit ∧
      (c = i.mid * unit / step ∨ c = i.mid * unit / step + 1) := by
  unfold gridPoint? at h
  dsimp only at h
  set inside : Nat → Bool := fun c =>
    if i.closed then decide (i.low * unit ≤ c * step) && decide (c * step ≤ i.high * unit)
    else decide (i.low * unit < c * step) && decide (c * step < i.high * unit) with hinside
  have hbounds : ∀ c, inside c = true → i.low * unit ≤ c * step ∧ c * step ≤ i.high * unit := by
    intro c hc
    rw [hinside] at hc
    dsimp only at hc
    split at hc <;> simp only [Bool.and_eq_true, decide_eq_true_eq] at hc
    · exact hc
    · exact ⟨hc.1.le, hc.2.le⟩
  -- whichever neighbour is tried first, it is one of the two
  have hpick : ∀ p : Nat × Nat, (p.1 = i.mid * unit / step ∨ p.1 = i.mid * unit / step + 1) ∧
      (p.2 = i.mid * unit / step ∨ p.2 = i.mid * unit / step + 1) →
      (if inside p.1 then some p.1 else if inside p.2 then some p.2 else none) = some c →
      i.low * unit ≤ c * step ∧ c * step ≤ i.high * unit ∧
        (c = i.mid * unit / step ∨ c = i.mid * unit / step + 1) := by
    rintro ⟨a, b⟩ ⟨ha, hb⟩ hc
    dsimp only at ha hb hc
    split at hc
    · next hin =>
      obtain rfl := Option.some.inj hc
      exact ⟨(hbounds a hin).1, (hbounds a hin).2, ha⟩
    · split at hc
      · next hin =>
        obtain rfl := Option.some.inj hc
        exact ⟨(hbounds b hin).1, (hbounds b hin).2, hb⟩
      · cases hc
  refine hpick _ ?_ h
  split
  · exact ⟨.inl rfl, .inr rfl⟩
  · exact ⟨.inr rfl, .inl rfl⟩

/-- A step of `10 ^ k` and a unit of `2 ^ q`, with the powers in the denominators multiplied out. -/
theorem scale_eq (k q : Int) :
    ((Nat.pow 10 k.toNat * Nat.pow 2 (-q).toNat : Nat) : ℚ) * 2 ^ q
      = (Nat.pow 2 q.toNat * Nat.pow 10 (-k).toNat : Nat) * 10 ^ k := by
  rw [zpow_eq_div two_ne_zero q, zpow_eq_div ten_ne_zero k]
  simp only [Nat.pow_eq]
  push_cast
  field_simp

/-- Multiples of a unit `u` and of a step `v` are compared as integers. -/
theorem scale_le_iff {unit step : Nat} {u v : ℚ} (hu : 0 < u) (hunit : 0 < unit)
    (hscale : step * u = unit * v) (a c : Nat) :
    (a * unit ≤ c * step ↔ a * u ≤ c * v) ∧ (c * step ≤ a * unit ↔ c * v ≤ a * u) := by
  have hunit' : (0 : ℚ) < unit := by exact_mod_cast hunit
  have hleft : ((a * unit : Nat) : ℚ) * u = unit * (a * u) := by
    push_cast
    ring
  have hright : ((c * step : Nat) : ℚ) * u = unit * (c * v) := by
    push_cast
    rw [mul_assoc, hscale]
    ring
  have hcast (i j : Nat) : i ≤ j ↔ (i : ℚ) * u ≤ j * u := by
    rw [mul_le_mul_iff_left₀ hu, Nat.cast_le]
  rw [hcast (a * unit), hcast (c * step), hleft, hright, mul_le_mul_iff_right₀ hunit',
    mul_le_mul_iff_right₀ hunit']
  exact ⟨Iff.rfl, Iff.rfl⟩

/-- The interval of a real reaches half a unit in the last place to both sides at most. -/
theorem Binary.interval_bounds (b : Binary) :
    b.interval.mid = 4 * b.mantissa ∧ 4 * b.mantissa ≤ b.interval.low + 2 ∧
      b.interval.high = 4 * b.mantissa + 2 := by
  refine ⟨rfl, ?_, rfl⟩
  unfold interval
  dsimp only
  split <;> omega

/-! ## Digits that stand for a real -/

/-- Digits and an exponent that stand for a positive real: there are at most seventeen of them, and
they are half a unit in the last binary place away from it at most. -/
structure Approximates (b : Binary) (n : Nat) (d : Digits) : Prop where
  count_pos : 0 < n
  count_le : n ≤ 17
  digits_pos : 0 < d.digits
  digits_lt : d.digits < 10 ^ n
  exponent_ge : decade b.num b.den ≤ d.exponent
  exponent_le : d.exponent ≤ decade b.num b.den + 1
  abs_sub_le : |(d.digits : ℚ) * 10 ^ (d.exponent + 1 - n) - b.value| ≤ 2 ^ (b.exponent - 1)

section Approximates

variable {b : Binary}

theorem value_decade_bounds (hpos : b.mantissa ≠ 0) :
    (10 : ℚ) ^ decade b.num b.den ≤ b.value ∧ b.value < 10 ^ (decade b.num b.den + 1) := by
  rw [← b.num_div_den]
  exact decade_bounds (Binary.num_pos hpos) b.den_pos

/-- Rounding up may give one more digit, which the exponent takes. -/
theorem approximates_carry {n m : Nat} (hn : 0 < n) (hn_le : n ≤ 17) (hm : 0 < m) (hm_le : m ≤ 10 ^ n)
    (hnear : |(m : ℚ) * 10 ^ (decade b.num b.den + 1 - n) - b.value| ≤ 2 ^ (b.exponent - 1))
    {k : Nat} (hk : k < n) :
    if m = 10 ^ n then Approximates b (k + 1) ⟨10 ^ k, decade b.num b.den + 1⟩
    else Approximates b n ⟨m, decade b.num b.den⟩ := by
  split
  · next hcarry =>
    refine ⟨by omega, by omega, Nat.pow_pos (by decide),
      Nat.pow_lt_pow_right (by decide) (by omega), by dsimp only; omega, le_rfl, ?_⟩
    have hvalue : ((10 ^ k : Nat) : ℚ) * 10 ^ (decade b.num b.den + 1 + 1 - (k + 1 : Nat))
        = m * 10 ^ (decade b.num b.den + 1 - n) := by
      rw [hcarry]
      push_cast
      rw [← zpow_natCast, ← zpow_natCast, ← zpow_add₀ ten_ne_zero, ← zpow_add₀ ten_ne_zero]
      congr 1
      omega
    dsimp only
    rwa [hvalue]
  · next hfits =>
    exact ⟨hn, hn_le, hm, lt_of_le_of_ne hm_le hfits, le_rfl, by dsimp only; omega, hnear⟩

section Units

variable {q : Int} (hq : q = b.exponent - 2)

include hq

/-- The interval of a real is measured in quarters of its last binary place. -/
theorem value_eq_units : b.value = 4 * b.mantissa * 2 ^ q := by
  rw [Binary.value, show b.exponent = q + 2 by omega, zpow_add₀ two_ne_zero]
  norm_num
  ring

theorem half_eq_units : (2 : ℚ) ^ (b.exponent - 1) = 2 * 2 ^ q := by
  rw [show b.exponent - 1 = q + 1 by omega, zpow_add_one₀ two_ne_zero, mul_comm]

end Units

/-- A point of the grid of step `10 ^ k` in the interval of a real, whose unit is `2 ^ q`. -/
theorem abs_gridPoint_sub_le (hpos : b.mantissa ≠ 0) {n c : Nat} {k q : Int}
    (hk : k = decade b.num b.den + 1 - n) (hq : q = b.exponent - 2)
    (h : gridPoint? b.interval (Nat.pow 2 q.toNat * Nat.pow 10 (-k).toNat)
      (Nat.pow 10 k.toNat * Nat.pow 2 (-q).toNat) = some c) :
    0 < c ∧ c ≤ 10 ^ n ∧ |(c : ℚ) * 10 ^ k - b.value| ≤ 2 ^ (b.exponent - 1) := by
  obtain ⟨hlow, hhigh, hpoint⟩ := gridPoint?_eq_some h
  obtain ⟨hmid, hbelow, habove⟩ := b.interval_bounds
  have hunit_pos : 0 < Nat.pow 2 q.toNat * Nat.pow 10 (-k).toNat :=
    Nat.mul_pos (Nat.two_pow_pos _) (Nat.pow_pos (by decide))
  have hstep_pos : 0 < Nat.pow 10 k.toNat * Nat.pow 2 (-q).toNat :=
    Nat.mul_pos (Nat.pow_pos (by decide)) (Nat.two_pow_pos _)
  have hpow : (0 : ℚ) < 2 ^ q := by positivity
  have hscaled := scale_le_iff hpow hunit_pos (scale_eq k q)
  generalize Nat.pow 2 q.toNat * Nat.pow 10 (-k).toNat = unit at *
  generalize Nat.pow 10 k.toNat * Nat.pow 2 (-q).toNat = step at *
  have hvalue := value_eq_units hq
  have hhalf := half_eq_units hq
  refine ⟨?_, ?_, ?_⟩
  · -- zero lies below the interval
    rw [Nat.pos_iff_ne_zero]
    rintro rfl
    have hlow_pos : 0 < b.interval.low * unit := Nat.mul_pos (by omega) hunit_pos
    omega
  · -- the value lies below the next power of ten, and the point is the next one at most
    have hlt : b.interval.mid * unit < 10 ^ n * step := by
      have hdecade := (value_decade_bounds hpos).2
      rw [show decade b.num b.den + 1 = (n : Int) + k by omega, zpow_add₀ ten_ne_zero,
        zpow_natCast, hvalue] at hdecade
      rw [← not_le, (hscaled b.interval.mid (10 ^ n)).2, not_le, hmid]
      push_cast
      exact hdecade
    have hdiv := (Nat.div_lt_iff_lt_mul hstep_pos).mpr hlt
    omega
  · -- either end of the interval is two units away from the real at most
    have hlow' := (hscaled b.interval.low c).1.mp hlow
    have hhigh' := (hscaled b.interval.high c).2.mp hhigh
    have hlow_cast : 4 * (b.mantissa : ℚ) ≤ b.interval.low + 2 := by exact_mod_cast hbelow
    have hhigh_cast : (b.interval.high : ℚ) = 4 * b.mantissa + 2 := by exact_mod_cast habove
    have hlow_mul := mul_le_mul_of_nonneg_right hlow_cast hpow.le
    rw [hhigh_cast] at hhigh'
    rw [hvalue, hhalf, abs_le]
    constructor <;> linarith

/-- Scaled to seventeen digits, and a rest that is dropped. -/
theorem value_scaled_bounds (hpos : b.mantissa ≠ 0) {e : Int} (he : e = decade b.num b.den) :
    (10 : ℚ) ^ 16 ≤ b.value * (10 ^ 16 / 10 ^ e) ∧ b.value * (10 ^ 16 / 10 ^ e) < 10 ^ 17 := by
  subst he
  obtain ⟨hlow, hhigh⟩ := value_decade_bounds hpos
  have hpow : (0 : ℚ) < 10 ^ decade b.num b.den := by positivity
  rw [zpow_add_one₀ ten_ne_zero] at hhigh
  rw [← mul_div_assoc]
  constructor
  · rw [le_div_iff₀ hpow, mul_comm]
    exact mul_le_mul_of_nonneg_right hlow (by norm_num)
  · rw [div_lt_iff₀ hpow]
    linarith

/-- The last of seventeen digits weighs less than the last binary place. -/
theorem abs_rounded_sub_le (hb : b.Bounded) (hpos : b.mantissa ≠ 0) {e : Int} {m : Nat}
    (he : e = decade b.num b.den) (hround : |(m : ℚ) - b.value * (10 ^ 16 / 10 ^ e)| ≤ 1 / 2) :
    |(m : ℚ) * 10 ^ (e + 1 - (17 : Nat)) - b.value| ≤ 2 ^ (b.exponent - 1) := by
  have hdecade := (value_decade_bounds hpos).1
  rw [← he] at hdecade
  have hpow : (10 : ℚ) ^ (e + 1 - ((17 : Nat) : Int)) = 10 ^ e / 10 ^ 16 := by
    rw [show e + 1 - ((17 : Nat) : Int) = e - 16 by omega, zpow_sub₀ ten_ne_zero]
    norm_num
  have hsplit : (m : ℚ) * 10 ^ (e + 1 - ((17 : Nat) : Int)) - b.value
      = (m - b.value * (10 ^ 16 / 10 ^ e)) * (10 ^ e / 10 ^ 16) := by
    rw [hpow]
    field_simp
  have hmantissa : (b.mantissa : ℚ) < 2 ^ 53 := by exact_mod_cast hb.mantissa_lt
  have hbinary : (0 : ℚ) < 2 ^ b.exponent := by positivity
  have hvalue_lt : b.value < 2 ^ 53 * 2 ^ b.exponent := mul_lt_mul_of_pos_right hmantissa hbinary
  have hstep : (0 : ℚ) < 10 ^ e / 10 ^ 16 := by positivity
  rw [hsplit, abs_mul, abs_of_pos hstep, zpow_sub_one₀ two_ne_zero]
  calc _ ≤ 1 / 2 * (10 ^ e / 10 ^ 16) := mul_le_mul_of_nonneg_right hround hstep.le
    _ ≤ 2 ^ b.exponent * 2⁻¹ := by linarith

/-- Seventeen digits, rounded. -/
theorem approximates_roundDigits (hb : b.Bounded) (hpos : b.mantissa ≠ 0) :
    Approximates b 17 (roundDigits 17 b) := by
  set e := decade b.num b.den with he
  obtain ⟨k, hk⟩ : ∃ k : Int, ((17 : Nat) : Int) - 1 - e = k := ⟨_, rfl⟩
  have hround := abs_roundHalfEven_sub_le (scaled b.num b.den k).1 (scaled_den_pos b.num b.den_pos k)
  obtain ⟨m, hm⟩ : ∃ m, roundHalfEven (scaled b.num b.den k).1 (scaled b.num b.den k).2 = m :=
    ⟨_, rfl⟩
  have hshift : (10 : ℚ) ^ k = 10 ^ 16 / 10 ^ e := by
    rw [show k = 16 - e by omega, zpow_sub₀ ten_ne_zero]
    norm_num
  rw [hm, scaled_div, b.num_div_den, hshift] at hround
  -- the scaled value has seventeen digits, so the whole number next to it has them or is the next power
  obtain ⟨hround_low, hround_high⟩ := abs_le.mp hround
  obtain ⟨hsize_low, hsize_high⟩ := value_scaled_bounds hpos he
  have hm_pos : 0 < m := by
    have hcast : (0 : ℚ) < m := by linarith
    exact_mod_cast hcast
  have hm_le : m ≤ 10 ^ 17 := by
    have hcast : (m : ℚ) < (10 ^ 17 + 1 : Nat) := by
      push_cast
      linarith
    have hlt : m < 10 ^ 17 + 1 := by exact_mod_cast hcast
    omega
  have hcarry := approximates_carry (by decide) le_rfl hm_pos hm_le
    (abs_rounded_sub_le hb hpos he hround) (show 16 < 17 by decide)
  have hdigits : roundDigits 17 b = if m = 10 ^ 17 then ⟨10 ^ 16, e + 1⟩ else ⟨m, e⟩ := by
    unfold roundDigits
    rw [if_neg hpos, ← he]
    dsimp only
    rw [hk, hm]
    rfl
  rw [hdigits]
  by_cases hfull : m = 10 ^ 17
  · rw [if_pos hfull] at hcarry ⊢
    exact hcarry
  · rw [if_neg hfull] at hcarry ⊢
    exact hcarry

/-- **The digits of the shortest text** are half a unit in the last binary place away from the real at
most. -/
theorem approximates_shortestDigits (hb : b.Bounded) (hpos : b.mantissa ≠ 0) :
    Approximates b (shortestDigits b).1 (shortestDigits b).2 := by
  unfold shortestDigits
  rw [if_neg hpos]
  dsimp only
  split
  · next r hr =>
    obtain ⟨n, hn, hattempt⟩ := List.exists_of_findSome?_eq_some hr
    obtain ⟨c, hc, rfl⟩ := Option.map_eq_some_iff.mp hattempt
    have hn_lt := List.mem_range.mp hn
    obtain ⟨hc_pos, hc_le, hnear⟩ := abs_gridPoint_sub_le hpos rfl rfl hc
    have hcarry := approximates_carry (Nat.succ_pos n) (by omega) hc_pos hc_le hnear (Nat.succ_pos n)
    by_cases hfull : c = 10 ^ (n + 1)
    · rw [if_pos hfull] at hcarry
      rw [if_pos (by exact hfull)]
      exact hcarry
    · rw [if_neg hfull] at hcarry
      rw [if_neg (by exact hfull)]
      exact hcarry
  · exact approximates_roundDigits hb hpos

end Approximates

end Worksheet.Decimal
