import Mathlib
import Worksheet.Proofs.Number.Neutral

/-!
# Rounding to a significand of 53 digits

A finite real is a sign, a significand and an exponent. An operation finds the digits of its exact
result, with residual bits for what comes behind them, and rounds them: what is lost is no more than
one part in `2 ^ 53`.

* **`Represents`** — what the residual bits of a significand say about the digits that were dropped;
  `Represents.shiftRight` carries it along a shift, `Represents.roundedMantissa` ends with half a
  digit.
* **`isNear_roundWithAccuracy`**, **`isNear_round`**, **`isNear_div`** — what is rounded is near.
* **`Full.unpack_pack`** — what is rounded is what a real can hold.
-/

namespace Worksheet.Real

open Float.Model (Format UnpackedFloat totalExponent)
open Float.Model.UnpackedFloat

/-! ## Residual bits -/

/-- The residual bits of a significand tell where `x` lies between it and the next one. -/
def Represents (em : ExtendedMantissa) (x : ℚ) : Prop :=
  match em.roundBit, em.stickyBit with
  | false, false => x = em.mantissa
  | false, true => em.mantissa < x ∧ x < em.mantissa + 1 / 2
  | true, false => x = em.mantissa + 1 / 2
  | true, true => em.mantissa + 1 / 2 < x ∧ x < em.mantissa + 1

section Represents

variable {em : ExtendedMantissa} {x : ℚ}

theorem represents_exact (m : Nat) : Represents ⟨m, false, false⟩ m := rfl

theorem Represents.le (h : Represents em x) : (em.mantissa : ℚ) ≤ x := by
  obtain ⟨m, r, s⟩ := em
  cases r <;> cases s <;> simp only [Represents] at h ⊢ <;> linarith

/-- The digit that a shift drops becomes the upper residual bit. -/
theorem Represents.shiftRightOne (h : Represents em x) : Represents em.shiftRightOne (x / 2) := by
  obtain ⟨m, r, s⟩ := em
  rcases Nat.mod_two_eq_zero_or_one m with hm | hm
  · have hhalf : (m : ℚ) = 2 * (m / 2 : Nat) := by exact_mod_cast (by omega : m = 2 * (m / 2))
    cases r <;> cases s <;>
      simp only [Represents, ExtendedMantissa.shiftRightOne, hm, hhalf, bne_self_eq_false,
        Bool.or_false, Bool.or_true] at h ⊢ <;>
      first
      | linarith
      | exact ⟨by linarith, by linarith⟩
  · have hhalf : (m : ℚ) = 2 * (m / 2 : Nat) + 1 := by
      exact_mod_cast (by omega : m = 2 * (m / 2) + 1)
    have hone : (1 != 0) = true := rfl
    cases r <;> cases s <;>
      simp only [Represents, ExtendedMantissa.shiftRightOne, hm, hhalf, hone, Bool.or_false,
        Bool.or_true] at h ⊢ <;>
      first
      | linarith
      | exact ⟨by linarith, by linarith⟩

theorem Represents.shiftRight (h : Represents em x) (k : Nat) :
    Represents (em >>> k) (x / 2 ^ k) := by
  induction k with
  | zero =>
    rw [pow_zero, div_one]
    exact h
  | succ k ih =>
    rw [pow_succ, ← div_div]
    exact ih.shiftRightOne

/-- Rounding to the nearest significand errs by half a digit. -/
theorem Represents.roundedMantissa (h : Represents em x) :
    |(em.roundedMantissa : ℚ) - x| ≤ 1 / 2 := by
  obtain ⟨m, r, s⟩ := em
  rw [abs_le]
  cases r <;> cases s <;>
    simp only [Represents, ExtendedMantissa.roundedMantissa, ExtendedMantissa.accuracy,
      Accuracy.roundToNearestEven] at h ⊢
  · exact ⟨by linarith, by linarith⟩
  · exact ⟨by linarith, by linarith⟩
  · rcases Nat.mod_two_eq_zero_or_one m with hm | hm <;> rw [hm] <;> push_cast <;>
      exact ⟨by linarith, by linarith⟩
  · push_cast
    exact ⟨by linarith, by linarith⟩

/-- The remainder of a division says what the residual bits have to be. -/
theorem represents_accuracyOfFraction (m : Nat) {r d : Nat} (hr : r < d) :
    Represents (.ofMantissaAndAccuracy m (accuracyOfFraction r d)) (m + r / d) := by
  have hd : (0 : ℚ) < d := by exact_mod_cast Nat.zero_lt_of_lt hr
  have hr_lt : (r : ℚ) / d < 1 := by
    rw [div_lt_one hd]
    exact_mod_cast hr
  unfold accuracyOfFraction
  by_cases hzero : r = 0
  · simp [hzero, Represents, ExtendedMantissa.ofMantissaAndAccuracy]
  · have hr_pos : 0 < (r : ℚ) / d := by
      have : (0 : ℚ) < r := by exact_mod_cast Nat.pos_of_ne_zero hzero
      positivity
    rw [if_neg hzero]
    -- the residual bits tell less than a half, a half and more than a half apart
    rcases lt_trichotomy (2 * r) d with hlt | heq | hgt
    · have hhalf : (r : ℚ) / d < 1 / 2 := by
        rw [div_lt_div_iff₀ hd two_pos]
        exact_mod_cast (by omega : r * 2 < 1 * d)
      rw [compare_lt_iff_lt.mpr hlt]
      change (m : ℚ) < m + r / d ∧ (m : ℚ) + r / d < m + 1 / 2
      exact ⟨by linarith, by linarith⟩
    · have hhalf : (r : ℚ) / d = 1 / 2 := by
        rw [div_eq_div_iff hd.ne' two_ne_zero]
        exact_mod_cast (by omega : r * 2 = 1 * d)
      rw [compare_eq_iff_eq.mpr heq]
      exact congrArg ((m : ℚ) + ·) hhalf
    · have hhalf : 1 / 2 < (r : ℚ) / d := by
        rw [div_lt_div_iff₀ two_pos hd]
        exact_mod_cast (by omega : 1 * d < r * 2)
      rw [compare_gt_iff_gt.mpr hgt]
      change (m : ℚ) + 1 / 2 < m + r / d ∧ (m : ℚ) + r / d < m + 1
      exact ⟨by linarith, by linarith⟩

end Represents

/-! ## Rounding an unpacked real -/

/-- A significand and an exponent that a real can have: 53 digits, or fewer at the least exponent. -/
structure Full (m : Nat) (e : Int) : Prop where
  pos : 0 < m
  lt : m < 2 ^ 53
  low : -1074 ≤ e
  full : e = -1074 ∨ 2 ^ 52 ≤ m

/-- An unpacked real with a sign whose magnitude is `q`, rounded. -/
def IsNear (s : Sign) (q : ℚ) (u : UnpackedFloat) : Prop :=
  ∃ m e hm, u = .finite s m e hm ∧ Full m e ∧ |(m : ℚ) * 2 ^ e - q| ≤ q / 2 ^ 53

theorem log2_mul_two_pow {m : Nat} (hm : m ≠ 0) (k : Nat) : (m * 2 ^ k).log2 = m.log2 + k := by
  have hlow := Nat.log2_self_le hm
  have hhigh := Nat.lt_log2_self (n := m)
  have hpow := Nat.two_pow_pos k
  rw [Nat.log2_eq_iff (mul_ne_zero hm hpow.ne')]
  constructor
  · rw [pow_add]
    exact Nat.mul_le_mul_right _ hlow
  · rw [show m.log2 + k + 1 = m.log2 + 1 + k by omega, pow_add]
    exact Nat.mul_lt_mul_of_pos_right hhigh hpow

theorem ofMantissaAndAccuracy_mantissa (m : Nat) (a : Accuracy) :
    (ExtendedMantissa.ofMantissaAndAccuracy m a).mantissa = m := by
  rcases a with - | o
  · rfl
  · cases o <;> rfl

/-- All digits but 53 are shifted out. -/
theorem shiftRight_mantissa_bounds {m k : Nat} (hm : m ≠ 0) (hk : m.log2 = 52 + k) (a : Accuracy) :
    2 ^ 52 ≤ (ExtendedMantissa.ofMantissaAndAccuracy m a >>> k).mantissa ∧
      (ExtendedMantissa.ofMantissaAndAccuracy m a >>> k).mantissa < 2 ^ 53 := by
  have hlow := Nat.log2_self_le hm
  have hhigh := Nat.lt_log2_self (n := m)
  rw [hk, pow_add] at hlow
  rw [hk, show 52 + k + 1 = 53 + k by omega, pow_add] at hhigh
  rw [shiftRight_mantissa, ofMantissaAndAccuracy_mantissa]
  exact ⟨(Nat.le_div_iff_mul_le (Nat.two_pow_pos k)).mpr hlow,
    (Nat.div_lt_iff_lt_mul (Nat.two_pow_pos k)).mpr hhigh⟩

/-- A significand with `53 + k` digits loses `k` of them, unless the exponent is too small for that. -/
theorem shiftToTargetExponent_shiftRight {m k : Nat} {e : Int} {a : Accuracy} (hk : m.log2 = 52 + k)
    (he : -1074 ≤ e + k) :
    shiftToTargetExponent Format.binary64 m e a
      = (ExtendedMantissa.ofMantissaAndAccuracy m a >>> k, e + k) := by
  have htarget : Format.binary64.targetExponent (totalExponent m e) = e + k := by
    rw [targetExponent_eq, totalExponent]
    omega
  have hamount : (e + k - e).toNat = k := by omega
  simp only [shiftToTargetExponent, shiftToExponent, htarget, hamount]

/-- Half a digit is one part in `2 ^ 53` of 53 digits. -/
theorem Represents.abs_roundedMantissa_sub_le {em : ExtendedMantissa} {y : ℚ} (h : Represents em y)
    (hm : 2 ^ 52 ≤ em.mantissa) (e : Int) :
    |(em.roundedMantissa : ℚ) * 2 ^ e - y * 2 ^ e| ≤ y * 2 ^ e / 2 ^ 53 := by
  have hlarge : (2 : ℚ) ^ 52 ≤ y := le_trans (by exact_mod_cast hm) h.le
  have hpow : (0 : ℚ) < 2 ^ e := by positivity
  calc |(em.roundedMantissa : ℚ) * 2 ^ e - y * 2 ^ e|
      = |(em.roundedMantissa : ℚ) - y| * 2 ^ e := by rw [← sub_mul, abs_mul, abs_of_pos hpow]
    _ ≤ 1 / 2 * 2 ^ e := mul_le_mul_of_nonneg_right h.roundedMantissa hpow.le
    _ ≤ y / 2 ^ 53 * 2 ^ e := by
        refine mul_le_mul_of_nonneg_right ?_ hpow.le
        rw [le_div_iff₀ (by positivity)]
        linarith
    _ = y * 2 ^ e / 2 ^ 53 := by rw [div_mul_eq_mul_div]

/-- **A significand with 53 digits or more is rounded** to 53 of them, unless the exponent is too
small for that. -/
theorem isNear_roundWithAccuracy (s : Sign) {m : Nat} {e : Int} {a : Accuracy} {x : ℚ}
    (hx : Represents (.ofMantissaAndAccuracy m a) x) (hm : 52 ≤ m.log2)
    (he : -1074 ≤ e + m.log2 - 52) :
    IsNear s (x * 2 ^ e) (roundWithAccuracy Format.binary64 s m e a) := by
  obtain ⟨k, hk⟩ : ∃ k, m.log2 = 52 + k := ⟨m.log2 - 52, by omega⟩
  have hm_ne : m ≠ 0 := by
    rintro rfl
    exact absurd hm (by decide)
  have hshift := shiftToTargetExponent_shiftRight (a := a) hk (e := e) (by omega)
  have hmantissa := shiftRight_mantissa_bounds hm_ne hk a
  have hrep := hx.shiftRight k
  generalize ExtendedMantissa.ofMantissaAndAccuracy m a >>> k = em at hshift hmantissa hrep
  have hbounds := roundedMantissa_bounds em
  have hsplit : x * 2 ^ e = x / 2 ^ k * (2 : ℚ) ^ (e + k) := by
    rw [zpow_add₀ two_ne_zero, zpow_natCast]
    field_simp
  rw [hsplit]
  have hnear := hrep.abs_roundedMantissa_sub_le hmantissa.1 (e + k)
  -- rounding up may carry into one more digit, which the exponent takes
  by_cases hcarry : em.roundedMantissa < 2 ^ 53
  · have hl : 2 ^ 52 ≤ em.roundedMantissa := hmantissa.1.trans hbounds.1
    exact ⟨em.roundedMantissa, e + k, by omega,
      roundWithAccuracy_eq s hshift rfl hl hcarry (by omega),
      ⟨by omega, hcarry, by omega, .inr hl⟩, hnear⟩
  · have hr : em.roundedMantissa = 2 ^ 53 := by omega
    refine ⟨2 ^ 52, e + k + 1, by decide, roundWithAccuracy_carry s hshift hr (by omega),
      ⟨by decide, by decide, by omega, .inr le_rfl⟩, ?_⟩
    have hvalue : ((2 ^ 52 : Nat) : ℚ) * 2 ^ (e + k + 1) = (em.roundedMantissa : ℚ) * 2 ^ (e + k) := by
      rw [hr, zpow_add₀ two_ne_zero (e + k) 1]
      push_cast
      ring
    rwa [hvalue]

/-- At the least exponent nothing is rounded. -/
theorem roundWithAccuracy_least (s : Sign) {m : Nat} (hpos : 0 < m) (hm : m < 2 ^ 53) :
    roundWithAccuracy Format.binary64 s m (-1074) .exact = .finite s m (-1074) hpos := by
  have hround : (⟨m, false, false⟩ : ExtendedMantissa).roundedMantissa = m := rfl
  simp only [roundWithAccuracy, shiftToTargetExponent_eq hm le_rfl, hround]
  rw [dif_neg hpos.ne']

/-- **An exact significand is rounded**, and kept if the exponent is the least one. -/
theorem isNear_round (s : Sign) {m : Nat} {e : Int} (hm : m ≠ 0) (he : -1074 ≤ e) :
    IsNear s (m * 2 ^ e) (UnpackedFloat.round Format.binary64 s m e) := by
  have hshifted (j : Nat) : (m : ℚ) * 2 ^ e = ((m * 2 ^ j : Nat) : ℚ) * 2 ^ (e - j) := by
    rw [zpow_sub₀ two_ne_zero, zpow_natCast]
    push_cast
    field_simp
  by_cases hnormal : -1074 ≤ e + m.log2 - 52
  · -- the significand is shifted until it has fifty-three digits at least
    have htarget : Format.binary64.targetExponent (totalExponent m e) = e + m.log2 - 52 := by
      rw [targetExponent_eq, totalExponent]
      omega
    obtain ⟨j, hj⟩ : ∃ j : Nat, (e - (e + m.log2 - 52)).toNat = j := ⟨_, rfl⟩
    simp only [UnpackedFloat.round, htarget, decreaseExponent, hj, Nat.shiftLeft_eq]
    have hlog := log2_mul_two_pow hm j
    rw [hshifted j]
    exact isNear_roundWithAccuracy s (represents_exact _) (by omega) (by omega)
  · -- at the least exponent it has fewer, and none of them is lost
    have htarget : Format.binary64.targetExponent (totalExponent m e) = -1074 := by
      rw [targetExponent_eq, totalExponent]
      omega
    obtain ⟨j, hj⟩ : ∃ j : Nat, e + 1074 = j := ⟨(e + 1074).toNat, by omega⟩
    have hamount : (e - (-1074)).toNat = j := by omega
    have hleast : e - (j : Int) = -1074 := by omega
    have hpos : 0 < m * 2 ^ j := Nat.mul_pos (Nat.pos_of_ne_zero hm) (Nat.two_pow_pos j)
    have hlt : m * 2 ^ j < 2 ^ 53 := by
      have hlog := log2_mul_two_pow hm j
      exact (Nat.log2_lt hpos.ne').mp (by omega)
    simp only [UnpackedFloat.round, htarget, decreaseExponent, hamount, Nat.shiftLeft_eq, hleast,
      roundWithAccuracy_least s hpos hlt]
    refine ⟨m * 2 ^ j, -1074, hpos, rfl, ⟨hpos, hlt, le_rfl, .inl rfl⟩, ?_⟩
    rw [hshifted j, hleast, sub_self, abs_zero]
    positivity

theorem lt_two_zpow (m : Nat) : (m : ℚ) < 2 ^ ((m.log2 : Int) + 1) := by
  have h := Nat.lt_log2_self (n := m)
  exact_mod_cast h

theorem two_zpow_le {m : Nat} (hm : m ≠ 0) : (2 : ℚ) ^ (m.log2 : Int) ≤ m := by
  have h := Nat.log2_self_le hm
  exact_mod_cast h

/-- The total exponents bound a quotient. -/
theorem div_le_two_zpow {m n : Nat} (hn : 0 < n) (e f : Int) :
    (m : ℚ) * 2 ^ e / (n * 2 ^ f) ≤ 2 ^ (totalExponent m e - totalExponent n f + 1) := by
  have hn_pos : (0 : ℚ) < n := by exact_mod_cast hn
  have hexponent : (m.log2 : Int) + 1 + e
      = totalExponent m e - totalExponent n f + 1 + (n.log2 + f) := by
    rw [totalExponent, totalExponent]
    omega
  rw [div_le_iff₀ (by positivity)]
  calc (m : ℚ) * 2 ^ e ≤ 2 ^ ((m.log2 : Int) + 1) * 2 ^ e :=
        mul_le_mul_of_nonneg_right (lt_two_zpow m).le (by positivity)
    _ = 2 ^ (totalExponent m e - totalExponent n f + 1) * (2 ^ (n.log2 : Int) * 2 ^ f) := by
        rw [← zpow_add₀ two_ne_zero, ← zpow_add₀ two_ne_zero, ← zpow_add₀ two_ne_zero, hexponent]
    _ ≤ 2 ^ (totalExponent m e - totalExponent n f + 1) * (n * 2 ^ f) := by
        have hlog := two_zpow_le hn.ne'
        gcongr

/-- The total exponents of a quotient that is not tiny are not far apart. -/
theorem lt_totalExponent_sub {m n : Nat} {e f : Int} (hn : 0 < n)
    (hlow : 1 < (m : ℚ) * 2 ^ e / (n * 2 ^ f) * 2 ^ 200) :
    -201 < totalExponent m e - totalExponent n f := by
  by_contra hsmall
  have hpow : (2 : ℚ) ^ (totalExponent m e - totalExponent n f + 1) * 2 ^ (200 : Int) ≤ 1 := by
    rw [← zpow_add₀ two_ne_zero]
    exact zpow_le_one_of_nonpos₀ one_le_two (by omega)
  have hscaled := mul_le_mul_of_nonneg_right (div_le_two_zpow (m := m) hn e f)
    (by norm_num : (0 : ℚ) ≤ 2 ^ 200)
  have hcast : (2 : ℚ) ^ (200 : Int) = 2 ^ 200 := by norm_num
  rw [hcast] at hpow
  linarith

/-- A quotient of significands, shifted by `j` digits, is rounded with what the remainder says. -/
theorem div_eq_roundWithAccuracy (s t : Sign) {m n : Nat} {e f : Int} {j : Nat} (hm : 0 < m)
    (hn : 0 < n) (hlow : -201 < totalExponent m e - totalExponent n f)
    (hj : e - f - min (e - f) (totalExponent m e - totalExponent n f - 53) = j) :
    UnpackedFloat.div Format.binary64 (.finite s m e hm) (.finite t n f hn) =
      roundWithAccuracy Format.binary64 (s / t) (m * 2 ^ j / n) (e - f - j)
        (accuracyOfFraction (m * 2 ^ j % n) n) := by
  have htarget : Format.binary64.targetExponent (totalExponent m e - totalExponent n f)
      = totalExponent m e - totalExponent n f - 53 := by
    rw [targetExponent_eq]
    omega
  have hexponent : min (e - f) (totalExponent m e - totalExponent n f - 53) = e - f - j := by omega
  simp only [UnpackedFloat.div, divCore, htarget, hexponent, sub_sub_cancel, Int.toNat_natCast,
    Nat.shiftLeft_eq]

theorem cast_div_add_mod (m : Nat) {n : Nat} (hn : 0 < n) :
    ((m / n : Nat) : ℚ) + ((m % n : Nat) : ℚ) / n = m / n := by
  have hn_pos : (0 : ℚ) < n := by exact_mod_cast hn
  have hsplit : (m : ℚ) = n * (m / n : Nat) + (m % n : Nat) := by
    exact_mod_cast (Nat.div_add_mod m n).symm
  rw [hsplit]
  field_simp

/-- **A quotient of significands is rounded**, if it is not tiny: the dividend gets so many zeros that
the whole part of the quotient has 53 digits. -/
theorem isNear_div (s t : Sign) {m n : Nat} {e f : Int} (hm : 0 < m) (hn : 0 < n)
    (hlow : 1 < (m : ℚ) * 2 ^ e / (n * 2 ^ f) * 2 ^ 200) :
    IsNear (s / t) ((m : ℚ) * 2 ^ e / (n * 2 ^ f))
      (UnpackedFloat.div Format.binary64 (.finite s m e hm) (.finite t n f hn)) := by
  have hn_pos : (0 : ℚ) < n := by exact_mod_cast hn
  have htotal := lt_totalExponent_sub hn hlow
  obtain ⟨j, hj⟩ : ∃ j : Nat,
      e - f - min (e - f) (totalExponent m e - totalExponent n f - 53) = j :=
    ⟨(e - f - min (e - f) (totalExponent m e - totalExponent n f - 53)).toNat, by omega⟩
  have hdiv := div_eq_roundWithAccuracy s t hm hn htotal hj
  rw [totalExponent, totalExponent] at htotal hj
  -- the whole part of the quotient has no fewer digits than the lengths of the significands say
  obtain ⟨k, hk⟩ : ∃ k, m.log2 + j = k + (n.log2 + 1) := ⟨m.log2 + j - (n.log2 + 1), by omega⟩
  have hmany : 2 ^ k ≤ m * 2 ^ j / n := by
    rw [Nat.le_div_iff_mul_le hn]
    have hn_lt := (Nat.lt_log2_self (n := n)).le
    have hm_le := Nat.log2_self_le hm.ne'
    calc 2 ^ k * n ≤ 2 ^ k * 2 ^ (n.log2 + 1) := Nat.mul_le_mul_left _ hn_lt
      _ = 2 ^ m.log2 * 2 ^ j := by rw [← pow_add, ← pow_add, hk]
      _ ≤ m * 2 ^ j := Nat.mul_le_mul_right _ hm_le
  have hlog : k ≤ (m * 2 ^ j / n).log2 := by
    have hpow := Nat.two_pow_pos k
    exact (Nat.le_log2 (by omega)).mpr hmany
  have hvalue : (m : ℚ) * 2 ^ e / (n * 2 ^ f) = (m * 2 ^ j : Nat) / n * 2 ^ (e - f - j) := by
    rw [zpow_sub₀ two_ne_zero, zpow_sub₀ two_ne_zero, zpow_natCast]
    push_cast
    field_simp
  have hrep := represents_accuracyOfFraction (m * 2 ^ j / n) (Nat.mod_lt (m * 2 ^ j) hn)
  rw [cast_div_add_mod _ hn] at hrep
  rw [hdiv, hvalue]
  exact isNear_roundWithAccuracy _ hrep (by omega) (by omega)

/-! ## Packing -/

/-- A significand with fewer digits is packed with the least exponent. -/
theorem unpack_pack_least (s : Sign) {m : Nat} (hpos : 0 < m) (hm : m < 2 ^ 52) :
    (Float.Model.pack (.finite s m (-1074) hpos)).unpack = .finite s m (-1074) hpos := by
  have hlog : m.log2 < 52 := (Nat.log2_lt hpos.ne').mpr hm
  have hbiased : ((-1074 : Int) + Format.binary64.exponentBias +
      Format.binary64.mantissaBitsWithoutImplicit).toNat = 1 := rfl
  have hpack : UnpackedFloat.pack Format.binary64 (.finite s m (-1074) hpos) =
      packComponents Format.binary64 s 0#11 (.ofNat 52 m) := by
    simp only [UnpackedFloat.pack, hbiased]
    rw [if_neg (by decide), if_neg (by change ¬ m.log2 + 1 = 53; omega)]
  have hmantissa : (BitVec.ofNat 52 m).toNat = m := by
    rw [BitVec.toNat_ofNat, Nat.mod_eq_of_lt hm]
  have hzero : BitVec.ofNat 52 m ≠ 0#52 := by
    intro heq
    have := congrArg BitVec.toNat heq
    rw [hmantissa] at this
    exact hpos.ne' this
  change UnpackedFloat.unpack Format.binary64 (UnpackedFloat.pack Format.binary64 _) = _
  rw [hpack, UnpackedFloat.unpack]
  simp only [unpackExponent_packComponents, unpackMantissa_packComponents,
    unpackSign_packComponents, Sign.ofBitVec_toBitVec]
  rw [if_neg (by decide), if_pos trivial, dif_neg hzero]
  congr 1

theorem Full.unpack_pack {m : Nat} {e : Int} (h : Full m e) (s : Sign) (heu : e ≤ 971) :
    (Float.Model.pack (.finite s m e h.pos)).unpack = .finite s m e h.pos := by
  by_cases hl : 2 ^ 52 ≤ m
  · exact unpack_pack_finite s h.pos hl h.lt h.low heu
  · obtain rfl : e = -1074 := h.full.resolve_right hl
    exact unpack_pack_least s h.pos (not_le.mp hl)

theorem Full.exponent_le {m : Nat} {e : Int} (h : Full m e) (hvalue : (m : ℚ) * 2 ^ e < 2 ^ 201) :
    e ≤ 971 := by
  by_contra hlarge
  have hl : (2 : ℚ) ^ 52 ≤ m := by
    exact_mod_cast h.full.resolve_left (by omega)
  have hpow : (2 : ℚ) ^ (149 : Int) ≤ 2 ^ e := zpow_le_zpow_right₀ one_le_two (by omega)
  have hproduct : (2 : ℚ) ^ 52 * 2 ^ (149 : Int) ≤ m * 2 ^ e :=
    mul_le_mul hl hpow (by positivity) (by positivity)
  have heq : (2 : ℚ) ^ 52 * 2 ^ (149 : Int) = 2 ^ 201 := by
    rw [← zpow_natCast, ← zpow_natCast, ← zpow_add₀ two_ne_zero]
    norm_num
  linarith

theorem unpack_pack_zero (s : Sign) : (Float.Model.pack (.zero s)).unpack = .zero s := by
  cases s <;> rfl

end Worksheet.Real
