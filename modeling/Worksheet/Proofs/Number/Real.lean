import Mathlib
import Worksheet.Number.Real

/-!
# The order of reals

A real is kept as a sign, an exponent and a significand, and the order compares them one after the
other. That is right for reals whose significand is filled up to 53 digits, which is how rounding
leaves them; an integer that needs more digits loses some.

* **`rank`** — where a real stands; reals other than NaN are ordered as their ranks are
  (`lt_iff_rank`, `beq_iff_rank`).
* **`unpack_ofWord`** — a word as a real.
* **`isNaN_ofWord`**, **`isNaN_div_ofWord`** — words and their quotients are numbers.
* **`rank_ofWord_lt`** — integers up to `2 ^ 53` keep their order.
-/

namespace Worksheet.Real

open Float.Model (Format UnpackedFloat totalExponent)
open Float.Model.UnpackedFloat

/-! ## Rounding -/

theorem targetExponent_eq (t : Int) : Format.binary64.targetExponent t = max (t - 53) (-1074) := rfl

theorem shiftRight_mantissa (em : ExtendedMantissa) (k : Nat) :
    (em >>> k).mantissa = em.mantissa / 2 ^ k := by
  induction k with
  | zero => exact (Nat.div_one _).symm
  | succ k ih =>
    change (em >>> k).mantissa / 2 = _
    rw [ih, Nat.div_div_eq_div_mul, pow_succ]

theorem roundedMantissa_bounds (em : ExtendedMantissa) :
    em.mantissa ≤ em.roundedMantissa ∧ em.roundedMantissa ≤ em.mantissa + 1 := by
  obtain ⟨m, r, s⟩ := em
  cases r <;> cases s <;>
    simp only [ExtendedMantissa.roundedMantissa, ExtendedMantissa.accuracy,
      Accuracy.roundToNearestEven] <;> omega

/-- A significand of at most 53 digits stays as it is. -/
theorem shiftToTargetExponent_eq {m : Nat} {e : Int} (hm : m < 2 ^ 53) (he : -1074 ≤ e) :
    shiftToTargetExponent Format.binary64 m e .exact = (⟨m, false, false⟩, e) := by
  have hlog : m.log2 ≤ 52 := by
    rcases eq_or_ne m 0 with rfl | hzero
    · decide
    · have := (Nat.log2_lt hzero).mpr hm
      omega
  have hshift : (Format.binary64.targetExponent (totalExponent m e) - e).toNat = 0 := by
    rw [targetExponent_eq, totalExponent]
    omega
  simp only [shiftToTargetExponent, shiftToExponent, hshift, Int.natCast_zero, add_zero]
  rfl

/-- A carry into the 54th digit moves the exponent. -/
theorem shiftToTargetExponent_carry {e : Int} (he : -1074 ≤ e) :
    shiftToTargetExponent Format.binary64 (2 ^ 53) e .exact = (⟨2 ^ 52, false, false⟩, e + 1) := by
  have hshift : (Format.binary64.targetExponent (totalExponent (2 ^ 53) e) - e).toNat = 1 := by
    rw [targetExponent_eq, totalExponent, Nat.log2_two_pow]
    omega
  simp only [shiftToTargetExponent, shiftToExponent, hshift]
  rfl

/-- What rounding keeps: 53 digits of the significand, or 54 if the last step carries. -/
theorem roundWithAccuracy_eq (s : Sign) {m r : Nat} {e f : Int} {a : Accuracy}
    {em : ExtendedMantissa} (h : shiftToTargetExponent Format.binary64 m e a = (em, f))
    (hr : em.roundedMantissa = r) (hl : 2 ^ 52 ≤ r) (hu : r < 2 ^ 53) (hf : -1074 ≤ f) :
    roundWithAccuracy Format.binary64 s m e a = .finite s r f (by omega) := by
  simp only [roundWithAccuracy, h, hr, shiftToTargetExponent_eq hu hf]
  rw [dif_neg (by omega)]

theorem roundWithAccuracy_carry (s : Sign) {m : Nat} {e f : Int} {a : Accuracy}
    {em : ExtendedMantissa} (h : shiftToTargetExponent Format.binary64 m e a = (em, f))
    (hr : em.roundedMantissa = 2 ^ 53) (hf : -1074 ≤ f) :
    roundWithAccuracy Format.binary64 s m e a = .finite s (2 ^ 52) (f + 1) (by decide) := by
  simp only [roundWithAccuracy, h, hr, shiftToTargetExponent_carry hf]
  rfl

/-- The significand and the exponent that a positive integer is rounded to. Up to `2 ^ 53` they say
which integer it was. -/
structure Rounded (n m : Nat) (e : Int) : Prop where
  low : 2 ^ 52 ≤ m
  high : m < 2 ^ 53
  exponent_low : -52 ≤ e
  exponent_high : e ≤ 12
  exact : n ≤ 2 ^ 53 → e = n.log2 - 52 ∧ m * 2 ^ n.log2 = n * 2 ^ 52

/-- An unpacked real with a sign that a positive integer was rounded to. -/
def IsRounded (s : Sign) (n : Nat) (x : UnpackedFloat) : Prop :=
  ∃ m e hm, x = .finite s m e hm ∧ Rounded n m e

/-- A short significand is filled up with zeros. -/
theorem isRounded_small (s : Sign) {n : Nat} (hn : n ≠ 0) (hlog : n.log2 ≤ 52) :
    IsRounded s n (UnpackedFloat.round Format.binary64 s n 0) := by
  have htarget : Format.binary64.targetExponent (totalExponent n 0) = (n.log2 : Int) - 52 := by
    rw [targetExponent_eq, totalExponent]
    omega
  have hshift : (0 - ((n.log2 : Int) - 52)).toNat = 52 - n.log2 := by omega
  have hexponent : (0 : Int) - ((52 - n.log2 : Nat) : Int) = n.log2 - 52 := by omega
  have hpow (k : Nat) (hk : n.log2 ≤ k) : 2 ^ n.log2 * 2 ^ (k - n.log2) = 2 ^ k := by
    rw [← pow_add, Nat.add_sub_cancel' hk]
  have hl : 2 ^ 52 ≤ n * 2 ^ (52 - n.log2) := by
    rw [← hpow 52 hlog]
    exact Nat.mul_le_mul_right _ (Nat.log2_self_le hn)
  have hu : n * 2 ^ (52 - n.log2) < 2 ^ 53 := by
    rw [← hpow 53 (by omega), show 53 - n.log2 = 52 - n.log2 + 1 by omega, pow_succ',
      ← mul_assoc, ← pow_succ]
    exact Nat.mul_lt_mul_of_pos_right Nat.lt_log2_self (Nat.two_pow_pos _)
  -- all 53 digits are there before the first shift, so both shifts do nothing
  refine ⟨n * 2 ^ (52 - n.log2), n.log2 - 52, by omega, ?_, hl, hu, by omega, by omega,
    fun _ => ⟨rfl, by rw [mul_assoc, mul_comm (2 ^ (52 - _)), hpow 52 hlog]⟩⟩
  simp only [UnpackedFloat.round, htarget, decreaseExponent, hshift, hexponent, Nat.shiftLeft_eq]
  exact roundWithAccuracy_eq s (shiftToTargetExponent_eq hu (by omega)) rfl hl hu (by omega)

/-- A long significand loses digits. -/
theorem isRounded_large (s : Sign) {n : Nat} (hlarge : 2 ^ 53 < n) (hword : n < 2 ^ 64) :
    IsRounded s n (UnpackedFloat.round Format.binary64 s n 0) := by
  have hlog : 53 ≤ n.log2 := (Nat.le_log2 (by omega)).mpr hlarge.le
  have hlog' : n.log2 < 64 := (Nat.log2_lt (by omega)).mpr hword
  obtain ⟨k, hk⟩ : ∃ k, n.log2 = 52 + k := ⟨n.log2 - 52, by omega⟩
  have htarget : Format.binary64.targetExponent (totalExponent n 0) = k := by
    rw [targetExponent_eq, totalExponent]
    omega
  -- the first shift drops `k` digits, the second one drops another if rounding up carried
  set em := (⟨n, false, false⟩ : ExtendedMantissa) >>> k with hem
  have hshift : shiftToTargetExponent Format.binary64 n 0 .exact = (em, (k : Int)) := by
    simp only [shiftToTargetExponent, shiftToExponent, htarget, sub_zero, Int.toNat_natCast,
      zero_add]
    rfl
  have hround : UnpackedFloat.round Format.binary64 s n 0 =
      roundWithAccuracy Format.binary64 s n 0 .exact := by
    simp only [UnpackedFloat.round, htarget, decreaseExponent, zero_sub, Int.toNat_neg_natCast,
      Nat.shiftLeft_zero, Int.natCast_zero]
    rfl
  have hmantissa : 2 ^ 52 ≤ em.mantissa ∧ em.mantissa < 2 ^ 53 := by
    rw [hem, shiftRight_mantissa]
    have hl := Nat.log2_self_le (n := n) (by omega)
    have hu := Nat.lt_log2_self (n := n)
    rw [hk, pow_add] at hl
    rw [hk, show 52 + k + 1 = 53 + k by omega, pow_add] at hu
    exact ⟨(Nat.le_div_iff_mul_le (Nat.two_pow_pos k)).mpr hl,
      (Nat.div_lt_iff_lt_mul (Nat.two_pow_pos k)).mpr hu⟩
  have hbounds := roundedMantissa_bounds em
  by_cases hcarry : em.roundedMantissa < 2 ^ 53
  · have hl : 2 ^ 52 ≤ em.roundedMantissa := hmantissa.1.trans hbounds.1
    exact ⟨em.roundedMantissa, k, by omega,
      hround.trans (roundWithAccuracy_eq s hshift rfl hl hcarry (by omega)),
      hl, hcarry, by omega, by omega, fun h => by omega⟩
  · exact ⟨2 ^ 52, k + 1, by decide,
      hround.trans (roundWithAccuracy_carry s hshift (by omega) (by omega)),
      le_rfl, by decide, by omega, by omega, fun h => by omega⟩

theorem isRounded_round (s : Sign) {n : Nat} (hn : n ≠ 0) (hword : n < 2 ^ 64) :
    IsRounded s n (UnpackedFloat.round Format.binary64 s n 0) := by
  rcases lt_trichotomy n (2 ^ 53) with hsmall | rfl | hlarge
  · exact isRounded_small s hn (by have := (Nat.log2_lt hn).mpr hsmall; omega)
  · refine ⟨2 ^ 52, 1, by decide, rfl, le_rfl, by decide, by decide, by decide, fun _ => ?_⟩
    rw [Nat.log2_two_pow]
    decide
  · exact isRounded_large s hlarge hword

/-! ## Packing -/

/-- An exponent below the greatest one is not that of an infinity. -/
theorem ofNat_ne_neg_one {b : Nat} (h : b + 1 < 2 ^ 11) : BitVec.ofNat 11 b ≠ -1#11 := by
  intro heq
  have := congrArg BitVec.toNat heq
  rw [BitVec.toNat_ofNat, Nat.mod_eq_of_lt (by omega)] at this
  change b = 2047 at this
  omega

/-- Packing never makes a number into none. -/
theorem isNaN_unpack_pack {x : UnpackedFloat} (hx : x.isNaN = false) :
    (Float.Model.pack x).unpack.isNaN = false := by
  rw [← Bool.not_eq_true, Float.Model.unpack, isNaN_unpack_iff_of_valid (Float.Model.pack x).valid]
  intro heq
  have hbits : isNaNBits (UnpackedFloat.pack Format.binary64 x) = true :=
    (congrArg isNaNBits heq).trans isNaNBits_packedNaN
  obtain ⟨hexponent, hmantissa⟩ := of_decide_eq_true hbits
  refine hmantissa ?_
  revert hx hexponent
  -- only an infinity has the greatest exponent, and its significand is empty
  fun_cases UnpackedFloat.pack Format.binary64 x with
  | case1 => exact fun h => nomatch h
  | case2 s => simp [packedInfinity]
  | case3 s => simp [packedZero]
  | case4 s m e hm biased h => simp [packedInfinity]
  | case5 s m e hm digits biased hfits hnormal =>
    rw [unpackExponent_packComponents]
    exact fun _ h => absurd h (ofNat_ne_neg_one (not_le.mp hfits))
  | case6 s m e hm digits biased hfits hnormal =>
    rw [unpackExponent_packComponents]
    exact fun _ h => absurd h (by decide)

/-- The 53rd digit of a significand is implicit. -/
theorem append_ofNat {m : Nat} (hl : 2 ^ 52 ≤ m) (hu : m < 2 ^ 53) :
    (1#1 ++ BitVec.ofNat 52 m).toNat = m := by
  rw [BitVec.toNat_append, ← Nat.shiftLeft_add_eq_or_of_lt (BitVec.isLt _), BitVec.toNat_ofNat,
    Nat.shiftLeft_eq]
  change 1 * 2 ^ 52 + m % 2 ^ 52 = m
  omega

theorem unpack_pack_finite (s : Sign) {m : Nat} {e : Int} (hpos : 0 < m) (hl : 2 ^ 52 ≤ m)
    (hu : m < 2 ^ 53) (hel : -1074 ≤ e) (heu : e ≤ 971) :
    (Float.Model.pack (.finite s m e hpos)).unpack = .finite s m e hpos := by
  obtain ⟨b, hb⟩ : ∃ b : Nat, e + 1075 = b := ⟨(e + 1075).toNat, by omega⟩
  have hlog : m.log2 = 52 := (Nat.log2_eq_iff (by omega)).mpr ⟨hl, hu⟩
  have hbiased : (e + Format.binary64.exponentBias +
      Format.binary64.mantissaBitsWithoutImplicit).toNat = b := by
    change (e + 1023 + 52).toNat = b
    omega
  have hpack : UnpackedFloat.pack Format.binary64 (.finite s m e hpos) =
      packComponents Format.binary64 s (.ofNat 11 b) (.ofNat 52 m) := by
    simp only [UnpackedFloat.pack, hbiased, hlog]
    rw [if_neg (by change ¬ 2048 ≤ b + 1; omega),
      if_pos (show 52 + 1 = Format.binary64.mantissaBits from rfl)]
  have hzero : BitVec.ofNat 11 b ≠ 0#11 := by
    intro heq
    have := congrArg BitVec.toNat heq
    rw [BitVec.toNat_ofNat, Nat.mod_eq_of_lt (by omega)] at this
    change b = 0 at this
    omega
  change UnpackedFloat.unpack Format.binary64 (UnpackedFloat.pack Format.binary64 _) = _
  rw [hpack, UnpackedFloat.unpack]
  simp only [unpackExponent_packComponents, unpackMantissa_packComponents,
    unpackSign_packComponents, Sign.ofBitVec_toBitVec]
  rw [if_neg (ofNat_ne_neg_one (by omega)), if_neg hzero]
  congr 1
  · exact append_ofNat hl hu
  · rw [BitVec.toNat_ofNat, Nat.mod_eq_of_lt (by omega)]
    change (b : Int) - (1023 + 52) = e
    omega

/-! ## Order -/

/-- Where an unpacked real stands among the others: below or above zero, then by exponent, then by
significand. Below zero both count downwards. -/
def place : UnpackedFloat → ℤ ×ₗ ℤ ×ₗ ℤ
  | .infinity .negative => toLex (-2, toLex (0, 0))
  | .finite .negative m e _ => toLex (-1, toLex (-e, -m))
  | .zero _ | .notANumber => toLex (0, toLex (0, 0))
  | .finite .positive m e _ => toLex (1, toLex (e, m))
  | .infinity .positive => toLex (2, toLex (0, 0))

theorem compare_toLex {α β : Type*} [LinearOrder α] [LinearOrder β] (a c : α) (b d : β) :
    Ord.compare (toLex (a, b)) (toLex (c, d)) = (Ord.compare a c).then (Ord.compare b d) := by
  rw [Prod.Lex.compare_def]
  rfl

theorem compare_neg (a b : ℤ) : Ord.compare (-a) (-b) = (Ord.compare a b).swap := by
  rw [← cmp_eq_compare, ← cmp_eq_compare, cmp_swap]
  exact StrictAnti.cmp_map_eq (fun _ _ => Int.neg_lt_neg) a b

theorem compare_cast (a b : ℕ) : Ord.compare (a : ℤ) b = Ord.compare a b := by
  rw [← cmp_eq_compare, ← cmp_eq_compare]
  exact StrictMono.cmp_map_eq (f := Nat.cast) (fun _ _ => Int.ofNat_lt.mpr) a b

/-- The order of unpacked reals is that of their places. -/
theorem compare_eq_place {x y : UnpackedFloat} (hx : x.isNaN = false) (hy : y.isNaN = false) :
    x.compare y = some (Ord.compare (place x) (place y)) := by
  cases x with
  | notANumber => cases hx
  | infinity s =>
    cases y with
    | notANumber => cases hy
    | infinity t => cases s <;> cases t <;> rfl
    | zero t => cases s <;> rfl
    | finite t => cases s <;> cases t <;> rfl
  | zero s =>
    cases y with
    | notANumber => cases hy
    | infinity t => cases t <;> rfl
    | zero t => rfl
    | finite t => cases t <;> rfl
  | finite s m e hm =>
    cases y with
    | notANumber => cases hy
    | infinity t => cases s <;> cases t <;> rfl
    | zero t => cases s <;> rfl
    | finite t n f hn =>
      cases s <;> cases t <;>
        simp [UnpackedFloat.compare, place, compare_toLex, compare_neg, compare_cast,
          Ordering.swap_then] <;> rfl

/-- Where a real stands among the others. -/
def rank (x : Float) : ℤ ×ₗ ℤ ×ₗ ℤ := place x.toModel.unpack

variable {x y : Float}

theorem compare_rank (hx : x.isNaN = false) (hy : y.isNaN = false) :
    x.toModel.unpack.compare y.toModel.unpack = some (cmp (rank x) (rank y)) := by
  rw [cmp_eq_compare]
  exact compare_eq_place hx hy

theorem lt_iff_rank (hx : x.isNaN = false) (hy : y.isNaN = false) : x < y ↔ rank x < rank y := by
  have hlt : x < y ↔ (x.toModel.unpack.compare y.toModel.unpack == some .lt) = true := by
    change decide (_ = true) = true ↔ _
    rw [decide_eq_true_iff]
    rfl
  rw [hlt, compare_rank hx hy, beq_iff_eq, Option.some_inj, cmp_eq_lt_iff]

theorem beq_iff_rank (hx : x.isNaN = false) (hy : y.isNaN = false) :
    (x == y) = true ↔ rank x = rank y := by
  have hbeq : (x == y) = (x.toModel.unpack.compare y.toModel.unpack == some .eq) := rfl
  rw [hbeq, compare_rank hx hy, beq_iff_eq, Option.some_inj, cmp_eq_eq_iff]

/-! ## Words -/

theorem unpack_pack_round (s : Sign) {n : Nat} (hn : n ≠ 0) (hword : n < 2 ^ 64) :
    IsRounded s n (Float.Model.pack (UnpackedFloat.round Format.binary64 s n 0)).unpack := by
  obtain ⟨m, e, hm, hround, hnear⟩ := isRounded_round s hn hword
  have hel := hnear.exponent_low
  have heu := hnear.exponent_high
  rw [hround, unpack_pack_finite s hm hnear.low hnear.high (by omega) (by omega)]
  exact ⟨m, e, hm, rfl, hnear⟩

/-- A word as a real has its sign, and it is zero only for zero. -/
theorem unpack_ofWord (n : Int64) :
    (n.toInt < 0 ∧ IsRounded .negative n.toInt.natAbs (ofWord n).toModel.unpack) ∨
    (n.toInt = 0 ∧ (ofWord n).toModel.unpack = .zero .positive) ∨
    (0 < n.toInt ∧ IsRounded .positive n.toInt.natAbs (ofWord n).toModel.unpack) := by
  have hl := n.le_toInt
  have hu := n.toInt_lt
  have hmodel : (ofWord n).toModel =
      Float.Model.pack (UnpackedFloat.normalize Format.binary64 n.toInt 0 .positive) := rfl
  rw [hmodel, UnpackedFloat.normalize]
  rcases lt_trichotomy n.toInt 0 with hneg | hzero | hpos
  · refine .inl ⟨hneg, ?_⟩
    rw [compare_lt_iff_lt.mpr hneg, show (-n.toInt).toNat = n.toInt.natAbs by omega]
    exact unpack_pack_round .negative (by omega) (by omega)
  · rw [hzero]
    exact .inr (.inl ⟨rfl, rfl⟩)
  · refine .inr (.inr ⟨hpos, ?_⟩)
    rw [compare_gt_iff_gt.mpr hpos, show n.toInt.toNat = n.toInt.natAbs by omega]
    exact unpack_pack_round .positive (by omega) (by omega)

theorem isNaN_ofWord (n : Int64) : (ofWord n).isNaN = false := by
  change (ofWord n).toModel.unpack.isNaN = false
  rcases unpack_ofWord n with ⟨-, m, e, hm, h, -⟩ | ⟨-, h⟩ | ⟨-, m, e, hm, h, -⟩ <;>
  · rw [h]
    rfl

theorem isNaN_roundWithAccuracy (s : Sign) (m : Nat) (e : Int) (a : Accuracy) :
    (roundWithAccuracy Format.binary64 s m e a).isNaN = false := by
  simp only [roundWithAccuracy]
  split <;> rfl

/-- A quotient of words is a number. -/
theorem isNaN_div_ofWord (n : Int64) {d : Int64} (hd : 0 < d.toInt) :
    (ofWord n / ofWord d).isNaN = false := by
  refine isNaN_unpack_pack ?_
  obtain ⟨m, e, hm, hden⟩ : ∃ m e hm, (ofWord d).toModel.unpack = .finite .positive m e hm := by
    rcases unpack_ofWord d with ⟨hneg, -⟩ | ⟨hzero, -⟩ | ⟨-, m, e, hm, h, -⟩
    · omega
    · omega
    · exact ⟨m, e, hm, h⟩
  rw [hden]
  rcases unpack_ofWord n with ⟨-, m, e, hm, h, -⟩ | ⟨-, h⟩ | ⟨-, m, e, hm, h, -⟩
  · rw [h]
    exact isNaN_roundWithAccuracy _ _ _ _
  · rw [h]
    rfl
  · rw [h]
    exact isNaN_roundWithAccuracy _ _ _ _

/-- Integers up to `2 ^ 53` keep their order. -/
theorem Rounded.lt {n n' m m' : Nat} {e e' : Int} (h : Rounded n m e) (h' : Rounded n' m' e')
    (hn : n ≠ 0) (hlt : n < n') (hn' : n' ≤ 2 ^ 53) : e < e' ∨ e = e' ∧ m < m' := by
  obtain ⟨he, hm⟩ := h.exact (by omega)
  obtain ⟨he', hm'⟩ := h'.exact hn'
  have hlog : n.log2 ≤ n'.log2 := (Nat.le_log2 (by omega)).mpr ((Nat.log2_self_le hn).trans hlt.le)
  rcases hlog.lt_or_eq with hlt' | heq
  · exact .inl (by omega)
  · refine .inr ⟨by omega, Nat.lt_of_mul_lt_mul_right (a := 2 ^ n.log2) ?_⟩
    rw [hm, heq, hm']
    omega

theorem rank_ofWord_lt {a b : Int64} (ha : -2 ^ 53 ≤ a.toInt) (hb : b.toInt ≤ 2 ^ 53)
    (hlt : a.toInt < b.toInt) : rank (ofWord a) < rank (ofWord b) := by
  unfold rank
  -- signs that differ decide; below zero the order of the magnitudes is turned around
  rcases unpack_ofWord a with ⟨hneg, m, e, hm, h, hnear⟩ | ⟨hzero, h⟩ | ⟨hpos, m, e, hm, h, hnear⟩
  · rw [h]
    rcases unpack_ofWord b with
      ⟨hneg', m', e', hm', h', hnear'⟩ | ⟨-, h'⟩ | ⟨-, m', e', hm', h', -⟩
    · rw [h']
      have := hnear'.lt hnear (by omega) (by omega) (by omega)
      refine Prod.Lex.toLex_lt_toLex.mpr (.inr ⟨rfl, Prod.Lex.toLex_lt_toLex.mpr ?_⟩)
      change -e < -e' ∨ -e = -e' ∧ -(m : ℤ) < -(m' : ℤ)
      omega
    · rw [h']
      exact Prod.Lex.toLex_lt_toLex.mpr (.inl (by dsimp only; decide))
    · rw [h']
      exact Prod.Lex.toLex_lt_toLex.mpr (.inl (by dsimp only; decide))
  · rw [h]
    rcases unpack_ofWord b with ⟨hneg', -⟩ | ⟨hzero', -⟩ | ⟨-, m', e', hm', h', -⟩
    · omega
    · omega
    · rw [h']
      exact Prod.Lex.toLex_lt_toLex.mpr (.inl (by dsimp only; decide))
  · rw [h]
    rcases unpack_ofWord b with ⟨hneg', -⟩ | ⟨hzero', -⟩ | ⟨-, m', e', hm', h', hnear'⟩
    · omega
    · omega
    · rw [h']
      have := hnear.lt hnear' (by omega) (by omega) (by omega)
      refine Prod.Lex.toLex_lt_toLex.mpr (.inr ⟨rfl, Prod.Lex.toLex_lt_toLex.mpr ?_⟩)
      change e < e' ∨ e = e' ∧ (m : ℤ) < (m' : ℤ)
      omega

end Worksheet.Real
