import Mathlib
import Worksheet.Proofs.Number.Real
import Worksheet.Quantity.Basic

/-!
# One is neutral among the reals

A product of reals is rounded, but the product with one is the other factor: rounding finds so many zeros
behind its significand as one has digits, and takes them away again.

* **`bounds_of_unpack`** — the significands and exponents that there are.
* **`roundWithAccuracy_zeros`** — zeros behind a significand do not count.
* **`one_mul_eq`**, **`mul_one_eq`** — one is neutral.
* **`wholePower_one`**, **`wholePower_two`** — the first powers; `one_wholePower`, the powers of one.
-/

namespace Worksheet.Real

open Float.Model (Format UnpackedFloat totalExponent)
open Float.Model.UnpackedFloat

/-- A significand is filled up to 53 digits, unless the exponent is the least one. -/
theorem bounds_of_unpack {b : BitVec 64} {s : Sign} {m : Nat} {e : Int} {hm : 0 < m}
    (h : UnpackedFloat.unpack Format.binary64 b = .finite s m e hm) :
    m < 2 ^ 53 ∧ -1074 ≤ e ∧ e ≤ 971 ∧ (e = -1074 ∨ 2 ^ 52 ≤ m) := by
  unfold UnpackedFloat.unpack at h
  dsimp only at h
  split at h
  · split at h <;> cases h
  next hgreatest =>
  split at h
  · next hzero =>
    split at h
    · cases h
    · injection h with _ hmantissa hexponent
      have hsmall : m < 2 ^ 52 := hmantissa ▸ BitVec.isLt _
      rw [hzero] at hexponent
      have hleast : e = -1074 := hexponent.symm
      exact ⟨by omega, by omega, by omega, .inl hleast⟩
  · next hnonzero =>
    injection h with _ hmantissa hexponent
    have hpos : 0 < (@unpackExponent Format.binary64 b).toNat :=
      Nat.pos_of_ne_zero fun hzero => hnonzero (BitVec.eq_of_toNat_eq hzero)
    have hexponent' : e = (@unpackExponent Format.binary64 b).toNat - (1023 + 52) := hexponent.symm
    have happend := BitVec.toNat_append 1#1 (@unpackMantissa Format.binary64 b)
    rw [← Nat.shiftLeft_add_eq_or_of_lt (BitVec.isLt _), Nat.shiftLeft_eq, hmantissa] at happend
    have hlt := (@unpackMantissa Format.binary64 b).isLt
    have hsum : m = 1 * 2 ^ 52 + (@unpackMantissa Format.binary64 b).toNat := happend
    have hlt' : (@unpackMantissa Format.binary64 b).toNat < 2 ^ 52 := hlt
    -- the greatest exponent is that of an infinity
    have hexponent_lt : (@unpackExponent Format.binary64 b).toNat < 2047 := by
      have hle : (@unpackExponent Format.binary64 b).toNat < 2048 :=
        (@unpackExponent Format.binary64 b).isLt
      have hne : (@unpackExponent Format.binary64 b).toNat ≠ 2047 := fun heq =>
        hgreatest (BitVec.eq_of_toNat_eq heq)
      omega
    exact ⟨by omega, by omega, by omega, .inr (by omega)⟩

/-- Zeros at the end of a significand are shifted out without a trace. -/
theorem shiftRight_zeros (m k : Nat) :
    (⟨2 ^ k * m, false, false⟩ : ExtendedMantissa) >>> k = ⟨m, false, false⟩ := by
  induction k generalizing m with
  | zero =>
    rw [pow_zero, one_mul]
    rfl
  | succ k ih =>
    have hstep := ih (2 * m)
    rw [← mul_assoc, ← pow_succ] at hstep
    change ((⟨2 ^ (k + 1) * m, false, false⟩ : ExtendedMantissa) >>> k).shiftRightOne = _
    rw [hstep]
    simp [ExtendedMantissa.shiftRightOne]

/-- Rounding takes the zeros away that a factor of one has put behind a significand. -/
theorem roundWithAccuracy_zeros (s : Sign) {m : Nat} {e : Int} (hpos : 0 < m) (hm : m < 2 ^ 53)
    (he : -1074 ≤ e) (hfull : e = -1074 ∨ 2 ^ 52 ≤ m) :
    roundWithAccuracy Format.binary64 s (2 ^ 52 * m) (-52 + e) .exact = .finite s m e hpos := by
  have hlog : (2 ^ 52 * m).log2 = m.log2 + 52 := by
    have hlower : 2 ^ m.log2 ≤ m := Nat.log2_self_le hpos.ne'
    have hupper : m < 2 ^ (m.log2 + 1) := Nat.lt_log2_self
    refine (Nat.log2_eq_iff (by omega)).mpr ?_
    rw [show m.log2 + 52 + 1 = (m.log2 + 1) + 52 by omega, pow_add 2 m.log2 52, pow_add 2 (m.log2 + 1) 52]
    omega
  have hsmall : m.log2 < 53 := (Nat.log2_lt hpos.ne').mpr hm
  have htarget : Format.binary64.targetExponent (totalExponent (2 ^ 52 * m) (-52 + e)) = e := by
    rw [targetExponent_eq, totalExponent, hlog]
    rcases hfull with rfl | hlow
    · omega
    · have := (Nat.le_log2 hpos.ne').mpr hlow
      omega
  have hshift : shiftToTargetExponent Format.binary64 (2 ^ 52 * m) (-52 + e) .exact = (⟨m, false, false⟩, e) := by
    have hamount : (e - (-52 + e)).toNat = 52 := by omega
    simp only [shiftToTargetExponent, shiftToExponent, htarget, hamount]
    refine Prod.ext (shiftRight_zeros m 52) ?_
    change -52 + e + 52 = e
    omega
  have hround : (⟨m, false, false⟩ : ExtendedMantissa).roundedMantissa = m := rfl
  simp only [roundWithAccuracy, hshift, hround, shiftToTargetExponent_eq hm he]
  rw [dif_neg hpos.ne']

theorem unpack_one : (1.0 : Float).toModel.unpack = .finite .positive (2 ^ 52) (-52) (by decide) := rfl

theorem pack_unpack (x : Float) : Float.Model.pack x.toModel.unpack = x.toModel := by
  obtain ⟨⟨⟨bits⟩, hvalid⟩⟩ := x
  have hbits : UnpackedFloat.pack Format.binary64 (UnpackedFloat.unpack Format.binary64 bits) = bits :=
    pack_unpack_of_valid hvalid
  change Float.Model.mk ⟨UnpackedFloat.pack Format.binary64 _⟩ _ = _
  congr 2

/-- **One is neutral** in front of a real, which may be an infinity or none at all. -/
theorem one_mul_eq (x : Float) : 1.0 * x = x := by
  have hmul : UnpackedFloat.mul Format.binary64 (1.0 : Float).toModel.unpack x.toModel.unpack
      = x.toModel.unpack := by
    rw [unpack_one]
    cases hx : x.toModel.unpack with
    | notANumber => rfl
    | infinity s => cases s <;> rfl
    | zero s => cases s <;> rfl
    | finite s m e hm =>
      obtain ⟨hlt, hlow, -, hfull⟩ := bounds_of_unpack hx
      have hsign : Sign.positive * s = s := by cases s <;> rfl
      change roundWithAccuracy _ (Sign.positive * s) (2 ^ 52 * m) (-52 + e) _ = _
      rw [hsign, roundWithAccuracy_zeros s hm hlt hlow hfull]
  change Float.ofModel (Float.Model.pack _) = x
  rw [hmul, pack_unpack]

theorem mul_comm_eq (x y : Float) : x * y = y * x := by
  have hsign : ∀ s t : Sign, s * t = t * s := by
    intro s t
    cases s <;> cases t <;> rfl
  have hmul : ∀ a b : UnpackedFloat, UnpackedFloat.mul Format.binary64 a b = UnpackedFloat.mul Format.binary64 b a := by
    intro a b
    cases a <;> cases b <;> simp only [UnpackedFloat.mul, hsign, Nat.mul_comm, Int.add_comm]
  change Float.ofModel (Float.Model.pack _) = Float.ofModel (Float.Model.pack _)
  rw [hmul]

/-- **One is neutral** behind a real. -/
theorem mul_one_eq (x : Float) : x * 1.0 = x := by rw [mul_comm_eq, one_mul_eq]

/-- The first power of a real is the real itself. -/
theorem wholePower_one (x : Float) : wholePower x 1 = x := by
  change powBySquaring 1.0 x 1 = x
  rw [powBySquaring, powBySquaring]
  exact one_mul_eq x

/-- The second power is the square. -/
theorem wholePower_two (x : Float) : wholePower x 2 = x * x := by
  change powBySquaring 1.0 x 2 = x * x
  rw [powBySquaring, powBySquaring, powBySquaring]
  exact one_mul_eq (x * x)

theorem powBySquaring_one (e : Nat) : powBySquaring 1.0 1.0 e = 1.0 := by
  induction e using Nat.strongRecOn with
  | _ e ih =>
    rw [powBySquaring]
    split
    · rfl
    · next hne =>
      rw [one_mul_eq, ite_self]
      exact ih (e / 2) (by omega)

/-- All powers of one are one. -/
theorem one_wholePower (n : Int) : wholePower 1.0 n = 1.0 := by
  unfold wholePower
  rw [powBySquaring_one]
  split
  · decide +kernel
  · rfl

end Worksheet.Real
