import Mathlib
import Worksheet.Proofs.Number.Value

/-!
# The binary form of a real

The decimal digits of a real are computed from its significand and its exponent, which are read off
its bits. They are the number that the real is.

* **`unpack_eq`** — the bits of a finite real are its sign, its significand and its exponent.
* **`Binary.value`** — the magnitude they stand for; **`eq_of_isNumber`** — that of the real.
* **`Binary.Bounded`** — the significands and exponents that there are.
-/

namespace Worksheet.Decimal

open Worksheet.Real
open Float.Model (Format UnpackedFloat)
open Float.Model.UnpackedFloat

/-! ## Bits -/

theorem unpackExponent_toNat (b : BitVec 64) :
    (@unpackExponent Format.binary64 b).toNat = b.toNat / 2 ^ 52 % 2048 := by
  unfold unpackExponent
  rw [BitVec.toNat_cast, BitVec.extractLsb_toNat, Nat.shiftRight_eq_div_pow]
  rfl

theorem unpackMantissa_toNat (b : BitVec 64) :
    (@unpackMantissa Format.binary64 b).toNat = b.toNat % 2 ^ 52 := by
  unfold unpackMantissa
  rw [BitVec.toNat_cast, BitVec.extractLsb_toNat, Nat.shiftRight_eq_div_pow, pow_zero, Nat.div_one]
  rfl

theorem unpackSign_toNat (b : BitVec 64) :
    (@unpackSign Format.binary64 b).toNat = b.toNat / 2 ^ 63 := by
  have hlt := b.isLt
  have hsign : (@unpackSign Format.binary64 b).toNat = b.toNat / 2 ^ 63 % 2 := by
    unfold unpackSign
    rw [BitVec.toNat_cast, BitVec.extractLsb_toNat, Nat.shiftRight_eq_div_pow, Nat.sub_self]
    rfl
  omega

/-- The sign of a real. -/
def signOf (x : Float) : Sign := if isNegative x then .negative else .positive

theorem ofBitVec_unpackSign (x : Float) :
    Sign.ofBitVec (@unpackSign Format.binary64 x.toModel.toBits.toBitVec) = signOf x := by
  have hbits : (@unpackSign Format.binary64 x.toModel.toBits.toBitVec).toNat
      = x.toBits.toNat / 2 ^ 63 := unpackSign_toNat _
  have hlt : x.toBits.toNat < 2 ^ 64 := x.toBits.toNat_lt
  unfold signOf isNegative
  rcases (by omega : x.toBits.toNat / 2 ^ 63 = 0 ∨ x.toBits.toNat / 2 ^ 63 = 1) with h | h
  · have hzero : @unpackSign Format.binary64 x.toModel.toBits.toBitVec = 0#1 :=
      BitVec.eq_of_toNat_eq (hbits.trans h)
    have hdiv : x.toBits.toNat / 0x8000000000000000 = 0 := h
    rw [hzero, hdiv]
    rfl
  · have hone : @unpackSign Format.binary64 x.toModel.toBits.toBitVec = 1#1 :=
      BitVec.eq_of_toNat_eq (hbits.trans h)
    have hdiv : x.toBits.toNat / 0x8000000000000000 = 1 := h
    rw [hone, hdiv]
    rfl

/-- Significand and exponent of a real. -/
structure Binary.Bounded (b : Binary) : Prop where
  mantissa_lt : b.mantissa < 2 ^ 53
  low : -1074 ≤ b.exponent
  full : b.exponent = -1074 ∨ 2 ^ 52 ≤ b.mantissa

theorem bounded_ofFloat (x : Float) : (Binary.ofFloat x).Bounded := by
  have hfield : x.toBits.toNat % 0x10000000000000 < 2 ^ 52 := Nat.mod_lt _ (by decide)
  unfold Binary.ofFloat
  dsimp only
  split
  · exact ⟨by dsimp only; omega, le_rfl, .inl rfl⟩
  · exact ⟨by dsimp only; omega, by dsimp only; omega, .inr (by dsimp only; omega)⟩

/-- **The bits of a finite real** are its sign, its significand and its exponent. -/
theorem unpack_eq {x : Float} (h : isFinite x = true) :
    x.toModel.unpack = if hm : (Binary.ofFloat x).mantissa = 0 then .zero (signOf x)
      else .finite (signOf x) (Binary.ofFloat x).mantissa (Binary.ofFloat x).exponent
        (Nat.pos_of_ne_zero hm) := by
  have hexponent : (@unpackExponent Format.binary64 x.toModel.toBits.toBitVec).toNat
      = x.toBits.toNat / 0x10000000000000 % 2048 := unpackExponent_toNat _
  have hmantissa : (@unpackMantissa Format.binary64 x.toModel.toBits.toBitVec).toNat
      = x.toBits.toNat % 0x10000000000000 := unpackMantissa_toNat _
  have hfinite : x.toBits.toNat / 0x10000000000000 % 2048 ≠ 2047 := by
    simpa [isFinite] using h
  change UnpackedFloat.unpack Format.binary64 x.toModel.toBits.toBitVec = _
  unfold UnpackedFloat.unpack
  dsimp only
  rw [ofBitVec_unpackSign]
  set E := @unpackExponent Format.binary64 x.toModel.toBits.toBitVec
  set M := @unpackMantissa Format.binary64 x.toModel.toBits.toBitVec
  rw [← hexponent] at hfinite
  have hgreatest : E ≠ -1#11 := fun heq => hfinite (congrArg BitVec.toNat heq)
  rw [if_neg hgreatest]
  by_cases hzero : E = 0#11
  · -- the least exponent, at which the significand has no hidden bit
    have hbiased : x.toBits.toNat / 0x10000000000000 % 2048 = 0 := by
      rw [← hexponent, hzero]
      rfl
    have hbinary : Binary.ofFloat x = ⟨M.toNat, -1074⟩ := by
      unfold Binary.ofFloat
      dsimp only
      rw [if_pos hbiased, hmantissa]
    rw [if_pos hzero, hbinary]
    by_cases hM_zero : M = 0#52
    · have hM_nat : M.toNat = 0 := congrArg BitVec.toNat hM_zero
      rw [dif_pos hM_zero, dif_pos hM_nat]
    · have hM_ne : M.toNat ≠ 0 := fun hnat => hM_zero (BitVec.eq_of_toNat_eq hnat)
      rw [dif_neg hM_zero, dif_neg hM_ne]
      congr 1
      rw [hzero]
      rfl
  · -- any other exponent, at which the hidden bit is added
    have hbiased : x.toBits.toNat / 0x10000000000000 % 2048 ≠ 0 := by
      rw [← hexponent]
      exact fun hnat => hzero (BitVec.eq_of_toNat_eq hnat)
    have hbinary : Binary.ofFloat x = ⟨M.toNat + 0x10000000000000, (E.toNat : Int) - 1075⟩ := by
      unfold Binary.ofFloat
      dsimp only
      rw [if_neg hbiased, hmantissa, hexponent]
    have happend : (1#1 ++ M).toNat = M.toNat + 0x10000000000000 := by
      rw [BitVec.toNat_append, ← Nat.shiftLeft_add_eq_or_of_lt (BitVec.isLt _), Nat.shiftLeft_eq]
      change 1 * 2 ^ 52 + M.toNat = _
      omega
    rw [if_neg hzero, hbinary, dif_neg (by dsimp only; omega)]
    congr 1

/-! ## Numbers -/

/-- The magnitude that a significand and an exponent stand for. -/
def Binary.value (b : Binary) : ℚ := b.mantissa * 2 ^ b.exponent

theorem Binary.value_nonneg (b : Binary) : 0 ≤ b.value := by
  unfold value
  positivity

theorem isFinite_of_isNumber {x : Float} {q : ℚ} (h : IsNumber x q) : isFinite x = true := by
  by_contra hinfinite
  have hexponent : (@unpackExponent Format.binary64 x.toModel.toBits.toBitVec).toNat
      = x.toBits.toNat / 0x10000000000000 % 2048 := unpackExponent_toNat _
  have hgreatest : @unpackExponent Format.binary64 x.toModel.toBits.toBitVec = -1#11 := by
    refine BitVec.eq_of_toNat_eq (hexponent.trans ?_)
    simpa [isFinite] using hinfinite
  have hunpack : number? (UnpackedFloat.unpack Format.binary64 x.toModel.toBits.toBitVec) = some q := h
  unfold UnpackedFloat.unpack at hunpack
  dsimp only at hunpack
  rw [if_pos hgreatest] at hunpack
  split at hunpack <;> cases hunpack

/-- **The binary form of a real** has its sign and its magnitude. -/
theorem eq_of_isNumber {x : Float} {q : ℚ} (h : IsNumber x q) :
    q = if isNegative x then -(Binary.ofFloat x).value else (Binary.ofFloat x).value := by
  have hunpack := unpack_eq (isFinite_of_isNumber h)
  have hnumber : number? x.toModel.unpack = some q := h
  rw [hunpack] at hnumber
  unfold Binary.value
  split at hnumber
  · next hm =>
    have hq : q = 0 := (Option.some.inj hnumber).symm
    rw [hq, hm]
    split <;> simp
  · have hq := (Option.some.inj hnumber).symm
    rw [hq, signOf]
    split <;> simp [Sign.apply]

theorem abs_eq_of_isNumber {x : Float} {q : ℚ} (h : IsNumber x q) :
    |q| = (Binary.ofFloat x).value := by
  have hnonneg := (Binary.ofFloat x).value_nonneg
  rw [eq_of_isNumber h]
  split
  · rw [abs_neg, abs_of_nonneg hnonneg]
  · rw [abs_of_nonneg hnonneg]

end Worksheet.Decimal
