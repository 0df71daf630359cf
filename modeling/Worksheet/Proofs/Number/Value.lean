import Mathlib
import Worksheet.Proofs.Number.Rational
import Worksheet.Proofs.Number.Rounding

/-!
# Reals are rational numbers

A finite real is a rational number, and so is the exact result of an operation on two of them. The real
that the operation gives differs from it by no more than one part in `2 ^ 53`.

* **`IsNumber`** — the rational number that a finite real is; **`Close`** — a number that is rounded.
* **`exists_ofWord`**, **`exists_sub`**, **`exists_div`** — words, differences and quotients.
* **`le_iff`**, **`beq_iff`** — the order of reals is the order of the numbers.
* **`Fraction.exists_toReal`**, **`Fraction.exists_gap`** — a fraction as a real, and the distance of
  two of them when it is measured in reals.
-/

namespace Worksheet.Real

open Float.Model (Format UnpackedFloat)
open Float.Model.UnpackedFloat

/-! ## Numbers -/

/-- The number that an unpacked real is, if it is finite. -/
def number? : UnpackedFloat → Option ℚ
  | .zero _ => some 0
  | .finite s m e _ => some ((s.apply m : Int) * 2 ^ e)
  | .infinity _ | .notANumber => none

/-- A finite real is the number `q`. -/
def IsNumber (x : Float) (q : ℚ) : Prop := number? x.toModel.unpack = some q

/-- The number `r` is `q`, but for one part in `2 ^ 53`. -/
def Close (r q : ℚ) : Prop := |r - q| ≤ |q| / 2 ^ 53

theorem close_refl (q : ℚ) : Close q q := by
  rw [Close, sub_self, abs_zero]
  positivity

theorem cast_apply_mul (s : Sign) (m : Nat) (e : Int) :
    ((s.apply m : Int) : ℚ) * 2 ^ e = (s.apply 1 : Int) * ((m : ℚ) * 2 ^ e) := by
  cases s <;> simp [Sign.apply]

theorem abs_cast_apply_one (s : Sign) : |((s.apply 1 : Int) : ℚ)| = 1 := by
  cases s <;> simp [Sign.apply]

/-- A magnitude that is rounded stays finite, if it is not huge. -/
theorem IsNear.exists_number {s : Sign} {q : ℚ} {u : UnpackedFloat} (h : IsNear s q u)
    (hq : 0 ≤ q) (hq_lt : q < 2 ^ 200) :
    ∃ r, number? (Float.Model.pack u).unpack = some r ∧ Close r ((s.apply 1 : Int) * q) := by
  obtain ⟨m, e, hm, rfl, hfull, hnear⟩ := h
  have hvalue : (m : ℚ) * 2 ^ e < 2 ^ 201 := by
    have hupper := (abs_le.mp hnear).2
    have hpart : q / 2 ^ 53 ≤ q := div_le_self hq (by norm_num)
    have hlarger : (2 : ℚ) ^ 201 = 2 * 2 ^ 200 := by norm_num
    linarith
  rw [hfull.unpack_pack s (hfull.exponent_le hvalue)]
  refine ⟨_, rfl, ?_⟩
  rw [Close, cast_apply_mul, ← mul_sub, abs_mul, abs_mul, abs_cast_apply_one, one_mul, one_mul,
    abs_of_nonneg hq]
  exact hnear

theorem abs_cast_apply (s : Sign) (m : Nat) (e : Int) :
    |((s.apply m : Int) : ℚ) * 2 ^ e| = m * 2 ^ e := by
  rw [cast_apply_mul, abs_mul, abs_cast_apply_one, one_mul, abs_of_nonneg (by positivity)]

/-- An integer significand other than zero is a magnitude with a sign, which is rounded. -/
theorem normalize_of_ne_zero {n : Int} (hn : n ≠ 0) (e : Int) :
    ∃ s : Sign, UnpackedFloat.normalize Format.binary64 n e .positive
        = UnpackedFloat.round Format.binary64 s n.natAbs e ∧ s.apply n.natAbs = n := by
  rw [UnpackedFloat.normalize]
  rcases Int.lt_or_gt_of_ne hn with hneg | hpos
  · rw [compare_lt_iff_lt.mpr hneg]
    have hmagnitude : (-n).toNat = n.natAbs := by omega
    refine ⟨.negative, congrArg (UnpackedFloat.round Format.binary64 .negative · e) hmagnitude, ?_⟩
    show -(n.natAbs : Int) = n
    omega
  · rw [compare_gt_iff_gt.mpr hpos]
    have hmagnitude : n.toNat = n.natAbs := by omega
    refine ⟨.positive, congrArg (UnpackedFloat.round Format.binary64 .positive · e) hmagnitude, ?_⟩
    show (n.natAbs : Int) = n
    omega

/-- **An integer significand is rounded**, if the exponent is in range and the number is not huge. -/
theorem exists_normalize {n : Int} {e : Int} (he : -1074 ≤ e)
    (hlt : |(n : ℚ) * 2 ^ e| < 2 ^ 200) :
    ∃ r, number? (Float.Model.pack
        (UnpackedFloat.normalize Format.binary64 n e .positive)).unpack = some r ∧
      Close r (n * 2 ^ e) := by
  rcases eq_or_ne n 0 with rfl | hn
  · rw [Int.cast_zero, zero_mul]
    exact ⟨0, congrArg number? (unpack_pack_zero .positive), close_refl 0⟩
  · obtain ⟨s, hround, hs⟩ := normalize_of_ne_zero hn e
    rw [← hs, abs_cast_apply] at hlt
    obtain ⟨r, hr, hclose⟩ := (isNear_round s (Int.natAbs_ne_zero.mpr hn) he).exists_number
      (by positivity) hlt
    rw [← cast_apply_mul, hs] at hclose
    rw [hround]
    exact ⟨r, hr, hclose⟩

/-- **A word as a real** is the word, rounded. -/
theorem exists_ofWord (n : Int64) : ∃ r, IsNumber (ofWord n) r ∧ Close r n.toInt := by
  have hsmall : |((n.toInt : Int) : ℚ) * 2 ^ (0 : Int)| < 2 ^ 200 := by
    have hl := n.le_toInt
    have hu := n.toInt_lt
    have habs : |n.toInt| < 2 ^ 200 := by
      rw [abs_lt]
      constructor <;> omega
    rw [zpow_zero, mul_one]
    exact_mod_cast habs
  obtain ⟨r, hr, hclose⟩ := exists_normalize (by decide : (-1074 : Int) ≤ 0) hsmall
  rw [zpow_zero, mul_one] at hclose
  exact ⟨r, hr, hclose⟩

section Operations

variable {x y : Float} {p q : ℚ}

theorem full_of_unpack {s : Sign} {m : Nat} {e : Int} {hm : 0 < m}
    (h : x.toModel.unpack = .finite s m e hm) : Full m e ∧ e ≤ 971 := by
  obtain ⟨hlt, hlow, hhigh, hfull⟩ := bounds_of_unpack h
  exact ⟨⟨hm, hlt, hlow, hfull⟩, hhigh⟩

/-- A finite real is zero, or it has a sign, a significand and an exponent. -/
theorem IsNumber.cases (h : IsNumber x q) :
    (∃ s, x.toModel.unpack = .zero s ∧ q = 0) ∨
    ∃ s m e hm, x.toModel.unpack = .finite s m e hm ∧ (Full m e ∧ e ≤ 971) ∧
      q = (s.apply m : Int) * 2 ^ e := by
  unfold IsNumber at h
  cases hx : x.toModel.unpack with
  | notANumber =>
    rw [hx] at h
    cases h
  | infinity s =>
    rw [hx] at h
    cases h
  | zero s =>
    rw [hx] at h
    exact .inl ⟨s, rfl, (Option.some.inj h).symm⟩
  | finite s m e hm =>
    rw [hx] at h
    exact .inr ⟨s, m, e, hm, rfl, full_of_unpack hx, (Option.some.inj h).symm⟩

theorem apply_neg (s : Sign) (n : Int) : (-s).apply n = -s.apply n := by
  cases s
  · exact (neg_neg n).symm
  · rfl

theorem apply_div (s t : Sign) : (s / t).apply 1 = s.apply 1 * t.apply 1 := by
  cases s <;> cases t <;> rfl

theorem decreaseExponent_mul (m : Nat) {e t : Int} (h : t ≤ e) :
    (((decreaseExponent m e t).1 : Nat) : ℚ) * 2 ^ t = m * 2 ^ e := by
  obtain ⟨j, hj⟩ : ∃ j : Nat, e - t = j := ⟨(e - t).toNat, by omega⟩
  have he : e = t + j := by omega
  have hamount : (e - t).toNat = j := by omega
  rw [decreaseExponent, hamount, Nat.shiftLeft_eq, he, zpow_add₀ two_ne_zero, zpow_natCast]
  push_cast
  ring

/-- **A difference of reals** is the difference, rounded. -/
theorem exists_sub (hx : IsNumber x p) (hy : IsNumber y q) (hlt : |p - q| < 2 ^ 200) :
    ∃ r, IsNumber (x - y) r ∧ Close r (p - q) := by
  have hmodel : (x - y).toModel.unpack = (Float.Model.pack
      (UnpackedFloat.sub Format.binary64 x.toModel.unpack y.toModel.unpack)).unpack := rfl
  unfold IsNumber
  rw [hmodel]
  rcases hx.cases with ⟨s, hs, rfl⟩ | ⟨s, m, e, hm, hs, hfull, rfl⟩
  · -- nothing is rounded where one of the two is zero
    rcases hy.cases with ⟨t, ht, rfl⟩ | ⟨t, n, f, hn, ht, hfull, rfl⟩
    · refine ⟨0, ?_, by simpa using close_refl 0⟩
      rw [hs, ht, UnpackedFloat.sub]
      split <;> rw [unpack_pack_zero] <;> rfl
    · rw [hs, ht, UnpackedFloat.sub, hfull.1.unpack_pack (-t) hfull.2]
      refine ⟨_, rfl, ?_⟩
      rw [apply_neg, Int.cast_neg, neg_mul, zero_sub]
      exact close_refl _
  · rcases hy.cases with ⟨t, ht, rfl⟩ | ⟨t, n, f, hn, ht, -, rfl⟩
    · refine ⟨(s.apply m : Int) * 2 ^ e, ?_, by simpa using close_refl _⟩
      have hsub : UnpackedFloat.sub Format.binary64 x.toModel.unpack y.toModel.unpack
          = x.toModel.unpack := by
        rw [hs, ht]
        rfl
      rw [hsub, pack_unpack]
      exact hx
    · -- at the lesser of the two exponents both significands are exact, and so is their difference
      have hlow := hfull.1.low
      have hlow' := (full_of_unpack ht).1.low
      have hleft := decreaseExponent_mul m (min_le_left e f)
      have hright := decreaseExponent_mul n (min_le_right e f)
      set m' := (decreaseExponent m e (min e f)).1 with hm'
      set n' := (decreaseExponent n f (min e f)).1 with hn'
      have hvalue : ((s.apply m' - t.apply n' : Int) : ℚ) * 2 ^ min e f
          = (s.apply m : Int) * 2 ^ e - (t.apply n : Int) * 2 ^ f := by
        rw [Int.cast_sub, sub_mul, cast_apply_mul, cast_apply_mul, hleft, hright, ← cast_apply_mul,
          ← cast_apply_mul]
      rw [hs, ht]
      rw [← hvalue] at hlt ⊢
      exact exists_normalize (by omega) hlt

/-- **A quotient of reals** is the quotient, rounded, if it is neither huge nor tiny. -/
theorem exists_div (hx : IsNumber x p) (hy : IsNumber y q) (hq : q ≠ 0)
    (hlow : p ≠ 0 → 1 < |p / q| * 2 ^ 200) (hlt : |p / q| < 2 ^ 200) :
    ∃ r, IsNumber (x / y) r ∧ Close r (p / q) := by
  have hmodel : (x / y).toModel.unpack = (Float.Model.pack
      (UnpackedFloat.div Format.binary64 x.toModel.unpack y.toModel.unpack)).unpack := rfl
  unfold IsNumber
  rw [hmodel]
  -- the divisor is not zero, so that it has a significand
  obtain ⟨t, n, f, hn, ht, -, rfl⟩ := hy.cases.resolve_left fun ⟨_, _, hzero⟩ => hq hzero
  rcases hx.cases with ⟨s, hs, rfl⟩ | ⟨s, m, e, hm, hs, hfull, rfl⟩
  · refine ⟨0, ?_, by simpa using close_refl 0⟩
    rw [hs, ht, UnpackedFloat.div, unpack_pack_zero]
    rfl
  · have hm_pos : (0 : ℚ) < m := by exact_mod_cast hm
    have hn_pos : (0 : ℚ) < n := by exact_mod_cast hn
    have hquotient : |((s.apply m : Int) : ℚ) * 2 ^ e / ((t.apply n : Int) * 2 ^ f)|
        = m * 2 ^ e / (n * 2 ^ f) := by rw [abs_div, abs_cast_apply, abs_cast_apply]
    have hne : ((s.apply m : Int) : ℚ) * 2 ^ e ≠ 0 := by
      rw [← abs_pos, abs_cast_apply]
      positivity
    rw [hquotient] at hlow hlt
    obtain ⟨r, hr, hclose⟩ :=
      (isNear_div s t hm hn (hlow hne)).exists_number (by positivity) hlt
    rw [hs, ht]
    refine ⟨r, hr, ?_⟩
    have hsigned : (((s / t).apply 1 : Int) : ℚ) * (m * 2 ^ e / (n * 2 ^ f))
        = (s.apply m : Int) * 2 ^ e / ((t.apply n : Int) * 2 ^ f) := by
      rw [cast_apply_mul s, cast_apply_mul t, apply_div]
      cases t <;> simp only [Sign.apply] <;> push_cast <;> field_simp
    rwa [hsigned] at hclose

theorem IsNumber.abs (hx : IsNumber x q) : IsNumber x.abs |q| := by
  have hmodel : x.abs.toModel.unpack = (Float.Model.pack x.toModel.unpack.abs).unpack := rfl
  unfold IsNumber
  rw [hmodel]
  rcases hx.cases with ⟨s, hs, rfl⟩ | ⟨s, m, e, hm, hs, hfull, rfl⟩
  · rw [hs, UnpackedFloat.abs, unpack_pack_zero, abs_zero]
    rfl
  · rw [hs, UnpackedFloat.abs, hfull.1.unpack_pack .positive hfull.2, abs_cast_apply]
    rfl

/-! ## Order -/

theorem IsNumber.isNaN_eq (hx : IsNumber x q) : x.isNaN = false := by
  change x.toModel.unpack.isNaN = false
  rcases hx.cases with ⟨s, hs, -⟩ | ⟨s, m, e, hm, hs, -, -⟩ <;>
  · rw [hs]
    rfl

/-- A greater exponent outweighs every significand. -/
theorem Full.value_lt {m n : Nat} {e f : Int} (h : Full m e) (h' : Full n f)
    (hlt : e < f ∨ e = f ∧ m < n) : (m : ℚ) * 2 ^ e < n * 2 ^ f := by
  rcases hlt with hlt | ⟨rfl, hlt⟩
  · have hlow := h.low
    have hm : (m : ℚ) < 2 ^ 53 := by exact_mod_cast h.lt
    have hn : (2 : ℚ) ^ 52 ≤ n := by exact_mod_cast h'.full.resolve_left (by omega)
    have hpow : (2 : ℚ) ^ (e + 1) ≤ 2 ^ f := zpow_le_zpow_right₀ one_le_two (by omega)
    calc (m : ℚ) * 2 ^ e < 2 ^ 53 * 2 ^ e := mul_lt_mul_of_pos_right hm (by positivity)
      _ = 2 ^ 52 * 2 ^ (e + 1) := by
          rw [zpow_add_one₀ two_ne_zero]
          ring
      _ ≤ n * 2 ^ f := mul_le_mul hn hpow (by positivity) (by positivity)
  · exact mul_lt_mul_of_pos_right (by exact_mod_cast hlt) (by positivity)

theorem cast_apply_negative (m : Nat) (e : Int) :
    ((Sign.negative.apply m : Int) : ℚ) * 2 ^ e = -(m * 2 ^ e) := by
  rw [Sign.apply, Int.cast_neg, Int.cast_natCast, neg_mul]

theorem cast_apply_positive (m : Nat) (e : Int) :
    ((Sign.positive.apply m : Int) : ℚ) * 2 ^ e = m * 2 ^ e := by
  rw [Sign.apply, Int.cast_natCast]

/-- Two significands with their signs are in the order of their places. -/
theorem Full.lt_of_place_lt {s t : Sign} {m n : Nat} {e f : Int} {hm : 0 < m} {hn : 0 < n}
    (h : Full m e) (h' : Full n f) (hlt : place (.finite s m e hm) < place (.finite t n f hn)) :
    ((s.apply m : Int) : ℚ) * 2 ^ e < (t.apply n : Int) * 2 ^ f := by
  have hpos : (0 : ℚ) < m * 2 ^ e := by positivity
  have hpos' : (0 : ℚ) < n * 2 ^ f := by positivity
  simp only [place] at hlt
  cases s with
  | negative =>
    cases t with
    | negative =>
      simp only [Prod.Lex.toLex_lt_toLex, lt_self_iff_false, true_and, false_or] at hlt
      rw [cast_apply_negative, cast_apply_negative, neg_lt_neg_iff]
      exact h'.value_lt h (by omega)
    | positive =>
      rw [cast_apply_negative, cast_apply_positive]
      linarith
  | positive =>
    cases t with
    | negative => exact absurd hlt (by simp [Prod.Lex.toLex_lt_toLex])
    | positive =>
      simp only [Prod.Lex.toLex_lt_toLex, lt_self_iff_false, true_and, false_or] at hlt
      rw [cast_apply_positive, cast_apply_positive]
      exact h.value_lt h' (by omega)

theorem lt_of_rank_lt (hx : IsNumber x p) (hy : IsNumber y q) (h : rank x < rank y) : p < q := by
  unfold rank at h
  rcases hx.cases with ⟨s, hs, rfl⟩ | ⟨s, m, e, hm, hs, ⟨hfull, -⟩, rfl⟩
  · rw [hs] at h
    rcases hy.cases with ⟨t, ht, rfl⟩ | ⟨t, n, f, hn, ht, -, rfl⟩
    · rw [ht] at h
      exact absurd h (lt_irrefl _)
    · rw [ht] at h
      cases t with
      | negative => exact absurd h (by simp [place, Prod.Lex.toLex_lt_toLex])
      | positive =>
        rw [cast_apply_positive]
        positivity
  · rw [hs] at h
    rcases hy.cases with ⟨t, ht, rfl⟩ | ⟨t, n, f, hn, ht, ⟨hfull', -⟩, rfl⟩
    · rw [ht] at h
      cases s with
      | negative =>
        rw [cast_apply_negative, neg_lt_zero]
        positivity
      | positive => exact absurd h (by simp [place, Prod.Lex.toLex_lt_toLex])
    · rw [ht] at h
      exact hfull.lt_of_place_lt hfull' h

theorem eq_of_rank_eq (hx : IsNumber x p) (hy : IsNumber y q) (h : rank x = rank y) : p = q := by
  unfold rank at h
  rcases hx.cases with ⟨s, hs, rfl⟩ | ⟨s, m, e, hm, hs, -, rfl⟩ <;>
  rcases hy.cases with ⟨t, ht, rfl⟩ | ⟨t, n, f, hn, ht, -, rfl⟩ <;>
  rw [hs, ht] at h
  · cases t <;> simp [place] at h
  · cases s <;> simp [place] at h
  · cases s <;> cases t <;> simp [place] at h <;> rw [h.1, h.2]

/-- **The order of reals is that of the numbers.** -/
theorem le_iff (hx : IsNumber x p) (hy : IsNumber y q) : x ≤ y ↔ p ≤ q := by
  have hle : x ≤ y ↔ (x.toModel.unpack.compare y.toModel.unpack).any (·.isLE) = true := by
    change decide (_ = true) = true ↔ _
    rw [decide_eq_true_iff]
    rfl
  rw [hle, compare_rank hx.isNaN_eq hy.isNaN_eq, Option.any_some]
  rcases lt_trichotomy (rank x) (rank y) with h | h | h
  · rw [(cmp_eq_lt_iff _ _).mpr h]
    exact iff_of_true rfl (lt_of_rank_lt hx hy h).le
  · rw [h, cmp_self_eq_eq]
    exact iff_of_true rfl (eq_of_rank_eq hx hy h).le
  · rw [(cmp_eq_gt_iff _ _).mpr h]
    exact iff_of_false (by decide) (not_le.mpr (lt_of_rank_lt hy hx h))

theorem beq_iff (hx : IsNumber x p) (hy : IsNumber y q) : (x == y) = true ↔ p = q := by
  rw [beq_iff_rank hx.isNaN_eq hy.isNaN_eq]
  rcases lt_trichotomy (rank x) (rank y) with h | h | h
  · exact iff_of_false h.ne (lt_of_rank_lt hx hy h).ne
  · exact iff_of_true h (eq_of_rank_eq hx hy h)
  · exact iff_of_false h.ne' (lt_of_rank_lt hy hx h).ne'

end Operations

/-- Rounding multiplies with a number close to one. -/
theorem Close.exists_factor {r q : ℚ} (h : Close r q) :
    ∃ δ : ℚ, |δ| ≤ 1 / 2 ^ 53 ∧ r = q * (1 + δ) := by
  rcases eq_or_ne q 0 with rfl | hq
  · refine ⟨0, by norm_num, ?_⟩
    rw [Close, sub_zero, abs_zero, zero_div] at h
    rw [zero_mul]
    exact abs_nonpos_iff.mp h
  · refine ⟨(r - q) / q, ?_, ?_⟩
    · rw [abs_div, div_le_iff₀ (abs_pos.mpr hq), one_div_mul_eq_div]
      exact h
    · field_simp
      ring

end Worksheet.Real

namespace Worksheet.Fraction

open Worksheet.Real

/-- Three roundings err by no more than four parts. -/
theorem abs_quotient_factor_sub_one_le {α β γ : ℚ} (hα : |α| ≤ 1 / 2 ^ 53) (hβ : |β| ≤ 1 / 2 ^ 53)
    (hγ : |γ| ≤ 1 / 2 ^ 53) :
    1 / 2 ≤ (1 + α) / (1 + β) ∧ (1 + α) / (1 + β) ≤ 2 ∧
      |(1 + α) / (1 + β) * (1 + γ) - 1| ≤ 1 / 2 ^ 51 := by
  have hproduct : |α * γ| ≤ 1 / 2 ^ 53 * (1 / 2 ^ 53) := by
    rw [abs_mul]
    exact mul_le_mul hα hγ (abs_nonneg γ) (by norm_num)
  obtain ⟨hα_low, hα_high⟩ := abs_le.mp hα
  obtain ⟨hβ_low, hβ_high⟩ := abs_le.mp hβ
  obtain ⟨hγ_low, hγ_high⟩ := abs_le.mp hγ
  obtain ⟨hproduct_low, hproduct_high⟩ := abs_le.mp hproduct
  have hpos : 0 < 1 + β := by linarith
  refine ⟨?_, ?_, ?_⟩
  · rw [le_div_iff₀ hpos]
    linarith
  · rw [div_le_iff₀ hpos]
    linarith
  · have hsplit : (1 + α) / (1 + β) * (1 + γ) - 1 = (α + γ + α * γ - β) / (1 + β) := by
      field_simp
      ring
    rw [hsplit, abs_div, abs_of_pos hpos, div_le_iff₀ hpos, abs_le]
    constructor <;> linarith

theorem abs_toRat_le (f : Fraction) : |f.toRat| ≤ 2 ^ 63 := by
  have hden : (1 : ℚ) ≤ f.den.toInt := by exact_mod_cast f.den_pos
  have hnum : |f.num.toInt| ≤ 2 ^ 63 := by
    have hl := f.num.le_toInt
    have hu := f.num.toInt_lt
    rw [abs_le]
    constructor <;> omega
  rw [toRat, abs_div, abs_of_pos (zero_lt_one.trans_le hden)]
  exact (div_le_self (abs_nonneg _) hden).trans (by exact_mod_cast hnum)

theorem le_abs_toRat {f : Fraction} (h : f.num.toInt ≠ 0) : 1 / 2 ^ 63 ≤ |f.toRat| := by
  have hden : (0 : ℚ) < f.den.toInt := by exact_mod_cast f.den_pos
  have hden_le : (f.den.toInt : ℚ) ≤ 2 ^ 63 := by exact_mod_cast f.den.toInt_lt.le
  have hnum : (1 : ℚ) ≤ |(f.num.toInt : ℚ)| := by exact_mod_cast Int.one_le_abs h
  rw [toRat, abs_div, abs_of_pos hden]
  exact div_le_div₀ (abs_nonneg _) hnum hden hden_le

/-- **A fraction as a real** is rounded three times: numerator, denominator and quotient. -/
theorem exists_toReal (f : Fraction) :
    ∃ t, IsNumber f.toReal t ∧ |t - f.toRat| ≤ |f.toRat| / 2 ^ 51 := by
  obtain ⟨a, ha, hnum⟩ := exists_ofWord f.num
  obtain ⟨b, hb, hden⟩ := exists_ofWord f.den
  obtain ⟨α, hα, rfl⟩ := hnum.exists_factor
  obtain ⟨β, hβ, rfl⟩ := hden.exists_factor
  obtain ⟨hlow, hhigh, -⟩ := abs_quotient_factor_sub_one_le hα hβ hα
  have hvalue : (f.num.toInt : ℚ) * (1 + α) / (f.den.toInt * (1 + β))
      = f.toRat * ((1 + α) / (1 + β)) := mul_div_mul_comm _ _ _ _
  have habs : |f.toRat * ((1 + α) / (1 + β))| = |f.toRat| * ((1 + α) / (1 + β)) := by
    rw [abs_mul, abs_of_nonneg (by linarith : 0 ≤ (1 + α) / (1 + β))]
  have hb_ne : (f.den.toInt : ℚ) * (1 + β) ≠ 0 := by
    have hβ_low := (abs_le.mp hβ).1
    have hpos : (0 : ℚ) < 1 + β := by linarith
    exact mul_ne_zero f.den_ne_zero hpos.ne'
  -- numerator and denominator are words, so that the quotient is neither huge nor tiny
  have hhuge := f.abs_toRat_le
  obtain ⟨t, ht, hclose⟩ := exists_div ha hb hb_ne
    (by
      intro hne
      have hnum_ne : f.num.toInt ≠ 0 := fun hzero => hne (by rw [hzero, Int.cast_zero, zero_mul])
      rw [hvalue, habs]
      have := mul_le_mul (le_abs_toRat hnum_ne) hlow (by norm_num) (abs_nonneg _)
      linarith)
    (by
      rw [hvalue, habs]
      have := mul_le_mul hhuge hhigh (by linarith) (by norm_num)
      linarith)
  rw [hvalue] at hclose
  obtain ⟨γ, hγ, rfl⟩ := hclose.exists_factor
  refine ⟨_, ht, ?_⟩
  have hsplit : f.toRat * ((1 + α) / (1 + β)) * (1 + γ) - f.toRat
      = f.toRat * ((1 + α) / (1 + β) * (1 + γ) - 1) := by ring
  rw [hsplit, abs_mul, div_eq_mul_one_div |f.toRat|]
  exact mul_le_mul_of_nonneg_left (abs_quotient_factor_sub_one_le hα hβ hγ).2.2 (abs_nonneg _)

/-- The distance of two fractions, measured in reals. -/
def gap (f g : Fraction) : Float := (g.toReal - f.toReal).abs

/-- **The measured distance** differs from the distance by a few roundings of what is subtracted. -/
theorem exists_gap (f g : Fraction) :
    ∃ δ, IsNumber (gap f g) δ ∧
      abs (δ - |g.toRat - f.toRat|) ≤ 9 / 2 ^ 53 * (|g.toRat - f.toRat| + |f.toRat|) := by
  obtain ⟨t, ht, hf⟩ := f.exists_toReal
  obtain ⟨u, hu, hg⟩ := g.exists_toReal
  have hg_le : |g.toRat| ≤ |g.toRat - f.toRat| + |f.toRat| := by
    have := abs_add_le (g.toRat - f.toRat) f.toRat
    rwa [sub_add_cancel] at this
  have hshift : |(u - t) - (g.toRat - f.toRat)| ≤ |u - g.toRat| + |t - f.toRat| := by
    rw [show (u - t) - (g.toRat - f.toRat) = (u - g.toRat) - (t - f.toRat) by ring]
    exact abs_sub _ _
  have hsize : |u - t| ≤ |(u - t) - (g.toRat - f.toRat)| + |g.toRat - f.toRat| := by
    have := abs_add_le ((u - t) - (g.toRat - f.toRat)) (g.toRat - f.toRat)
    rwa [sub_add_cancel] at this
  have hdistance : |g.toRat - f.toRat| ≤ 2 ^ 64 := by
    have hle := abs_sub g.toRat f.toRat
    have hf_le := f.abs_toRat_le
    have hg_le' := g.abs_toRat_le
    linarith
  have hf_le := f.abs_toRat_le
  obtain ⟨r, hr, hclose⟩ := exists_sub hu ht (by linarith)
  refine ⟨|r|, hr.abs, ?_⟩
  -- what is lost: by the subtraction, and by either fraction before it
  have htriangle : |r - (g.toRat - f.toRat)| ≤
      |r - (u - t)| + |(u - t) - (g.toRat - f.toRat)| := by
    have := abs_add_le (r - (u - t)) ((u - t) - (g.toRat - f.toRat))
    rwa [sub_add_sub_cancel] at this
  have houter := abs_abs_sub_abs_le r (g.toRat - f.toRat)
  rw [Close] at hclose
  have hnonneg := abs_nonneg (g.toRat - f.toRat)
  have hnonneg' := abs_nonneg f.toRat
  linarith

end Worksheet.Fraction
