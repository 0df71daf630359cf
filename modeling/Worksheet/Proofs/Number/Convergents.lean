import Mathlib.Algebra.Order.Ring.Abs
import Mathlib.Tactic.LinearCombination
import Worksheet.Proofs.Number.Wide

/-!
# Convergents on a machine are exact

The continued fraction of a fraction is expanded in 128-bit words, both to limit a denominator and to
find a simple fraction near by. No step of it meets a fault.

* **`Tracks`** — what holds of two convergents while a fraction is expanded: they recombine to the
  fraction, and their determinant is one up to the sign, so that neither outgrows it.
* **`Tracks.next`** — one more partial quotient keeps this; **`Tracks.advance_eq`** — and meets no
  fault.
* **`limitDenominator_eq`**, **`approximate_eq`** — so the whole computations meet none.
-/

namespace Worksheet.Wide

open Fraction

/-! ## What holds on the way -/

/-- The convergents of a fraction, of which `n / d` is left to expand. -/
structure Tracks (f : Fraction) (c : Convergents) (n d : Int) : Prop where
  num : c.p₁ * n + c.p₀ * d = f.num.toInt
  den : c.q₁ * n + c.q₀ * d = f.den.toInt
  det : c.p₁ * c.q₀ - c.p₀ * c.q₁ = 1 ∨ c.p₁ * c.q₀ - c.p₀ * c.q₁ = -1
  q₀_nonneg : 0 ≤ c.q₀
  q₁_nonneg : 0 ≤ c.q₁
  q₀_le : c.q₀ ≤ f.den.toInt
  q₁_le : c.q₁ ≤ f.den.toInt
  p₀_le : c.p₀.natAbs ≤ f.num.toInt.natAbs + 1
  p₁_le : c.p₁.natAbs ≤ f.num.toInt.natAbs + 1
  quotient : c.q₁ = 0 ∨ 0 ≤ n
  n_le : n.natAbs ≤ 2 ^ 63
  d_nonneg : 0 ≤ d
  d_le : d ≤ f.den.toInt

theorem tracks_start (f : Fraction) : Tracks f .start f.num.toInt f.den.toInt where
  num := by simp [Convergents.start]
  den := by simp [Convergents.start]
  det := by simp [Convergents.start]
  q₀_nonneg := by simp [Convergents.start]
  q₁_nonneg := by simp [Convergents.start]
  q₀_le := f.den_pos
  q₁_le := f.den_pos.le
  p₀_le := by simp [Convergents.start]
  p₁_le := by simp [Convergents.start]
  quotient := Or.inl rfl
  n_le := natAbs_toInt_le f.num
  d_nonneg := f.den_pos.le
  d_le := le_refl _

/-- The determinant bounds a numerator by the denominator next to it. -/
theorem natAbs_le_of_det {p q p' q' n d num den : Int} (hnum : p' * n + p * d = num)
    (hden : q' * n + q * d = den) (hdet : p' * q - p * q' = 1 ∨ p' * q - p * q' = -1)
    (hq_nonneg : 0 ≤ q') (hq_le : q' ≤ den) (hd_nonneg : 0 ≤ d) (hd_le : d ≤ den)
    (hden_pos : 0 < den) : p'.natAbs ≤ num.natAbs + 1 := by
  have hcross : p' * den = q' * num + (p' * q - p * q') * d := by
    rw [← hnum, ← hden]
    ring
  have hsign : |(p' * q - p * q') * d| = d := by
    rcases hdet with h | h <;> simp [h, abs_of_nonneg hd_nonneg]
  have hbound : |p'| * den ≤ (|num| + 1) * den := by
    calc |p'| * den = |q' * num + (p' * q - p * q') * d| := by
          rw [← hcross, abs_mul, abs_of_pos hden_pos]
      _ ≤ |q' * num| + |(p' * q - p * q') * d| := abs_add_le _ _
      _ = q' * |num| + d := by rw [hsign, abs_mul, abs_of_nonneg hq_nonneg]
      _ ≤ den * |num| + den := add_le_add (mul_le_mul_of_nonneg_right hq_le (abs_nonneg num)) hd_le
      _ = (|num| + 1) * den := by ring
  have hle := le_of_mul_le_mul_right hbound hden_pos
  rw [Int.abs_eq_natAbs, Int.abs_eq_natAbs] at hle
  omega

section Next

variable {f : Fraction} {c : Convergents} {n d : Int}

/-- The quotient of what is left is not negative but in the first step, where nothing is multiplied
with it. -/
theorem Tracks.q₁_next_nonneg (h : Tracks f c n d) : 0 ≤ (c.next (n / d)).q₁ := by
  have hproduct : 0 ≤ n / d * c.q₁ := by
    rcases h.quotient with hzero | hn
    · rw [hzero, mul_zero]
    · exact mul_nonneg (Int.ediv_nonneg hn h.d_nonneg) h.q₁_nonneg
  exact add_nonneg h.q₀_nonneg hproduct

theorem Tracks.next (h : Tracks f c n d) (hd : 0 < d) :
    Tracks f (c.next (n / d)) d (n % d) := by
  have hnonneg := h.q₁_next_nonneg
  have hr_nonneg := Int.emod_nonneg n hd.ne'
  have hr_lt := Int.emod_lt_of_pos n hd
  have hsplit : n = d * (n / d) + n % d := (Int.mul_ediv_add_emod n d).symm
  have hnum : (c.next (n / d)).p₁ * d + (c.next (n / d)).p₀ * (n % d) = f.num.toInt := by
    rw [← h.num]
    show (c.p₀ + n / d * c.p₁) * d + c.p₁ * (n % d) = c.p₁ * n + c.p₀ * d
    linear_combination (-c.p₁) * hsplit
  have hden : (c.next (n / d)).q₁ * d + (c.next (n / d)).q₀ * (n % d) = f.den.toInt := by
    rw [← h.den]
    show (c.q₀ + n / d * c.q₁) * d + c.q₁ * (n % d) = c.q₁ * n + c.q₀ * d
    linear_combination (-c.q₁) * hsplit
  have hdet : (c.next (n / d)).p₁ * (c.next (n / d)).q₀ - (c.next (n / d)).p₀ * (c.next (n / d)).q₁
        = 1 ∨
      (c.next (n / d)).p₁ * (c.next (n / d)).q₀ - (c.next (n / d)).p₀ * (c.next (n / d)).q₁
        = -1 := by
    have hswap : (c.next (n / d)).p₁ * (c.next (n / d)).q₀
        - (c.next (n / d)).p₀ * (c.next (n / d)).q₁ = -(c.p₁ * c.q₀ - c.p₀ * c.q₁) := by
      show (c.p₀ + n / d * c.p₁) * c.q₁ - c.p₁ * (c.q₀ + n / d * c.q₁) = _
      ring
    rw [hswap]
    rcases h.det with hdet | hdet <;> omega
  -- what the denominator is multiplied with is at least one
  have hq_le : (c.next (n / d)).q₁ ≤ f.den.toInt := by
    have hone : (c.next (n / d)).q₁ * 1 ≤ (c.next (n / d)).q₁ * d :=
      mul_le_mul_of_nonneg_left (by omega) hnonneg
    have hrest : 0 ≤ (c.next (n / d)).q₀ * (n % d) := mul_nonneg h.q₁_nonneg hr_nonneg
    omega
  have hd_le := h.d_le
  refine ⟨hnum, hden, hdet, h.q₁_nonneg, hnonneg, h.q₁_le, hq_le, h.p₁_le, ?_, Or.inr hd.le, ?_,
    hr_nonneg, by omega⟩
  · exact natAbs_le_of_det hnum hden hdet hnonneg hq_le hr_nonneg (by omega) f.den_pos
  · have hden_le := natAbs_toInt_le f.den
    omega

theorem combine_eq {x a y : Int} (hproduct : (a * y).natAbs < 2 ^ 127)
    (hsum : (x + a * y).natAbs < 2 ^ 127) : combine x a y = .ok (x + a * y) := by
  have htimes : times a y = .ok (a * y) := hold_eq hproduct
  rw [combine, htimes]
  exact hold_eq hsum

/-- The product is the difference of what is known to be small. -/
theorem combine_eq_of_le {x a y : Int} (hx : x.natAbs ≤ 2 ^ 64)
    (hsum : (x + a * y).natAbs ≤ 2 ^ 64) : combine x a y = .ok (x + a * y) :=
  combine_eq (by omega) (by omega)

theorem Tracks.quotientEuclid_eq (h : Tracks f c n d) (hd : 0 < d) :
    quotientEuclid n d = .ok (n / d) := by
  have hle := Int.natAbs_ediv_le_natAbs n d
  have hn := h.n_le
  rw [quotientEuclid, if_neg hd.ne', hold_eq (by omega)]

theorem Tracks.combine_den_eq (h : Tracks f c n d) (hd : 0 < d) :
    combine c.q₀ (n / d) c.q₁ = .ok (c.next (n / d)).q₁ := by
  have hnext := h.next hd
  have hden := natAbs_toInt_le f.den
  have hold_nonneg := h.q₀_nonneg
  have hold_le := h.q₀_le
  have hnew_nonneg := hnext.q₁_nonneg
  have hnew_le := hnext.q₁_le
  refine combine_eq_of_le (by omega) ?_
  show (c.next (n / d)).q₁.natAbs ≤ 2 ^ 64
  omega

theorem Tracks.combine_num_eq (h : Tracks f c n d) (hd : 0 < d) :
    combine c.p₀ (n / d) c.p₁ = .ok (c.next (n / d)).p₁ := by
  have hnum := natAbs_toInt_le f.num
  have hold_le := h.p₀_le
  have hnew_le := (h.next hd).p₁_le
  refine combine_eq_of_le (by omega) ?_
  show (c.next (n / d)).p₁.natAbs ≤ 2 ^ 64
  omega

theorem Tracks.nextDenominator_eq (h : Tracks f c n d) (hd : 0 < d) :
    nextDenominator c n d = .ok (c.next (n / d)).q₁ := by
  rw [nextDenominator, h.quotientEuclid_eq hd]
  exact h.combine_den_eq hd

/-- **One more partial quotient meets no fault.** -/
theorem Tracks.advance_eq (h : Tracks f c n d) (hd : 0 < d) :
    advance c n d = .ok (c.next (n / d), n % d) := by
  have hn := h.n_le
  have hr_nonneg := Int.emod_nonneg n hd.ne'
  have hr_lt := Int.emod_lt_of_pos n hd
  have hd_le := h.d_le
  have hden := natAbs_toInt_le f.den
  have hsplit : n / d * d = n - n % d := by
    rw [mul_comm]
    have hdiv := Int.mul_ediv_add_emod n d
    omega
  have htimes : times (n / d) d = .ok (n - n % d) := by
    rw [times, hsplit]
    exact hold_eq (by omega)
  have hminus : minus n (n - n % d) = .ok (n % d) := by
    rw [minus, sub_sub_cancel]
    exact hold_eq (by omega)
  simp only [advance, h.quotientEuclid_eq hd, h.combine_den_eq hd, h.combine_num_eq hd, bind,
    Except.bind, htimes, hminus]
  rfl

end Next

/-! ## Denominators within a bound -/

theorem expand_zero (bound : Int) (c : Convergents) (n : Int) : c.expand bound n 0 = c := by
  rw [Convergents.expand, dif_pos rfl]

theorem Tracks.limitLoop_eq {f : Fraction} {c : Convergents} {n : Int} {d : Nat}
    (h : Tracks f c n d) (bound : Int) (hd : d ≠ 0) :
    limitLoop bound c n d = .ok (c.expand bound n d) := by
  induction d using Nat.strongRecOn generalizing c n with
  | ind d ih =>
    have hpos : 0 < (d : Int) := by omega
    have hr_nonneg := Int.emod_nonneg n hpos.ne'
    have hr_lt := Int.emod_lt_of_pos n hpos
    have hr : (((n % (d : Int)).toNat : Nat) : Int) = n % d := Int.toNat_of_nonneg hr_nonneg
    have hnext := h.next hpos
    rw [limitLoop, Convergents.expand, dif_neg hd, h.nextDenominator_eq hpos]
    dsimp only
    by_cases hbound : bound < (c.next (n / d)).q₁
    · rw [if_pos hbound, if_pos hbound]
    · rw [if_neg hbound, if_neg hbound]
      split
      · next e he =>
        rw [h.advance_eq hpos] at he
        cases he
      · next c' r hc' =>
        rw [h.advance_eq hpos] at hc'
        cases hc'
        by_cases hzero : n % (d : Int) = 0
        · rw [if_pos hzero, hzero, Int.toNat_zero, expand_zero]
        · rw [if_neg hzero, ← hr]
          exact ih _ (by omega) (hr ▸ hnext) (by omega)

/-- A convergent is as long as its predecessor has not used up the whole fraction. -/
theorem Tracks.q₁_next_pos {f : Fraction} {c : Convergents} {n d : Int} (h : Tracks f c n d)
    (hd : 0 < d) : 0 < (c.next (n / d)).q₁ := by
  have hnext := h.next hd
  refine lt_of_le_of_ne hnext.q₁_nonneg fun hzero => ?_
  have hr_lt := Int.emod_lt_of_pos n hd
  have hd_le := h.d_le
  have hdet := hnext.det
  have hden := hnext.den
  rw [← hzero, mul_zero, sub_zero] at hdet
  rw [← hzero, zero_mul, zero_add] at hden
  -- so the denominator before is one, and what is left is no smaller than at the start
  have hone : (c.next (n / d)).q₀ = 1 := by
    have hunit : IsUnit (c.next (n / d)).q₀ :=
      isUnit_of_mul_isUnit_right (Int.isUnit_iff.mpr hdet)
    have hnonneg := hnext.q₀_nonneg
    rcases Int.isUnit_iff.mp hunit with hq | hq <;> omega
  rw [hone, one_mul] at hden
  omega

/-- Two convergents whose denominators are within the bound, the second of them no formal one. -/
structure Within (f : Fraction) (bound : Int) (c : Convergents) : Prop where
  q₀_nonneg : 0 ≤ c.q₀
  q₀_le : c.q₀ ≤ bound
  q₁_pos : 0 < c.q₁
  q₁_le : c.q₁ ≤ bound
  p₀_le : c.p₀.natAbs ≤ f.num.toInt.natAbs + 1
  p₁_le : c.p₁.natAbs ≤ f.num.toInt.natAbs + 1

theorem Tracks.within_expand {f : Fraction} {bound : Int} {c : Convergents} {n : Int} {d : Nat}
    (h : Tracks f c n d) (hq₀ : c.q₀ ≤ bound) (hq₁ : c.q₁ ≤ bound) (hpos : 0 < c.q₁) :
    Within f bound (c.expand bound n d) := by
  have hc : Within f bound c := ⟨h.q₀_nonneg, hq₀, hpos, hq₁, h.p₀_le, h.p₁_le⟩
  induction d using Nat.strongRecOn generalizing c n with
  | ind d ih =>
    rw [Convergents.expand]
    by_cases hd : d = 0
    · rwa [dif_pos hd]
    · have hd_pos : 0 < (d : Int) := by omega
      have hr_nonneg := Int.emod_nonneg n hd_pos.ne'
      have hr_lt := Int.emod_lt_of_pos n hd_pos
      have hr : (((n % (d : Int)).toNat : Nat) : Int) = n % d := Int.toNat_of_nonneg hr_nonneg
      have hnext := h.next hd_pos
      have hnext_pos := h.q₁_next_pos hd_pos
      rw [dif_neg hd]
      dsimp only
      by_cases hbound : bound < (c.next (n / d)).q₁
      · rwa [if_pos hbound]
      · have hle := Int.not_lt.mp hbound
        rw [if_neg hbound]
        exact ih _ (by omega) (hr ▸ hnext) hq₁ hle hnext_pos
          ⟨hnext.q₀_nonneg, hq₁, hnext_pos, hle, hnext.p₀_le, hnext.p₁_le⟩

theorem toNat_den (f : Fraction) : ((f.den.toInt.toNat : Nat) : Int) = f.den.toInt :=
  Int.toNat_of_nonneg f.den_pos.le

theorem tracks_start_toNat (f : Fraction) :
    Tracks f .start f.num.toInt (f.den.toInt.toNat : Nat) := by
  rw [toNat_den]
  exact tracks_start f

theorem toNat_den_ne_zero (f : Fraction) : f.den.toInt.toNat ≠ 0 := by
  have hpos := f.den_pos
  omega

theorem limitLoop_start_eq (f : Fraction) (bound : Int) :
    limitLoop bound .start f.num.toInt f.den.toInt
      = .ok (Convergents.start.expand bound f.num.toInt f.den.toInt.toNat) := by
  have hloop := (tracks_start_toNat f).limitLoop_eq bound (toNat_den_ne_zero f)
  rwa [toNat_den] at hloop

/-- The first convergent is whole, so that every bound lets it pass. -/
theorem within_expand_start (f : Fraction) {bound : Int} (hbound : 1 ≤ bound) :
    Within f bound (Convergents.start.expand bound f.num.toInt f.den.toInt.toNat) := by
  have hden_pos : 0 < ((f.den.toInt.toNat : Nat) : Int) := by
    rw [toNat_den]
    exact f.den_pos
  have hr := Int.toNat_of_nonneg (Int.emod_nonneg f.num.toInt hden_pos.ne')
  have hnext := (tracks_start_toNat f).next hden_pos
  rw [← hr] at hnext
  have hq₀ : (Convergents.start.next (f.num.toInt / (f.den.toInt.toNat : Int))).q₀ = 0 := rfl
  have hq₁ : (Convergents.start.next (f.num.toInt / (f.den.toInt.toNat : Int))).q₁ = 1 := by
    simp [Convergents.start, Convergents.next]
  rw [Convergents.expand, dif_neg (toNat_den_ne_zero f)]
  dsimp only
  rw [if_neg (by omega)]
  exact hnext.within_expand (by omega) (by omega) (by omega)

/-- The mediant that comes closest to the bound, where nothing is near the least word. -/
theorem Within.mediant_eq {f : Fraction} {bound : Int64} {c : Convergents}
    (h : Within f bound.toInt c) :
    minus bound.toInt c.q₀ = .ok (bound.toInt - c.q₀) ∧
    quotient (bound.toInt - c.q₀) c.q₁ = .ok ((bound.toInt - c.q₀).tdiv c.q₁) ∧
    combine c.p₀ ((bound.toInt - c.q₀).tdiv c.q₁) c.p₁
      = .ok (c.p₀ + (bound.toInt - c.q₀).tdiv c.q₁ * c.p₁) ∧
    combine c.q₀ ((bound.toInt - c.q₀).tdiv c.q₁) c.q₁
      = .ok (c.q₀ + (bound.toInt - c.q₀).tdiv c.q₁ * c.q₁) ∧
    reduced (c.p₀ + (bound.toInt - c.q₀).tdiv c.q₁ * c.p₁)
        (c.q₀ + (bound.toInt - c.q₀).tdiv c.q₁ * c.q₁)
      = .ok ((ofRatio? (c.p₀ + (bound.toInt - c.q₀).tdiv c.q₁ * c.p₁)
        (c.q₀ + (bound.toInt - c.q₀).tdiv c.q₁ * c.q₁)).map words) := by
  obtain ⟨hq₀_nonneg, hq₀_le, hq₁_pos, hq₁_le, hp₀_le, hp₁_le⟩ := h
  have hnum := natAbs_toInt_le f.num
  have hbound := natAbs_toInt_le bound
  have hroom : 0 ≤ bound.toInt - c.q₀ := by omega
  generalize hk : (bound.toInt - c.q₀).tdiv c.q₁ = k
  have hk_nonneg : 0 ≤ k := by
    rw [← hk]
    exact Int.tdiv_nonneg hroom hq₁_pos.le
  have hk_mul : k * c.q₁ ≤ bound.toInt - c.q₀ := by
    rw [← hk, Int.tdiv_eq_ediv_of_nonneg hroom]
    exact Int.ediv_mul_le _ hq₁_pos.ne'
  have hk_mul_nonneg : 0 ≤ k * c.q₁ := mul_nonneg hk_nonneg hq₁_pos.le
  have hk_le : k ≤ k * c.q₁ := le_mul_of_one_le_right hk_nonneg hq₁_pos
  have hproduct : (k * c.p₁).natAbs ≤ 2 ^ 63 * (2 ^ 63 + 1) := by
    rw [Int.natAbs_mul]
    exact Nat.mul_le_mul (by omega) (by omega)
  refine ⟨hold_eq (by omega), ?_, combine_eq (by omega) (by omega), combine_eq (by omega) (by omega),
    reduced_eq (by omega) (by omega)⟩
  rw [quotient, if_neg hq₁_pos.ne', hk, hold_eq (by omega)]

theorem Within.convergent_eq {f : Fraction} {bound : Int64} {c : Convergents}
    (h : Within f bound.toInt c) :
    reduced c.p₁ c.q₁ = .ok ((ofRatio? c.p₁ c.q₁).map words) := by
  obtain ⟨-, -, hq₁_pos, hq₁_le, -, hp₁_le⟩ := h
  have hnum := natAbs_toInt_le f.num
  have hbound := natAbs_toInt_le bound
  exact reduced_eq (by omega) (by omega)

theorem limitDenominator_eq (f : Fraction) (bound : Int64) :
    limitDenominator f bound = .ok (words (f.limitDenominator bound)) := by
  unfold limitDenominator Fraction.limitDenominator
  by_cases hbound : bound.toInt < 1 ∨ f.den.toInt ≤ bound.toInt
  · rw [if_pos hbound, if_pos hbound]
  have hwithin := within_expand_start f (show 1 ≤ bound.toInt by omega)
  obtain ⟨hroom, hquotient, hnum, hden, hmediant⟩ := hwithin.mediant_eq
  rw [if_neg hbound, if_neg hbound]
  simp only [bind, Except.bind, limitLoop_start_eq, hroom, hquotient, hnum, hden, hmediant,
    hwithin.convergent_eq]
  generalize ofRatio? (_ + _) _ = mediant
  generalize ofRatio? _ _ = convergent
  rcases mediant with - | m <;> rcases convergent with - | v
  · rfl
  · rfl
  · rfl
  · exact (apply_ite (Except.ok ∘ words) _ v m).symm

/-! ## Fractions near by -/

theorem Tracks.convergent_eq {f : Fraction} {c : Convergents} {n d : Int} (h : Tracks f c n d) :
    reduced c.p₁ c.q₁ = .ok ((ofRatio? c.p₁ c.q₁).map words) := by
  have hnum := natAbs_toInt_le f.num
  have hden := natAbs_toInt_le f.den
  have hp_le := h.p₁_le
  have hq_nonneg := h.q₁_nonneg
  have hq_le := h.q₁_le
  exact reduced_eq (by omega) (by omega)

theorem Tracks.approximateLoop_eq {f : Fraction} {c : Convergents} {n : Int} {d : Nat}
    (h : Tracks f c n d) : approximateLoop f c n d = .ok (words (approximateFrom f c n d)) := by
  -- by induction on the divisor, as the remainder is the next one
  induction d using Nat.strongRecOn generalizing c n with
  | ind d ih =>
    rw [approximateLoop, approximateFrom]
    by_cases hd : d = 0
    · rw [if_pos (by exact_mod_cast hd), dif_pos hd]
    · have hpos : 0 < (d : Int) := by omega
      have hr_nonneg := Int.emod_nonneg n hpos.ne'
      have hr_lt := Int.emod_lt_of_pos n hpos
      have hr : (((n % (d : Int)).toNat : Nat) : Int) = n % d := Int.toNat_of_nonneg hr_nonneg
      have hnext := h.next hpos
      rw [if_neg (by exact_mod_cast hd), dif_neg hd]
      dsimp only
      split
      · next e he =>
        rw [h.advance_eq hpos] at he
        cases he
      · next c' r hc' =>
        rw [h.advance_eq hpos] at hc'
        cases hc'
        rw [hnext.convergent_eq]
        cases ofRatio? (c.next (n / d)).p₁ (c.next (n / d)).q₁ with
        | none => rfl
        | some candidate =>
          have hreal : toReal (words candidate) = candidate.toReal := rfl
          simp only [Option.map_some, hreal]
          split
          · rfl
          · rw [← hr]
            exact ih _ (by omega) (hr ▸ hnext)

theorem approximate_eq (f : Fraction) : approximate f = .ok (words f.approximate) := by
  have hloop := (tracks_start_toNat f).approximateLoop_eq
  rwa [toNat_den] at hloop

end Worksheet.Wide
