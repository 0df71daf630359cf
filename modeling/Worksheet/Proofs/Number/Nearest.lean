import Mathlib
import Worksheet.Proofs.Number.Expansion

/-!
# The nearest fraction with a bounded denominator

Among the fractions whose denominators keep a bound there are two in a row that enclose a given one,
and one of these two is nearest to it. `limitDenominator` finds both of them, and takes the one that is
closer when the distances are measured in reals. The measured distances are rounded: the nearest
fraction is missed if the two are about as close.

* **`Adjacent`** — two fractions in a row; **`Adjacent.le_or_le`** — there is none between them.
* **`Stopped.exists_adjacent`** — the expansion stops at two of them.
* **`Candidates`** — what is known of the one that is taken and of the other;
  **`exists_candidates`**.
* **`le_of_measured`** — what the measured distances say about the distances.
* **`Candidates.abs_sub_le`** — how far away the result is.
* **`limitDenominator_nearest`** — the result is nearest, but for the rounding.
-/

namespace Worksheet.Wide

open Fraction

/-! ## Two fractions in a row -/

/-- Two fractions in a row among those whose denominators are at most `bound`. -/
structure Adjacent (bound : Int) (l r : Fraction) : Prop where
  left_le : l.den.toInt ≤ bound
  right_le : r.den.toInt ≤ bound
  det : r.num.toInt * l.den.toInt - l.num.toInt * r.den.toInt = 1
  bound_lt : bound < l.den.toInt + r.den.toInt

theorem lt_iff_cross_lt (f : Fraction) (q : ℚ) :
    f.toRat < q ↔ f.num.toInt * q.den < q.num * f.den.toInt := by
  have hf : (0 : ℚ) < f.den.toInt := by exact_mod_cast f.den_pos
  have hq : (0 : ℚ) < q.den := by exact_mod_cast q.pos
  rw [← Rat.num_div_den q, toRat, div_lt_div_iff₀ hf hq]
  simp only [Rat.num_div_den]
  exact_mod_cast Iff.rfl

theorem lt_iff_cross_lt' (q : ℚ) (f : Fraction) :
    q < f.toRat ↔ q.num * f.den.toInt < f.num.toInt * q.den := by
  have hf : (0 : ℚ) < f.den.toInt := by exact_mod_cast f.den_pos
  have hq : (0 : ℚ) < q.den := by exact_mod_cast q.pos
  rw [← Rat.num_div_den q, toRat, div_lt_div_iff₀ hq hf]
  simp only [Rat.num_div_den]
  exact_mod_cast Iff.rfl

section Adjacent

variable {bound : Int} {l r : Fraction}

/-- **There is no fraction between two in a row**: its denominator would be at least the sum of
theirs. -/
theorem Adjacent.le_or_le (h : Adjacent bound l r) {q : ℚ} (hq : (q.den : Int) ≤ bound) :
    q ≤ l.toRat ∨ r.toRat ≤ q := by
  by_contra! hbetween
  have hleft := (lt_iff_cross_lt l q).mp hbetween.1
  have hright := (lt_iff_cross_lt' q r).mp hbetween.2
  have hl := l.den_pos
  have hr := r.den_pos
  have hsum : (q.den : Int) = (q.num * l.den.toInt - l.num.toInt * q.den) * r.den.toInt
      + (r.num.toInt * q.den - q.num * r.den.toInt) * l.den.toInt := by
    linear_combination (-(q.den : Int)) * h.det
  have hleft' : 1 * r.den.toInt ≤ (q.num * l.den.toInt - l.num.toInt * q.den) * r.den.toInt :=
    mul_le_mul_of_nonneg_right (by omega) hr.le
  have hright' : 1 * l.den.toInt ≤ (r.num.toInt * q.den - q.num * r.den.toInt) * l.den.toInt :=
    mul_le_mul_of_nonneg_right (by omega) hl.le
  have hbound := h.bound_lt
  linarith

/-- What lies between two in a row is closest to one of them. -/
theorem Adjacent.min_le (h : Adjacent bound l r) {x : ℚ} (hl : l.toRat < x) (hr : x < r.toRat) {q : ℚ}
    (hq : (q.den : Int) ≤ bound) : |l.toRat - x| ≤ |q - x| ∨ |r.toRat - x| ≤ |q - x| := by
  rcases h.le_or_le hq with hle | hle
  · left
    rw [abs_of_neg (by linarith), abs_of_nonpos (by linarith)]
    linarith
  · right
    rw [abs_of_pos (by linarith), abs_of_nonneg (by linarith)]
    linarith

/-- Two in a row are no farther apart than the bound allows. -/
theorem Adjacent.width_le (h : Adjacent bound l r) : r.toRat - l.toRat ≤ 1 / bound := by
  have hl_int := l.den_pos
  have hr_int := r.den_pos
  have hl : (0 : ℚ) < l.den.toInt := by exact_mod_cast hl_int
  have hr : (0 : ℚ) < r.den.toInt := by exact_mod_cast hr_int
  have hdet : (r.num.toInt : ℚ) * l.den.toInt - r.den.toInt * l.num.toInt = 1 := by
    rw [mul_comm (r.den.toInt : ℚ)]
    exact_mod_cast h.det
  have hbound_pos : (0 : ℚ) < bound := by exact_mod_cast hl_int.trans_le h.left_le
  have hproduct : bound ≤ r.den.toInt * l.den.toInt := by
    have hsum := h.bound_lt
    have hrest : 0 ≤ (r.den.toInt - 1) * (l.den.toInt - 1) := mul_nonneg (by omega) (by omega)
    linarith
  rw [toRat, toRat, div_sub_div _ _ hr.ne' hl.ne', hdet]
  exact one_div_le_one_div_of_le hbound_pos (by exact_mod_cast hproduct)

end Adjacent

/-! ## Where the expansion stops -/

/-- What is left when the expansion stops: nothing, or a term that would exceed the bound. -/
theorem Tracks.exists_rest {f : Fraction} {c : Convergents} {n : Int} {d : Nat}
    (h : Tracks f c n d) (bound : Int) : ∃ (m : Int) (e : Nat), Tracks f (c.expand bound n d) m e ∧
      (e ≠ 0 → bound < ((c.expand bound n d).next (m / e)).q₁) := by
  induction d using Nat.strongRecOn generalizing c n with
  | ind d ih =>
    rw [Convergents.expand]
    by_cases hd : d = 0
    · rw [dif_pos hd]
      exact ⟨n, d, h, fun hne => absurd hd hne⟩
    · have hpos : 0 < (d : Int) := by omega
      have hr_lt := Int.emod_lt_of_pos n hpos
      have hr := Int.toNat_of_nonneg (Int.emod_nonneg n hpos.ne')
      rw [dif_neg hd]
      dsimp only
      by_cases hbound : bound < (c.next (n / d)).q₁
      · rw [if_pos hbound]
        exact ⟨n, d, h, fun _ => hbound⟩
      · rw [if_neg hbound]
        exact ih _ (by omega) (hr ▸ h.next hpos)

/-- The expansion has stopped: `k` is the greatest multiple of the newer convergent that the older
one can take within the bound, and `n / d` is greater. -/
structure Stopped (f : Fraction) (bound : Int) (c : Convergents) (n d k : Int) : Prop where
  tracks : Tracks f c n d
  within : Within f bound c
  bound_lt_den : bound < f.den.toInt
  d_pos : 0 < d
  k_nonneg : 0 ≤ k
  mediant_le : c.q₀ + k * c.q₁ ≤ bound
  bound_lt : bound < c.q₀ + k * c.q₁ + c.q₁
  rest_le : k * d + d ≤ n

theorem Within.exists_stopped {f : Fraction} {bound : Int} {c : Convergents} {n d : Int}
    (hw : Within f bound c) (h : Tracks f c n d) (hlt : bound < f.den.toInt)
    (hstop : d ≠ 0 → bound < (c.next (n / d)).q₁) :
    Stopped f bound c n d ((bound - c.q₀).tdiv c.q₁) := by
  have hroom : 0 ≤ bound - c.q₀ := by have := hw.q₀_le; omega
  have hdivmod := Int.mul_ediv_add_emod (bound - c.q₀) c.q₁
  have hmod_nonneg := Int.emod_nonneg (bound - c.q₀) hw.q₁_pos.ne'
  have hmod_lt := Int.emod_lt_of_pos (bound - c.q₀) hw.q₁_pos
  rw [Int.tdiv_eq_ediv_of_nonneg hroom]
  have hk_nonneg := Int.ediv_nonneg hroom hw.q₁_pos.le
  generalize (bound - c.q₀) / c.q₁ = k at hdivmod hk_nonneg ⊢
  rw [mul_comm] at hdivmod
  -- a fraction that is used up would be a convergent itself, with too large a denominator
  have hd : d ≠ 0 := by
    rintro rfl
    have hcross := h.cross_eq
    rw [mul_zero, sub_eq_zero] at hcross
    have hdvd : f.den.toInt ∣ c.q₁ :=
      dvd_of_gcd_eq_one (b := f.num.toInt) ⟨c.p₁, by linarith⟩ f.coprime
    have hle := Int.le_of_dvd hw.q₁_pos hdvd
    have hq_le := hw.q₁_le
    omega
  have hd_pos : 0 < d := lt_of_le_of_ne h.d_nonneg (Ne.symm hd)
  have hquotient : k < n / d := by
    have hnext : bound < c.q₀ + n / d * c.q₁ := hstop hd
    exact lt_of_mul_lt_mul_right (by omega : k * c.q₁ < n / d * c.q₁) hw.q₁_pos.le
  have hrest : k * d + d ≤ n := by
    have hmul := Int.ediv_mul_le n hd
    have hle : (k + 1) * d ≤ n / d * d := mul_le_mul_of_nonneg_right (by omega) hd_pos.le
    linarith
  exact ⟨h, hw, hlt, hd_pos, hk_nonneg, by omega, by omega, hrest⟩

section Stopped

variable {f : Fraction} {bound : Int} {c : Convergents} {n d k : Int}

theorem Stopped.mediant_pos (h : Stopped f bound c n d k) : 0 < c.q₀ + k * c.q₁ := by
  have hq_le := h.within.q₁_le
  have hbound := h.bound_lt
  have hproduct : 0 ≤ k * c.q₁ := mul_nonneg h.k_nonneg h.within.q₁_pos.le
  have hq₀ := h.within.q₀_nonneg
  omega

/-- What is left is less than the denominator. -/
theorem Stopped.rest_lt (h : Stopped f bound c n d k) : n - k * d < f.den.toInt ∧ d < f.den.toInt := by
  have hd := h.d_pos
  have hrest := h.rest_le
  have hkd : 0 ≤ k * d := mul_nonneg h.k_nonneg hd.le
  have hn : 0 < n := by omega
  have hden := h.tracks.den
  have hq₁ : 1 * n ≤ c.q₁ * n := mul_le_mul_of_nonneg_right h.within.q₁_pos hn.le
  rcases eq_or_lt_of_le h.within.q₀_nonneg with hzero | hpos
  · -- the multiple is positive, as it is all there is of the denominator
    have hk : k ≠ 0 := by
      rintro rfl
      have hmediant := h.mediant_pos
      omega
    have hk_pos : 1 ≤ k := by have := h.k_nonneg; omega
    have hkd_le : 1 * d ≤ k * d := mul_le_mul_of_nonneg_right hk_pos hd.le
    rw [← hzero, zero_mul] at hden
    constructor <;> omega
  · have hq₀ : 1 * d ≤ c.q₀ * d := mul_le_mul_of_nonneg_right hpos hd.le
    constructor <;> omega

theorem Stopped.mediant_cross_eq (h : Stopped f bound c n d k) :
    (c.p₀ + k * c.p₁) * f.den.toInt - (c.q₀ + k * c.q₁) * f.num.toInt
      = -((c.p₁ * c.q₀ - c.p₀ * c.q₁) * (n - k * d)) := by
  rw [← h.tracks.num, ← h.tracks.den]
  ring

theorem Stopped.exists_mediant (h : Stopped f bound c n d k) :
    ∃ m : Fraction, m.num.toInt = c.p₀ + k * c.p₁ ∧ m.den.toInt = c.q₀ + k * c.q₁ ∧
      ofRatio? (c.p₀ + k * c.p₁) (c.q₀ + k * c.q₁) = some m := by
  have hrest := h.rest_le
  have hd := h.d_pos
  have hdet : (c.p₀ + k * c.p₁) * c.q₁ - c.p₁ * (c.q₀ + k * c.q₁)
      = -(c.p₁ * c.q₀ - c.p₀ * c.q₁) := by ring
  refine exists_fraction f (a := c.p₁) (b := c.q₁) ?_ h.mediant_pos
    (by have := h.mediant_le; have := h.bound_lt_den; omega) ?_
  · rw [hdet]
    rcases h.tracks.det with hone | hone <;> omega
  · rw [h.mediant_cross_eq, abs_neg, abs_mul, abs_of_nonneg (by omega : 0 ≤ n - k * d)]
    rcases h.tracks.det with hone | hone <;> rw [hone] <;> simpa using h.rest_lt.1

theorem cross_of_num_den {g : Fraction} {p q : Int} (hnum : g.num.toInt = p) (hden : g.den.toInt = q) :
    (f.toRat < g.toRat ↔ 0 < p * f.den.toInt - q * f.num.toInt) ∧
      (g.toRat < f.toRat ↔ p * f.den.toInt - q * f.num.toInt < 0) := by
  rw [lt_iff_cross_lt f, lt_iff_cross_lt' g.toRat, num_toRat, den_toRat, hnum, hden, sub_pos, sub_neg,
    mul_comm q]
  exact ⟨Iff.rfl, Iff.rfl⟩

/-- **The expansion stops at two fractions in a row** around the one that is expanded. Which of them
is the convergent depends on the sign of the determinant. -/
theorem Stopped.exists_adjacent (h : Stopped f bound c n d k) :
    ∃ v m : Fraction, ofRatio? c.p₁ c.q₁ = some v ∧
      ofRatio? (c.p₀ + k * c.p₁) (c.q₀ + k * c.q₁) = some m ∧
      (Adjacent bound v m ∧ v.toRat < f.toRat ∧ f.toRat < m.toRat ∨
        Adjacent bound m v ∧ m.toRat < f.toRat ∧ f.toRat < v.toRat) := by
  obtain ⟨v, hv_num, hv_den, hv⟩ := h.tracks.exists_fraction h.within.q₁_pos h.rest_lt.2
  obtain ⟨m, hm_num, hm_den, hm⟩ := h.exists_mediant
  obtain ⟨hv_gt, hv_lt⟩ := cross_of_num_den (f := f) hv_num hv_den
  obtain ⟨hm_gt, hm_lt⟩ := cross_of_num_den (f := f) hm_num hm_den
  rw [h.tracks.cross_eq] at hv_gt hv_lt
  rw [h.mediant_cross_eq] at hm_gt hm_lt
  have hd := h.d_pos
  have hrest := h.rest_le
  have hq_le := h.within.q₁_le
  have hm_le := h.mediant_le
  have hbound := h.bound_lt
  refine ⟨v, m, hv, hm, ?_⟩
  have hdet : v.num.toInt * m.den.toInt - m.num.toInt * v.den.toInt = c.p₁ * c.q₀ - c.p₀ * c.q₁ := by
    rw [hv_num, hv_den, hm_num, hm_den]
    ring
  rcases h.tracks.det with hone | hone
  · rw [hone] at hdet hv_gt hm_lt
    exact .inr ⟨⟨by omega, by omega, hdet, by omega⟩, hm_lt.mpr (by omega), hv_gt.mpr (by omega)⟩
  · rw [hone] at hdet hv_lt hm_gt
    exact .inl ⟨⟨by omega, by omega, by omega, by omega⟩, hv_lt.mpr (by omega), hm_gt.mpr (by omega)⟩

end Stopped

/-! ## The choice -/

theorem gap_le_total (f g h : Fraction) : gap f g ≤ gap f h ∨ gap f h ≤ gap f g := by
  obtain ⟨δ, hδ, -⟩ := exists_gap f g
  obtain ⟨ε, hε, -⟩ := exists_gap f h
  rw [Real.le_iff hδ hε, Real.le_iff hε hδ]
  exact le_total δ ε

/-- The candidates for the fraction nearest to `f`: one of them, `g`, is taken, as it is measured to be
closer than the other one. -/
structure Candidates (f : Fraction) (bound : Int) (g h : Fraction) : Prop where
  den_le : g.den.toInt ≤ bound
  other_le : h.den.toInt ≤ bound
  measured : gap f g ≤ gap f h
  min_le : ∀ q : ℚ, (q.den : Int) ≤ bound →
    |g.toRat - f.toRat| ≤ |q - f.toRat| ∨ |h.toRat - f.toRat| ≤ |q - f.toRat|
  add_le : |g.toRat - f.toRat| + |h.toRat - f.toRat| ≤ 1 / bound

theorem Adjacent.candidates {f l r : Fraction} {bound : Int} (h : Adjacent bound l r)
    (hl : l.toRat < f.toRat) (hr : f.toRat < r.toRat) :
    (gap f l ≤ gap f r → Candidates f bound l r) ∧ (gap f r ≤ gap f l → Candidates f bound r l) := by
  have hwidth := h.width_le
  have hleft : |l.toRat - f.toRat| = f.toRat - l.toRat := by
    rw [abs_of_neg (by linarith), neg_sub]
  have hright : |r.toRat - f.toRat| = r.toRat - f.toRat := abs_of_pos (by linarith)
  exact ⟨fun hle => ⟨h.left_le, h.right_le, hle, fun _ hq => h.min_le hl hr hq, by linarith⟩,
    fun hle => ⟨h.right_le, h.left_le, hle, fun _ hq => (h.min_le hl hr hq).symm, by linarith⟩⟩

/-- **The result is one of two fractions in a row**, the one that is closer when it is measured. -/
theorem exists_candidates (f : Fraction) {bound : Int64} (hbound : 1 ≤ bound.toInt)
    (hlt : bound.toInt < f.den.toInt) :
    ∃ h : Fraction, Candidates f bound.toInt (f.limitDenominator bound) h := by
  obtain ⟨n, d, htracks, hstop⟩ := (tracks_start_toNat f).exists_rest bound.toInt
  have hstopped := (within_expand_start f hbound).exists_stopped htracks hlt
    fun hd => hstop (by exact_mod_cast hd)
  obtain ⟨v, m, hv, hm, hadjacent⟩ := hstopped.exists_adjacent
  have hchoice : f.limitDenominator bound = if gap f v ≤ gap f m then v else m := by
    rw [Fraction.limitDenominator, if_neg (by omega)]
    dsimp only
    rw [hv, hm]
    rfl
  have hpair : (gap f v ≤ gap f m → Candidates f bound.toInt v m) ∧
      (gap f m ≤ gap f v → Candidates f bound.toInt m v) := by
    rcases hadjacent with ⟨hrow, hleft, hright⟩ | ⟨hrow, hleft, hright⟩
    · exact hrow.candidates hleft hright
    · exact (hrow.candidates hleft hright).symm
  rw [hchoice]
  by_cases hle : gap f v ≤ gap f m
  · rw [if_pos hle]
    exact ⟨m, hpair.1 hle⟩
  · rw [if_neg hle]
    exact ⟨v, hpair.2 ((gap_le_total f v m).resolve_left hle)⟩

/-- **What the measured distances say**: the fraction that seems closer is so but for a small part of
the one they are measured from. -/
theorem le_of_measured {f g h : Fraction} (hle : gap f g ≤ gap f h)
    (hsmall : |h.toRat - f.toRat| ≤ |f.toRat|) :
    |g.toRat - f.toRat| ≤ |h.toRat - f.toRat| + |f.toRat| / 2 ^ 47 := by
  obtain ⟨δ, hδ, hδ_near⟩ := exists_gap f g
  obtain ⟨ε, hε, hε_near⟩ := exists_gap f h
  rw [Real.le_iff hδ hε] at hle
  have hlow := (abs_le.mp hδ_near).1
  have hhigh := (abs_le.mp hε_near).2
  have hnonneg := abs_nonneg f.toRat
  linarith

theorem exists_mul_den (f g : Fraction) :
    ∃ a : Int, |g.toRat - f.toRat| * (g.den.toInt * f.den.toInt) = a := by
  have hf : (0 : ℚ) < f.den.toInt := by exact_mod_cast f.den_pos
  have hg : (0 : ℚ) < g.den.toInt := by exact_mod_cast g.den_pos
  refine ⟨|g.num.toInt * f.den.toInt - g.den.toInt * f.num.toInt|, ?_⟩
  rw [toRat, toRat, div_sub_div _ _ hg.ne' hf.ne', abs_div, abs_of_pos (mul_pos hg hf),
    div_mul_cancel₀ _ (mul_pos hg hf).ne']
  push_cast
  rfl

/-- Two distances that differ do so by one part of all three denominators. -/
theorem add_le_of_lt {f g h : Fraction} (hlt : |h.toRat - f.toRat| < |g.toRat - f.toRat|) :
    |h.toRat - f.toRat| + 1 / (g.den.toInt * h.den.toInt * f.den.toInt)
      ≤ |g.toRat - f.toRat| := by
  have hf : (0 : ℚ) < f.den.toInt := by exact_mod_cast f.den_pos
  have hg : (0 : ℚ) < g.den.toInt := by exact_mod_cast g.den_pos
  have hh : (0 : ℚ) < h.den.toInt := by exact_mod_cast h.den_pos
  obtain ⟨a, ha⟩ := exists_mul_den f g
  obtain ⟨b, hb⟩ := exists_mul_den f h
  have hproduct : (0 : ℚ) < g.den.toInt * h.den.toInt * f.den.toInt := mul_pos (mul_pos hg hh) hf
  have hdifference : (|g.toRat - f.toRat| - |h.toRat - f.toRat|)
      * (g.den.toInt * h.den.toInt * f.den.toInt) = (a * h.den.toInt - b * g.den.toInt : Int) := by
    push_cast
    rw [← ha, ← hb]
    ring
  have hone : (1 : ℚ) ≤ (a * h.den.toInt - b * g.den.toInt : Int) := by
    have hpos : (0 : ℚ) < (a * h.den.toInt - b * g.den.toInt : Int) := by
      rw [← hdifference]
      exact mul_pos (sub_pos.mpr hlt) hproduct
    exact_mod_cast hpos
  rw [← hdifference, ← div_le_iff₀ hproduct] at hone
  linarith

section Candidates

variable {f g h : Fraction} {bound : Int}

/-- **The right candidate is missed by a small part** of the fraction at most. Zero is no closer than
it, so that it is not far away. -/
theorem Candidates.abs_sub_le_other (hc : Candidates f bound g h) (hbound : 1 ≤ bound) :
    |g.toRat - f.toRat| ≤ |h.toRat - f.toRat| + |f.toRat| / 2 ^ 47 := by
  rcases le_or_gt |g.toRat - f.toRat| |h.toRat - f.toRat| with hcloser | hfarther
  · have hnonneg := abs_nonneg f.toRat
    linarith
  · have hzero := hc.min_le 0 (by simpa using hbound)
    rw [zero_sub, abs_neg] at hzero
    exact le_of_measured hc.measured (hzero.elim hfarther.le.trans id)

/-- The result is nearest but for a small part of the fraction. -/
theorem Candidates.abs_sub_le_add (hc : Candidates f bound g h) (hbound : 1 ≤ bound) {q : ℚ}
    (hq : (q.den : Int) ≤ bound) : |g.toRat - f.toRat| ≤ |q - f.toRat| + |f.toRat| / 2 ^ 47 := by
  have hslack := hc.abs_sub_le_other hbound
  have hnonneg := abs_nonneg f.toRat
  rcases hc.min_le q hq with hle | hle <;> linarith

/-- It is nearest if the numbers are so small that two distances differ by more than this. -/
theorem Candidates.abs_sub_le_of_small (hc : Candidates f bound g h) (hbound : 1 ≤ bound)
    (hsmall : |f.num.toInt| * bound ^ 2 < 2 ^ 47) {q : ℚ} (hq : (q.den : Int) ≤ bound) :
    |g.toRat - f.toRat| ≤ |q - f.toRat| := by
  rcases le_or_gt |g.toRat - f.toRat| |h.toRat - f.toRat| with hcloser | hfarther
  · exact (hc.min_le q hq).elim id hcloser.trans
  have hslack := hc.abs_sub_le_other hbound
  have hpart := add_le_of_lt hfarther
  have hf_pos : (0 : ℚ) < f.den.toInt := by exact_mod_cast f.den_pos
  have hg_pos : (0 : ℚ) < g.den.toInt := by exact_mod_cast g.den_pos
  have hh_pos : (0 : ℚ) < h.den.toInt := by exact_mod_cast h.den_pos
  have hg_le : (g.den.toInt : ℚ) ≤ bound := by exact_mod_cast hc.den_le
  have hh_le : (h.den.toInt : ℚ) ≤ bound := by exact_mod_cast hc.other_le
  have hsmall' : |(f.num.toInt : ℚ)| * (bound : ℚ) ^ 2 < 2 ^ 47 := by exact_mod_cast hsmall
  have hproduct : (g.den.toInt : ℚ) * h.den.toInt ≤ (bound : ℚ) ^ 2 := by
    rw [pow_two]
    exact mul_le_mul hg_le hh_le hh_pos.le (hg_pos.le.trans hg_le)
  have htoo_small : |f.toRat| / 2 ^ 47 < 1 / (g.den.toInt * h.den.toInt * f.den.toInt) := by
    rw [toRat, abs_div, abs_of_pos hf_pos, div_div, div_lt_div_iff₀ (by positivity) (by positivity)]
    have hscaled : |(f.num.toInt : ℚ)| * (g.den.toInt * h.den.toInt)
        ≤ |(f.num.toInt : ℚ)| * (bound : ℚ) ^ 2 :=
      mul_le_mul_of_nonneg_left hproduct (abs_nonneg _)
    calc |(f.num.toInt : ℚ)| * (g.den.toInt * h.den.toInt * f.den.toInt)
        = |(f.num.toInt : ℚ)| * (g.den.toInt * h.den.toInt) * f.den.toInt := by ring
      _ < 2 ^ 47 * f.den.toInt := mul_lt_mul_of_pos_right (by linarith) hf_pos
      _ = 1 * (f.den.toInt * 2 ^ 47) := by ring
  linarith

/-- **How far away the result is**: no farther than the candidates are apart, and no farther than half
of that but for the rounding. -/
theorem Candidates.abs_sub_le (hc : Candidates f bound g h) (hbound : 1 ≤ bound) :
    |g.toRat - f.toRat| ≤ 1 / bound ∧
      |g.toRat - f.toRat| ≤ 1 / bound / 2 + |f.toRat| / 2 ^ 48 := by
  have hslack := hc.abs_sub_le_other hbound
  have hadd := hc.add_le
  have hnonneg := abs_nonneg (h.toRat - f.toRat)
  constructor <;> linarith

end Candidates

theorem limitDenominator_of_le (f : Fraction) {bound : Int64} (h : f.den.toInt ≤ bound.toInt) :
    f.limitDenominator bound = f := by
  rw [Fraction.limitDenominator, if_pos (.inr h)]

/-- **How far away the result is**, for every bound. -/
theorem abs_limitDenominator_sub_le (f : Fraction) {bound : Int64} (hbound : 1 ≤ bound.toInt) :
    (f.limitDenominator bound).den.toInt ≤ bound.toInt ∧
      |(f.limitDenominator bound).toRat - f.toRat| ≤ 1 / bound.toInt ∧
      |(f.limitDenominator bound).toRat - f.toRat| ≤ 1 / bound.toInt / 2 + |f.toRat| / 2 ^ 48 := by
  rcases Int.lt_or_le bound.toInt f.den.toInt with hlt | hle
  · obtain ⟨h, hc⟩ := exists_candidates f hbound hlt
    exact ⟨hc.den_le, hc.abs_sub_le hbound⟩
  · have hbound_pos : (0 : ℚ) < bound.toInt := by exact_mod_cast hbound
    rw [limitDenominator_of_le f hle, sub_self, abs_zero]
    exact ⟨hle, by positivity, by positivity⟩

/-- **A fraction with a bounded denominator** is found without a fault. It keeps the bound, and it is
nearest among all that do, but for a small part of the fraction: the two candidates are compared in
reals. It is nearest of all if the numerator and the bound are small. -/
theorem limitDenominator_nearest (f : Fraction) (bound : Int64) (hbound : 1 ≤ bound.toInt) :
    limitDenominator f bound = .ok (words (f.limitDenominator bound)) ∧
    (f.limitDenominator bound).den.toInt ≤ bound.toInt ∧
    ∀ q : ℚ, (q.den : Int) ≤ bound.toInt →
      |(f.limitDenominator bound).toRat - f.toRat| ≤ |q - f.toRat| + |f.toRat| / 2 ^ 47 ∧
      (f.den.toInt ≤ bound.toInt ∨ |f.num.toInt| * bound.toInt ^ 2 < 2 ^ 47 →
        |(f.limitDenominator bound).toRat - f.toRat| ≤ |q - f.toRat|) := by
  refine ⟨limitDenominator_eq f bound, (abs_limitDenominator_sub_le f hbound).1, fun q hq => ?_⟩
  rcases Int.lt_or_le bound.toInt f.den.toInt with hlt | hle
  · obtain ⟨h, hc⟩ := exists_candidates f hbound hlt
    refine ⟨hc.abs_sub_le_add hbound hq, fun hsmall => ?_⟩
    exact hc.abs_sub_le_of_small hbound (hsmall.resolve_left (by omega)) hq
  · rw [limitDenominator_of_le f hle, sub_self, abs_zero]
    exact ⟨by positivity, fun _ => abs_nonneg _⟩

/-- Five sevenths with a denominator of at most three. -/
theorem limitDenominator_nearest_five_sevenths :
    1 ≤ (3 : Int64).toInt ∧ ∃ f : Fraction, f.num = 5 ∧ f.den = 7 ∧
      limitDenominator f 3 = .ok (2, 3) ∧
      ∀ q : ℚ, (q.den : Int) ≤ (3 : Int64).toInt →
        |(f.limitDenominator 3).toRat - f.toRat| ≤ |q - f.toRat| := by
  let f : Fraction := ⟨5, 7, by decide, by decide⟩
  have hbound : 1 ≤ (3 : Int64).toInt := by decide
  have hnumbers : |f.num.toInt| * (3 : Int64).toInt ^ 2 < 2 ^ 47 := by decide
  obtain ⟨hrun, -, hnearest⟩ := limitDenominator_nearest f 3 hbound
  have hwords : words (f.limitDenominator 3) = (2, 3) := by decide +kernel
  rw [hwords] at hrun
  exact ⟨hbound, f, rfl, rfl, hrun, fun q hq => (hnearest q hq).2 (.inr hnumbers)⟩

/-- A fraction that lies by a third above a whole number and by a sixth below a half is rounded to the
whole number: as reals all three are equal. -/
theorem limitDenominator_not_nearest :
    ∃ f : Fraction, f.num = 3458764513820540929 ∧ f.den = 3 ∧
      limitDenominator f 2 = .ok (1152921504606846976, 1) ∧
      ∃ q : ℚ, (q.den : Int) ≤ (2 : Int64).toInt ∧
        |q - f.toRat| < |(f.limitDenominator 2).toRat - f.toRat| := by
  let f : Fraction := ⟨3458764513820540929, 3, by decide, by decide⟩
  have hwords : words (f.limitDenominator 2) = (1152921504606846976, 1) := by decide +kernel
  have hresult : (f.limitDenominator 2).toRat = 1152921504606846976 / 1 := by
    have hnum : (f.limitDenominator 2).num = 1152921504606846976 := congrArg Prod.fst hwords
    have hden : (f.limitDenominator 2).den = 1 := congrArg Prod.snd hwords
    rw [toRat, hnum, hden]
    rfl
  have hf : f.toRat = 3458764513820540929 / 3 := rfl
  refine ⟨f, rfl, rfl, (limitDenominator_eq f 2).trans (congrArg _ hwords),
    2305843009213693953 / 2, by norm_num; decide, ?_⟩
  rw [hresult, hf]
  norm_num [abs_lt, abs_of_nonneg]

end Worksheet.Wide
