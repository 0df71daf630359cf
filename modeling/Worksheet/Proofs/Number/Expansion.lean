import Mathlib
import Worksheet.Proofs.Number.Convergents
import Worksheet.Proofs.Number.Value

/-!
# A fraction near by is a convergent

`approximate` expands a fraction as a continued fraction until a convergent passes a test on reals. The
convergents that it meets are those of the floor expansion, and all of them are fractions.

* **`Tracks.exists_fraction`** — a convergent fits in words, in lowest terms.
* **`Expands`** — where the search stands in the floor expansion; **`Expands.next`** moves on by one
  term.
* **`Tracks.abs_sub_lt`** — how close a convergent is.
* **`approximate_convergent`** — the search ends with the first convergent that passes.
-/

namespace Worksheet.Wide

open Fraction

/-! ## Convergents are fractions -/

/-- A ratio with a smaller denominator that is close to a fraction has a numerator between zero and
that of the fraction. -/
theorem fitsWord_of_cross_lt (f : Fraction) {p q : Int} (hq : 0 < q) (hq_le : q ≤ f.den.toInt)
    (hcross : |p * f.den.toInt - q * f.num.toInt| < f.den.toInt) : FitsWord p := by
  have hden := f.den_pos
  have hnum_low := f.num.le_toInt
  have hnum_high := f.num.toInt_lt
  obtain ⟨hlow, hhigh⟩ := abs_lt.mp hcross
  rcases Int.lt_or_le f.num.toInt 0 with hneg | hnonneg
  · have hq_one : q * f.num.toInt ≤ 1 * f.num.toInt :=
      mul_le_mul_of_nonpos_right hq hneg.le
    have hq_den : f.den.toInt * f.num.toInt ≤ q * f.num.toInt :=
      mul_le_mul_of_nonpos_right hq_le hneg.le
    have hlow' : f.num.toInt - 1 < p :=
      lt_of_mul_lt_mul_right (by linarith : (f.num.toInt - 1) * f.den.toInt < p * f.den.toInt) hden.le
    have hhigh' : p < 1 :=
      lt_of_mul_lt_mul_right (by linarith : p * f.den.toInt < 1 * f.den.toInt) hden.le
    exact ⟨by omega, by omega⟩
  · have hq_zero : 0 ≤ q * f.num.toInt := mul_nonneg hq.le hnonneg
    have hq_den : q * f.num.toInt ≤ f.den.toInt * f.num.toInt :=
      mul_le_mul_of_nonneg_right hq_le hnonneg
    have hlow' : -1 < p :=
      lt_of_mul_lt_mul_right (by linarith : -1 * f.den.toInt < p * f.den.toInt) hden.le
    have hhigh' : p < f.num.toInt + 1 :=
      lt_of_mul_lt_mul_right (by linarith : p * f.den.toInt < (f.num.toInt + 1) * f.den.toInt) hden.le
    exact ⟨by omega, by omega⟩

/-- Such a ratio is a fraction, in lowest terms already if it has a neighbour. -/
theorem exists_fraction (f : Fraction) {p q a b : Int} (hdet : p * b - a * q = 1 ∨ p * b - a * q = -1)
    (hq : 0 < q) (hq_le : q ≤ f.den.toInt)
    (hcross : |p * f.den.toInt - q * f.num.toInt| < f.den.toInt) :
    ∃ g : Fraction, g.num.toInt = p ∧ g.den.toInt = q ∧ ofRatio? p q = some g := by
  have hden_high := f.den.toInt_lt
  obtain ⟨n, hn⟩ := exists_word (fitsWord_of_cross_lt f hq hq_le hcross)
  obtain ⟨d, hd⟩ := exists_word (⟨by omega, by omega⟩ : FitsWord q)
  have hcoprime : Int.gcd n.toInt d.toInt = 1 := by
    rw [hn, hd, ← Int.isCoprime_iff_gcd_eq_one]
    rcases hdet with hone | hone
    · exact ⟨b, -a, by linarith⟩
    · exact ⟨-b, a, by linarith⟩
  refine ⟨⟨n, d, by omega, hcoprime⟩, hn, hd, ?_⟩
  rw [ofRatio?_eq_ofRat? hq.ne', ofRat?_eq_some_iff, toRat, hn, hd]

section Convergent

variable {f : Fraction} {c : Convergents} {n d : Int}

/-- What is left says how far the newer convergent is from the fraction. -/
theorem Tracks.cross_eq (h : Tracks f c n d) :
    c.p₁ * f.den.toInt - c.q₁ * f.num.toInt = (c.p₁ * c.q₀ - c.p₀ * c.q₁) * d := by
  rw [← h.num, ← h.den]
  ring

theorem Tracks.abs_cross (h : Tracks f c n d) :
    |c.p₁ * f.den.toInt - c.q₁ * f.num.toInt| = d := by
  rw [h.cross_eq, abs_mul, abs_of_nonneg h.d_nonneg]
  rcases h.det with hone | hone <;> rw [hone] <;> simp

/-- **A convergent is a fraction**: it fits in words, and it is in lowest terms. -/
theorem Tracks.exists_fraction (h : Tracks f c n d) (hq : 0 < c.q₁) (hd : d < f.den.toInt) :
    ∃ g : Fraction, g.num.toInt = c.p₁ ∧ g.den.toInt = c.q₁ ∧ ofRatio? c.p₁ c.q₁ = some g :=
  Wide.exists_fraction f h.det hq h.q₁_le (by rwa [h.abs_cross])

/-- **How close a convergent is**: what is left is less than what the denominator is multiplied
with. -/
theorem Tracks.abs_sub_lt (h : Tracks f c n d) (hq : 0 < c.q₁) (hd : d < n) {g : Fraction}
    (hnum : g.num.toInt = c.p₁) (hden : g.den.toInt = c.q₁) :
    |f.toRat - g.toRat| < 1 / (g.den.toInt : ℚ) ^ 2 := by
  have hf : (0 : ℚ) < f.den.toInt := by exact_mod_cast f.den_pos
  have hg : (0 : ℚ) < g.den.toInt := by exact_mod_cast g.den_pos
  have hcross : |(f.num.toInt : ℚ) * g.den.toInt - f.den.toInt * g.num.toInt| = d := by
    have habs := h.abs_cross
    rw [abs_sub_comm, mul_comm c.q₁, mul_comm c.p₁, ← hnum, ← hden] at habs
    exact_mod_cast habs
  have hsmall : (d : ℚ) * g.den.toInt < f.den.toInt := by
    have hproduct : c.q₁ * d < c.q₁ * n := mul_lt_mul_of_pos_left hd hq
    have hrest : 0 ≤ c.q₀ * d := mul_nonneg h.q₀_nonneg h.d_nonneg
    have hden_eq := h.den
    have hlt : d * g.den.toInt < f.den.toInt := by
      rw [hden, mul_comm]
      linarith
    exact_mod_cast hlt
  rw [toRat, toRat, div_sub_div _ _ hf.ne' hg.ne', abs_div, hcross, abs_of_pos (mul_pos hf hg),
    div_lt_div_iff₀ (mul_pos hf hg) (pow_pos hg 2)]
  calc (d : ℚ) * (g.den.toInt : ℚ) ^ 2 = d * g.den.toInt * g.den.toInt := by ring
    _ < f.den.toInt * g.den.toInt := mul_lt_mul_of_pos_right hsmall hg
    _ = 1 * (f.den.toInt * g.den.toInt) := (one_mul _).symm

end Convergent

/-! ## The floor expansion -/

/-- The convergents of the floor expansion of a fraction. -/
def convergent (f : Fraction) (k : Nat) : ℚ := (GenContFract.of f.toRat).convs k

/-- The search has `k` terms of the floor expansion of `f` behind it, and the next one is that of
`n / d`. -/
structure Expands (f : Fraction) (k : Nat) (c : Convergents) (n : Int) (d : Nat) : Prop where
  last : (GenContFract.of f.toRat).contsAux k = ⟨c.p₁, c.q₁⟩
  rest : d ≠ 0 →
    GenContFract.IntFractPair.stream f.toRat k = some (GenContFract.IntFractPair.of ((n : ℚ) / d))
  next : d ≠ 0 → (GenContFract.of f.toRat).contsAux (k + 1)
    = ⟨(c.next (n / d)).p₁, (c.next (n / d)).q₁⟩

theorem expands_start (f : Fraction) :
    Expands f 0 .start f.num.toInt f.den.toInt.toNat where
  last := by simp [Convergents.start, GenContFract.zeroth_contAux_eq_one_zero]
  rest := by
    intro _
    have hden : ((f.den.toInt.toNat : Nat) : ℚ) = f.den.toInt := by exact_mod_cast toNat_den f
    rw [hden]
    rfl
  next := by
    intro _
    have hden : ((f.den.toInt.toNat : Nat) : ℚ) = f.den.toInt := by exact_mod_cast toNat_den f
    have hfloor := Rat.floor_intCast_div_natCast f.num.toInt f.den.toInt.toNat
    rw [hden] at hfloor
    rw [GenContFract.first_contAux_eq_h_one, GenContFract.of_h_eq_floor, toRat, hfloor]
    simp [Convergents.start, Convergents.next]

section Expands

variable {f : Fraction} {k : Nat} {c : Convergents} {n : Int} {d : Nat}

/-- **One more term of the floor expansion**: the part behind the point is inverted. -/
theorem Expands.step (h : Expands f k c n d) (hd : d ≠ 0) :
    Expands f (k + 1) (c.next (n / d)) d (n % (d : Int)).toNat := by
  have hd_pos : (0 : Int) < d := by omega
  have hr_nonneg := Int.emod_nonneg n hd_pos.ne'
  have hr : (((n % (d : Int)).toNat : Nat) : ℚ) = (n % (d : Int) : Int) := by
    exact_mod_cast Int.toNat_of_nonneg hr_nonneg
  have hr_int : (((n % (d : Int)).toNat : Nat) : Int) = n % d := Int.toNat_of_nonneg hr_nonneg
  have hfract : (GenContFract.IntFractPair.of ((n : ℚ) / d)).fr = (n % (d : Int) : Int) / d :=
    Int.fract_div_intCast_eq_div_intCast_mod
  have hrest : (n % (d : Int)).toNat ≠ 0 →
      GenContFract.IntFractPair.stream f.toRat (k + 1)
        = some (GenContFract.IntFractPair.of (((d : Int) : ℚ) / (n % (d : Int)).toNat)) := by
    intro hne
    have hd_ne : (d : ℚ) ≠ 0 := by exact_mod_cast hd
    have hr_ne : ((n % (d : Int) : Int) : ℚ) ≠ 0 := by
      rw [← hr]
      exact_mod_cast hne
    have hstream := GenContFract.IntFractPair.stream_succ_of_some (h.rest hd)
      (by rw [hfract]; exact div_ne_zero hr_ne hd_ne)
    rw [hstream, hfract, inv_div, hr]
    rfl
  refine ⟨h.next hd, hrest, fun hne => ?_⟩
  have hterm := GenContFract.get?_of_eq_some_of_succ_get?_intFractPair_stream (hrest hne)
  rw [GenContFract.contsAux_recurrence hterm h.last (h.next hd)]
  have hfloor : (GenContFract.IntFractPair.of (((d : Int) : ℚ) / (n % (d : Int)).toNat)).b
      = (d : Int) / (n % (d : Int)).toNat := Rat.floor_intCast_div_natCast d _
  rw [hfloor]
  simp only [Convergents.next]
  push_cast
  congr 1 <;> ring

theorem Expands.convergent_eq (h : Expands f k c n d) (hd : d ≠ 0) :
    convergent f k = (c.next (n / d)).p₁ / (c.next (n / d)).q₁ := by
  rw [convergent, GenContFract.conv_eq_conts_a_div_conts_b, GenContFract.nth_cont_eq_succ_nth_contAux,
    h.next hd]

end Expands

/-! ## The search -/

/-- The test that ends the search: measured in reals, `g` is within the tolerance of `f`. -/
def near (f g : Fraction) : Bool :=
  gap f g ≤ tolerance * f.toReal.abs || gap f g == 0.0

theorem near_self (f : Fraction) : near f f = true := by
  obtain ⟨t, ht, -⟩ := f.exists_toReal
  have hzero : Real.IsNumber 0.0 0 := rfl
  obtain ⟨r, hr, hclose⟩ := Real.exists_sub ht ht (by norm_num)
  have hr_zero : r = 0 := by
    rw [Real.Close, sub_self, sub_zero, abs_zero, zero_div] at hclose
    exact abs_nonpos_iff.mp hclose
  have hbeq : (gap f f == 0.0) = true := by
    rw [gap, Real.beq_iff hr.abs hzero, hr_zero, abs_zero]
  rw [near, hbeq, Bool.or_true]

/-- `g` is the first convergent of `f` that passes the test, and it is as close to `f` as convergents
are. -/
structure FirstNear (f g : Fraction) : Prop where
  first : ∃ k, convergent f k = g.toRat ∧
    ∀ j < k, ∃ h : Fraction, h.toRat = convergent f j ∧ near f h = false
  near_eq : near f g = true
  den_le : g.den.toInt ≤ f.den.toInt
  abs_sub_lt : |f.toRat - g.toRat| < 1 / (g.den.toInt : ℚ) ^ 2

/-- By then the last convergent is the fraction itself, which passes. -/
theorem Expands.pos_rest {f : Fraction} {k : Nat} {c : Convergents} {n : Int} {d : Nat}
    (h : Tracks f c n d) (he : Expands f k c n d)
    (hfar : ∀ j < k, ∃ g : Fraction, g.toRat = convergent f j ∧ near f g = false) : d ≠ 0 := by
  rintro rfl
  have hnum := h.num
  have hden := h.den
  simp only [Nat.cast_zero, mul_zero, add_zero] at hnum hden
  have hden_ne := f.den_pos.ne'
  have hf : f.toRat = c.p₁ / c.q₁ := by
    have hn : (n : ℚ) ≠ 0 := by
      rintro hzero
      rw [Int.cast_eq_zero.mp hzero, mul_zero] at hden
      exact hden_ne hden.symm
    rw [toRat, ← hnum, ← hden]
    push_cast
    rw [mul_div_mul_right _ _ hn]
  cases k with
  | zero =>
    -- nothing is expanded yet, and the denominator is not zero
    have hlast := he.last
    rw [GenContFract.zeroth_contAux_eq_one_zero] at hlast
    injection hlast with _ hq
    have hq_zero : c.q₁ = 0 := by exact_mod_cast hq.symm
    rw [hq_zero, zero_mul] at hden
    exact hden_ne hden.symm
  | succ k =>
    obtain ⟨g, hg, hfar_g⟩ := hfar k (Nat.lt_succ_self k)
    have hconvergent : convergent f k = f.toRat := by
      rw [convergent, GenContFract.conv_eq_conts_a_div_conts_b,
        GenContFract.nth_cont_eq_succ_nth_contAux, he.last, hf]
    rw [toRat_injective (hg.trans hconvergent), near_self] at hfar_g
    cases hfar_g

/-- **The search from any point of the expansion**, where all convergents before have failed. The
induction is on the denominator of what is left. -/
theorem firstNear_approximateFrom {f : Fraction} {k : Nat} {c : Convergents} {n : Int} {d : Nat}
    (h : Tracks f c n d) (he : Expands f k c n d)
    (hfar : ∀ j < k, ∃ g : Fraction, g.toRat = convergent f j ∧ near f g = false) :
    FirstNear f (approximateFrom f c n d) := by
  induction d using Nat.strongRecOn generalizing k c n with
  | ind d ih =>
    have hd : d ≠ 0 := he.pos_rest h hfar
    have hpos : 0 < (d : Int) := by omega
    have hr_nonneg := Int.emod_nonneg n hpos.ne'
    have hr_lt := Int.emod_lt_of_pos n hpos
    have hr : (((n % (d : Int)).toNat : Nat) : Int) = n % d := Int.toNat_of_nonneg hr_nonneg
    have hnext := h.next hpos
    have hd_le := h.d_le
    obtain ⟨g, hnum, hden, hg⟩ := hnext.exists_fraction (h.q₁_next_pos hpos) (by omega)
    have hconvergent : convergent f k = g.toRat := by
      rw [he.convergent_eq hd, toRat, hnum, hden]
    rw [approximateFrom, dif_neg hd]
    dsimp only
    rw [hg]
    show FirstNear f (if near f g = true then g else _)
    by_cases hnear : near f g = true
    · rw [if_pos hnear]
      refine ⟨⟨k, hconvergent, hfar⟩, hnear, ?_, hnext.abs_sub_lt (h.q₁_next_pos hpos) hr_lt hnum hden⟩
      rw [hden]
      exact hnext.q₁_le
    · rw [if_neg hnear]
      refine ih _ (by omega) (hr ▸ hnext) (he.step hd) fun j hj => ?_
      rcases Nat.lt_succ_iff_lt_or_eq.mp hj with hlt | rfl
      · exact hfar j hlt
      · exact ⟨g, hconvergent.symm, by simpa using hnear⟩

/-- **A fraction near by is a convergent.** The search meets no fault and ends with the first
convergent of the floor expansion that passes the test; its denominator is no greater than that of the
fraction, and it is closer than the square of its denominator would have it. -/
theorem approximate_convergent (f : Fraction) :
    approximate f = .ok (words f.approximate) ∧
    (∃ k, (GenContFract.of f.toRat).convs k = f.approximate.toRat ∧
      ∀ j < k, ∃ h : Fraction, h.toRat = (GenContFract.of f.toRat).convs j ∧ near f h = false) ∧
    near f f.approximate = true ∧
    f.approximate.den.toInt ≤ f.den.toInt ∧
    |f.toRat - f.approximate.toRat| < 1 / (f.approximate.den.toInt : ℚ) ^ 2 := by
  obtain ⟨hfirst, hnear, hden, habs⟩ : FirstNear f f.approximate :=
    firstNear_approximateFrom (tracks_start_toNat f) (expands_start f) fun j hj => by omega
  exact ⟨approximate_eq f, hfirst, hnear, hden, habs⟩

end Worksheet.Wide
