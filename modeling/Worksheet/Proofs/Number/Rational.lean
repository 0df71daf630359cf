import Mathlib.Algebra.Order.Field.Rat
import Mathlib.Data.Rat.Lemmas
import Mathlib.Tactic.FieldSimp
import Worksheet.Number.Fraction
import Worksheet.Proofs.Number.Word

/-!
# Fractions are rational numbers

* **`Fraction.toRat`** — the number that a fraction is; its numerator and denominator in lowest terms
  are the words (`num_toRat`, `den_toRat`), so that fractions with the same number are the same.
* **`Fraction.ofRat?`** — the fraction of a number, if its numerator and denominator fit in words.
* **`add?_eq`**, **`mul?_eq`**, **`div?_eq`**, **`pow?_eq`** — arithmetic gives the fraction of the
  exact result, and none exactly if there is none.
* **`compare_eq`** — the order is that of numbers.
-/

namespace Worksheet.Fraction

/-! ## Numbers -/

/-- The number that a fraction is. -/
def toRat (f : Fraction) : ℚ := f.num.toInt / f.den.toInt

theorem num_toRat (f : Fraction) : f.toRat.num = f.num.toInt :=
  Rat.num_div_eq_of_coprime f.den_pos f.coprime

theorem den_toRat (f : Fraction) : (f.toRat.den : Int) = f.den.toInt :=
  Rat.den_div_eq_of_coprime f.den_pos f.coprime

theorem toRat_injective : Function.Injective toRat := by
  intro f g h
  have hnum : f.num.toInt = g.num.toInt := by rw [← num_toRat, ← num_toRat, h]
  have hden : f.den.toInt = g.den.toInt := by rw [← den_toRat, ← den_toRat, h]
  exact ext_of_cross (by rw [hnum, hden])

theorem toRat_eq_zero_iff {f : Fraction} : f.toRat = 0 ↔ f.num = 0 := by
  rw [← Rat.num_eq_zero, num_toRat, ← Int64.toInt_inj]
  rfl

theorem toRat_ofWord (n : Int64) : (ofWord n).toRat = n.toInt := by
  have hone : (1 : Int64).toInt = 1 := rfl
  rw [toRat, ofWord, hone, Int.cast_one, div_one]

theorem isWhole_iff {f : Fraction} : f.isWhole = true ↔ f.toRat.den = 1 := by
  have hden := f.den_toRat
  have hone : (1 : Int64).toInt = 1 := rfl
  rw [isWhole, beq_iff_eq, ← Int64.toInt_inj, ← hden, hone]
  norm_cast

theorem toRat_of_isWhole {f : Fraction} (h : f.isWhole = true) : f.toRat = f.num.toInt := by
  rw [← f.num_toRat, Rat.coe_int_num_of_den_eq_one (isWhole_iff.mp h)]

/-- The fraction of a number, if its numerator and denominator fit in words. -/
def ofRat? (q : ℚ) : Option Fraction :=
  match word? q.num, word? q.den with
  | some n, some d => ofCoprime? n d
  | _, _ => none

theorem ofRat?_eq_some_iff {q : ℚ} {f : Fraction} : ofRat? q = some f ↔ f.toRat = q := by
  constructor
  · intro h
    unfold ofRat? at h
    split at h
    · next n d hn hd =>
      unfold ofCoprime? at h
      split at h
      · rw [word?_eq_some_iff] at hn hd
        rw [← Option.some.inj h, toRat, hn, hd]
        exact Rat.num_div_den q
      · cases h
    · cases h
  · rintro rfl
    unfold ofRat?
    rw [num_toRat, den_toRat, word?_eq_some_iff.mpr rfl, word?_eq_some_iff.mpr rfl]
    exact dif_pos ⟨f.den_pos, f.coprime⟩

/-- A number is a fraction exactly if its numerator and denominator in lowest terms are words. -/
theorem isSome_ofRat?_iff {q : ℚ} : (ofRat? q).isSome ↔ FitsWord q.num ∧ FitsWord q.den := by
  constructor
  · rw [Option.isSome_iff_exists]
    rintro ⟨f, hf⟩
    rw [← ofRat?_eq_some_iff.mp hf, num_toRat, den_toRat]
    exact ⟨fitsWord_toInt f.num, fitsWord_toInt f.den⟩
  · rintro ⟨hn, hd⟩
    obtain ⟨n, hn⟩ := Option.ne_none_iff_exists'.mp fun h => word?_eq_none_iff.mp h hn
    obtain ⟨d, hd⟩ := Option.ne_none_iff_exists'.mp fun h => word?_eq_none_iff.mp h hd
    have hcoprime : 0 < d.toInt ∧ Int.gcd n.toInt d.toInt = 1 := by
      rw [word?_eq_some_iff] at hn hd
      rw [hn, hd]
      exact ⟨Int.natCast_pos.mpr q.pos, q.reduced⟩
    unfold ofRat?
    rw [hn, hd]
    simp [ofCoprime?, hcoprime]

theorem reduce_eq {n d : Int} (hd : d ≠ 0) :
    ((n : ℚ) / d).num = (reduce n d).1 ∧ (((n : ℚ) / d).den : Int) = (reduce n d).2 := by
  have hpos := reduce_den_pos (n := n) hd
  have hcoprime := reduce_coprime (n := n) hd
  have hratio : (n : ℚ) / d = (reduce n d).1 / (reduce n d).2 := by
    have hcross := reduce_cross n d
    rw [div_eq_div_iff (by exact_mod_cast hd) (by exact_mod_cast hpos.ne')]
    exact_mod_cast hcross.symm
  rw [hratio]
  exact ⟨Rat.num_div_eq_of_coprime hpos hcoprime, Rat.den_div_eq_of_coprime hpos hcoprime⟩

theorem ofRatio?_eq_ofRat? {n d : Int} (hd : d ≠ 0) : ofRatio? n d = ofRat? (n / d) := by
  obtain ⟨hnum, hden⟩ := reduce_eq (n := n) hd
  unfold ofRatio? ofRat?
  rw [if_neg hd]
  generalize ((n : ℚ) / d).num = p at hnum ⊢
  generalize (((n : ℚ) / d).den : Int) = q at hden ⊢
  subst hnum hden
  rfl

/-! ## Arithmetic -/

theorem den_ne_zero (f : Fraction) : (f.den.toInt : ℚ) ≠ 0 := by exact_mod_cast f.den_pos.ne'

theorem add?_eq (a b : Fraction) : a.add? b = ofRat? (a.toRat + b.toRat) := by
  have ha := a.den_ne_zero
  have hb := b.den_ne_zero
  have hden : (sumTerms a b).2 ≠ 0 := (Int.mul_pos a.den_pos b.den_pos).ne'
  have hsum : ((sumTerms a b).1 : ℚ) / (sumTerms a b).2 = a.toRat + b.toRat := by
    unfold sumTerms toRat
    push_cast
    field_simp
  rw [add?, ofRatio?_eq_ofRat? hden, hsum]

theorem mul?_eq (a b : Fraction) : a.mul? b = ofRat? (a.toRat * b.toRat) := by
  have hden : (productTerms a b).2 ≠ 0 := (Int.mul_pos a.den_pos b.den_pos).ne'
  have hproduct : ((productTerms a b).1 : ℚ) / (productTerms a b).2 = a.toRat * b.toRat := by
    unfold productTerms toRat
    push_cast
    rw [div_mul_div_comm]
  rw [mul?, ofRatio?_eq_ofRat? hden, hproduct]

theorem div?_eq (a b : Fraction) :
    a.div? b = if b.toRat = 0 then none else ofRat? (a.toRat / b.toRat) := by
  unfold div?
  by_cases hb : b.num = 0
  · rw [if_pos hb, if_pos (toRat_eq_zero_iff.mpr hb)]
  · rw [if_neg hb, if_neg fun h => hb (toRat_eq_zero_iff.mp h)]
    have hnum : b.num.toInt ≠ 0 := fun h => hb (Int64.toInt_inj.mp h)
    have hden : (quotientTerms a b).2 ≠ 0 := mul_ne_zero a.den_pos.ne' hnum
    have hquotient : ((quotientTerms a b).1 : ℚ) / (quotientTerms a b).2 = a.toRat / b.toRat := by
      unfold quotientTerms toRat
      push_cast
      rw [div_div_div_eq]
    rw [ofRatio?_eq_ofRat? hden, hquotient]

/-! ## Powers -/

/-- A power of a fraction, with an exponent that is no less than zero. -/
theorem pow_terms_eq (b : Fraction) (k : Nat) :
    (do
      let n ← powWithin? (decide <| FitsWide ·) 1 b.num.toInt k
      let d ← powWithin? (decide <| FitsWide ·) 1 b.den.toInt k
      ofRatio? n d) = ofRat? (b.toRat ^ k) := by
  have hnum : (b.toRat ^ k).num = b.num.toInt ^ k := by rw [Rat.num_pow, num_toRat]
  have hden : ((b.toRat ^ k).den : Int) = b.den.toInt ^ k := by
    rw [Rat.den_pow, Nat.cast_pow, den_toRat]
  have hnone : ¬(FitsWord (b.num.toInt ^ k) ∧ FitsWord (b.den.toInt ^ k)) →
      ofRat? (b.toRat ^ k) = none := by
    intro hfits
    rw [← hnum, ← hden, ← isSome_ofRat?_iff] at hfits
    simpa using hfits
  cases hn : powWithin? (decide <| FitsWide ·) 1 b.num.toInt k with
  | none =>
    refine (hnone fun hfits => ?_).symm
    rw [powWithin?_of_fitsWord hfits.1] at hn
    cases hn
  | some n =>
    cases hd : powWithin? (decide <| FitsWide ·) 1 b.den.toInt k with
    | none =>
      refine (hnone fun hfits => ?_).symm
      rw [powWithin?_of_fitsWord hfits.2] at hd
      cases hd
    | some d =>
      have hden_ne : b.den.toInt ^ k ≠ 0 := pow_ne_zero k b.den_pos.ne'
      show ofRatio? n d = _
      rw [eq_of_powWithin? hn, eq_of_powWithin? hd, one_mul, one_mul, ofRatio?_eq_ofRat? hden_ne,
        toRat, div_pow]
      push_cast
      rfl

theorem toRat_ofWord_one : (ofWord 1).toRat = 1 := (toRat_ofWord 1).trans Int.cast_one

theorem inverse?_eq_some_iff {a b : Fraction} :
    (ofWord 1).div? a = some b ↔ a.toRat ≠ 0 ∧ b.toRat = a.toRat⁻¹ := by
  rw [div?_eq, toRat_ofWord_one, one_div]
  by_cases ha : a.toRat = 0
  · simp [ha]
  · rw [if_neg ha, ofRat?_eq_some_iff]
    exact ⟨fun h => ⟨ha, h⟩, fun h => h.2⟩

/-- The base is inverted first, and then raised to the size of the exponent. -/
theorem pow?_eq_bind (a : Fraction) {e : Int64} (he : e.toInt.natAbs < 0x100000000) :
    a.pow? e = (if e.toInt < 0 then (ofWord 1).div? a else some a).bind fun b =>
      ofRat? (b.toRat ^ e.toInt.natAbs) := by
  have hpow : ∀ b : Fraction, (if 0x100000000 ≤ e.toInt.natAbs then none
      else do
        let n ← powWithin? (decide <| FitsWide ·) 1 b.num.toInt e.toInt.natAbs
        let d ← powWithin? (decide <| FitsWide ·) 1 b.den.toInt e.toInt.natAbs
        ofRatio? n d) = ofRat? (b.toRat ^ e.toInt.natAbs) := by
    intro b
    rw [if_neg (Nat.not_le.mpr he), pow_terms_eq]
  unfold pow?
  split
  · cases (ofWord 1).div? a with
    | none => rfl
    | some b => exact hpow b
  · exact hpow a

/-- **A power is the exact power.** Zero has no power with an exponent below zero. -/
theorem pow?_eq (a : Fraction) {e : Int64} (he : e.toInt.natAbs < 0x100000000) :
    a.pow? e = if a.toRat = 0 ∧ e.toInt < 0 then none else ofRat? (a.toRat ^ e.toInt) := by
  rw [pow?_eq_bind a he]
  rcases Int.lt_or_le e.toInt 0 with hneg | hnonneg
  · obtain ⟨k, hk⟩ : ∃ k : Nat, e.toInt = -k := ⟨e.toInt.natAbs, by omega⟩
    have hk_ne : k ≠ 0 := by omega
    have hnat : e.toInt.natAbs = k := by omega
    have hpow : a.toRat ^ e.toInt = a.toRat⁻¹ ^ k := by
      rw [hk, zpow_neg, zpow_natCast, inv_pow]
    rw [if_pos hneg, div?_eq, toRat_ofWord_one, one_div, hpow, hnat]
    by_cases ha : a.toRat = 0
    · rw [if_pos ha, if_pos ⟨ha, hneg⟩, Option.bind_none]
    · rw [if_neg ha, if_neg fun h => ha h.1]
      cases hinverse : ofRat? a.toRat⁻¹ with
      | some b => rw [Option.bind_some, ofRat?_eq_some_iff.mp hinverse]
      | none =>
        -- what is too large for words is so all the more when it is raised to a power
        symm
        rw [Option.bind_none, ← Option.not_isSome_iff_eq_none, isSome_ofRat?_iff, Rat.num_pow,
          Rat.den_pow, Nat.cast_pow]
        rintro ⟨hnum, hden⟩
        have hsome : (ofRat? a.toRat⁻¹).isSome :=
          isSome_ofRat?_iff.mpr ⟨fitsWord_of_pow hk_ne hnum, fitsWord_of_pow hk_ne hden⟩
        rw [hinverse] at hsome
        cases hsome
  · obtain ⟨k, hk⟩ : ∃ k : Nat, e.toInt = k := ⟨e.toInt.natAbs, by omega⟩
    have hnat : e.toInt.natAbs = k := by omega
    rw [if_neg (by omega), if_neg (by omega), Option.bind_some, hnat, hk, zpow_natCast]

/-! ## Order -/

theorem compare_eq (a b : Fraction) : a.compare b = cmp a.toRat b.toRat := by
  have hlt : ∀ {f g : Fraction},
      f.num.toInt * g.den.toInt < g.num.toInt * f.den.toInt ↔ f.toRat < g.toRat := by
    intro f g
    have hf : (0 : ℚ) < f.den.toInt := by exact_mod_cast f.den_pos
    have hg : (0 : ℚ) < g.den.toInt := by exact_mod_cast g.den_pos
    rw [toRat, toRat, div_lt_div_iff₀ hf hg]
    exact_mod_cast Iff.rfl
  unfold compare
  rcases lt_trichotomy a.toRat b.toRat with h | h | h
  · rw [(cmp_eq_lt_iff _ _).mpr h, compare_lt_iff_lt]
    exact hlt.mpr h
  · rw [toRat_injective h, cmp_self_eq_eq, compare_eq_iff_eq]
  · rw [(cmp_eq_gt_iff _ _).mpr h, compare_gt_iff_gt]
    exact hlt.mpr h

end Worksheet.Fraction
