import Mathlib.Data.Int.GCD
import Mathlib.Tactic.Linarith
import Worksheet.Library.Basic
import Worksheet.Proofs.Number.Wide

/-!
# Divisors and multiples

The greatest common divisor and the least common multiple of integers are computed in words. Euclid's algorithm runs on
sizes, for which a word without a sign has room, but its result is read as a word with a sign. A multiple is refused if
it does not fit; the least word fits, but its size does not.

* **`toNat_euclid`** — Euclid's algorithm.
* **`toInt_gcd`**, **`lcm_eq`** — both functions on all words.
* **`gcd_lcm_spec`** — the headline, for the functions of the library; **`gcd_lcm_of_least`** — where they miss.
-/

namespace Worksheet.Library

/-! ## The greatest common divisor -/

theorem toNat_euclid (a b : UInt64) : (euclid a b).toNat = Nat.gcd a.toNat b.toNat := by
  induction hn : b.toNat using Nat.strongRecOn generalizing a b with
  | ind n ih =>
    rw [euclid]
    split
    · next hb =>
      subst hb
      rw [← hn]
      exact (Nat.gcd_zero_right _).symm
    · next hb =>
      have hpos : 0 < b.toNat := Nat.pos_of_ne_zero fun h => hb (UInt64.toNat_inj.mp h)
      have hmod : (a % b).toNat = a.toNat % b.toNat := UInt64.toNat_mod a b
      rw [ih (a % b).toNat (by rw [hmod, ← hn]; exact Nat.mod_lt _ hpos) b (a % b) rfl, hmod, ← hn, Nat.gcd_comm,
        ← Nat.gcd_rec, Nat.gcd_comm]

theorem toNat_magnitude (n : Int64) : (magnitude n).toNat = n.toInt.natAbs := by
  have hle := Wide.natAbs_toInt_le n
  exact Nat.mod_eq_of_lt (by omega)

/-- A divisor is not greater than a word, so that there is one that becomes negative. -/
theorem toInt_gcd (a b : Int64) : (gcd a b).toInt
    = if Int.gcd a.toInt b.toInt = 2 ^ 63 then -2 ^ 63 else (Int.gcd a.toInt b.toInt : Int) := by
  have hle : Int.gcd a.toInt b.toInt ≤ 2 ^ 63 := by
    have ha := Wide.natAbs_toInt_le a
    have hb := Wide.natAbs_toInt_le b
    rcases Nat.eq_zero_or_pos a.toInt.natAbs with h | h
    · rw [Int.gcd_eq_natAbs_gcd_natAbs, h, Nat.gcd_zero_left]
      exact hb
    · exact (Nat.gcd_le_left _ h).trans ha
  have hvalue : (gcd a b).toInt = (Int.gcd a.toInt b.toInt : Int).bmod (2 ^ 64) := by
    rw [← Int64.toInt_toBitVec, gcd, UInt64.toBitVec_toInt64, BitVec.toInt_eq_toNat_bmod,
      Int.gcd_eq_natAbs_gcd_natAbs, ← toNat_magnitude a, ← toNat_magnitude b, ← toNat_euclid]
    rfl
  rw [hvalue]
  split
  · next h =>
    rw [h]
    decide
  · rw [Int.bmod_eq_of_le] <;> omega

/-- The divisors for which a word has no room. -/
theorem gcd_eq_two_pow_iff (a b : Int64) : Int.gcd a.toInt b.toInt = 2 ^ 63 ↔
    (a = Int64.minValue ∨ a = 0) ∧ (b = Int64.minValue ∨ b = 0) ∧ ¬(a = 0 ∧ b = 0) := by
  have hmultiple : ∀ w : Int64, 2 ^ 63 ∣ w.toInt.natAbs → w = Int64.minValue ∨ w = 0 := by
    intro w hdvd
    have hlow := w.le_toInt
    have hhigh := w.toInt_lt
    rcases Nat.eq_zero_or_pos w.toInt.natAbs with h | h
    · exact .inr (Int64.toInt_inj.mp (Int.natAbs_eq_zero.mp h))
    · have hle := Nat.le_of_dvd h hdvd
      have hleast : Int64.minValue.toInt = -2 ^ 63 := rfl
      exact .inl (Int64.toInt_inj.mp (by omega))
  constructor
  · intro h
    refine ⟨hmultiple a ?_, hmultiple b ?_, ?_⟩
    · exact h ▸ Int.gcd_dvd_natAbs_left _ _
    · exact h ▸ Int.gcd_dvd_natAbs_right _ _
    · rintro ⟨rfl, rfl⟩
      cases h
  · rintro ⟨rfl | rfl, rfl | rfl, h⟩
    · rfl
    · rfl
    · rfl
    · exact absurd ⟨rfl, rfl⟩ h

/-! ## The least common multiple -/

/-- A quotient without a remainder makes the multiple, whose sign tells whether the signs of its factors differ. -/
theorem natAbs_quotient_mul {x y : Int} (hg : 0 < Int.gcd x y) :
    (x.tdiv (Int.gcd x y) * y).natAbs = Int.lcm x y ∧ (x.tdiv (Int.gcd x y) * y < 0 ↔ x * y < 0) := by
  have hmul : x.tdiv (Int.gcd x y) * y * Int.gcd x y = x * y := by
    rw [Int.mul_right_comm, Int.tdiv_mul_cancel (Int.gcd_dvd_left x y)]
  have hg' : (0 : Int) < Int.gcd x y := by exact_mod_cast hg
  constructor
  · have hsize := congrArg Int.natAbs hmul
    rw [Int.natAbs_mul, Int.natAbs_mul x y, ← Int.gcd_mul_lcm x y, Int.natAbs_natCast, Nat.mul_comm] at hsize
    exact Nat.eq_of_mul_eq_mul_left hg hsize
  · rw [← hmul]
    refine ⟨fun h => Int.mul_neg_of_neg_of_pos h hg', fun h => ?_⟩
    by_contra hp
    exact absurd (Int.mul_nonneg (not_lt.mp hp) hg'.le) (not_le.mpr h)

/-- What becomes of a product, whose size has to fit as well. -/
def multiple (p : Int) : Evaluated Int64 :=
  if p = -2 ^ 63 then .error (.fault .overflow)
  else if FitsWord p.natAbs then .ok (Int64.ofInt p.natAbs)
  else raise (.arithmetic .integerOverflow)

theorem inWord_eq (n : Int) :
    inWord n = if FitsWord n then .ok (Int64.ofInt n) else .error (.fault .overflow) := by
  unfold inWord word?
  by_cases h : FitsWord n
  · simp only [if_pos h]
  · simp only [if_neg h]

theorem fitsWord_iff (p : Int) : FitsWord p ↔ p = -2 ^ 63 ∨ FitsWord p.natAbs := by
  unfold FitsWord
  omega

theorem multiple_eq (p : Int) :
    (match word? p with
      | some n => inWord n.toInt.natAbs
      | none => raise (.arithmetic .integerOverflow)) = multiple p := by
  unfold multiple
  cases hword : word? p with
  | none =>
    have hfits := word?_eq_none_iff.mp hword
    rw [fitsWord_iff, not_or] at hfits
    simp only [if_neg hfits.1, if_neg hfits.2]
  | some n =>
    have hn := word?_eq_some_iff.mp hword
    have hfits : FitsWord p := hn ▸ fitsWord_toInt n
    simp only [hn, inWord_eq]
    by_cases hleast : p = -2 ^ 63
    · have hlarge : ¬FitsWord p.natAbs := by
        rw [hleast]
        decide
      rw [if_neg hlarge, if_pos hleast]
    · have hsize := ((fitsWord_iff p).mp hfits).resolve_left hleast
      rw [if_pos hsize, if_neg hleast, if_pos hsize]

/-- A part of a word is a word. -/
theorem fitsWord_of_mul {q g n : Int} (hg : 0 < g) (hmul : q * g = n) (hn : FitsWord n) : FitsWord q := by
  obtain ⟨hlow, hhigh⟩ := hn
  rcases le_or_gt 0 q with hq | hq
  · have hle : q ≤ q * g := le_mul_of_one_le_right hq hg
    exact ⟨by omega, by omega⟩
  · have hle : q * g ≤ q := by nlinarith
    exact ⟨by omega, by omega⟩

theorem exists_quotient {a g : Int64} (hg : 0 < g.toInt) (hdvd : g.toInt ∣ a.toInt) :
    ∃ q, quotient a g = .ok q ∧ q.toInt = a.toInt.tdiv g.toInt := by
  have hne : (g == 0) = false := by
    rw [beq_eq_false_iff_ne]
    rintro rfl
    exact absurd hg (by decide)
  have hfits := fitsWord_of_mul hg (Int.tdiv_mul_cancel hdvd) (fitsWord_toInt a)
  refine ⟨_, ?_, Int64.toInt_ofInt_of_le hfits.1 hfits.2⟩
  rw [quotient, hne, if_neg Bool.false_ne_true, inWord_eq, if_pos hfits]

/-- What is left of the least common multiple behind the quotient. -/
theorem lcm_of_quotient {a b q : Int64} (ha : a ≠ 0) (hb : b ≠ 0) (hq : quotient a (gcd a b) = .ok q) :
    lcm a b = multiple (q.toInt * b.toInt) := by
  have hne : (a == 0 || b == 0) = false := by simp [ha, hb]
  rw [lcm, hne, if_neg Bool.false_ne_true, hq, ← multiple_eq]
  rfl

/-- The least word is divided by itself, as the divisor has become negative as well. -/
theorem lcm_least : lcm Int64.minValue Int64.minValue = .error (.fault .overflow) := by
  have hgcd : gcd Int64.minValue Int64.minValue = Int64.minValue := by
    refine Int64.toInt_inj.mp ((toInt_gcd _ _).trans ?_)
    decide
  have hquotient : quotient Int64.minValue (gcd Int64.minValue Int64.minValue) = .ok 1 := by
    rw [hgcd]
    rfl
  have hproduct : Int64.toInt 1 * Int64.minValue.toInt = -2 ^ 63 := by decide
  rw [lcm_of_quotient (by decide) (by decide) hquotient, multiple, if_pos hproduct]

/-- The product has the size of the common multiple, and it is the least word if that size is `2 ^ 63` and
the sign is negative. -/
theorem quotient_mul_eq_least_iff {a b : Int64} (hpos : 0 < Int.gcd a.toInt b.toInt)
    (hlarge : Int.gcd a.toInt b.toInt ≠ 2 ^ 63) :
    a.toInt.tdiv (Int.gcd a.toInt b.toInt) * b.toInt = -2 ^ 63 ↔
      (a.toInt.tdiv (Int.gcd a.toInt b.toInt) * b.toInt).natAbs = 2 ^ 63 ∧
        (a = b ∨ a.toInt * b.toInt < 0) := by
  obtain ⟨hsize, hsign⟩ := natAbs_quotient_mul hpos
  rw [← hsign]
  constructor
  · intro h
    rw [h]
    exact ⟨rfl, .inr (by decide)⟩
  · rintro ⟨h, rfl | hneg⟩
    · rw [hsize, Int.lcm_self] at h
      rw [Int.gcd_self] at hlarge
      exact absurd h hlarge
    · omega

theorem lcm_eq (a b : Int64) : lcm a b
    = if Int.lcm a.toInt b.toInt = 2 ^ 63 ∧ (a = b ∨ a.toInt * b.toInt < 0) then .error (.fault .overflow)
      else if FitsWord (Int.lcm a.toInt b.toInt) then .ok (Int64.ofInt (Int.lcm a.toInt b.toInt))
      else raise (.arithmetic .integerOverflow) := by
  by_cases hzero : a = 0 ∨ b = 0
  · have hlcm : Int.lcm a.toInt b.toInt = 0 := by
      rcases hzero with rfl | rfl
      · exact Int.lcm_zero_left _
      · exact Int.lcm_zero_right _
    have hcond : (a == 0 || b == 0) = true := by simpa using hzero
    rw [lcm, if_pos hcond, hlcm]
    rfl
  · rw [not_or] at hzero
    have hpos : 0 < Int.gcd a.toInt b.toInt :=
      Int.gcd_pos_of_ne_zero_left _ fun h => hzero.1 (Int64.toInt_inj.mp h)
    by_cases hlarge : Int.gcd a.toInt b.toInt = 2 ^ 63
    · -- the divisor has no room, which makes both of them the least word
      obtain ⟨ha, hb, -⟩ := (gcd_eq_two_pow_iff a b).mp hlarge
      obtain rfl := ha.resolve_right hzero.1
      obtain rfl := hb.resolve_right hzero.2
      rw [lcm_least, if_pos ⟨rfl, .inl rfl⟩]
    · have hgcd := toInt_gcd a b
      rw [if_neg hlarge] at hgcd
      obtain ⟨q, hquotient, hq⟩ := exists_quotient (a := a) (g := gcd a b) (by omega) (hgcd ▸ Int.gcd_dvd_left _ _)
      rw [lcm_of_quotient hzero.1 hzero.2 hquotient, hq, hgcd, multiple, ← (natAbs_quotient_mul hpos).1]
      simp only [quotient_mul_eq_least_iff hpos hlarge]

/-! ## The functions of the library -/

theorem apply_gcd (a b : Int64) : apply "gcd" [.int a, .int b] = .ok (.int (gcd a b)) := by rfl

theorem apply_lcm (a b : Int64) : apply "lcm" [.int a, .int b] = (lcm a b).map Datum.int := by rfl

/-- **Divisors and multiples.** The greatest common divisor of two integers, unless each of them is zero or the least
word, where the divisor is a power that a word with a sign has no room for; and their least common multiple, or an
overflow that is raised if it does not fit. Only over the multiple that is the size of the least word the machine
stumbles, where the product of the quotient and the second integer is the least word itself. -/
theorem gcd_lcm_spec (a b : Int64) :
    (∃ g : Int64, apply "gcd" [.int a, .int b] = .ok (.int g) ∧
      g.toInt = if (a = Int64.minValue ∨ a = 0) ∧ (b = Int64.minValue ∨ b = 0) ∧ ¬(a = 0 ∧ b = 0) then -2 ^ 63
        else (Int.gcd a.toInt b.toInt : Int)) ∧
    apply "lcm" [.int a, .int b]
      = (if Int.lcm a.toInt b.toInt = 2 ^ 63 ∧ (a = b ∨ a.toInt * b.toInt < 0) then .error (.fault .overflow)
        else if FitsWord (Int.lcm a.toInt b.toInt) then .ok (.int (Int64.ofInt (Int.lcm a.toInt b.toInt)))
        else raise (.arithmetic .integerOverflow)) := by
  constructor
  · refine ⟨gcd a b, apply_gcd a b, ?_⟩
    simp only [toInt_gcd, gcd_eq_two_pow_iff]
  · rw [apply_lcm, lcm_eq]
    split
    · rfl
    · split <;> rfl

/-- The least word has no size that is a word. Its divisors with zero and with itself are negative, and a machine
stumbles over its multiples with one and with itself. -/
theorem gcd_lcm_of_least :
    let least : Datum := .int Int64.minValue
    apply "gcd" [least, .int 0] = .ok least ∧ apply "gcd" [least, least] = .ok least ∧
      apply "lcm" [least, .int 1] = .error (.fault .overflow) ∧
      apply "lcm" [least, least] = .error (.fault .overflow) := by
  have hgcd : ∀ b : Int64, b = Int64.minValue ∨ b = 0 → gcd Int64.minValue b = Int64.minValue := by
    rintro b (rfl | rfl) <;> refine Int64.toInt_inj.mp ((toInt_gcd _ _).trans ?_) <;> decide
  refine ⟨?_, ?_, ?_, ?_⟩
  · rw [apply_gcd, hgcd 0 (.inr rfl)]
  · rw [apply_gcd, hgcd _ (.inl rfl)]
  · rw [apply_lcm, lcm_eq, if_pos (by decide)]
    rfl
  · rw [apply_lcm, lcm_least]
    rfl

end Worksheet.Library
