import Mathlib.Data.Int.GCD
import Mathlib.Data.Nat.Prime.Basic
import Mathlib.Tactic.NormNum
import Mathlib.Tactic.NormNum.Prime
import Worksheet.Number.Wide
import Worksheet.Proofs.Number.Rational

/-!
# Fractions on a machine are exact

The steps of a machine are refused as soon as a 128-bit word does not hold a result. None of the
operations on fractions comes so far, but for one power, and they give what the integers give.

* **`Wide.reduced_eq`** — Euclid's algorithm meets no fault and gives what `Fraction.ofRatio?` gives,
  as long as neither part is the least word; **`reduced_least`** — on the least word it does meet one,
  as that word has no size.
* **`add_eq`**, **`mul_eq`**, **`div_eq`**, **`compare_eq`** — no operation comes near the least word;
  **`pow_eq`** — but for one power.
-/

namespace Worksheet.Wide

/-! ## Steps -/

theorem hold_eq {n : Int} (h : n.natAbs < 2 ^ 127) : hold n = .ok n :=
  if_pos (by rw [FitsWide]; omega)

theorem hold_natCast {n : Nat} (h : n < 2 ^ 127) : hold n = .ok n :=
  hold_eq (by rwa [Int.natAbs_natCast])

/-! ## Lowest terms -/

theorem gcdFrom_eq (m n : Nat) (hm : m < 2 ^ 127) (hn : n < 2 ^ 127) :
    gcdFrom m n = .ok (Nat.gcd m n : Nat) := by
  induction n using Nat.strongRecOn generalizing m with
  | ind n ih =>
    unfold gcdFrom
    by_cases hzero : n = 0
    · subst hzero
      rw [if_pos Nat.cast_zero, Nat.gcd_zero_right]
    · have hle : m / n ≤ m := Nat.div_le_self m n
      have hquotient : quotient m n = .ok ((m / n : Nat) : Int) := by
        rw [quotient, if_neg (by exact_mod_cast hzero)]
        exact hold_natCast (lt_of_le_of_lt hle hm)
      have hremainder : remainder m n = .ok ((m % n : Nat) : Int) := by
        rw [remainder, hquotient]
        rfl
      have hlt : m % n < n := Nat.mod_lt m (by omega)
      rw [if_neg (by exact_mod_cast hzero)]
      split
      · next e he =>
        rw [hremainder] at he
        cases he
      · next r hr =>
        rw [hremainder] at hr
        cases hr
        rw [ih _ hlt n hn (by omega), Nat.gcd_comm m n, Nat.gcd_comm n (m % n), ← Nat.gcd_rec]

theorem gcd_eq {n d : Int} (hn : n.natAbs < 2 ^ 127) (hd : d.natAbs < 2 ^ 127) :
    gcd n d = .ok (Int.gcd n d) := by
  rw [gcd, absolute, absolute, hold_natCast hn, hold_natCast hd]
  exact gcdFrom_eq _ _ hn hd

theorem map_words_ofRatio? {n d : Int} (hd : d ≠ 0) :
    (Fraction.ofRatio? n d).map words = words? (Fraction.reduce n d).1 (Fraction.reduce n d).2 := by
  have hpos := Fraction.reduce_den_pos (n := n) hd
  have hcoprime := Fraction.reduce_coprime (n := n) hd
  unfold Fraction.ofRatio?
  rw [if_neg hd]
  cases hp : word? (Fraction.reduce n d).1 with
  | none => simp [words?, hp]
  | some p =>
    cases hq : word? (Fraction.reduce n d).2 with
    | none => simp [words?, hp, hq]
    | some q =>
      rw [← word?_eq_some_iff.mp hp, ← word?_eq_some_iff.mp hq] at hcoprime
      rw [← word?_eq_some_iff.mp hq] at hpos
      simp [words?, hp, hq, Fraction.ofCoprime?, hpos, hcoprime, words]

/-- **Lowest terms without a fault**, as long as both parts have a size. -/
theorem reduced_eq {n d : Int} (hn : n.natAbs < 2 ^ 127) (hd : d.natAbs < 2 ^ 127) :
    reduced n d = .ok ((Fraction.ofRatio? n d).map words) := by
  by_cases hzero : d = 0
  · subst hzero
    rfl
  have hg : 0 < Int.gcd n d := Nat.pos_of_ne_zero fun h => hzero (Int.gcd_eq_zero_iff.mp h).2
  have hmax : max (Int.gcd n d : Int) 1 = Int.gcd n d := max_eq_left (by exact_mod_cast hg)
  have hquotient : ∀ {a : Int}, a.natAbs < 2 ^ 127 → (Int.gcd n d : Int) ∣ a →
      quotient a (Int.gcd n d) = .ok (a / Int.gcd n d) ∧ (a / Int.gcd n d).natAbs < 2 ^ 127 := by
    intro a ha hdvd
    have hsmall : (a / (Int.gcd n d : Int)).natAbs < 2 ^ 127 := by
      rw [Int.natAbs_ediv_of_dvd hdvd]
      exact lt_of_le_of_lt (Nat.div_le_self _ _) ha
    refine ⟨?_, hsmall⟩
    rw [quotient, if_neg (by exact_mod_cast hg.ne'), Int.tdiv_eq_ediv_of_dvd hdvd, hold_eq hsmall]
  obtain ⟨hp, hpsmall⟩ := hquotient hn (Int.gcd_dvd_left n d)
  obtain ⟨hq, hqsmall⟩ := hquotient hd (Int.gcd_dvd_right n d)
  have hsign : d / (Int.gcd n d : Int) < 0 ↔ d < 0 := by
    rw [← Int.not_le, ← Int.not_le, Int.ediv_nonneg_iff_of_pos (by exact_mod_cast hg)]
  rw [reduced, if_neg hzero, gcd_eq hn hd, map_words_ofRatio? hzero, Fraction.reduce]
  simp only [bind, Except.bind, hmax, hp, hq]
  by_cases hneg : d < 0
  · rw [if_pos (hsign.mpr hneg), if_pos hneg, negated, negated,
      hold_eq (by rwa [Int.natAbs_neg]), hold_eq (by rwa [Int.natAbs_neg])]
  · rw [if_neg (mt hsign.mp hneg), if_neg hneg]

/-- The least word has no size that a word holds. -/
theorem reduced_least {d : Int} (hd : d ≠ 0) : reduced (-2 ^ 127) d = .error .overflow := by
  rw [reduced, if_neg hd]
  rfl

/-! ## Operations -/

theorem natAbs_toInt_le (w : Int64) : w.toInt.natAbs ≤ 2 ^ 63 := by
  obtain ⟨hlow, hhigh⟩ := fitsWord_toInt w
  omega

/-- A product of two words is far from the least word of 128 bits. -/
theorem natAbs_mul_le (v w : Int64) : (v.toInt * w.toInt).natAbs ≤ 2 ^ 126 := by
  rw [Int.natAbs_mul]
  have hle := Nat.mul_le_mul (natAbs_toInt_le v) (natAbs_toInt_le w)
  omega

theorem times_eq (v w : Int64) : times v.toInt w.toInt = .ok (v.toInt * w.toInt) :=
  hold_eq (lt_of_le_of_lt (natAbs_mul_le v w) (by omega))

theorem mul_eq (a b : Fraction) : mul a b = .ok ((a.mul? b).map words) := by
  have hn := natAbs_mul_le a.num b.num
  have hd := natAbs_mul_le a.den b.den
  rw [mul, times_eq, times_eq]
  exact reduced_eq (by omega) (by omega)

theorem div_eq (a b : Fraction) : div a b = .ok ((a.div? b).map words) := by
  unfold div Fraction.div?
  by_cases hb : b.num = 0
  · rw [if_pos hb, if_pos hb]
    rfl
  · have hn := natAbs_mul_le a.num b.den
    have hd := natAbs_mul_le a.den b.num
    rw [if_neg hb, if_neg hb, times_eq, times_eq]
    exact reduced_eq (by omega) (by omega)

theorem compare_eq (a b : Fraction) : compare a b = .ok (a.compare b) := by
  rw [compare, times_eq, times_eq]
  rfl

/-- The sum of two products stays below the bound as denominators are no least words. -/
theorem add_eq (a b : Fraction) : add a b = .ok ((a.add? b).map words) := by
  have hd := natAbs_mul_le a.den b.den
  have hterm : ∀ v w : Int64, 0 < w.toInt → (v.toInt * w.toInt).natAbs ≤ 2 ^ 126 - 2 ^ 63 := by
    intro v w hw
    have hvle := natAbs_toInt_le v
    have hwle : w.toInt.natAbs ≤ 2 ^ 63 - 1 := by
      have hhigh := w.toInt_lt
      omega
    rw [Int.natAbs_mul]
    have hle := Nat.mul_le_mul hvle hwle
    omega
  have hleft := hterm a.num b.den b.den_pos
  have hright := hterm b.num a.den a.den_pos
  have hsum : (a.num.toInt * b.den.toInt + b.num.toInt * a.den.toInt).natAbs < 2 ^ 127 := by
    have habs := Int.natAbs_add_le (a.num.toInt * b.den.toInt) (b.num.toInt * a.den.toInt)
    omega
  rw [add, times_eq, times_eq, times_eq]
  simp only [bind, Except.bind, plus, hold_eq hsum]
  exact reduced_eq hsum (by omega)

/-! ## Powers

The one power that meets the least word is `(-2) ^ 127`. -/

theorem powWithin?_least : powWithin? (decide <| FitsWide ·) 1 (-2) 127 = some (-2 ^ 127) := by
  decide +kernel

theorem eq_of_pow_eq_least {w : Int64} {k : Nat} (h : w.toInt ^ k = -2 ^ 127) :
    w.toInt = -2 ∧ k = 127 := by
  have habs : w.toInt.natAbs ^ k = 2 ^ 127 := by
    rw [← Int.natAbs_pow, h]
    rfl
  have hk : k ≠ 0 := by
    rintro rfl
    rw [pow_zero] at habs
    omega
  -- so the base is a power of two as well, and its exponent divides a prime
  obtain ⟨j, -, hj⟩ := (Nat.dvd_prime_pow Nat.prime_two).mp (habs ▸ dvd_pow_self _ hk)
  have hjk : j * k = 127 := by
    rw [hj, ← pow_mul] at habs
    exact Nat.pow_right_injective (Nat.le_refl 2) habs
  have hprime : Nat.Prime 127 := by norm_num
  rcases (Nat.dvd_prime hprime).mp ⟨k, hjk.symm⟩ with rfl | rfl
  · have hk : k = 127 := by omega
    subst hk
    refine ⟨?_, rfl⟩
    rcases Int.natAbs_eq w.toInt with hw | hw
    · rw [hw, hj] at h
      norm_num at h
    · rw [hw, hj]
      rfl
  · have hle := natAbs_toInt_le w
    rw [hj] at hle
    exact absurd hle (by norm_num)

theorem toRat_eq_neg_two_iff {b : Fraction} :
    b.toRat = -2 ↔ b.num.toInt = -2 ∧ b.den.toInt = 1 := by
  constructor
  · intro h
    rw [← Fraction.num_toRat, ← Fraction.den_toRat, h]
    exact ⟨rfl, rfl⟩
  · rintro ⟨hnum, hden⟩
    rw [Fraction.toRat, hnum, hden]
    norm_num

/-- A denominator above one would have given up before the numerator comes to the least number. -/
theorem ne_least_of_powWithin? {b : Fraction} {k : Nat} {n d : Int} (hleast : ¬(b.toRat = -2 ∧ k = 127))
    (hn : powWithin? (decide <| FitsWide ·) 1 b.num.toInt k = some n)
    (hd : powWithin? (decide <| FitsWide ·) 1 b.den.toInt k = some d) : n ≠ -2 ^ 127 := by
  intro hn_eq
  have hnpow := eq_of_powWithin? hn
  rw [one_mul, hn_eq] at hnpow
  obtain ⟨hnum, rfl⟩ := eq_of_pow_eq_least hnpow.symm
  have hden : b.den.toInt = 1 := by
    by_contra hden_ne
    obtain ⟨-, hdhigh⟩ := fitsWide_of_powWithin? (by decide) hd
    have hdpow := eq_of_powWithin? hd
    rw [one_mul] at hdpow
    have htwo : (2 : Int) ≤ b.den.toInt := by
      have hpos := b.den_pos
      omega
    have hle := pow_le_pow_left₀ (by norm_num) htwo 127
    rw [← hdpow] at hle
    omega
  exact hleast ⟨toRat_eq_neg_two_iff.mpr ⟨hnum, hden⟩, rfl⟩

/-- A power with an exponent that is no less than zero. -/
theorem powers_eq (b : Fraction) (k : Nat) :
    powers (words b) k = if b.toRat = -2 ∧ k = 127 then .error .overflow
      else .ok ((Fraction.ofRat? (b.toRat ^ k)).map words) := by
  rw [← Fraction.pow_terms_eq]
  unfold powers words
  dsimp only
  by_cases hleast : b.toRat = -2 ∧ k = 127
  · -- the power fits, but its opposite, by which it is reduced, does not
    obtain ⟨hb, rfl⟩ := hleast
    obtain ⟨hnum, hden⟩ := toRat_eq_neg_two_iff.mp hb
    have hone : powWithin? (decide <| FitsWide ·) 1 1 127 = some 1 := by decide +kernel
    rw [if_pos ⟨hb, rfl⟩, hnum, hden, powWithin?_least, hone]
    exact reduced_least (by decide)
  rw [if_neg hleast]
  cases hn : powWithin? (decide <| FitsWide ·) 1 b.num.toInt k with
  | none => rfl
  | some n =>
    cases hd : powWithin? (decide <| FitsWide ·) 1 b.den.toInt k with
    | none => rfl
    | some d =>
      obtain ⟨hnlow, hnhigh⟩ := fitsWide_of_powWithin? (by decide) hn
      obtain ⟨hdlow, hdhigh⟩ := fitsWide_of_powWithin? (by decide) hd
      have hdpos : 0 < d := by
        rw [eq_of_powWithin? hd, one_mul]
        exact pow_pos b.den_pos k
      have hne := ne_least_of_powWithin? hleast hn hd
      exact reduced_eq (by omega) (by omega)

/-- Of a base that is inverted first, the power that meets the least word is that of one half. -/
theorem least_power_iff_of_neg {q : ℚ} {e : Int} (he : e < 0) :
    (q⁻¹ = -2 ∧ e.natAbs = 127) ↔ (q = -2 ∧ e = 127 ∨ q = -1 / 2 ∧ e = -127) := by
  have hhalf : q⁻¹ = -2 ↔ q = -1 / 2 := by
    rw [inv_eq_iff_eq_inv]
    norm_num
  rw [hhalf]
  constructor
  · rintro ⟨hq, hexponent⟩
    exact Or.inr ⟨hq, by omega⟩
  · rintro (⟨-, hexponent⟩ | ⟨hq, hexponent⟩)
    · omega
    · exact ⟨hq, by omega⟩

theorem least_power_iff_of_nonneg {q : ℚ} {e : Int} (he : 0 ≤ e) :
    (q = -2 ∧ e.natAbs = 127) ↔ (q = -2 ∧ e = 127 ∨ q = -1 / 2 ∧ e = -127) := by
  constructor
  · rintro ⟨hq, hexponent⟩
    exact Or.inl ⟨hq, by omega⟩
  · rintro (⟨hq, hexponent⟩ | ⟨-, hexponent⟩)
    · exact ⟨hq, by omega⟩
    · omega

/-- **A power on a machine** is the power, or the one power that meets the least word. -/
theorem pow_eq (a : Fraction) {e : Int64} (he : e.toInt.natAbs < 0x100000000) :
    pow a e
      = if a.toRat = -2 ∧ e.toInt = 127 ∨ a.toRat = -1 / 2 ∧ e.toInt = -127 then .error .overflow
        else .ok ((a.pow? e).map words) := by
  have hlimit : ¬0x100000000 ≤ e.toInt.natAbs := Nat.not_le.mpr he
  rw [Fraction.pow?_eq_bind a he]
  unfold pow
  rcases Int.lt_or_le e.toInt 0 with hneg | hnonneg
  · rw [if_pos hneg, if_pos hneg, div_eq]
    cases hbase : (Fraction.ofWord 1).div? a with
    | none =>
      -- the inverse of one half is a fraction
      have hfine : ¬(a.toRat = -2 ∧ e.toInt = 127 ∨ a.toRat = -1 / 2 ∧ e.toInt = -127) := by
        rw [← least_power_iff_of_neg hneg]
        rintro ⟨ha, -⟩
        have htwo : (Fraction.ofWord 1).div? a = some (.ofWord (-2)) := by
          have hvalue : (Fraction.ofWord (-2)).toRat = -2 := toRat_eq_neg_two_iff.mpr ⟨rfl, rfl⟩
          refine Fraction.inverse?_eq_some_iff.mpr ⟨fun hzero => ?_, hvalue.trans ha.symm⟩
          rw [hzero] at ha
          norm_num at ha
        rw [hbase] at htwo
        cases htwo
      rw [if_neg hfine]
      rfl
    | some b =>
      obtain ⟨-, hb⟩ := Fraction.inverse?_eq_some_iff.mp hbase
      have hpowers := powers_eq b e.toInt.natAbs
      have hcase := least_power_iff_of_neg (q := a.toRat) hneg
      rw [← hb] at hcase
      simp only [hcase] at hpowers
      exact (if_neg hlimit).trans hpowers
  · rw [if_neg (Int.not_lt.mpr hnonneg), if_neg (Int.not_lt.mpr hnonneg)]
    have hpowers := powers_eq a e.toInt.natAbs
    simp only [least_power_iff_of_nonneg hnonneg] at hpowers
    exact (if_neg hlimit).trans hpowers

end Worksheet.Wide
