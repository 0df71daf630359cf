import Mathlib.Algebra.Group.Basic
import Mathlib.Algebra.Order.Ring.Int
import Mathlib.Tactic.Ring
import Worksheet.Number.Word

/-!
# Powers within bounds

`powWithin?` gives up when a partial product is too large. It gives up for no power that fits, as no
partial product is larger than the power itself (`powWithin?_of_fitsWord`), and what it gives is the
power (`eq_of_powWithin?`).
-/

namespace Worksheet

theorem exists_word {n : Int} (h : FitsWord n) : ∃ w : Int64, w.toInt = n :=
  ⟨Int64.ofInt n, Int64.toInt_ofInt_of_le h.1 h.2⟩

/-- One step of squaring. -/
theorem mul_pow_half {M : Type} [CommMonoid M] (acc base : M) (e : Nat) :
    (if e % 2 = 1 then acc * base else acc) * (base * base) ^ (e / 2) = acc * base ^ e := by
  have he : base ^ e = (base * base) ^ (e / 2) * base ^ (e % 2) := by
    rw [← pow_two, ← pow_mul, ← pow_add, Nat.div_add_mod]
  rcases Nat.mod_two_eq_zero_or_one e with h | h
  · rw [he, h, if_neg (by omega), pow_zero, mul_one]
  · rw [he, h, if_pos rfl, pow_one, mul_assoc, mul_comm base]

theorem eq_of_powWithin? {fits : Int → Bool} {acc base r : Int} {e : Nat}
    (h : powWithin? fits acc base e = some r) : r = acc * base ^ e := by
  fun_induction powWithin? fits acc base e with
  | case1 acc base =>
    rw [pow_zero, mul_one]
    exact (Option.some.inj h).symm
  | case2 => cases h
  | case3 acc base hzero acc' hfits =>
    rw [← mul_pow_half acc base 1]
    simpa [acc'] using (Option.some.inj h).symm
  | case4 => cases h
  | case5 acc base e hzero acc' hfits hone hsquare ih =>
    rw [ih h]
    exact mul_pow_half acc base e

theorem fitsWide_of_powWithin? {acc base r : Int} {e : Nat} (hacc : FitsWide acc)
    (h : powWithin? (decide <| FitsWide ·) acc base e = some r) : FitsWide r := by
  fun_induction powWithin? (fun n => decide (FitsWide n)) acc base e with
  | case1 acc base => rwa [← Option.some.inj h]
  | case2 => cases h
  | case3 acc base hzero acc' hfits =>
    rw [← Option.some.inj h]
    simpa using hfits
  | case4 => cases h
  | case5 acc base e hzero acc' hfits hone hsquare ih => exact ih (by simpa using hfits) h

/-- The size of an integer, where zero counts as one. -/
def size (n : Int) : Nat := max 1 n.natAbs

theorem one_le_size (n : Int) : 1 ≤ size n := le_max_left _ _

theorem natAbs_le_size (n : Int) : n.natAbs ≤ size n := le_max_right _ _

theorem size_mul_le (m n : Int) : size (m * n) ≤ size m * size n := by
  unfold size
  rw [Int.natAbs_mul]
  refine max_le ?_ ?_
  · exact Nat.mul_pos (one_le_size m) (one_le_size n)
  · exact Nat.mul_le_mul (natAbs_le_size m) (natAbs_le_size n)

/-- A step of squaring makes the bound no larger. -/
theorem size_step_le (acc base : Int) (e : Nat) :
    size (if e % 2 = 1 then acc * base else acc) * size (base * base) ^ (e / 2)
      ≤ size acc * size base ^ e := by
  rw [← mul_pow_half (size acc) (size base) e]
  refine Nat.mul_le_mul ?_ (Nat.pow_le_pow_left (size_mul_le base base) _)
  split
  · exact size_mul_le acc base
  · exact Nat.le_refl _

theorem fitsWide_of_size_lt {n : Int} (h : size n < 2 ^ 127) : FitsWide n := by
  have hn := natAbs_le_size n
  rw [FitsWide]
  omega

/-- As long as the power stays below the bound no partial product exceeds it. -/
theorem powWithin?_eq_some {acc base : Int} {e : Nat} (h : size acc * size base ^ e < 2 ^ 127) :
    powWithin? (decide <| FitsWide ·) acc base e = some (acc * base ^ e) := by
  fun_induction powWithin? (fun n => decide (FitsWide n)) acc base e with
  | case1 acc base => rw [pow_zero, mul_one]
  | case2 acc base e hzero acc' hfits =>
    -- the new product is bounded by itself times the power that is left
    have hstep := size_step_le acc base e
    have hpos : 0 < size (base * base) ^ (e / 2) := Nat.pow_pos (one_le_size _)
    have hacc : size acc' < 2 ^ 127 :=
      lt_of_le_of_lt (Nat.le_mul_of_pos_right _ hpos) (lt_of_le_of_lt hstep h)
    exact absurd (fitsWide_of_size_lt hacc) (by simpa using hfits)
  | case3 acc base hzero acc' hfits =>
    rw [← mul_pow_half acc base 1]
    simp [acc']
  | case4 acc base e hzero acc' hfits hone hsquare =>
    have hstep := size_step_le acc base e
    have hhalf : 1 ≤ e / 2 := by omega
    have hsize : size (base * base) < 2 ^ 127 := by
      calc size (base * base) ≤ size (base * base) ^ (e / 2) :=
            Nat.le_self_pow (by omega) _
        _ ≤ size acc' * size (base * base) ^ (e / 2) := Nat.le_mul_of_pos_left _ (one_le_size _)
        _ ≤ size acc * size base ^ e := hstep
        _ < 2 ^ 127 := h
    exact absurd (fitsWide_of_size_lt hsize) (by simpa using hsquare)
  | case5 acc base e hzero acc' hfits hone hsquare ih =>
    rw [ih (lt_of_le_of_lt (size_step_le acc base e) h)]
    exact congrArg some (mul_pow_half acc base e)

theorem size_pow_le_of_fitsWord {n : Int} {k : Nat} (h : FitsWord (n ^ k)) :
    size n ^ k ≤ 2 ^ 63 := by
  have hpow : (n ^ k).natAbs ≤ 2 ^ 63 := by
    obtain ⟨hlow, hhigh⟩ := h
    omega
  rw [Int.natAbs_pow] at hpow
  rcases Nat.eq_zero_or_pos n.natAbs with hzero | hpos
  · rw [size, hzero, Nat.max_zero, one_pow]
    exact Nat.one_le_two_pow
  · rwa [size, Nat.max_eq_right hpos]

theorem powWithin?_of_fitsWord {n : Int} {k : Nat} (h : FitsWord (n ^ k)) :
    powWithin? (decide <| FitsWide ·) 1 n k = some (n ^ k) := by
  have hsize := size_pow_le_of_fitsWord h
  have hone : size 1 = 1 := rfl
  rw [powWithin?_eq_some (by rw [hone, one_mul]; omega), one_mul]

/-- A number is a word if one of its powers is. -/
theorem fitsWord_of_pow {n : Int} {k : Nat} (hk : k ≠ 0) (h : FitsWord (n ^ k)) : FitsWord n := by
  have hle : n.natAbs ≤ n.natAbs ^ k := Nat.le_self_pow hk _
  have habs := Int.natAbs_pow n k
  obtain ⟨hlow, hhigh⟩ := h
  rcases Int.lt_or_le n 0 with hneg | hnonneg
  · refine ⟨?_, ?_⟩ <;> omega
  · have hpow := pow_nonneg hnonneg k
    refine ⟨?_, ?_⟩ <;> omega

end Worksheet
