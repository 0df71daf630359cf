/-!
# 64-bit words

Worksheet integers are 64-bit signed words, but every rule about them is stated over the exact
integers: an operation computes its exact result and then asks whether a word can hold it.

Main statement: `word?_eq_some_iff`, `word? n` is the word that denotes `n`, when there is one.
-/

namespace Worksheet

/-- The exact integers that a 64-bit signed word can hold. -/
def FitsWord (n : Int) : Prop := -0x8000000000000000 ≤ n ∧ n < 0x8000000000000000

instance (n : Int) : Decidable (FitsWord n) := by unfold FitsWord; infer_instance

/-- The exact integers that a 128-bit signed word can hold. -/
def FitsWide (n : Int) : Prop := -0x80000000000000000000000000000000 ≤ n ∧
  n < 0x80000000000000000000000000000000

instance (n : Int) : Decidable (FitsWide n) := by unfold FitsWide; infer_instance

/-- The word that denotes `n`; none if `n` is out of range. -/
def word? (n : Int) : Option Int64 :=
  if FitsWord n then some (Int64.ofInt n) else none

theorem fitsWord_toInt (w : Int64) : FitsWord w.toInt := ⟨w.le_toInt, w.toInt_lt⟩

theorem word?_eq_some_iff {n : Int} {w : Int64} : word? n = some w ↔ w.toInt = n := by
  unfold word?
  constructor
  · intro h
    split at h
    · next hf => rw [← Option.some.inj h, Int64.toInt_ofInt_of_le hf.1 hf.2]
    · exact absurd h (by simp)
  · rintro rfl
    rw [if_pos (fitsWord_toInt w), Int64.ofInt_toInt]

theorem word?_eq_none_iff {n : Int} : word? n = none ↔ ¬ FitsWord n := by
  unfold word?
  split <;> simp_all

/-- The word nearest to `n`: out of range it is the least or the greatest word. -/
def clampWord (n : Int) : Int64 :=
  if n < -0x8000000000000000 then Int64.minValue
  else if 0x8000000000000000 ≤ n then Int64.maxValue
  else Int64.ofInt n

/-! ## Powers whose steps must fit -/

/--
`acc * base ^ e` by repeated squaring, giving up as soon as a partial product is outside `fits`.
A partial product never exceeds the final one in size, so giving up loses no answer that fits.
-/
def powWithin? (fits : Int → Bool) (acc base : Int) (e : Nat) : Option Int :=
  if e = 0 then some acc
  else
    let acc' := if e % 2 = 1 then acc * base else acc
    if !fits acc' then none
    else if e = 1 then some acc'
    else if !fits (base * base) then none
    else powWithin? fits acc' (base * base) (e / 2)
termination_by e

end Worksheet
