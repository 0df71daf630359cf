import Mathlib.Algebra.BigOperators.Group.List.Basic
import Mathlib.Algebra.Ring.Int.Defs
import Worksheet.Expression.Eval

/-!
# Sums of integers

The sum of integers is exact, or it fails because one of the sums on the way does not fit in a word:
**`Library.toInt_of_sum`**. The function takes one sequence and nothing else (`invoke_sum`,
`invoke_sum_pair`).
-/

namespace Worksheet

open Arithmetic Expression

namespace Library

variable {ns : List Int64} {v : Value}

/-- What is added to an integer is added exactly. -/
theorem toInt_of_foldlM_add {n : Int64}
    (h : (ns.map Value.int).foldlM (fun acc item => binary .add acc item) (.int n) = .ok v) :
    ∃ m : Int64, v = .int m ∧ m.toInt = n.toInt + (ns.map Int64.toInt).sum := by
  induction ns generalizing n with
  | nil =>
    cases h
    exact ⟨n, rfl, by simp⟩
  | cons k ns ih =>
    rw [List.map_cons, List.foldlM_cons] at h
    have hadd : binary .add (.int n) (.int k) = orError (word? (n.toInt + k.toInt)) .int .integerOverflow :=
      rfl
    cases hword : word? (n.toInt + k.toInt) with
    | none =>
      rw [hadd, hword] at h
      cases h
    | some w =>
      rw [hadd, hword] at h
      obtain ⟨m, rfl, hm⟩ := ih h
      refine ⟨m, rfl, ?_⟩
      rw [hm, word?_eq_some_iff.mp hword, List.map_cons, List.sum_cons, Int.add_assoc]

/-- **A sum of integers is exact.** -/
theorem toInt_of_sum (h : sum (ns.map Value.int) = .ok v) :
    ∃ m : Int64, v = .int m ∧ m.toInt = (ns.map Int64.toInt).sum := by
  cases ns with
  | nil =>
    cases h
    exact ⟨0, rfl, rfl⟩
  | cons n ns => exact toInt_of_foldlM_add h

/-! ## The function -/

theorem invoke_sum (apply : Application) (ds : List Datum) :
    invoke apply "sum" [.array ds] = .ofOutcome (sum (Value.ofDatumAll ds)) := by
  rfl

/-- It is no function of two sequences. -/
theorem invoke_sum_pair (apply : Application) (ds es : List Datum) :
    invoke apply "sum" [.array ds, .array es]
      = .error (.unknownFunction (callSignature "sum" [.array ds, .array es])) := by
  rfl

end Library

end Worksheet
