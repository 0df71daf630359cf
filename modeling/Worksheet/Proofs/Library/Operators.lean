import Worksheet.Expression.Eval
import Worksheet.Proofs.Library.Constructors

/-!
# What operators give

An operator between two operands gives data, whatever the operands are: it makes no functions.

* **`Arithmetic.Plain`** — results of arithmetic that are no functions; `plain_binary`.
* **`Expression.isData_binaryOperator?`** — what an operator makes of two operands.
* **`Expr.isData_operator`** — the value of an expression with an operator of arithmetic at its root.
-/

namespace Worksheet

open Expression

/-! ## Arithmetic -/

namespace Arithmetic

/-- Is a result no function? -/
def Plain (r : Outcome) : Prop := ∀ f, r ≠ .ok (.function f)

@[simp] theorem plain_error (e : ArithmeticError) : Plain (.error e) := by
  rintro f ⟨⟩

@[simp] theorem plain_ok_iff {v : Value} : Plain (.ok v) ↔ ∀ f, v ≠ .function f := by
  simp [Plain]

theorem plain_orError {α : Type} {make : α → Value} (h : ∀ a f, make a ≠ .function f) (x : Option α)
    (e : ArithmeticError) : Plain (orError x make e) := by
  cases x with
  | none => exact plain_error e
  | some a => exact plain_ok_iff.mpr (h a)

theorem Plain.isData {r : Outcome} (h : Plain r) : IsData (.ofOutcome r) := by
  cases r with
  | error e => exact isData_raise _
  | ok v =>
    refine isData_ok_iff.mpr fun f hf => ?_
    cases v with
    | function g => exact h g rfl
    | _ => cases hf

theorem plain_realOp (op : Operator) (x y : Float) : Plain (realOp op x y) := by
  unfold realOp
  repeat' split
  all_goals simp

theorem plain_intOp (op : Operator) (x y : Int64) : Plain (intOp op x y) := by
  unfold intOp
  cases op with
  | add | sub | mul => exact plain_orError (by simp) _ _
  | div | pow =>
    dsimp only
    repeat' split
    all_goals simp

theorem plain_rationalOp (op : Operator) (x y : Fraction) : Plain (rationalOp op x y) := by
  unfold rationalOp
  dsimp only
  cases op with
  | add | sub | mul =>
    dsimp only
    split
    · simp
    · exact plain_realOp _ _ _
  | div =>
    dsimp only
    split
    · simp
    · split
      · simp
      · exact plain_realOp _ _ _
  | pow =>
    dsimp only
    split
    · exact plain_realOp _ _ _
    · split
      · simp
      · split
        · simp
        · exact plain_realOp _ _ _

theorem plain_numberOp (op : Operator) (a b : Number) : Plain (numberOp op a b) := by
  unfold numberOp
  split
  · exact plain_intOp _ _ _
  · split
    · exact plain_rationalOp _ _ _
    · exact plain_realOp _ _ _

theorem settle_ne_function (q : Quantity) (f : Callable) : settle q ≠ .function f := by
  unfold settle
  split <;> simp

theorem plain_quantityOp (op : Operator) (a b : Value) : Plain (quantityOp op a b) := by
  have hsum : ∀ x y, Plain (quantitySum x y) := by
    intro x y
    unfold quantitySum
    split <;> simp [settle_ne_function]
  have hscaled : ∀ (k : Option Float) (q : Quantity) e, Plain (orError k (fun k => settle (q.scale k)) e) :=
    fun k q e => plain_orError (fun _ _ => settle_ne_function _ _) k e
  unfold quantityOp
  dsimp only
  split
  all_goals first
    | exact hsum _ _
    | exact hscaled _ _ _
    | skip
  all_goals
    repeat' split
    all_goals simp [settle_ne_function]

theorem plain_temporalOp (op : Operator) (a b : Value) : Plain (temporalOp op a b) := by
  have hscale : ∀ t k, Plain (scaleDuration t k) := fun t k => plain_orError (by simp) _ _
  unfold temporalOp
  dsimp only
  split
  all_goals first
    | exact plain_orError (by simp) _ _
    | skip
  all_goals
    repeat' split
    all_goals first
      | exact hscale _ _
      | simp

/-- **Arithmetic makes no functions.** -/
theorem plain_binary (op : Operator) (a b : Value) : Plain (binary op a b) := by
  unfold binary
  split
  · exact plain_numberOp _ _ _
  · split
    · exact plain_quantityOp _ _ _
    · exact plain_quantityOp _ _ _
    · simp
    · simp
    · exact plain_temporalOp _ _ _

end Arithmetic

/-! ## Operators -/

namespace Expression

open Arithmetic

variable {op : String} {a b : Datum} {r : Evaluated Datum}

theorem isData_fitting (operation : String) (n : Int) : IsData (fitting operation n) := by
  unfold fitting
  split <;> simp

theorem isData_comparison? {o : Option Ordering} (h : comparison? op o = some r) : IsData r := by
  obtain ⟨x, -, rfl⟩ := Option.map_eq_some_iff.mp h
  simp

theorem isData_onWords? {x y : Int64} (h : onWords? op x y = some r) : IsData r := by
  unfold onWords? at h
  split at h
  case h_1 | h_2 | h_3 =>
    cases h
    exact isData_fitting _ _
  case h_4 =>
    cases h
    unfold wordRemainder
    split <;> simp
  case h_12 => exact isData_comparison? h
  all_goals
    cases h
    simp

theorem isData_onReals? {x y : Float} (h : onReals? op x y = some r) : IsData r := by
  unfold onReals? at h
  split at h
  case h_5 => exact isData_comparison? h
  all_goals
    cases h
    simp

theorem isData_onValues? (h : onValues? op a b = some r) : IsData r := by
  unfold onValues? at h
  dsimp only at h
  split at h
  · cases h
    exact (plain_binary _ _ _).isData
  · split at h
    · cases h
      simp
    · cases h
      simp
    · split at h
      · exact isData_comparison? h
      · obtain ⟨x, -, rfl⟩ := Option.map_eq_some_iff.mp h
        exact isData_raise _

theorem isData_onTexts? (h : onTexts? op a b = some r) : IsData r := by
  unfold onTexts? at h
  split at h
  case h_5 | h_6 => exact isData_comparison? h
  case h_1 =>
    cases h
    simp
  all_goals
    split at h
    · cases h
      simp
    · cases h

theorem isData_onTruth? {x y : Bool} (h : onTruth? op x y = some r) : IsData r := by
  unfold onTruth? at h
  split at h
  case h_4 => exact isData_comparison? h
  all_goals
    cases h
    simp

theorem isData_onPair? (h : onPair? op a b = some r) : IsData r := by
  unfold onPair? at h
  split at h
  case h_1 =>
    split at h
    · exact isData_onValues? h
    · exact isData_onWords? h
  case h_2 | h_3 | h_4 =>
    split at h
    · exact isData_onValues? h
    · exact isData_onReals? h
  case h_5 => exact isData_onTruth? h
  case h_6 => exact isData_comparison? h
  case h_7 =>
    split at h
    · cases h
      simp
    · cases h
  case h_8 =>
    split at h
    · cases h
      simp
    · split at h
      · cases h
        simp
      · cases h
  case h_9 => cases h
  case h_10 =>
    split at h
    · exact isData_onValues? h
    · split at h
      · exact isData_onTexts? h
      · exact isData_comparison? h

theorem isData_binaryOperator? (h : binaryOperator? op a b = some r) : IsData r := by
  unfold binaryOperator? at h
  split at h
  · cases h
    split
    · exact isData_map (by simp) _
    · simp
  · cases h
    split
    · exact isData_map (by simp) _
    · simp
  · exact isData_onPair? h

end Expression

/-! ## Expressions -/

/-- The operators of arithmetic. -/
def arithmeticSymbols : List String := ["+", "-", "*", "/", "**"]

theorem Library.isData_operator {name : String} (hname : name ∈ arithmeticSymbols) (a b : Datum) :
    IsData (Library.apply name [a, b]) := by
  have hfamilies : Library.sequence? name [a, b] = none ∧ Library.quantity? name [a, b] = none ∧
      Library.text? name [a, b] = none ∧ Library.chance? name [a, b] = none := by
    simp only [arithmeticSymbols, List.mem_cons, List.not_mem_nil, or_false] at hname
    rcases hname with rfl | rfl | rfl | rfl | rfl <;> exact ⟨rfl, rfl, rfl, rfl⟩
  obtain ⟨hsequence, hquantity, htext, hchance⟩ := hfamilies
  unfold Library.apply
  split
  · next r hr =>
    obtain ⟨family, hfamily, hr⟩ := List.exists_of_findSome?_eq_some hr
    simp only [Library.families, List.mem_cons, List.not_mem_nil, or_false] at hfamily
    rcases hfamily with rfl | rfl | rfl | rfl | rfl | rfl | rfl | rfl
    · exact isData_binaryOperator? hr
    · exact Library.isData_math? hr
    · simp [hsequence] at hr
    · exact Library.isData_calendar? hr
    · exact Library.isData_rational? hr
    · simp [hquantity] at hr
    · simp [htext] at hr
    · simp [hchance] at hr
  · exact isData_error _

theorem isData_bind {α : Type} {x : Evaluated α} {f : α → Evaluated Datum} (h : ∀ a, x = .ok a → IsData (f a)) :
    IsData (x.bind f) := by
  cases x with
  | error e => exact isData_error e
  | ok a => exact h a rfl

theorem isData_invoke {name : String} (hname : name ∈ arithmeticSymbols) (a b : Datum) :
    IsData (invoke (Closure.apply Closure.callLimit) name [a, b]) := by
  have hlibrary : invoke (Closure.apply Closure.callLimit) name [a, b] = Library.apply name [a, b] := by
    simp only [arithmeticSymbols, List.mem_cons, List.not_mem_nil, or_false] at hname
    rcases hname with rfl | rfl | rfl | rfl | rfl <;> rfl
  rw [hlibrary]
  exact Library.isData_operator hname a b

/-- **An operator of arithmetic between two expressions gives data.** -/
theorem Expr.isData_operator {name : String} (hname : name ∈ arithmeticSymbols) (x y : Expr) (scope : Scope) :
    IsData ((Expr.call name [x, y]).value scope) := by
  by_cases hvariable : ∃ v, x = .variable v
  · obtain ⟨v, rfl⟩ := hvariable
    rw [Expr.value, Expr.eval_call_variable]
    refine isData_bind fun ds hds => isData_bind fun d _ => ?_
    obtain ⟨b, rfl⟩ := List.length_eq_one_iff.mp (Expr.length_of_evalAll hds)
    exact isData_invoke hname d b
  · have hne : ∀ v, x ≠ .variable v := fun v h => hvariable ⟨v, h⟩
    rw [Expr.value, Expr.eval_call_of_ne hne]
    refine isData_bind fun ds hds => ?_
    match ds, Expr.length_of_evalAll hds with
    | [a, b], _ => exact isData_invoke hname a b

end Worksheet
