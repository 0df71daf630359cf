import Mathlib.Data.Vector.Basic
import Worksheet.Proofs.Expression.Parse
import Worksheet.Proofs.Library.Operators
import Worksheet.Proofs.Number.Word

/-!
# Quantities in expressions

What the operators make of a unit: a number in front of it scales it, and an exponent raises its magnitude and
its dimension. The dimension of a unit is none of a pure number, nor is that of a power, so that both are
quantities again.

* **`Dimension.Measures`** — a dimension that is none of a pure number; `measures_of_mem`, `Measures.pow`.
* **`Expr.value_unit`**, **`Expr.value_multiple`**, **`Expr.value_power`** — the values, for one operator each.
-/

namespace Worksheet

open Expression Arithmetic

/-! ## Dimensions -/

theorem Dimension.clampExponent_eq_zero_iff (n : Int) : clampExponent n = 0 ↔ n = 0 := by
  unfold clampExponent
  constructor
  · intro h
    split at h
    · exact absurd h (by decide)
    split at h
    · exact absurd h (by decide)
    · have hzero := congrArg Int8.toInt h
      rw [Int8.toInt_ofInt_of_le (by omega) (by omega)] at hzero
      simpa using hzero
  · rintro rfl
    rfl

/-- Is it the dimension of something other than a pure number? -/
def Dimension.Measures (d : Dimension) : Prop := ∃ i : Fin 7, d[i] ≠ 0

theorem Dimension.Measures.beq_none {d : Dimension} (h : d.Measures) : (d == none) = false := by
  rw [beq_eq_false_iff_ne]
  rintro rfl
  obtain ⟨i, hi⟩ := h
  revert i
  decide

theorem Dimension.Measures.pow {d : Dimension} (h : d.Measures) {n : Int8} (hn : n.toInt ≠ 0) :
    (d.pow n).Measures := by
  obtain ⟨i, hi⟩ := h
  refine ⟨i, ?_⟩
  have hexponent : (d.pow n)[i] = clampExponent (d[i].toInt * n.toInt) := by
    unfold Dimension.pow
    simp
  rw [hexponent]
  intro hzero
  rcases Int.mul_eq_zero.mp ((clampExponent_eq_zero_iff _).mp hzero) with h | h
  · exact hi (Int8.toInt_inj.mp h)
  · exact hn h

namespace MeasureUnit

/-- No unit is a pure number. -/
theorem measures_of_mem : ∀ u ∈ table, u.dimension.Measures := by
  unfold Dimension.Measures
  simp only [table, List.forall_mem_cons, List.not_mem_nil, IsEmpty.forall_iff, implies_true, and_true]
  and_intros <;> first
    | exact ⟨0, by decide⟩
    | exact ⟨1, by decide⟩
    | exact ⟨2, by decide⟩
    | exact ⟨3, by decide⟩
    | exact ⟨4, by decide⟩

/-- No two units have one symbol. -/
theorem find?_of_mem : ∀ u ∈ table, find? u.symbol = some u := by
  simp only [table, List.forall_mem_cons, List.not_mem_nil, IsEmpty.forall_iff, implies_true, and_true]
  and_intros <;> rfl

end MeasureUnit

/-- One of a unit, shown in it. -/
def MeasureUnit.one (u : MeasureUnit) : Quantity := ⟨u.factor, u.dimension, some u.symbol⟩

theorem Quantity.ofSymbol?_of_mem {u : MeasureUnit} (hu : u ∈ MeasureUnit.table) : ofSymbol? u.symbol = some u.one := by
  rw [ofSymbol?, MeasureUnit.find?_of_mem u hu]
  rfl

theorem Quantity.settle_of_measures {q : Quantity} (h : q.dimension.Measures) : settle q = .quantity q := by
  rw [settle, isDimensionless, h.beq_none]
  rfl

/-! ## Values -/

namespace Expression

/-- The real that a number is as a factor. -/
def Token.magnitude : Token → Float
  | .int n => Real.ofWord n
  | .real x => x
  | _ => 0.0

section Values

variable {scope : Scope} {q : Quantity}

theorem value_unit {u : MeasureUnit} (hu : u ∈ MeasureUnit.table) (scope : Scope) :
    (Expr.call "unit" [.text u.symbol]).value scope = .ok (.quantity u.one) := by
  have hcall : some ((Expr.call "unit" [.text u.symbol]).value scope)
      = Library.quantity? "unit" [.text u.symbol] := rfl
  rw [Library.quantity?] at hcall
  simpa only [Quantity.ofSymbol?_of_mem hu, Option.some.injEq] using hcall

/-- Two operands are evaluated, and the operator is applied to their values. -/
theorem value_operands {name : String} {x y : Expr} {a b : Datum} (hx : ∀ v, x ≠ .variable v)
    (ha : x.value scope = .ok a) (hb : y.value scope = .ok b) :
    (Expr.call name [x, y]).value scope = invoke (Closure.apply Closure.callLimit) name [a, b] := by
  have hall : (Expr.call name [x, y]).value scope
      = (Expr.evalAll (Closure.apply Closure.callLimit) scope [x, y]).bind fun ds =>
        invoke (Closure.apply Closure.callLimit) name ds := by
    cases x <;> first | rfl | exact absurd rfl (hx _)
  unfold Expr.value at ha hb
  rw [hall, Expr.evalAll, Expr.evalAll, Expr.evalAll, ha, hb]
  rfl

/-- A number in front of a quantity scales it. -/
theorem value_multiple {t : Token} (ht : IsNumber t) {e : Expr} (he : e.value scope = .ok (.quantity q))
    (hq : q.dimension.Measures) :
    (Expr.call "*" [literal t, e]).value scope = .ok (.quantity (q.scale t.magnitude)) := by
  have hsettle : settle (q.scale t.magnitude) = .quantity (q.scale t.magnitude) :=
    Quantity.settle_of_measures (q := q.scale t.magnitude) hq
  have hvariable : ∀ v, literal t ≠ .variable v := by
    intro v h
    cases ht <;> cases h
  cases ht with
  | int n =>
    rw [value_operands hvariable rfl he]
    change Evaluated.ofOutcome (.ok (settle (q.scale (Token.int n).magnitude))) = _
    rw [hsettle]
    rfl
  | real x =>
    rw [value_operands hvariable rfl he]
    change Evaluated.ofOutcome (.ok (settle (q.scale (Token.real x).magnitude))) = _
    rw [hsettle]
    rfl

/-- An exponent behind a quantity raises its magnitude and its dimension. -/
theorem value_power {e : Expr} (hvariable : ∀ v, e ≠ .variable v) (he : e.value scope = .ok (.quantity q))
    (hq : q.dimension.Measures) {w : Int64} {n : Nat} (hw : w.toInt = n) (hpos : 1 ≤ n) (hbound : n ≤ 127) :
    (Expr.call "**" [e, .int w]).value scope
      = .ok (.quantity (.derived (wholePower q.si n) (q.dimension.pow (Int8.ofInt n)))) := by
  have hexponent : (Int8.ofInt n).toInt = n := Int8.toInt_ofInt_of_le (by omega) (by omega)
  have hsettle : settle (q.pow (Int8.ofInt n)) = .quantity (q.pow (Int8.ofInt n)) :=
    Quantity.settle_of_measures (q := q.pow _) (hq.pow (by omega))
  have hpower : quantityOp .pow (.quantity q) (.int w) = .ok (.quantity (q.pow (Int8.ofInt n))) := by
    rw [← hsettle, ← hw]
    exact if_pos ⟨by omega, by omega⟩
  rw [value_operands hvariable he rfl]
  change Evaluated.ofOutcome (quantityOp .pow (.quantity q) (.int w)) = _
  rw [hpower, Quantity.pow, hexponent]
  rfl

end Values

end Expression

end Worksheet
