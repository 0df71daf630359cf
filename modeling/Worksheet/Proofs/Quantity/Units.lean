import Worksheet.Proofs.Arithmetic.Quantities
import Worksheet.Proofs.Library.Quantities

/-!
# Units that quantities are shown in

A quantity may remember a unit, and its magnitude is divided by the factor of that unit when it is shown, whatever
its dimension is. So every operation has to see to it that the unit measures what its result does.

* **`Quantity.Fits`** — the unit of a quantity is one of its dimension.
* **`Quantity.Reached`** — the quantities that come about from units; `Reached.fits`, one case for each operation.
* **`Quantity.reached_fits`** — the two together with what arithmetic makes of pure numbers.
-/

namespace Worksheet

open Arithmetic

theorem MeasureUnit.mem_of_find? {s : String} {u : MeasureUnit} (h : find? s = some u) : u ∈ table ∧ u.symbol = s :=
  ⟨List.mem_of_find?_eq_some h, by simpa using List.find?_some h⟩

namespace Quantity

/-- Does the unit to show a quantity in, if there is one, measure what the quantity does? -/
def Fits (q : Quantity) : Prop := ∀ s, q.unit = some s → ∃ u, MeasureUnit.find? s = some u ∧ u.dimension = q.dimension

/-- The quantities that come about from units: by the operations on quantities, and by operators between values of
which the quantities have come about in this way. -/
inductive Reached : Quantity → Prop where
  /-- One of a unit. -/
  | unit {s : String} {q : Quantity} : ofSymbol? s = some q → Reached q
  /-- A multiple. -/
  | scale {q : Quantity} (k : Float) : Reached q → Reached (q.scale k)
  /-- A sum. -/
  | add {a b q : Quantity} : Reached a → Reached b → a.add b = .ok q → Reached q
  /-- The same quantity in another unit. -/
  | convert {q r : Quantity} {s : String} : Reached q → q.convert s = .ok r → Reached r
  /-- A product. -/
  | mul {a b : Quantity} : Reached a → Reached b → Reached (a.mul b)
  /-- A quotient. -/
  | div {a b : Quantity} : Reached a → Reached b → Reached (a.div b)
  /-- A whole power. -/
  | pow {q : Quantity} (n : Int8) : Reached q → Reached (q.pow n)
  /-- The absolute value. -/
  | abs {q r : Quantity} : Reached q → Library.absolute? (.quantity q) = some (.ok (.quantity r)) → Reached r
  /-- The opposite. -/
  | negate {q r : Quantity} : Reached q → Arithmetic.negate (.quantity q) = .ok (.quantity r) → Reached r
  /-- The result of an operator. -/
  | binary {op : Operator} {a b : Value} {q : Quantity} : (∀ x, a = .quantity x → Reached x) →
      (∀ y, b = .quantity y → Reached y) → Arithmetic.binary op a b = .ok (.quantity q) → Reached q

/-! ## What each operation does with the unit -/

section Operations

variable {a b q r : Quantity}

theorem fits_ofSymbol? {s : String} (h : ofSymbol? s = some q) : q.Fits := by
  obtain ⟨u, hu, rfl⟩ := Option.map_eq_some_iff.mp h
  obtain ⟨hmem, -⟩ := MeasureUnit.mem_of_find? hu
  rintro _ ⟨⟩
  exact ⟨u, MeasureUnit.find?_of_mem u hmem, rfl⟩

/-- The unit is looked up afresh. -/
theorem fits_derived (si : Float) (d : Dimension) : (derived si d).Fits := by
  intro s hs
  obtain ⟨u, hu, rfl⟩ := Option.map_eq_some_iff.mp hs
  have hcoherent := List.find?_some hu
  rw [Bool.and_eq_true, beq_iff_eq] at hcoherent
  exact ⟨u, MeasureUnit.find?_of_mem u (List.mem_of_find?_eq_some hu), hcoherent.1⟩

/-- The unit is kept. -/
theorem Fits.of_eq (h : q.Fits) (hunit : r.unit = q.unit) (hdimension : r.dimension = q.dimension) : r.Fits := by
  intro s hs
  rw [hdimension]
  exact h s (hunit ▸ hs)

theorem Fits.scale (h : q.Fits) (k : Float) : (q.scale k).Fits := h.of_eq rfl rfl

theorem add_eq_ok_iff :
    a.add b = .ok q ↔ a.dimension = b.dimension ∧ q = ⟨a.si + b.si, a.dimension, a.unit.or b.unit⟩ := by
  unfold add
  split
  · next hne => simpa using fun h => absurd h (by simpa using hne)
  · next heq =>
    have hdimension : a.dimension = b.dimension := by simpa using heq
    simp [hdimension, eq_comm]

/-- The unit of the right summand stands in for a missing one on the left. -/
theorem Fits.add (ha : a.Fits) (hb : b.Fits) (h : a.add b = .ok q) : q.Fits := by
  obtain ⟨hdimension, rfl⟩ := add_eq_ok_iff.mp h
  intro s hs
  rcases Option.or_eq_some_iff.mp hs with hs | ⟨-, hs⟩
  · exact ha s hs
  · obtain ⟨u, hu, hmeasures⟩ := hb s hs
    exact ⟨u, hu, hmeasures.trans hdimension.symm⟩

/-- The unit is replaced by one that measures the same. -/
theorem fits_of_convert {s : String} (h : q.convert s = .ok r) : r.Fits := by
  unfold convert at h
  split at h
  · cases h
  · next u hu =>
    split at h
    · cases h
    · next heq =>
      cases h
      rintro _ ⟨⟩
      have hsymbol : u.symbol = s := (MeasureUnit.mem_of_find? hu).2
      exact ⟨u, hsymbol ▸ hu, by simpa using heq⟩

theorem fits_of_combines {op : Operator} {v w : Value} (hv : ∀ x, v = .quantity x → x.Fits)
    (hw : ∀ y, w = .quantity y → y.Fits) (h : Combines op v w q) : q.Fits := by
  cases h with
  | add hsum => exact (hv _ rfl).add (hw _ rfl) hsum
  | sub hsum => exact (hv _ rfl).add ((hw _ rfl).scale (-1.0)) hsum
  | mul | div | pow => exact fits_derived _ _
  | times | part => exact (hv _ rfl).scale _
  | multiple => exact (hw _ rfl).scale _
  | inverse => exact (fits_derived _ _).scale _

end Operations

/-! ## All of them -/

theorem Reached.fits {q : Quantity} (h : Reached q) : q.Fits := by
  induction h with
  | unit h => exact fits_ofSymbol? h
  | scale k _ ih => exact ih.scale k
  | add _ _ h iha ihb => exact iha.add ihb h
  | convert _ h => exact fits_of_convert h
  | mul | div | pow => exact fits_derived _ _
  | abs _ h ih | negate _ h ih =>
    cases h
    exact ih.of_eq rfl rfl
  | binary _ _ h iha ihb => exact fits_of_combines iha ihb (binary_eq_quantity_iff.mp h).1

/-- **The unit that a quantity is shown in measures what the quantity does**, whatever operations it has come about by:
it is in the table, it is the one found under its symbol, and what is shown is the magnitude divided by its factor.
Arithmetic never gives a quantity that is a pure number: whatever a quantity is combined with, the result is a real
exactly if its dimension is that of a pure number. -/
theorem reached_fits :
    (∀ q : Quantity, q.Reached → ∀ s, q.unit = some s → ∃ u ∈ MeasureUnit.table,
      u.symbol = s ∧ MeasureUnit.find? s = some u ∧ u.dimension = q.dimension ∧ q.shown = q.si / u.factor) ∧
    (∀ op a b q, Arithmetic.binary op a b = .ok (.quantity q) → q.dimension ≠ Dimension.none) ∧
    (∀ op a b v, ((∃ x, a = .quantity x) ∨ ∃ y, b = .quantity y) → (Arithmetic.binary op a b = .ok v ↔
      ∃ q, Combines op a b q ∧ (if q.dimension = Dimension.none then .real q.si else .quantity q) = v)) := by
  refine ⟨fun q hq s hs => ?_, fun op a b q h => (binary_eq_quantity_iff.mp h).2, fun op a b v h => ?_⟩
  · obtain ⟨u, hu, hmeasures⟩ := hq.fits s hs
    obtain ⟨hmem, hsymbol⟩ := MeasureUnit.mem_of_find? hu
    have hshown : q.shown = q.si / u.factor := by
      unfold shown
      rw [hs, Option.bind_some, hu]
    exact ⟨u, hmem, hsymbol, hu, hmeasures, hshown⟩
  · simp only [binary_eq_ok_iff h, settle, isDimensionless, beq_iff_eq]

/-- Five kilogram metres per second squared are shown in newtons, and a kilogram divided by a kilogram is a real. -/
theorem reached_fits_newton :
    let m : Quantity := ⟨1.0, MeasureUnit.length, some "m"⟩
    let kg : Quantity := ⟨1.0, MeasureUnit.mass, some "kg"⟩
    let s : Quantity := ⟨1.0, MeasureUnit.time, some "s"⟩
    let q := ((kg.scale 5.0).mul m).div (s.pow 2)
    q.Reached ∧ q.unit = some "N" ∧
      (∃ u ∈ MeasureUnit.table, u.symbol = "N" ∧ u.dimension = q.dimension ∧ q.shown = q.si / u.factor) ∧
    Arithmetic.binary .mul (.int 5) (.quantity kg) = .ok (.quantity (kg.scale 5.0)) ∧
      (kg.scale 5.0).dimension ≠ Dimension.none ∧
    Arithmetic.binary .div (.quantity kg) (.quantity kg) = .ok (.real 1.0) := by
  intro m kg s q
  have hq : q.Reached :=
    (((Reached.unit (s := "kg") rfl).scale 5.0).mul (.unit (s := "m") rfl)).div ((Reached.unit (s := "s") rfl).pow 2)
  obtain ⟨hfits, hmeasures, hcombines⟩ := reached_fits
  have hunit : q.unit = some "N" := by decide +kernel
  obtain ⟨u, hu, hsymbol, -, hdimension, hshown⟩ := hfits q hq "N" hunit
  have hmul : Arithmetic.binary .mul (.int 5) (.quantity kg) = .ok (.quantity (kg.scale 5.0)) := rfl
  refine ⟨hq, hunit, ⟨u, hu, hsymbol, hdimension, hshown⟩, hmul, hmeasures _ _ _ _ hmul, ?_⟩
  have hnone : (kg.div kg).dimension = Dimension.none := by decide +kernel
  refine (hcombines _ _ _ _ (.inl ⟨kg, rfl⟩)).mpr ⟨kg.div kg, .div (by decide), ?_⟩
  rw [if_pos hnone, show (kg.div kg).si = 1.0 by decide +kernel]

end Quantity

end Worksheet
