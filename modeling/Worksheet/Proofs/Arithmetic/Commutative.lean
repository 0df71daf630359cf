import Worksheet.Proofs.Arithmetic.Quantities
import Worksheet.Proofs.Quantity.Dimensions

/-!
# Sums and products both ways round

The operands of a sum and of a product can change places. What a sum of two quantities is shown in comes from the
first of them, so that the sum is then the same but for the unit it is shown in; two texts, and two sequences, are
put one behind the other.

* **`Real.add_comm_eq`**, **`Fraction.add?_comm`** and their like — the parts of a value.
* **`numberOp_comm`**, **`quantityOp_mirrored`**, **`temporalOp_mirrored`** — numbers, quantities, and the rest.
* **`Machine.binary_mirrored`** — the headline.
-/

namespace Worksheet

/-! ## The parts of values -/

namespace Real

open Float.Model (Format UnpackedFloat)
open Float.Model.UnpackedFloat

/-- A sum of reals is rounded once, from an exact sum of significands over the smaller exponent. -/
theorem add_comm_eq (x y : Float) : x + y = y + x := by
  have hadd : ∀ a b : UnpackedFloat,
      UnpackedFloat.add Format.binary64 a b = UnpackedFloat.add Format.binary64 b a := by
    intro a b
    cases a with
    | notANumber => cases b <;> rfl
    | infinity s => cases b with
      | infinity t => cases s <;> cases t <;> rfl
      | _ => rfl
    | zero s => cases b with
      | zero t => cases s <;> cases t <;> rfl
      | _ => rfl
    | finite s m e hm => cases b with
      -- both significands are brought to the smaller exponent, whichever stands in front
      | finite t n f hn => simp only [UnpackedFloat.add, min_comm e f, Int.add_comm]
      | _ => rfl
  change Float.ofModel (Float.Model.pack _) = Float.ofModel (Float.Model.pack _)
  rw [hadd]

end Real

namespace Fraction

theorem add?_comm (x y : Fraction) : x.add? y = y.add? x := by rw [add?_eq, add?_eq, add_comm]

theorem mul?_comm (x y : Fraction) : x.mul? y = y.mul? x := by rw [mul?_eq, mul?_eq, mul_comm]

end Fraction

theorem Duration.add?_comm (x y : Duration) : x.add? y = y.add? x := by rw [add?, add?, Int.add_comm]

theorem Period.add?_comm (x y : Period) : x.add? y = y.add? x := by rw [add?, add?, Int.add_comm]

theorem Dimension.mul_comm (d e : Dimension) : d.mul e = e.mul d :=
  eq_of_exponents fun i => by rw [exponents_mul, exponents_mul, Int.add_comm]

theorem Quantity.mul_comm (x y : Quantity) : x.mul y = y.mul x := by
  rw [mul, mul, Real.mul_comm_eq, Dimension.mul_comm]

namespace Arithmetic

/-! ## Outcomes -/

/-- Are two values the same, whatever unit they are shown in? -/
inductive UpToUnit : Value → Value → Prop where
  | refl (v : Value) : UpToUnit v v
  | quantity {x y : Quantity} (hsi : x.si = y.si) (hdimension : x.dimension = y.dimension) :
      UpToUnit (.quantity x) (.quantity y)

/-- Have two operations both failed, or do they have the same value, whatever unit it is shown in? -/
inductive Mirrored : Outcome → Outcome → Prop where
  | failed (e e' : ArithmeticError) : Mirrored (.error e) (.error e')
  | value {v w : Value} (h : UpToUnit v w) : Mirrored (.ok v) (.ok w)

theorem Mirrored.refl (r : Outcome) : Mirrored r r := by
  cases r with
  | error e => exact .failed e e
  | ok v => exact .value (.refl v)

theorem Mirrored.of_eq {r s : Outcome} (h : r = s) : Mirrored r s := by
  subst h
  exact .refl r

theorem Mirrored.symm {r s : Outcome} (h : Mirrored r s) : Mirrored s r := by
  cases h with
  | failed e e' => exact .failed e' e
  | value h =>
    cases h with
    | refl => exact .refl _
    | quantity hsi hdimension => exact .value (.quantity hsi.symm hdimension.symm)

/-- Is the operator a sum or a product? -/
def IsSymmetric (op : Operator) : Prop := op = .add ∨ op = .mul

/-! ## Numbers -/

section Numbers

variable {op : Operator}

theorem realOp_comm (hop : IsSymmetric op) (x y : Float) : realOp op x y = realOp op y x := by
  rcases hop with rfl | rfl
  · simp only [realOp, Real.add_comm_eq x y]
  · simp only [realOp, Real.mul_comm_eq x y]

theorem intOp_comm (hop : IsSymmetric op) (x y : Int64) : intOp op x y = intOp op y x := by
  rcases hop with rfl | rfl
  · simp only [intOp, Int.add_comm]
  · simp only [intOp, Int.mul_comm]

/-- If the exact result does not fit, it fits neither way round, and the reals take over. -/
theorem rationalOp_comm (hop : IsSymmetric op) (x y : Fraction) : rationalOp op x y = rationalOp op y x := by
  have hreal := realOp_comm hop x.toReal y.toReal
  rcases hop with rfl | rfl
  · simp only [rationalOp, Fraction.add?_comm x y, hreal]
  · simp only [rationalOp, Fraction.mul?_comm x y, hreal]

theorem numberOp_comm (hop : IsSymmetric op) (a b : Number) : numberOp op a b = numberOp op b a := by
  cases a with
  | int x => cases b with
    | int y => exact intOp_comm hop x y
    | rational g => exact rationalOp_comm hop _ _
    | real y => exact realOp_comm hop _ _
  | rational f => cases b with
    | real y => exact realOp_comm hop _ _
    | _ => exact rationalOp_comm hop _ _
  | real x => cases b <;> exact realOp_comm hop _ _

end Numbers

/-! ## Quantities -/

theorem upToUnit_settle {x y : Quantity} (hsi : x.si = y.si) (hdimension : x.dimension = y.dimension) :
    UpToUnit (settle x) (settle y) := by
  unfold settle Quantity.isDimensionless
  rw [hsi, hdimension]
  split
  · exact .refl _
  · exact .quantity hsi hdimension

/-- The first summand decides only what the sum is shown in. -/
theorem quantitySum_mirrored (x y : Quantity) : Mirrored (quantitySum x y) (quantitySum y x) := by
  unfold quantitySum Quantity.add
  by_cases h : x.dimension = y.dimension
  · rw [if_neg (by simp [h]), if_neg (by simp [h])]
    exact .value (upToUnit_settle (Real.add_comm_eq x.si y.si) h)
  · rw [if_pos (by simpa using h), if_pos (by simpa using Ne.symm h)]
    exact .failed _ _

/-- A quantity and any other value. -/
theorem quantityOp_mirrored {op : Operator} (hop : IsSymmetric op) (x : Quantity) (b : Value) :
    Mirrored (quantityOp op (.quantity x) b) (quantityOp op b (.quantity x)) := by
  rcases hop with rfl | rfl
  · cases b with
    | quantity y => exact quantitySum_mirrored x y
    | _ => exact .failed _ _
  · cases b with
    | quantity y => exact .of_eq (by simp only [quantityOp, Quantity.mul_comm x y])
    | int _ | bool _ | rational _ | real _ => exact .refl _
    | _ => exact .failed _ _

/-! ## Dates, durations and periods -/

/-- Each way to move something, or to take it a number of times, is there both ways round. -/
theorem temporalOp_mirrored {op : Operator} (hop : IsSymmetric op) (a b : Value) :
    Mirrored (temporalOp op a b) (temporalOp op b a) := by
  have herror : ∀ {r s : Outcome} {e e' : ArithmeticError}, r = .error e → s = .error e' → Mirrored r s := by
    rintro r s e e' rfl rfl
    exact .failed e e'
  rcases hop with rfl | rfl
  · cases a <;> cases b
    case duration.duration x y => exact .of_eq (by simp only [temporalOp, Duration.add?_comm x y])
    case period.period x y => exact .of_eq (by simp only [temporalOp, Period.add?_comm x y])
    -- what is left is refused both ways round, or is one and the same move
    all_goals first
      | exact herror rfl rfl
      | exact .refl _
  · cases a <;> cases b
    all_goals first
      | exact herror rfl rfl
      | exact .refl _

/-! ## All values -/

/-- Are both values texts, or both sequences? -/
def Joins : Value → Value → Prop
  | .text _, .text _ => True
  | .sequence _, .sequence _ => True
  | _, _ => False

/-- Two numbers, a quantity on one side, or neither. -/
theorem operands_cases (a b : Value) :
    (∃ x y, Number.ofValue? a = some x ∧ Number.ofValue? b = some y) ∨ (∃ x, a = .quantity x) ∨
      (∃ y, b = .quantity y) ∨ ((∀ x y, Number.ofValue? a = some x → Number.ofValue? b ≠ some y) ∧
        (∀ x, a ≠ .quantity x) ∧ ∀ y, b ≠ .quantity y) := by
  grind

/-- What is left to dates, durations and periods. -/
theorem binary_eq_temporalOp {op : Operator} {a b : Value}
    (hnumbers : ∀ x y, Number.ofValue? a = some x → Number.ofValue? b ≠ some y) (ha : ∀ x, a ≠ .quantity x)
    (hb : ∀ y, b ≠ .quantity y) (hjoins : op = .add → ¬Joins a b) : binary op a b = temporalOp op a b := by
  unfold binary
  split
  · next hx hy => exact absurd hy (hnumbers _ _ hx)
  · split
    · exact absurd rfl (ha _)
    · exact absurd rfl (hb _)
    · exact absurd trivial (hjoins rfl)
    · exact absurd trivial (hjoins rfl)
    · rfl

theorem joins_comm {a b : Value} : Joins a b ↔ Joins b a := by
  cases a <;> cases b <;> exact Iff.rfl

theorem binary_comm {op : Operator} (hop : IsSymmetric op) {a b : Value} (hjoins : op = .add → ¬Joins a b) :
    Mirrored (binary op a b) (binary op b a) := by
  rcases operands_cases a b with ⟨x, y, hx, hy⟩ | ⟨x, rfl⟩ | ⟨y, rfl⟩ | ⟨hnumbers, ha, hb⟩
  · simp only [binary, hx, hy]
    exact .of_eq (numberOp_comm hop x y)
  · rw [binary_eq_quantityOp (.inl ⟨x, rfl⟩), binary_eq_quantityOp (.inr ⟨x, rfl⟩)]
    exact quantityOp_mirrored hop x b
  · rw [binary_eq_quantityOp (.inr ⟨y, rfl⟩), binary_eq_quantityOp (.inl ⟨y, rfl⟩)]
    exact (quantityOp_mirrored hop y a).symm
  · rw [binary_eq_temporalOp hnumbers ha hb hjoins, binary_eq_temporalOp (fun y x hy hx => hnumbers x y hx hy) hb ha
      fun h => joins_comm.not.mp (hjoins h)]
    exact temporalOp_mirrored hop a b

end Arithmetic

/-! ## On a machine -/

namespace Machine

open Arithmetic

/-- Sums and products of fractions do not overflow on the way. -/
theorem numberOp_eq_ok {op : Operator} (hop : IsSymmetric op) (a b : Number) :
    numberOp op a b = .ok (Arithmetic.numberOp op a b) := by
  have hrational : ∀ f g, rationalOp op f g = .ok (Arithmetic.rationalOp op f g) := by
    intro f g
    rw [rationalOp_eq, if_neg]
    rcases hop with rfl | rfl <;> exact id
  cases a with
  | int x => cases b with
    | rational g => exact hrational _ g
    | _ => rfl
  | rational f => cases b with
    | real y => rfl
    | _ => exact hrational f _
  | real x => cases b <;> rfl

theorem binary_eq_ok {op : Operator} (hop : IsSymmetric op) (a b : Value) :
    binary op a b = .ok (Arithmetic.binary op a b) := by
  unfold binary
  split
  · next hx hy => simp only [numberOp_eq_ok hop, Arithmetic.binary, hx, hy]
  · rcases hop with rfl | rfl <;> rfl

/-- **Sums and products work both ways round.** Whichever operand stands in front, a machine meets no fault, and both
operations fail or have the same value, whatever unit it is shown in. Only sums of two texts and of two sequences are
left out. -/
theorem binary_mirrored {op : Operator} (hop : IsSymmetric op) {a b : Value} (hjoins : op = .add → ¬Joins a b) :
    ∃ r s, binary op a b = .ok r ∧ binary op b a = .ok s ∧ Mirrored r s :=
  ⟨_, _, binary_eq_ok hop a b, binary_eq_ok hop b a, binary_comm hop hjoins⟩

/-- A kilometre and a metre make the same length both ways round, shown in the unit of the one in front. -/
theorem binary_mirrored_lengths :
    let kilometre : Value := .quantity ⟨1000.0, MeasureUnit.length, some "km"⟩
    let metre : Value := .quantity ⟨1.0, MeasureUnit.length, some "m"⟩
    let sum (unit : String) : Outcome := .ok (.quantity ⟨1001.0, MeasureUnit.length, some unit⟩)
    IsSymmetric .add ∧ (Operator.add = .add → ¬Joins kilometre metre) ∧
      binary .add kilometre metre = .ok (sum "km") ∧ binary .add metre kilometre = .ok (sum "m") ∧
      Mirrored (sum "km") (sum "m") := by
  intro kilometre metre sum
  have hop : IsSymmetric .add := .inl rfl
  have hjoins : Operator.add = .add → ¬Joins kilometre metre := fun _ => id
  have hkm : binary .add kilometre metre = .ok (sum "km") := by rfl
  have hm : binary .add metre kilometre = .ok (sum "m") := by rfl
  obtain ⟨r, s, hr, hs, h⟩ := binary_mirrored hop hjoins
  cases hkm.symm.trans hr
  cases hm.symm.trans hs
  exact ⟨hop, hjoins, hkm, hm, h⟩

end Machine

end Worksheet
