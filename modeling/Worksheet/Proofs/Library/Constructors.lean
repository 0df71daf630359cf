import Worksheet.Library.Basic
import Worksheet.Notation.Basic

/-!
# What constructors give

The functions that notation calls give data and no functions.

* **`isData_calendar?`**, **`isData_rational?`**, **`isData_math?`** — whatever they are applied to, the
  functions of these families make no functions.
* **`isData_apply`** — the functions that are called with numbers, applied to numbers.
-/

namespace Worksheet

/-- Is a result no function? -/
def IsData (r : Evaluated Datum) : Prop := ∀ f, r ≠ .ok (.function f)

@[simp] theorem isData_error (e : EvalError) : IsData (.error e) := by
  rintro f ⟨⟩

@[simp] theorem isData_raise (e : CallError) : IsData (raise e) := isData_error _

@[simp] theorem isData_ok_iff {d : Datum} : IsData (.ok d) ↔ ∀ f, d ≠ .function f := by
  simp [IsData]

/-- A result is no function if what is made of it never is one. -/
theorem isData_map {α : Type} {make : α → Datum} (h : ∀ a f, make a ≠ .function f) (r : Evaluated α) :
    IsData (r.map make) := by
  cases r with
  | error e => exact isData_error e
  | ok a => exact isData_ok_iff.mpr (h a)

/-- A plain number. -/
inductive IsNumeric : Datum → Prop where
  | int (n : Int64) : IsNumeric (.int n)
  | real (x : Float) : IsNumeric (.real x)

/-- Only an integer is the same as an integer. -/
theorem eq_of_same_int {v : Value} {n : Int64} (h : v.same (.int n) = true) : v = .int n := by
  cases v <;> simp [Value.same] at h ⊢
  exact h

namespace Library

open Arithmetic Notation Expression

/-! ## Families -/

theorem isData_makeDuration (x : Float) : IsData (makeDuration x) := by
  unfold makeDuration
  split <;> simp

theorem isData_calendar? {name : String} {args : List Datum} {r : Evaluated Datum}
    (h : calendar? name args = some r) : IsData r := by
  unfold calendar? at h
  split at h
  case h_1 | h_3 =>
    cases h
    exact isData_map (by simp) _
  case h_4 y m d hour minute second =>
    cases h
    cases makeDate y m d with
    | error e => exact isData_error e
    | ok date =>
      show IsData ((makeDateTime date hour minute second).bind fun t => .ok (.dateTime t))
      exact isData_map (by simp) _
  case h_8 | h_9 =>
    obtain ⟨u, -, rfl⟩ := Option.map_eq_some_iff.mp h
    exact isData_makeDuration _
  case h_10 => cases h
  all_goals
    cases h
    try split
    all_goals simp

theorem isData_rational? {name : String} {args : List Datum} {r : Evaluated Datum}
    (h : rational? name args = some r) : IsData r := by
  unfold rational? at h
  split at h
  case h_8 => cases h
  all_goals
    cases h
    repeat' split
    all_goals simp

theorem isData_checkedReal (x y : Float) : IsData (checkedReal x y) := by
  unfold checkedReal
  split <;> simp

theorem isData_factorial (n : Int64) : IsData (factorial n) := by
  unfold factorial
  repeat' split
  all_goals simp

theorem isData_absolute? {d : Datum} {r : Evaluated Datum} (h : absolute? d = some r) : IsData r := by
  unfold absolute? at h
  split at h
  case h_6 => cases h
  all_goals
    cases h
    repeat' split
    all_goals simp

theorem isData_math? {name : String} {args : List Datum} {r : Evaluated Datum}
    (h : math? name args = some r) : IsData r := by
  unfold math? at h
  split at h
  case h_1 | h_2 =>
    cases h
    exact isData_checkedReal _ _
  case h_9 => exact isData_absolute? h
  case h_11 =>
    cases h
    exact isData_map (by simp) _
  case h_12 =>
    cases h
    exact isData_factorial _
  case h_13 x =>
    cases h
    split
    · cases toWord x with
      | error e => exact isData_error e
      | ok n => exact isData_factorial n
    · simp
  case h_14 =>
    -- a function of reals or one that rounds
    split at h
    · obtain ⟨x, -, rfl⟩ := Option.map_eq_some_iff.mp h
      exact isData_checkedReal _ _
    · cases h
      simp
    · obtain ⟨x, -, rfl⟩ := Option.map_eq_some_iff.mp h
      exact isData_map (by simp) _
    · cases h
  case h_15 => cases h
  all_goals
    cases h
    try unfold roundTo
    repeat' split
    all_goals simp

/-! ## Functions that are called with numbers -/

/-- The functions that notation calls with numbers. -/
def numericNames : List String :=
  ["date", "datetime", "Fraction", "factorial"] ++ spanTable.map SpanWords.constructor

/-- None of them is known to another family than those above. -/
theorem unknown_of_mem {name : String} (hname : name ∈ numericNames) (ds : List Datum) :
    sequence? name ds = none ∧ quantity? name ds = none ∧ text? name ds = none ∧
      chance? name ds = none := by
  simp only [numericNames, spanTable, List.map_cons, List.map_nil, List.cons_append,
    List.nil_append, List.mem_cons, List.not_mem_nil, or_false] at hname
  rcases hname with rfl | rfl | rfl | rfl | rfl | rfl | rfl | rfl | rfl | rfl | rfl <;>
    exact ⟨rfl, rfl, rfl, rfl⟩

/-- None of them is an operator on numbers. -/
theorem operator?_of_mem {name : String} (hname : name ∈ numericNames) {ds : List Datum}
    (hds : ∀ d ∈ ds, IsNumeric d) : operator? name ds = none := by
  have hcomparison : ∀ n ∈ numericNames, ∀ o, comparison? n o = none := by
    have hnames : ∀ n ∈ numericNames, unordered? n = none ∧ ∀ o, holds? n o = none := by decide
    intro n hn o
    obtain ⟨hunordered, hholds⟩ := hnames n hn
    cases o <;> simp [comparison?, hunordered, hholds]
  have hmem := hname
  simp only [numericNames, spanTable, List.map_cons, List.map_nil, List.cons_append,
    List.nil_append, List.mem_cons, List.not_mem_nil, or_false] at hname
  match ds with
  | [] => rfl
  | [a] =>
    rcases hname with rfl | rfl | rfl | rfl | rfl | rfl | rfl | rfl | rfl | rfl | rfl <;>
      cases hds a (by simp) <;> rfl
  | [a, b] =>
    rcases hname with rfl | rfl | rfl | rfl | rfl | rfl | rfl | rfl | rfl | rfl | rfl <;>
      cases hds a (by simp) <;> cases hds b (by simp) <;>
        first | rfl | exact hcomparison _ hmem (compareReals _ _)
  | a :: b :: c :: ds => rfl

/-- **Constructors give data.** -/
theorem isData_apply {name : String} (hname : name ∈ numericNames) {ds : List Datum}
    (hds : ∀ d ∈ ds, IsNumeric d) : IsData (apply name ds) := by
  obtain ⟨hsequence, hquantity, htext, hchance⟩ := unknown_of_mem hname ds
  unfold apply
  split
  · next r hr =>
    obtain ⟨family, hfamily, hr⟩ := List.exists_of_findSome?_eq_some hr
    simp only [families, List.mem_cons, List.not_mem_nil, or_false] at hfamily
    rcases hfamily with rfl | rfl | rfl | rfl | rfl | rfl | rfl | rfl
    · simp [operator?_of_mem hname hds] at hr
    · exact isData_math? hr
    · simp [hsequence] at hr
    · exact isData_calendar? hr
    · exact isData_rational? hr
    · simp [hquantity] at hr
    · simp [htext] at hr
    · simp [hchance] at hr
  · exact isData_error _

end Library

end Worksheet
