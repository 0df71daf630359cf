import Worksheet.Proofs.Context.Sections
import Worksheet.Table.Report

/-!
# Tables and sections

A table takes its rows from variables and stacks and its aggregates from functions. None of these
has anything to do with sections: **`TableReport.table_withoutSections`**.
-/

namespace Worksheet.TableReport

/-- The source as if no section had ever been begun. -/
def Source.withoutSections (s : Source) : Source := { s with context := s.context.withoutSections }

variable (s : Source)

/-! ## Rows -/

theorem addName_withoutSections (groups : List Group) (name : String) :
    addName s.withoutSections groups name = addName s groups name := by
  have hfind : s.withoutSections.context.find? name
      = (s.context.find? name).map Item.withoutSection := Context.find?_withoutSections ..
  have hitems : s.withoutSections.context.stackItems name
      = (s.context.stackItems name).map Item.withoutSection := Context.stackItems_withoutSections ..
  unfold addName
  rw [hfind, hitems]
  cases s.context.find? name with
  | some item => rfl
  | none =>
    -- the items of a stack are the same but for their sections, which no row shows
    dsimp only [Option.map_none]
    rw [List.filter_map, List.mapM_map]
    rfl

theorem groups_withoutSections (names : List String) :
    groups s.withoutSections names = groups s names := by
  have hstep : addName s.withoutSections = addName s :=
    funext fun groups => funext (addName_withoutSections s groups)
  rw [groups, hstep]
  rfl

/-! ## Aggregates -/

theorem call_withoutSections (function : String) (args : List Value) (used : Nat) :
    call s.withoutSections function args used = call s function args used := by
  have hscope : s.withoutSections.context.scope = s.context.scope :=
    Context.scope_withoutSections _
  unfold call
  rw [hscope]

theorem aggregate_withoutSections (name : String) (args : List Value) :
    aggregate s.withoutSections name args = aggregate s name args := by
  have hfunction : s.withoutSections.context.function? name = s.context.function? name :=
    Context.function?_withoutSections ..
  unfold aggregate
  simp only [call_withoutSections]
  rw [hfunction]

theorem aggregateCell_withoutSections (a : Aggregate) (args : List Value) :
    aggregateCell s.withoutSections a args = aggregateCell s a args := by
  rw [aggregateCell, aggregate_withoutSections]
  rfl

theorem addColumn_withoutSections (all : Value) :
    addColumn s.withoutSections all = addColumn s all := by
  funext groups a
  unfold addColumn
  simp only [aggregateCell_withoutSections]

theorem aggregateRow_withoutSections (a : Aggregate) (args : List Value) :
    aggregateRow s.withoutSections a args = aggregateRow s a args := by
  rw [aggregateRow, aggregateCell_withoutSections]
  rfl

theorem addSubtotals_withoutSections (all : Value) (groups : List Group) :
    addSubtotals s.withoutSections all groups = addSubtotals s all groups := by
  funext t a
  unfold addSubtotals
  simp only [aggregateRow_withoutSections]

theorem addTotal_withoutSections (all : Value) : addTotal s.withoutSections all = addTotal s all := by
  funext t a
  unfold addTotal
  simp only [aggregateRow_withoutSections]

/-! ## Tables -/

theorem tableOfSpec_withoutSections (spec : TableSpec) :
    tableOfSpec s.withoutSections spec = tableOfSpec s spec := by
  unfold tableOfSpec
  simp only [groups_withoutSections, addColumn_withoutSections, addSubtotals_withoutSections,
    addTotal_withoutSections]

/-- **A table does not know of sections.** -/
theorem table_withoutSections (directive : List Char) :
    table s.withoutSections directive = table s directive := by
  unfold table
  simp only [tableOfSpec_withoutSections]

end Worksheet.TableReport
