import Worksheet.Proofs.Session.Stacks
import Worksheet.Proofs.Table.Subtotals

/-!
# Subtotals in a worksheet

No line gives a variable or a stack a name that is not an identifier (`spelled_runLines`). So the table of
whatever names a specification has shows groups with different names, and its subtotals add up to its total:
**`subtotals_add_up`**.
-/

namespace Worksheet

open TableReport

namespace Session

/-- The names of variables and stacks behind a run are identifiers. -/
theorem spelled_runLines (defaults : Settings) (now : DateTime) (lines : List (List Char)) :
    ((start defaults now).runLines lines).2.context.Spelled := by
  have hlisted := listed_runLines (s := start defaults now) Context.listed_empty lines
  have hrecorded := recorded_runLines defaults now lines
  rintro name (⟨item, hitem⟩ | hstack)
  · rw [hrecorded.latest] at hitem
    obtain ⟨hmem, hname⟩ := List.mem_filter.mp (List.mem_of_getLast? hitem)
    exact hrecorded.identifier item hmem name (beq_iff_eq.mp hname)
  · exact hlisted.isIdentifier hstack

/-- **Subtotals add up to the total.** A table that has one subtotal and one total, both of the sum, has rows
with as many cells as there are headers. The total gets the values of the rows that are shown, group by group,
and the subtotal of a group gets its part of them. So the total of integers is the sum of the subtotals. -/
theorem subtotals_add_up (defaults : Settings) (now : DateTime) (lines : List (List Char))
    (settings : Settings) (spec : TableSpec) (t : Table) :
    let source : Source := ⟨((start defaults now).runLines lines).2.context, settings⟩
    source.context.function? "sum" = none →
    spec.aggregates.filter (fun a => a.kind == .subtotal) = [TableSpec.plainSubtotal "sum"] →
    spec.aggregates.filter (fun a => a.kind == .total) = [TableSpec.plainTotal "sum"] →
    tableOfSpec source spec = .ok t →
    ∃ plain groups subtotal total, TableReport.groups source spec.names = .ok plain ∧
      groups.map Group.content = (withRows plain).map Group.content ∧
      t.headers = titles spec ∧ Summed source t groups subtotal total := by
  intro source hsum hsubtotal htotal h
  exact tableOfSpec_summed h (spelled_runLines defaults now lines) hsum hsubtotal htotal

/-- The subtotals of a stack with two items, and of a variable that is named twice. -/
theorem subtotals_add_up_costs :
    let now := DateTime.midnight ⟨2024, 1, 31, by decide⟩
    let lines := ["b = 3".toList, "@costs".toList, "1".toList, "2".toList]
    let source : Source := ⟨((start {} now).runLines lines).2.context, {}⟩
    let spec : TableSpec := ⟨["costs", "b", "nothing", "b"],
      [⟨.column, "abs", "abs", ""⟩, TableSpec.plainSubtotal "sum", TableSpec.plainTotal "sum"]⟩
    ∃ t, tableOfSpec source spec = .ok t ∧ ∃ plain groups subtotal total,
      TableReport.groups source spec.names = .ok plain ∧
      groups.map Group.content = (withRows plain).map Group.content ∧
      t.headers = titles spec ∧ Summed source t groups subtotal total := by
  intro now lines source spec
  have hfunction : (source.context.function? "sum").isNone = true := by decide +kernel
  have hbuilt : (tableOfSpec source spec).toOption.isSome = true := by decide +kernel
  cases h : tableOfSpec source spec with
  | error e =>
    rw [h] at hbuilt
    cases hbuilt
  | ok t =>
    exact ⟨t, rfl, subtotals_add_up {} now lines {} spec t (Option.isNone_iff_eq_none.mp hfunction)
      (by decide) (by decide) h⟩

end Session

end Worksheet
