import Worksheet.Proofs.Display.Alike
import Worksheet.Table.Report

/-!
# Tables in two styles

A table asks for the rows of a specification and for what its aggregates make of them. The aggregates
see values and not cells, so that the style of the cells does not reach them:
**`TableReport.table_alike`**, a table fails in both styles with the same error or in neither.
-/

namespace Worksheet.TableReport

open Display (EmptyAlike)

/-- Do two rows show the same value? -/
def Entry.Alike (e e' : Entry) : Prop := e.value = e'.value

/-- Do two groups have the same name, and rows that show the same values? -/
structure Group.Alike (g g' : Group) : Prop where
  name : g.name = g'.name
  entries : List.Forall₂ Entry.Alike g.entries g'.entries

section Values

variable {entries entries' : List Entry} {gs gs' : List Group}

theorem valuesOf_alike (h : List.Forall₂ Entry.Alike entries entries') :
    valuesOf entries = valuesOf entries' := by
  have hvalues : entries.map Entry.value = entries'.map Entry.value := by
    rw [← List.forall₂_eq_eq_eq, List.forall₂_map_left_iff, List.forall₂_map_right_iff]
    exact h
  rw [valuesOf, valuesOf, hvalues]

theorem flatMap_entries_alike (h : List.Forall₂ Group.Alike gs gs') :
    List.Forall₂ Entry.Alike (gs.flatMap Group.entries) (gs'.flatMap Group.entries) := by
  induction h with
  | nil => exact .nil
  | cons hg _ ih =>
    rw [List.flatMap_cons, List.flatMap_cons]
    exact List.rel_append hg.entries ih

theorem addEntries_alike (hgs : List.Forall₂ Group.Alike gs gs') (name : String)
    (hentries : List.Forall₂ Entry.Alike entries entries') :
    List.Forall₂ Group.Alike (addEntries gs name entries) (addEntries gs' name entries') := by
  have hany : gs.any (·.name == name) = gs'.any (·.name == name) := by
    induction hgs with
    | nil => rfl
    | cons hg _ ih => rw [List.any_cons, List.any_cons, hg.name, ih]
  unfold addEntries
  rw [hany]
  split
  · rw [List.forall₂_map_left_iff, List.forall₂_map_right_iff]
    refine hgs.imp fun g g' hg => ?_
    rw [hg.name]
    split
    · exact ⟨rfl, List.rel_append hg.entries hentries⟩
    · exact hg
  · exact List.rel_append hgs (.cons ⟨rfl, hentries⟩ .nil)

end Values

/-! ## Rows -/

variable {s t : Source}

/-- Do two sources differ in the style at most? -/
structure Source.Alike (s t : Source) : Prop where
  context : s.context = t.context
  showUnassigned : s.settings.showUnassigned = t.settings.showUnassigned

theorem shown_alike (s t : Source) (template : String) (v : Value) :
    FailAlike EmptyAlike (shown s template v) (shown t template v) :=
  (Display.present_alike s.settings.style t.settings.style template v).mapError LineError.template

theorem sequenceEntry_alike (s t : Source) (template : String) (v : Value) :
    FailAlike Entry.Alike (sequenceEntry s template v) (sequenceEntry t template v) := by
  unfold sequenceEntry
  dsimp only
  split
  all_goals exact (shown_alike s t template _).bind fun _ _ _ => .ok rfl

theorem itemEntry_alike (s t : Source) (label : String) (item : Item) :
    FailAlike Entry.Alike (itemEntry s label item) (itemEntry t label item) :=
  (shown_alike s t item.template item.value).bind fun _ _ _ => .ok rfl

theorem addName_alike (h : s.Alike t) {gs gs' : List Group}
    (hgs : List.Forall₂ Group.Alike gs gs') (name : String) :
    FailAlike (List.Forall₂ Group.Alike) (addName s gs name) (addName t gs' name) := by
  unfold addName
  rw [h.context, h.showUnassigned]
  cases t.context.find? name with
  | some item =>
    dsimp only
    -- one row for each item of a sequence, or one for any other value
    split
    · exact (FailAlike.mapM_self (sequenceEntry_alike s t item.template) _).bind
        fun _ _ hentries => .ok (addEntries_alike hgs name hentries)
    · exact (itemEntry_alike s t name item).bind
        fun _ _ hentry => .ok (addEntries_alike hgs "" (.cons hentry .nil))
  | none =>
    dsimp only
    split
    · refine FailAlike.bind (FailAlike.mapM_self (fun i => itemEntry_alike s t _ i) _) ?_
      exact fun _ _ hentries => .ok (addEntries_alike hgs name hentries)
    · exact .ok hgs

theorem groups_alike (h : s.Alike t) (names : List String) :
    FailAlike (List.Forall₂ Group.Alike) (groups s names) (groups t names) :=
  FailAlike.foldlM_self (fun _ _ name hgs => addName_alike h hgs name) names
    (.cons ⟨rfl, .nil⟩ .nil)

/-! ## Aggregates -/

/-- An aggregate sees values. -/
theorem aggregate_alike (h : s.Alike t) (name : String) (args : List Value) :
    aggregate s name args = aggregate t name args := by
  have hcall : call s = call t := by
    unfold call
    rw [h.context]
  unfold aggregate
  rw [hcall, h.context]

theorem aggregateCell_alike (h : s.Alike t) (a : Aggregate) (args : List Value) :
    FailAlike EmptyAlike (aggregateCell s a args) (aggregateCell t a args) := by
  unfold aggregateCell
  rw [aggregate_alike h]
  refine FailAlike.bind (.refl (fun _ => rfl) _) ?_
  rintro v _ rfl
  exact shown_alike s t a.template v

theorem addColumn_alike (h : s.Alike t) (all : Value) {gs gs' : List Group}
    (hgs : List.Forall₂ Group.Alike gs gs') (a : Aggregate) :
    FailAlike (List.Forall₂ Group.Alike) (addColumn s all gs a) (addColumn t all gs' a) := by
  unfold addColumn
  refine FailAlike.mapM hgs fun g g' hg => ?_
  refine (FailAlike.mapM hg.entries fun e e' he => ?_).bind
    fun _ _ hentries => .ok ⟨hg.name, hentries⟩
  have hvalue : e.value = e'.value := he
  rw [hvalue, valuesOf_alike hg.entries]
  exact (aggregateCell_alike h a _).bind fun _ _ _ => .ok rfl

theorem aggregateRow_alike (h : s.Alike t) (a : Aggregate) (args : List Value) :
    FailAlike (fun _ _ => True) (aggregateRow s a args) (aggregateRow t a args) :=
  (aggregateCell_alike h a args).bind fun _ _ _ => .ok trivial

theorem addSubtotals_alike (h : s.Alike t) (all : Value) {gs gs' : List Group}
    (hgs : List.Forall₂ Group.Alike gs gs') (u u' : Table) (a : Aggregate) :
    FailAlike (fun _ _ => True) (addSubtotals s all gs u a) (addSubtotals t all gs' u' a) := by
  have hfull : List.Forall₂ Group.Alike (gs.filter fun g => !g.entries.isEmpty)
      (gs'.filter fun g => !g.entries.isEmpty) := by
    refine List.rel_filter (fun g g' hg => ?_) hgs
    have hempty : g.entries = [] ↔ g'.entries = [] := by
      rw [← List.length_eq_zero_iff, hg.entries.length_eq, List.length_eq_zero_iff]
    simp only [Bool.not_eq_true', List.isEmpty_eq_false_iff, hempty, ne_eq]
  unfold addSubtotals
  refine FailAlike.foldlM hfull (fun _ _ g g' _ hg => ?_) trivial
  rw [valuesOf_alike hg.entries]
  exact (aggregateRow_alike h a _).bind fun _ _ _ => .ok trivial

theorem addTotal_alike (h : s.Alike t) (all : Value) (u u' : Table) (a : Aggregate) :
    FailAlike (fun _ _ => True) (addTotal s all u a) (addTotal t all u' a) :=
  (aggregateRow_alike h a _).bind fun _ _ _ => .ok trivial

/-! ## Tables -/

theorem tableOfSpec_alike (h : s.Alike t) (spec : TableSpec) :
    FailAlike (fun _ _ => True) (tableOfSpec s spec) (tableOfSpec t spec) := by
  unfold tableOfSpec
  refine (groups_alike h spec.names).bind fun gs gs' hgs => ?_
  have hall : valuesOf (gs.flatMap Group.entries) = valuesOf (gs'.flatMap Group.entries) :=
    valuesOf_alike (flatMap_entries_alike hgs)
  dsimp only
  rw [hall]
  -- columns, subtotals and totals in turn, each on what the one before has made
  refine (FailAlike.foldlM_self (fun _ _ a hgs => addColumn_alike h _ hgs a) _ hgs).bind
    fun full full' hfull => ?_
  refine (FailAlike.foldlM_self (fun u u' a _ => addSubtotals_alike h _ hfull u u' a) _ trivial).bind
    fun _ _ _ => ?_
  exact FailAlike.foldlM_self (fun u u' a _ => addTotal_alike h _ u u' a) _ trivial

/-- **A table fails in both styles or in neither.** -/
theorem table_alike (h : s.Alike t) (directive : List Char) :
    FailAlike (fun _ _ => True) (table s directive) (table t directive) := by
  unfold table
  cases TableSpec.read directive with
  | error entry => exact .error _
  | ok spec => exact tableOfSpec_alike h spec

end Worksheet.TableReport
