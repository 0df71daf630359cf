import Worksheet.Failure
import Worksheet.Proofs.Table.Steps
import Worksheet.Table.Report

/-!
# The rows of a table

The rows that a table takes from variables and stacks stand in groups with different names, the group
without a name in front, and every row shows its value in the second cell. A column aggregate puts one
cell more at the end of every row and leaves the names and the values as they are.

* **`Adds`** — what a name adds to the groups; `adds_of_addName`.
* **`Gathered`** — groups of such rows; `gathered_groups`, those of a specification.
* **`gathered_columns`** — groups with columns of aggregates.
* **`tableOf_eq_build`** — the table of groups, in steps.
-/

namespace Worksheet

open Text

/-- A context in which variables and stacks have identifiers as names. -/
def Context.Spelled (c : Context) : Prop :=
  ∀ name, (∃ item, c.find? name = some item) ∨ c.hasStack name = true →
    isIdentifier name.toList = true

namespace TableReport

/-- A row that shows its value in the second cell, with `k` cells behind the first three. -/
def Entry.Wide (s : Source) (k : Nat) (e : Entry) : Prop :=
  ∃ label template text remark more,
    Display.present s.settings.style template e.value = .ok text ∧
      e.cells = label :: text :: remark :: more ∧ more.length = k

/-- What is in a group apart from cells: its name and the values of its rows. -/
def Group.content (g : Group) : String × List Value := (g.name, g.entries.map Entry.value)

/-- Groups with different names, the one without a name in front, and `k` columns of aggregates. -/
structure Gathered (s : Source) (k : Nat) (groups : List Group) : Prop where
  head : (groups.map Group.name).head? = some ""
  nodup : (groups.map Group.name).Nodup
  names : ∀ g ∈ groups, g.name = "" ∨ isIdentifier g.name.toList = true
  rows : ∀ g ∈ groups, ∀ e ∈ g.entries, e.Wide s k

variable {s : Source} {k : Nat} {groups groups' : List Group}

/-! ## Rows -/

theorem present_of_shown {template : String} {v : Value} {text : List Char}
    (h : shown s template v = .ok text) :
    Display.present s.settings.style template v = .ok text := by
  unfold shown at h
  cases hpresent : Display.present s.settings.style template v with
  | error e =>
    rw [hpresent] at h
    cases h
  | ok text' =>
    rw [hpresent] at h
    cases h
    rfl

theorem wide_sequenceEntry {template : String} {v : Value} {e : Entry}
    (h : sequenceEntry s template v = .ok e) : e.Wide s 0 := by
  unfold sequenceEntry at h
  dsimp only at h
  split at h
  all_goals
    obtain ⟨text, htext, h⟩ := bind_eq_ok h
    cases h
    exact ⟨_, template, text, _, [], present_of_shown htext, rfl, rfl⟩

theorem wide_itemEntry {label : String} {item : Item} {e : Entry}
    (h : itemEntry s label item = .ok e) : e.Wide s 0 := by
  obtain ⟨text, htext, h⟩ := bind_eq_ok h
  cases h
  exact ⟨_, item.template, text, _, [], present_of_shown htext, rfl, rfl⟩

/-! ## Groups -/

theorem map_name_addEntries_of_any {name : String} {entries : List Entry}
    (h : groups.any (·.name == name) = true) :
    (addEntries groups name entries).map Group.name = groups.map Group.name := by
  rw [addEntries, if_pos h, List.map_map]
  refine List.map_congr_left fun g _ => ?_
  dsimp only [Function.comp]
  split <;> rfl

/-- Where the rows of a group come from when some are added. -/
theorem exists_of_mem_addEntries {name : String} {entries : List Entry} {g : Group}
    (h : g ∈ addEntries groups name entries) :
    (g.name = name ∨ ∃ g' ∈ groups, g.name = g'.name) ∧
      ∀ e ∈ g.entries, e ∈ entries ∨ ∃ g' ∈ groups, e ∈ g'.entries := by
  unfold addEntries at h
  split at h
  · obtain ⟨g', hg', rfl⟩ := List.mem_map.mp h
    split
    · refine ⟨.inr ⟨g', hg', rfl⟩, fun e he => ?_⟩
      exact (List.mem_append.mp he).symm.imp_right fun he => ⟨g', hg', he⟩
    · exact ⟨.inr ⟨g', hg', rfl⟩, fun e he => .inr ⟨g', hg', he⟩⟩
  · rcases List.mem_append.mp h with hg | hg
    · exact ⟨.inr ⟨g, hg, rfl⟩, fun e he => .inr ⟨g, hg, he⟩⟩
    · rw [List.mem_singleton.mp hg]
      exact ⟨.inl rfl, fun e he => .inl he⟩

theorem gathered_addEntries (h : Gathered s k groups) {name : String}
    (hname : name = "" ∨ isIdentifier name.toList = true) {entries : List Entry}
    (hentries : ∀ e ∈ entries, e.Wide s k) : Gathered s k (addEntries groups name entries) := by
  have hnames : ((addEntries groups name entries).map Group.name).head? = some "" ∧
      ((addEntries groups name entries).map Group.name).Nodup := by
    by_cases hany : groups.any (·.name == name) = true
    · rw [map_name_addEntries_of_any hany]
      exact ⟨h.head, h.nodup⟩
    · have hfresh : name ∉ groups.map Group.name := by
        intro hmem
        obtain ⟨g, hg, hgname⟩ := List.mem_map.mp hmem
        exact hany (List.any_eq_true.mpr ⟨g, hg, beq_iff_eq.mpr hgname⟩)
      rw [addEntries, if_neg hany, List.map_append, List.map_singleton]
      refine ⟨?_, List.nodup_append.mpr ⟨h.nodup, by simp, fun a ha b hb heq => hfresh ?_⟩⟩
      · rw [List.head?_append, h.head]
        rfl
      · rwa [heq, List.mem_singleton.mp hb] at ha
  refine ⟨hnames.1, hnames.2, fun g hg => ?_, fun g hg e he => ?_⟩
  · rcases (exists_of_mem_addEntries hg).1 with hgname | ⟨g', hg', hgname⟩
    · rwa [hgname]
    · rw [hgname]
      exact h.names g' hg'
  · rcases (exists_of_mem_addEntries hg).2 e he with he | ⟨g', hg', he⟩
    · exact hentries e he
    · exact h.rows g' hg' e he

/-- The rows that a name adds, and the name of the group they go to. -/
inductive Adds (s : Source) (name : String) : String → List Entry → Prop
  | sequence {item : Item} {vs : List Value} {entries : List Entry} (hitem : s.context.find? name = some item)
      (h : vs.mapM (sequenceEntry s item.template) = .ok entries) : Adds s name name entries
  | item {item : Item} {e : Entry} (hitem : s.context.find? name = some item)
      (h : itemEntry s name item = .ok e) : Adds s name "" [e]
  | stack {items : List Item} {entries : List Entry} (hstack : s.context.hasStack name = true)
      (hitems : items ⊆ s.context.stackItems name)
      (h : items.mapM (fun i => itemEntry s (i.name.getD "") i) = .ok entries) : Adds s name name entries

theorem adds_of_addName {name : String} (h : addName s groups name = .ok groups') :
    groups' = groups ∨ ∃ title entries, Adds s name title entries ∧
      groups' = addEntries groups title entries := by
  unfold addName at h
  split at h
  · next item hitem =>
    split at h
    · obtain ⟨entries, hentries, h⟩ := bind_eq_ok h
      cases h
      exact .inr ⟨name, entries, .sequence hitem hentries, rfl⟩
    · obtain ⟨e, he, h⟩ := bind_eq_ok h
      cases h
      exact .inr ⟨"", [e], .item hitem he, rfl⟩
  · split at h
    · next hstack =>
      obtain ⟨entries, hentries, h⟩ := bind_eq_ok h
      cases h
      exact .inr ⟨name, entries, .stack hstack (List.filter_sublist.subset) hentries, rfl⟩
    · cases h
      exact .inl rfl

theorem gathered_addName {name : String} (h : addName s groups name = .ok groups')
    (hs : s.context.Spelled) (hgroups : Gathered s 0 groups) : Gathered s 0 groups' := by
  obtain rfl | ⟨title, entries, hadds, rfl⟩ := adds_of_addName h
  · exact hgroups
  · cases hadds with
    | @sequence item _ _ hitem hentries =>
      refine gathered_addEntries hgroups (.inr (hs name (.inl ⟨item, hitem⟩))) fun e he => ?_
      obtain ⟨v, -, hv⟩ := exists_of_mem_mapM_ok hentries he
      exact wide_sequenceEntry hv
    | item hitem he =>
      refine gathered_addEntries hgroups (.inl rfl) fun e' he' => ?_
      rw [List.mem_singleton.mp he']
      exact wide_itemEntry he
    | stack hstack _ hentries =>
      refine gathered_addEntries hgroups (.inr (hs name (.inr hstack))) fun e he => ?_
      obtain ⟨item, -, he⟩ := exists_of_mem_mapM_ok hentries he
      exact wide_itemEntry he

/-- **The groups of a specification.** -/
theorem gathered_groups {names : List String} (h : TableReport.groups s names = .ok groups)
    (hs : s.context.Spelled) : Gathered s 0 groups := by
  have hstart : Gathered s 0 [⟨"", []⟩] :=
    ⟨rfl, by simp, by simp, by simp⟩
  exact foldlM_ok (P := Gathered s 0) (fun _ _ _ _ hgroups hstep => gathered_addName hstep hs hgroups)
    hstart h

/-! ## Columns -/

theorem wide_of_concat {e : Entry} (h : e.Wide s k) (cell : List Char) :
    Entry.Wide s (k + 1) { e with cells := e.cells ++ [cell] } := by
  obtain ⟨label, template, text, remark, more, hshown, hcells, hmore⟩ := h
  refine ⟨label, template, text, remark, more ++ [cell], hshown, ?_, ?_⟩
  · rw [hcells]
    rfl
  · rw [List.length_append, hmore, List.length_singleton]

/-- Where the rows of a group come from when every row gets one cell more. -/
theorem exists_of_mem_addColumn {all : Value} {a : Aggregate} (h : addColumn s all groups a = .ok groups')
    {g : Group} (hg : g ∈ groups') : ∃ g' ∈ groups, g.name = g'.name ∧
      ∀ e ∈ g.entries, ∃ e' ∈ g'.entries, ∃ cell,
        aggregateCell s a [e'.value, valuesOf g'.entries, all] = .ok cell ∧
          e = { e' with cells := e'.cells ++ [cell] } := by
  obtain ⟨g', hg', hstep⟩ := exists_of_mem_mapM_ok h hg
  obtain ⟨entries, hentries, hstep⟩ := bind_eq_ok hstep
  cases hstep
  refine ⟨g', hg', rfl, fun e he => ?_⟩
  obtain ⟨e', he', hcell⟩ := exists_of_mem_mapM_ok hentries he
  obtain ⟨cell, haggregate, hcell⟩ := bind_eq_ok hcell
  cases hcell
  exact ⟨e', he', cell, haggregate, rfl⟩

theorem map_content_addColumn {all : Value} {a : Aggregate} (h : addColumn s all groups a = .ok groups') :
    groups'.map Group.content = groups.map Group.content := by
  refine map_eq_of_mapM_ok h fun g _ g' hg' => ?_
  obtain ⟨entries, hentries, hg'⟩ := bind_eq_ok hg'
  cases hg'
  have hvalues : entries.map Entry.value = g.entries.map Entry.value := by
    refine map_eq_of_mapM_ok hentries fun e _ e' he' => ?_
    obtain ⟨cell, -, he'⟩ := bind_eq_ok he'
    cases he'
    rfl
  rw [Group.content, Group.content, hvalues]

theorem gathered_addColumn {all : Value} {a : Aggregate} (h : addColumn s all groups a = .ok groups')
    (hgroups : Gathered s k groups) : Gathered s (k + 1) groups' := by
  have hnames : groups'.map Group.name = groups.map Group.name := by
    have hfst := congrArg (List.map Prod.fst) (map_content_addColumn h)
    rwa [List.map_map, List.map_map] at hfst
  refine ⟨hnames ▸ hgroups.head, hnames ▸ hgroups.nodup, fun g hg => ?_, fun g hg e he => ?_⟩
  · obtain ⟨g', hg', hname, -⟩ := exists_of_mem_addColumn h hg
    rw [hname]
    exact hgroups.names g' hg'
  · obtain ⟨g', hg', -, hentries⟩ := exists_of_mem_addColumn h hg
    obtain ⟨e', he', cell, -, rfl⟩ := hentries e he
    exact wide_of_concat (hgroups.rows g' hg' e' he') cell

/-- **Groups with columns of aggregates**: one cell more in every row for each of them. -/
theorem gathered_columns {all : Value} {columns : List Aggregate}
    (h : columns.foldlM (addColumn s all) groups = .ok groups') (hgroups : Gathered s k groups) :
    Gathered s (k + columns.length) groups' ∧ groups'.map Group.content = groups.map Group.content := by
  induction columns generalizing k groups with
  | nil =>
    cases h
    exact ⟨hgroups, rfl⟩
  | cons a columns ih =>
    rw [List.foldlM_cons] at h
    obtain ⟨next, hnext, h⟩ := bind_eq_ok h
    obtain ⟨hlast, hrest⟩ := ih h (gathered_addColumn hnext hgroups)
    rw [List.length_cons, Nat.add_comm columns.length, ← Nat.add_assoc]
    exact ⟨hlast, hrest.trans (map_content_addColumn hnext)⟩

/-! ## Groups as steps -/

/-- The steps in which groups are written. -/
def rowSteps (groups : List Group) : List Table.Step :=
  groups.flatMap (fun g => .group g.name.toList :: g.entries.map fun e => .row e.cells) ++ [.group []]

theorem tableOf_eq_build (headers : Row) (groups : List Group) :
    tableOf headers groups = Table.build headers (rowSteps groups) := by
  unfold tableOf Table.build rowSteps
  rw [List.foldl_append, List.foldl_flatMap]
  simp only [List.foldl_cons, List.foldl_map, List.foldl_nil, Table.apply]

theorem mem_rowSteps {step : Table.Step} (h : step ∈ rowSteps groups) :
    step = .group [] ∨ ∃ g ∈ groups, step = .group g.name.toList ∨ ∃ e ∈ g.entries, step = .row e.cells := by
  rcases List.mem_append.mp h with h | h
  · obtain ⟨g, hg, h⟩ := List.mem_flatMap.mp h
    rcases List.mem_cons.mp h with rfl | h
    · exact .inr ⟨g, hg, .inl rfl⟩
    · obtain ⟨e, he, rfl⟩ := List.mem_map.mp h
      exact .inr ⟨g, hg, .inr ⟨e, he, rfl⟩⟩
  · exact .inl (List.mem_singleton.mp h)

end TableReport

end Worksheet
