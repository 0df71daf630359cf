import Worksheet.Proofs.Context.SingleLine
import Worksheet.Proofs.Display.Template
import Worksheet.Proofs.Table.Layout
import Worksheet.Proofs.Table.Rows
import Worksheet.Proofs.Table.Spec
import Worksheet.Table.Report

/-!
# The cells of a table

The cells of a table are titles, names and remarks, which come from lines of the worksheet, or they
show values. So a line feed in a cell is one of a value that it shows.

* **`Display.FromValue`** — a text whose line feeds come from a value.
* **`TableReport.Group.Holds`** — what holds of the cells of a group; every stage of a table keeps it.
* **`TableReport.fine_table`** — a table on which only values break lines.
-/

namespace Worksheet

open Text

/-! ## Texts that show values -/

namespace Display

/-- A text whose line feeds come from a value that it shows. -/
def FromValue (style : Style) (s : List Char) : Prop :=
  '\n' ∈ s → ∃ template v, present style template v = .ok s ∧ BreaksLine style template.toList v

variable {style : Style}

theorem fromValue_of_not_mem {s : List Char} (h : '\n' ∉ s) : FromValue style s :=
  fun hmem => absurd hmem h

theorem fromValue_of_present {template : String} {v : Value} {s : List Char}
    (h : present style template v = .ok s) (htemplate : '\n' ∉ template.toList) :
    FromValue style s :=
  fun hmem => ⟨template, v, h, breaksLine_of_present h htemplate hmem⟩

theorem fromValue_render (v : Value) : FromValue style (render style v) :=
  fromValue_of_present (show present style "" v = .ok (render style v) from rfl) (by decide)

end Display

namespace TableReport

open Display

/-- Cells that only values break. -/
abbrev Cells (s : Source) (row : Row) : Prop := ∀ c ∈ row, FromValue s.settings.style c

/-- A group that only values break. -/
structure Group.Holds (s : Source) (g : Group) : Prop where
  name : '\n' ∉ g.name.toList
  cells : ∀ e ∈ g.entries, Cells s e.cells

variable {s : Source}

/-! ## Rows -/

theorem fromValue_of_shown {template : String} {v : Value} {c : List Char}
    (h : shown s template v = .ok c) (htemplate : '\n' ∉ template.toList) :
    FromValue s.settings.style c :=
  fromValue_of_present (present_of_shown h) htemplate

theorem cells_sequenceEntry {template : String} {v : Value} {e : Entry}
    (h : sequenceEntry s template v = .ok e) (htemplate : '\n' ∉ template.toList) :
    Cells s e.cells := by
  have hnil : FromValue s.settings.style [] := fromValue_of_not_mem List.not_mem_nil
  unfold sequenceEntry at h
  dsimp only at h
  split at h
  all_goals
    obtain ⟨c, hc, h⟩ := bind_eq_ok h
    cases h
    have hcell := fromValue_of_shown hc htemplate
    simp [Cells, hnil, hcell, fromValue_render]

theorem cells_itemEntry {label : String} {item : Item} {e : Entry}
    (h : itemEntry s label item = .ok e) (hlabel : '\n' ∉ label.toList) (hitem : item.SingleLine) :
    Cells s e.cells := by
  obtain ⟨c, hc, h⟩ := bind_eq_ok h
  cases h
  have hcell := fromValue_of_shown hc hitem.template
  simp [Cells, hcell, fromValue_of_not_mem hlabel, fromValue_of_not_mem hitem.remark]

/-! ## Groups -/

theorem holds_addEntries {groups : List Group} {name : String} {entries : List Entry}
    (hgroups : ∀ g ∈ groups, g.Holds s) (hname : '\n' ∉ name.toList)
    (hentries : ∀ e ∈ entries, Cells s e.cells) :
    ∀ g ∈ addEntries groups name entries, g.Holds s := by
  intro g hg
  obtain ⟨hgname, hgentries⟩ := exists_of_mem_addEntries hg
  refine ⟨?_, fun e he => ?_⟩
  · rcases hgname with hgname | ⟨g', hg', hgname⟩
    · rwa [hgname]
    · rw [hgname]
      exact (hgroups g' hg').name
  · rcases hgentries e he with he | ⟨g', hg', he⟩
    · exact hentries e he
    · exact (hgroups g' hg').cells e he

theorem holds_addName {groups groups' : List Group} {name : String}
    (h : addName s groups name = .ok groups') (hs : s.context.SingleLine)
    (hgroups : ∀ g ∈ groups, g.Holds s) (hname : '\n' ∉ name.toList) :
    ∀ g ∈ groups', g.Holds s := by
  obtain rfl | ⟨title, entries, hadds, rfl⟩ := adds_of_addName h
  · exact hgroups
  · cases hadds with
    | sequence hitem hentries =>
      refine holds_addEntries hgroups hname fun e he => ?_
      obtain ⟨v, -, hv⟩ := exists_of_mem_mapM_ok hentries he
      exact cells_sequenceEntry hv (hs.find? hitem).template
    | item hitem he =>
      refine holds_addEntries hgroups (by decide) fun e' he' => ?_
      rw [List.mem_singleton.mp he']
      exact cells_itemEntry he hname (hs.find? hitem)
    | stack hstack hitems hentries =>
      refine holds_addEntries hgroups hname fun e he => ?_
      obtain ⟨item, hitem, he⟩ := exists_of_mem_mapM_ok hentries he
      have hitem := hs.stackItems name item (hitems hitem)
      refine cells_itemEntry he ?_ hitem
      cases hn : item.name with
      | none => simp
      | some n => exact hitem.name n hn

theorem holds_groups {names : List String} {groups : List Group}
    (h : TableReport.groups s names = .ok groups) (hs : s.context.SingleLine)
    (hnames : ∀ name ∈ names, '\n' ∉ name.toList) : ∀ g ∈ groups, g.Holds s := by
  have hfirst : ∀ g ∈ [(⟨"", []⟩ : Group)], g.Holds s := by
    intro g hg
    rw [List.mem_singleton.mp hg]
    exact ⟨by simp, by simp⟩
  exact foldlM_ok (P := fun groups => ∀ g ∈ groups, g.Holds s)
    (fun _ name hname _ hgroups hstep => holds_addName hstep hs hgroups (hnames name hname))
    hfirst h

/-! ## Aggregates -/

theorem fromValue_of_aggregateCell {a : Aggregate} {args : List Value} {c : List Char}
    (h : aggregateCell s a args = .ok c) (ha : '\n' ∉ a.template.toList) :
    FromValue s.settings.style c := by
  obtain ⟨v, -, h⟩ := bind_eq_ok h
  exact fromValue_of_shown h ha

theorem holds_addColumn {all : Value} {groups groups' : List Group} {a : Aggregate}
    (h : addColumn s all groups a = .ok groups') (ha : '\n' ∉ a.template.toList)
    (hgroups : ∀ g ∈ groups, g.Holds s) : ∀ g ∈ groups', g.Holds s := by
  intro g hg
  obtain ⟨g', hg', hname, hentries⟩ := exists_of_mem_addColumn h hg
  refine ⟨hname ▸ (hgroups g' hg').name, fun e he c hc => ?_⟩
  obtain ⟨e', he', cell, hcell, rfl⟩ := hentries e he
  rcases List.mem_append.mp hc with hc | hc
  · exact (hgroups g' hg').cells e' he' c hc
  · rw [List.mem_singleton.mp hc]
    exact fromValue_of_aggregateCell hcell ha

theorem cells_aggregateRow {a : Aggregate} {args : List Value} {row : Row}
    (h : aggregateRow s a args = .ok row) (htitle : '\n' ∉ a.title.toList)
    (ha : '\n' ∉ a.template.toList) : Cells s row := by
  obtain ⟨cell, hcell, h⟩ := bind_eq_ok h
  cases h
  simp [Cells, fromValue_of_not_mem htitle, fromValue_of_aggregateCell hcell ha]

/-! ## Tables -/

/-- A table that only values break. -/
abbrev Fine (s : Source) (t : Table) : Prop := t.Holds (FromValue s.settings.style) ('\n' ∉ ·)

theorem fine_tableOf {headers : Row} {groups : List Group} (hheaders : Cells s headers)
    (hgroups : ∀ g ∈ groups, g.Holds s) : Fine s (tableOf headers groups) := by
  rw [tableOf_eq_build]
  refine Table.holds_build hheaders List.not_mem_nil fun step hstep => ?_
  obtain rfl | ⟨g, hg, rfl | ⟨e, he, rfl⟩⟩ := mem_rowSteps hstep
  · exact (by decide : '\n' ∉ trim [])
  · exact fun hmem => (hgroups g hg).name (trim_subset _ hmem)
  · exact (hgroups g hg).cells e he

theorem fine_addSubtotals {all : Value} {groups : List Group} {t t' : Table} {a : Aggregate}
    (h : addSubtotals s all groups t a = .ok t') (htitle : '\n' ∉ a.title.toList)
    (ha : '\n' ∉ a.template.toList) (ht : Fine s t) : Fine s t' := by
  refine foldlM_ok (P := Fine s) (fun t g _ t' ht hstep => ?_) ht h
  obtain ⟨row, hrow, hstep⟩ := bind_eq_ok hstep
  cases hstep
  exact ht.addSubtotal _ (cells_aggregateRow hrow htitle ha)

theorem fine_addTotal {all : Value} {t t' : Table} {a : Aggregate}
    (h : addTotal s all t a = .ok t') (htitle : '\n' ∉ a.title.toList)
    (ha : '\n' ∉ a.template.toList) (ht : Fine s t) : Fine s t' := by
  obtain ⟨row, hrow, h⟩ := bind_eq_ok h
  cases h
  exact ht.addTotal (cells_aggregateRow hrow htitle ha)

theorem fine_tableOfSpec {spec : TableSpec} {t : Table} (h : tableOfSpec s spec = .ok t)
    (hs : s.context.SingleLine) (hspec : spec.SingleLine) : Fine s t := by
  have hkind : ∀ {k : AggregateKind} {a : Aggregate},
      a ∈ spec.aggregates.filter (fun a => a.kind == k) →
        '\n' ∉ a.title.toList ∧ '\n' ∉ a.template.toList := by
    intro k a ha
    have hmem := (List.mem_filter.mp ha).1
    exact ⟨hspec.titles a hmem, hspec.templates a hmem⟩
  obtain ⟨plain, hplain, h⟩ := bind_eq_ok h
  obtain ⟨full, hfull, h⟩ := bind_eq_ok h
  obtain ⟨t₁, ht₁, h⟩ := bind_eq_ok h
  have hgroups := holds_groups hplain hs hspec.names
  have hfull : ∀ g ∈ full, g.Holds s :=
    foldlM_ok (P := fun groups => ∀ g ∈ groups, g.Holds s)
      (fun _ a ha _ hgroups hstep => holds_addColumn hstep (hkind ha).2 hgroups) hgroups hfull
  have hheaders : Cells s (headers ++ (spec.aggregates.filter fun a => a.kind == .column).map
      fun a => a.title.toList) := by
    intro c hc
    refine fromValue_of_not_mem fun hmem => ?_
    rcases List.mem_append.mp hc with hc | hc
    · have hfixed : ∀ c ∈ headers, '\n' ∉ c := by decide
      exact hfixed c hc hmem
    · obtain ⟨a, ha, rfl⟩ := List.mem_map.mp hc
      exact (hkind ha).1 hmem
  have hsubtotals : Fine s t₁ :=
    foldlM_ok (P := Fine s)
      (fun _ a ha _ ht hstep => fine_addSubtotals hstep (hkind ha).1 (hkind ha).2 ht)
      (fine_tableOf hheaders hfull) ht₁
  exact foldlM_ok (P := Fine s)
    (fun _ a ha _ ht hstep => fine_addTotal hstep (hkind ha).1 (hkind ha).2 ht) hsubtotals h

/-- **Only values break the lines of a table.** -/
theorem fine_table {directive : List Char} {t : Table} (h : table s directive = .ok t)
    (hs : s.context.SingleLine) (hdirective : '\n' ∉ directive) : Fine s t := by
  unfold table at h
  split at h
  · cases h
  · next spec hspec => exact fine_tableOfSpec h hs (TableSpec.singleLine_of_read hspec hdirective)

end TableReport

end Worksheet
