import Worksheet.Proofs.Text.Lines
import Worksheet.Proofs.Text.Parts
import Worksheet.Table.Layout

/-!
# The lines of a table

Every line of a table begins with a bar. It is written as one line if its title or cells are.

* **`Table.Holds`** — what holds of all cells and of all titles of a table; each step that builds a
  table keeps it.
* **`Table.head?_of_mem_lines_text`** — the lines of a table without line feeds begin with bars.
-/

namespace Worksheet

open Text

namespace Table

/-! ## Building -/

theorem mem_rows {t : Table} {row : Row} :
    row ∈ t.rows ↔
      row = t.headers ∨ (∃ g ∈ t.groups, row ∈ g.rows ∨ row ∈ g.subtotals) ∨ row ∈ t.totals := by
  simp [rows]

/-- What holds of the cells and of the titles of a table. -/
structure Holds (Cell Title : List Char → Prop) (t : Table) : Prop where
  cells : ∀ row ∈ t.rows, ∀ c ∈ row, Cell c
  titles : ∀ g ∈ t.groups, Title g.name

section Building

variable {Cell Title : List Char → Prop} {t : Table}

theorem holds_ofHeaders {headers : Row} (hcells : ∀ c ∈ headers, Cell c) (htitle : Title []) :
    Holds Cell Title (ofHeaders headers) where
  cells := by
    intro row hrow
    simp only [mem_rows, ofHeaders, List.mem_singleton, exists_eq_left, List.not_mem_nil, or_false]
      at hrow
    exact hrow ▸ hcells
  titles := by
    intro g hg
    rwa [List.mem_singleton.mp hg]

theorem Holds.begin (h : Holds Cell Title t) {name : List Char} (htitle : Title (trim name)) :
    Holds Cell Title (t.begin name) := by
  -- a group that is begun has a title and nothing else
  have hgroup : ∀ g ∈ (t.begin name).groups, g ∈ t.groups ∨ g = ⟨trim name, [], []⟩ := by
    intro g hg
    unfold Table.begin at hg
    dsimp only at hg
    split at hg
    · exact Or.inl hg
    · rcases List.mem_append.mp hg with hg | hg
      · exact Or.inl hg
      · exact Or.inr (List.mem_singleton.mp hg)
  refine ⟨fun row hrow => h.cells row ?_, fun g hg => ?_⟩
  · rw [mem_rows] at hrow ⊢
    rcases hrow with hrow | ⟨g, hg, hrow⟩ | hrow
    · exact Or.inl hrow
    · rcases hgroup g hg with hg | rfl
      · exact Or.inr (Or.inl ⟨g, hg, hrow⟩)
      · rcases hrow with hrow | hrow <;> cases hrow
    · exact Or.inr (Or.inr hrow)
  · rcases hgroup g hg with hg | rfl
    · exact h.titles g hg
    · exact htitle

theorem Holds.changeGroup (h : Holds Cell Title t) (name : List Char) {f : RowGroup → RowGroup}
    {row : Row} (hrow : ∀ c ∈ row, Cell c) (hname : ∀ g, (f g).name = g.name)
    (hrows : ∀ g, ∀ r ∈ (f g).rows, r ∈ g.rows ∨ r = row)
    (hsubtotals : ∀ g, ∀ r ∈ (f g).subtotals, r ∈ g.subtotals ∨ r = row) :
    Holds Cell Title (t.changeGroup name f) := by
  have hgroup : ∀ g ∈ (t.changeGroup name f).groups, ∃ g' ∈ t.groups, g = g' ∨ g = f g' := by
    intro g hg
    obtain ⟨g', hg', rfl⟩ := List.mem_map.mp hg
    refine ⟨g', hg', ?_⟩
    split
    · exact Or.inr rfl
    · exact Or.inl rfl
  refine ⟨fun r hr => ?_, fun g hg => ?_⟩
  · rw [mem_rows] at hr
    rcases hr with hr | ⟨g, hg, hr⟩ | hr
    · exact h.cells r (mem_rows.mpr (Or.inl hr))
    · obtain ⟨g', hg', hsame | rfl⟩ := hgroup g hg
      · rw [hsame] at hr
        exact h.cells r (mem_rows.mpr (Or.inr (Or.inl ⟨g', hg', hr⟩)))
      · rcases hr with hr | hr
        · rcases hrows g' r hr with hr | rfl
          · exact h.cells r (mem_rows.mpr (Or.inr (Or.inl ⟨g', hg', Or.inl hr⟩)))
          · exact hrow
        · rcases hsubtotals g' r hr with hr | rfl
          · exact h.cells r (mem_rows.mpr (Or.inr (Or.inl ⟨g', hg', Or.inr hr⟩)))
          · exact hrow
    · exact h.cells r (mem_rows.mpr (Or.inr (Or.inr hr)))
  · obtain ⟨g', hg', rfl | rfl⟩ := hgroup g hg
    · exact h.titles g hg'
    · rw [hname]
      exact h.titles g' hg'

theorem Holds.addRow (h : Holds Cell Title t) {row : Row} (hrow : ∀ c ∈ row, Cell c) :
    Holds Cell Title (t.addRow row) :=
  h.changeGroup t.current hrow (fun _ => rfl)
    (fun _ _ hr => (List.mem_append.mp hr).imp_right List.mem_singleton.mp) (fun _ _ hr => Or.inl hr)

theorem Holds.addSubtotal (h : Holds Cell Title t) (name : List Char) {row : Row}
    (hrow : ∀ c ∈ row, Cell c) : Holds Cell Title (t.addSubtotal name row) :=
  h.changeGroup name hrow (fun _ => rfl) (fun _ _ hr => Or.inl hr)
    (fun _ _ hr => (List.mem_append.mp hr).imp_right List.mem_singleton.mp)

theorem Holds.addTotal (h : Holds Cell Title t) {row : Row} (hrow : ∀ c ∈ row, Cell c) :
    Holds Cell Title (t.addTotal row) where
  cells := by
    intro r hr
    rw [mem_rows] at hr
    rcases hr with hr | hr | hr
    · exact h.cells r (mem_rows.mpr (Or.inl hr))
    · exact h.cells r (mem_rows.mpr (Or.inr (Or.inl hr)))
    · rcases List.mem_append.mp hr with hr | hr
      · exact h.cells r (mem_rows.mpr (Or.inr (Or.inr hr)))
      · rwa [List.mem_singleton.mp hr]
  titles := h.titles

end Building

/-! ## Lines -/

/-- What holds of the cells or the title of a line. -/
def Line.Holds (Cell Title : List Char → Prop) : Line → Prop
  | border | columnBorder => True
  | title name => Title name
  | cells row => ∀ c ∈ row, Cell c

section Lines

variable {Cell Title : List Char → Prop} {t : Table} {l : Line}

theorem Holds.of_mem_cells (h : Holds Cell Title t) {rows : List Row}
    (hrows : ∀ row ∈ rows, row ∈ t.rows) (hl : l ∈ rows.map .cells) : l.Holds Cell Title := by
  obtain ⟨row, hrow, rfl⟩ := List.mem_map.mp hl
  exact h.cells row (hrows row hrow)

theorem Holds.of_mem_below (h : Holds Cell Title t) {rows : List Row}
    (hrows : ∀ row ∈ rows, row ∈ t.rows) (hl : l ∈ below rows) : l.Holds Cell Title := by
  obtain ⟨row, hrow, hl⟩ := List.mem_flatMap.mp hl
  rcases List.mem_cons.mp hl with rfl | hl
  · exact trivial
  · rw [List.mem_singleton.mp hl]
    exact h.cells row (hrows row hrow)

theorem Holds.of_mem_groupLines (h : Holds Cell Title t) {g : RowGroup} (hg : g ∈ t.groups)
    (hl : l ∈ groupLines g) : l.Holds Cell Title := by
  have hrows : ∀ row ∈ g.rows, row ∈ t.rows := fun row hrow =>
    mem_rows.mpr (Or.inr (Or.inl ⟨g, hg, Or.inl hrow⟩))
  have hsubtotals : ∀ row ∈ g.subtotals, row ∈ t.rows := fun row hrow =>
    mem_rows.mpr (Or.inr (Or.inl ⟨g, hg, Or.inr hrow⟩))
  unfold groupLines at hl
  split at hl
  · exact h.of_mem_cells hrows hl
  · simp only [List.mem_append, List.mem_cons, List.not_mem_nil, or_false] at hl
    rcases hl with ((rfl | rfl) | hl) | hl
    · exact h.titles g hg
    · exact trivial
    · exact h.of_mem_cells hrows hl
    · exact h.of_mem_below hsubtotals hl

/-- What holds of the cells and titles of a table holds of its lines. -/
theorem Holds.of_mem_lines (h : Holds Cell Title t) (hl : l ∈ t.lines) : l.Holds Cell Title := by
  unfold lines at hl
  simp only [List.mem_append, List.mem_cons, List.not_mem_nil, or_false] at hl
  -- the border on top, the headers, the border below them, the groups, the subtotals of the rows
  -- without a title, the totals, and the border at the bottom
  rcases hl with ((((rfl | rfl | rfl) | hl) | hl) | hl) | rfl
  · exact trivial
  · exact h.cells t.headers (mem_rows.mpr (Or.inl rfl))
  · unfold headBorder
    split
    · exact trivial
    · split <;> exact trivial
    · exact trivial
  · rcases mem_intercalate hl with hl | ⟨ls, hls, hl⟩
    · rw [List.mem_singleton.mp hl]
      exact trivial
    · obtain ⟨g, hg, rfl⟩ := List.mem_map.mp hls
      exact h.of_mem_groupLines (List.mem_filter.mp hg).1 hl
  · refine h.of_mem_below (fun row hrow => ?_) hl
    obtain ⟨g, hg, hrow⟩ := List.mem_flatMap.mp hrow
    exact mem_rows.mpr (Or.inr (Or.inl ⟨g, (List.mem_filter.mp hg).1, Or.inr hrow⟩))
  · split at hl
    · cases hl
    · rcases List.mem_cons.mp hl with rfl | hl
      · exact trivial
      · exact h.of_mem_cells (fun row hrow => mem_rows.mpr (Or.inr (Or.inr hrow))) hl
  · exact trivial

end Lines

/-! ## Text -/

theorem head?_lineText (widths : List Nat) (l : Line) : (l.text widths).head? = some '|' := by
  cases l <;> rfl

theorem newline_mem_fillTo {width : Nat} {s : List Char} (h : '\n' ∈ fillTo width s) :
    '\n' ∈ s := by
  simpa [fillTo] using h

theorem newline_of_mem_fillCells {widths : List Nat} {row : Row} {c : List Char}
    (hc : c ∈ fillCells widths row) (h : '\n' ∈ c) : ∃ c' ∈ row, '\n' ∈ c' := by
  induction widths generalizing row with
  | nil => cases hc
  | cons w widths ih =>
    cases row with
    | nil =>
      rcases List.mem_cons.mp hc with rfl | hc
      · cases newline_mem_fillTo h
      · exact ih hc
    | cons c' row =>
      rcases List.mem_cons.mp hc with rfl | hc
      · exact ⟨c', List.mem_cons_self, newline_mem_fillTo h⟩
      · obtain ⟨c'', hc'', h⟩ := ih hc
        exact ⟨c'', List.mem_cons_of_mem c' hc'', h⟩

theorem newline_not_mem_joinWith {sep : List Char} {ls : List (List Char)} (hsep : '\n' ∉ sep)
    (hls : ∀ l ∈ ls, '\n' ∉ l) : '\n' ∉ joinWith sep ls := by
  rw [joinWith_eq_intercalate]
  intro h
  rcases mem_intercalate h with h | ⟨l, hl, h⟩
  · exact hsep h
  · exact hls l hl h

theorem Line.newline_not_mem_text {l : Line} (h : l.Holds ('\n' ∉ ·) ('\n' ∉ ·))
    (widths : List Nat) : '\n' ∉ l.text widths := by
  have hdashes : ∀ l ∈ widths.map fun w => List.replicate w '-', '\n' ∉ l := by
    intro l hl
    obtain ⟨w, -, rfl⟩ := List.mem_map.mp hl
    simp
  cases l with
  | border =>
    have hjoin := newline_not_mem_joinWith (show '\n' ∉ "---".toList by decide) hdashes
    simpa [Line.text] using hjoin
  | columnBorder =>
    have hjoin := newline_not_mem_joinWith (show '\n' ∉ "-|-".toList by decide) hdashes
    simpa [Line.text] using hjoin
  | title name =>
    have hname : '\n' ∉ fillTo (span widths) name := fun hmem => h (newline_mem_fillTo hmem)
    simpa [Line.text] using hname
  | cells row =>
    have hcells : ∀ c ∈ fillCells widths row, '\n' ∉ c := by
      intro c hc hmem
      obtain ⟨c', hc', hmem⟩ := newline_of_mem_fillCells hc hmem
      exact h c' hc' hmem
    have hjoin := newline_not_mem_joinWith (show '\n' ∉ " | ".toList by decide) hcells
    simpa [Line.text] using hjoin

/-- A line ends with a bar as well, so that nothing is cut off when it is read. -/
theorem Line.plain_text {l : Line} (h : l.Holds ('\n' ∉ ·) ('\n' ∉ ·)) (widths : List Nat) :
    Plain (l.text widths) := by
  have hlast : (l.text widths).getLast? = some '|' := by
    cases l <;> simp [Line.text, List.getLast?_cons]
  exact ⟨l.newline_not_mem_text h widths, by rw [hlast]; decide⟩

theorem lines_eq_concat (t : Table) : ∃ front, t.lines = front ++ [.border] := ⟨_, rfl⟩

/-- A table without line feeds has the lines that it is made of. -/
theorem lines_text {t : Table} (h : t.Holds ('\n' ∉ ·) ('\n' ∉ ·)) :
    Text.lines t.text = t.lines.map (Line.text t.widths) := by
  have hplain : ∀ l ∈ t.lines, Plain (l.text t.widths) := fun l hl =>
    Line.plain_text (h.of_mem_lines hl) t.widths
  obtain ⟨front, hfront⟩ := t.lines_eq_concat
  have hborder := hplain .border (by simp [hfront])
  rw [Table.text, hfront, List.map_append, List.map_singleton,
    lines_joinWith (fun l hl => ?_), lines_of_not_mem hborder.1, if_neg (by simp [Line.text])]
  obtain ⟨l', hl', rfl⟩ := List.mem_map.mp hl
  exact hplain l' (by simp [hfront, hl'])

/-- **The lines of a table begin with bars**, if nothing in it breaks a line. -/
theorem head?_of_mem_lines_text {t : Table} (h : t.Holds ('\n' ∉ ·) ('\n' ∉ ·)) {l : List Char}
    (hl : l ∈ Text.lines t.text) : l.head? = some '|' := by
  rw [lines_text h] at hl
  obtain ⟨l', -, rfl⟩ := List.mem_map.mp hl
  exact head?_lineText t.widths l'

end Table

end Worksheet
