import Worksheet.Proofs.Table.Steps

/-!
# How wide a table is

The columns of a table are as wide as their widest cells, so that all rows and borders have one length. A title is
filled up to this length, but it does not widen the columns: if it is longer, it sticks out.

* **`Table.Fits`** — a row that columns of some widths hold; `fits_widths`, all rows of a table fit in its columns.
* **`Table.length_text_of_mem_lines`** — how long the lines are.
* **`Table.rectangular_iff`** — the tables with lines of one length.
-/

namespace Worksheet

open Text

theorem Text.length_joinWith (sep : List Char) (parts : List (List Char)) :
    (joinWith sep parts).length =
      (parts.map List.length).foldr (· + ·) 0 + sep.length * (parts.length - 1) := by
  induction parts with
  | nil => simp [joinWith]
  | cons part parts ih =>
    cases parts with
    | nil => simp [joinWith]
    | cons next rest =>
      rw [joinWith, List.length_append, List.length_append, ih]
      · simp only [List.map_cons, List.foldr_cons, List.length_cons, Nat.add_sub_cancel, Nat.mul_add]
        omega
      · simp

namespace Table

/-! ## Columns -/

/-- Do columns of these widths hold the cells of a row? -/
def Fits : List Nat → Row → Prop
  | _, [] => True
  | [], _ :: _ => False
  | w :: widths, c :: row => c.length ≤ w ∧ Fits widths row

@[simp] theorem fits_nil (widths : List Nat) : Fits widths [] := by
  cases widths <;> trivial

theorem fits_widen (widths : List Nat) (row : Row) : Fits (widen widths row) row := by
  induction row generalizing widths with
  | nil => exact fits_nil _
  | cons c row ih =>
    cases widths with
    | nil => exact ⟨Nat.le_refl _, ih []⟩
    | cons w widths => exact ⟨Nat.le_max_right w c.length, ih widths⟩

theorem Fits.widen {widths : List Nat} {row : Row} (h : Fits widths row) (row' : Row) :
    Fits (widen widths row') row := by
  induction widths generalizing row row' with
  | nil =>
    cases row with
    | nil => exact fits_nil _
    | cons c row => cases h
  | cons w widths ih =>
    cases row with
    | nil => exact fits_nil _
    | cons c row =>
      cases row' with
      | nil => exact h
      | cons c' row' => exact ⟨Nat.le_trans h.1 (Nat.le_max_left w c'.length), ih h.2 row'⟩

theorem fits_foldl_widen {rows : List Row} {row : Row} {widths : List Nat} (h : Fits widths row ∨ row ∈ rows) :
    Fits (rows.foldl widen widths) row := by
  induction rows generalizing widths with
  | nil => simpa using h
  | cons first rows ih =>
    refine ih ?_
    rcases h with h | h
    · exact .inl (h.widen first)
    · rcases List.mem_cons.mp h with rfl | h
      · exact .inl (fits_widen widths row)
      · exact .inr h

/-- The columns hold all rows. -/
theorem fits_widths {t : Table} {row : Row} (h : row ∈ t.rows) : Fits t.widths row :=
  fits_foldl_widen (.inr h)

theorem length_fillTo (width : Nat) (s : List Char) : (fillTo width s).length = max width s.length := by
  simp only [fillTo, List.length_append, List.length_replicate]
  omega

theorem map_length_fillCells {widths : List Nat} {row : Row} (h : Fits widths row) :
    (fillCells widths row).map List.length = widths := by
  induction widths generalizing row with
  | nil => rfl
  | cons w widths ih =>
    cases row with
    | nil => simp [fillCells, length_fillTo, ih (fits_nil widths)]
    | cons c row => simp [fillCells, length_fillTo, ih h.2, h.1]

/-! ## Lines -/

theorem length_joinWith_of_widths {sep : List Char} (hsep : sep.length = 3) {widths : List Nat}
    {parts : List (List Char)} (h : parts.map List.length = widths) : (joinWith sep parts).length = span widths := by
  have hlength : parts.length = widths.length := by rw [← h, List.length_map]
  rw [length_joinWith, hsep, h, hlength]
  rfl

/-- How far a line reaches from edge to edge. -/
def Line.reach (widths : List Nat) : Line → Nat
  | title name => max (span widths) name.length
  | _ => span widths

theorem length_framed {left right : List Char} (hleft : left.length = 2) (hright : right.length = 2) (s : List Char) :
    (left ++ s ++ right).length = s.length + 4 := by
  rw [List.length_append, List.length_append, hleft, hright]
  omega

theorem length_text {widths : List Nat} {l : Line} (h : ∀ row, l = .cells row → Fits widths row) :
    (l.text widths).length = l.reach widths + 4 := by
  have hdashes : (widths.map fun w => List.replicate w '-').map List.length = widths := by
    simp [Function.comp_def]
  cases l with
  | border | columnBorder =>
    rw [Line.text, length_framed rfl rfl, length_joinWith_of_widths rfl hdashes]
    rfl
  | title name => rw [Line.text, length_framed rfl rfl, length_fillTo, Line.reach]
  | cells row =>
    have hcells := map_length_fillCells (h row rfl)
    rw [Line.text, length_framed rfl rfl, length_joinWith_of_widths rfl hcells]
    rfl

section Lines

variable {t : Table}

theorem mem_lines_iff_of_shown {l : Line} (h : l.isBorder = false) :
    l ∈ t.lines ↔ l = .cells t.headers ∨ (∃ g ∈ t.shownGroups, l ∈ shownLines g.name g.rows g.subtotals) ∨
      l ∈ t.untitledSubtotals.map .cells ∨ l ∈ t.totals.map .cells := by
  have hfilter : l ∈ t.lines ↔ l ∈ t.lines.filter fun l => !l.isBorder := by simp [h]
  rw [hfilter, filter_lines]
  simp only [List.mem_cons, List.mem_append, List.mem_flatMap, or_assoc]

theorem cells_mem_shownLines_iff {name : List Char} {rows subtotals : List Row} {row : Row} :
    Line.cells row ∈ shownLines name rows subtotals ↔ row ∈ rows ∨ name ≠ [] ∧ row ∈ subtotals := by
  cases name <;> simp [shownLines]

theorem title_mem_shownLines_iff {name title : List Char} {rows subtotals : List Row} :
    Line.title title ∈ shownLines name rows subtotals ↔ title = name ∧ name ≠ [] := by
  cases name <;> simp [shownLines]

/-- A row that a table shows is one of its rows. -/
theorem mem_rows_of_mem_lines {row : Row} (h : .cells row ∈ t.lines) : row ∈ t.rows := by
  rw [mem_lines_iff_of_shown rfl] at h
  rw [mem_rows]
  rcases h with h | ⟨g, hg, h⟩ | h | h
  · exact .inl (Line.cells.inj h)
  · refine .inr (.inl ⟨g, (List.mem_filter.mp hg).1, ?_⟩)
    exact (cells_mem_shownLines_iff.mp h).imp_right And.right
  · obtain ⟨r, hr, ⟨⟩⟩ := List.mem_map.mp h
    obtain ⟨g, hg, hr⟩ := List.mem_flatMap.mp hr
    exact .inr (.inl ⟨g, (List.mem_filter.mp hg).1, .inr hr⟩)
  · obtain ⟨r, hr, ⟨⟩⟩ := List.mem_map.mp h
    exact .inr (.inr hr)

theorem title_mem_lines_iff {name : List Char} :
    .title name ∈ t.lines ↔ name ≠ [] ∧ ∃ g ∈ t.shownGroups, g.name = name := by
  rw [mem_lines_iff_of_shown rfl]
  simp only [title_mem_shownLines_iff, reduceCtorEq, List.mem_map, and_false, exists_false, or_false, false_or]
  constructor
  · rintro ⟨g, hg, rfl, hne⟩
    exact ⟨hne, g, hg, rfl⟩
  · rintro ⟨hne, g, hg, rfl⟩
    exact ⟨g, hg, rfl, hne⟩

theorem length_text_of_mem_lines {l : Line} (h : l ∈ t.lines) :
    (l.text t.widths).length = l.reach t.widths + 4 := by
  refine length_text ?_
  rintro row rfl
  exact fits_widths (mem_rows_of_mem_lines h)

/-- The lines have one length exactly if no title sticks out. -/
theorem exists_length_iff (t : Table) :
    (∃ n, ∀ l ∈ t.lines, (l.text t.widths).length = n) ↔ ∀ g ∈ t.shownGroups, g.name.length ≤ span t.widths := by
  constructor
  · rintro ⟨n, hn⟩ g hg
    have hborder : Line.border ∈ t.lines := List.mem_cons_self
    have hlength := hn _ hborder
    rw [length_text_of_mem_lines hborder] at hlength
    by_cases hname : g.name = []
    · simp [hname]
    · have htitle : .title g.name ∈ t.lines := title_mem_lines_iff.mpr ⟨hname, g, hg, rfl⟩
      have hmax := hn _ htitle
      rw [length_text_of_mem_lines htitle] at hmax
      simp only [Line.reach] at hlength hmax
      omega
  · intro h
    refine ⟨span t.widths + 4, fun l hl => ?_⟩
    rw [length_text_of_mem_lines hl]
    cases l with
    | border | columnBorder | cells => rfl
    | title name =>
      obtain ⟨-, g, hg, rfl⟩ := title_mem_lines_iff.mp hl
      have hfits := h g hg
      simp only [Line.reach]
      omega

end Lines

/-- A line ends with a bar. -/
theorem getLast?_lineText (widths : List Nat) (l : Line) : (l.text widths).getLast? = some '|' := by
  cases l <;> simp [Line.text, List.getLast?_cons]

/-- **Tables are rectangular as far as their titles go.** If no header, name or cell breaks a line, every line of a table
begins and ends with a bar, whatever steps have built it. The lines have as many characters as the columns take up, but
for titles that are longer; so all lines have the same number of characters exactly if every title fits. -/
theorem rectangular_iff {headers : Row} {steps : List Step} (hheaders : ∀ c ∈ headers, '\n' ∉ c)
    (hsteps : ∀ s ∈ steps, s.Holds ('\n' ∉ ·) ('\n' ∉ ·)) :
    let t := build headers steps
    (∀ l ∈ Text.lines t.text, l.head? = some '|' ∧ l.getLast? = some '|') ∧
    (∀ l ∈ Text.lines t.text, l.length = span t.widths + 4 ∨
      ∃ g ∈ t.shownGroups, l = Line.text t.widths (.title g.name) ∧ span t.widths < g.name.length ∧
        l.length = g.name.length + 4) ∧
    ((∃ n, ∀ l ∈ Text.lines t.text, l.length = n) ↔ ∀ g ∈ t.shownGroups, g.name.length ≤ span t.widths) := by
  intro t
  have hlines : Text.lines t.text = t.lines.map (Line.text t.widths) :=
    lines_text (holds_build hheaders List.not_mem_nil hsteps)
  rw [hlines]
  refine ⟨?_, ?_, ?_⟩
  · rintro _ htext
    obtain ⟨l, -, rfl⟩ := List.mem_map.mp htext
    exact ⟨head?_lineText t.widths l, getLast?_lineText t.widths l⟩
  · rintro _ htext
    obtain ⟨l, hl, rfl⟩ := List.mem_map.mp htext
    rw [length_text_of_mem_lines hl]
    cases l with
    | border | columnBorder | cells => exact .inl rfl
    | title name =>
      obtain ⟨-, g, hg, rfl⟩ := title_mem_lines_iff.mp hl
      simp only [Line.reach]
      by_cases hfits : g.name.length ≤ span t.widths
      · exact .inl (by omega)
      · exact .inr ⟨g, hg, rfl, by omega, by omega⟩
  · simpa only [List.forall_mem_map] using exists_length_iff t

/-- The table of a stack with a sum below it. -/
theorem rectangular_iff_totals :
    let headers := ["Var".toList, "Value".toList, "Remark".toList]
    let steps := [Step.group "totals".toList, .row [[], "10".toList], .row [[], "20".toList, [], []], .group [],
      .total ["sum".toList, "30".toList]]
    (∀ c ∈ headers, '\n' ∉ c) ∧ (∀ s ∈ steps, s.Holds ('\n' ∉ ·) ('\n' ∉ ·)) ∧
      (∀ l ∈ Text.lines (build headers steps).text, l.head? = some '|' ∧ l.getLast? = some '|') ∧
      ∃ n, ∀ l ∈ Text.lines (build headers steps).text, l.length = n := by
  intro headers steps
  have hheaders : ∀ c ∈ headers, '\n' ∉ c := by decide
  have hsteps : ∀ s ∈ steps, s.Holds ('\n' ∉ ·) ('\n' ∉ ·) := by decide
  obtain ⟨hbars, -, hlength⟩ := rectangular_iff hheaders hsteps
  exact ⟨hheaders, hsteps, hbars, hlength.mpr (by decide)⟩

/-- **A long title sticks out** of the table. -/
theorem title_sticks_out :
    let t := build ["Var".toList, "Value".toList] [.group "a long group name".toList, .row ["a".toList, "1".toList]]
    (Text.lines t.text).map List.length = [15, 15, 15, 21, 15, 15, 15] ∧
      ¬ ∃ n, ∀ l ∈ Text.lines t.text, l.length = n := by
  intro t
  have hlengths : (Text.lines t.text).map List.length = [15, 15, 15, 21, 15, 15, 15] := by decide +kernel
  refine ⟨hlengths, ?_⟩
  rintro ⟨n, hn⟩
  have hall : ∀ k ∈ (Text.lines t.text).map List.length, k = n := by simpa using hn
  rw [hlengths] at hall
  have hborder := hall 15 (by decide)
  have htitle := hall 21 (by decide)
  omega

end Table

end Worksheet
