import Mathlib.Data.List.Induction
import Worksheet.Proofs.Table.Layout

/-!
# Tables in steps

A table is built step by step from its headers. Its lines are borders, and between them the rows and titles that it
shows.

* **`Table.build`** — the table after a sequence of steps; `holds_build`, what holds of all cells and titles.
* **`Table.filter_lines`** — the lines that are no borders, in order.
-/

namespace Worksheet.Table

open Text

/-! ## Steps -/

/-- A step in which a table is built. -/
inductive Step where
  /-- One more column. -/
  | header (title : List Char)
  /-- From now on new rows go to the group with this name. -/
  | group (name : List Char)
  /-- One more row. -/
  | row (cells : Row)
  /-- One more subtotal of a group. -/
  | subtotal (group : List Char) (cells : Row)
  /-- One more total. -/
  | total (cells : Row)
deriving DecidableEq

/-- The table after a step. -/
def apply (t : Table) : Step → Table
  | .header title => t.addHeader title
  | .group name => t.begin name
  | .row cells => t.addRow cells
  | .subtotal name cells => t.addSubtotal name cells
  | .total cells => t.addTotal cells

/-- The table that comes of headers in some steps. -/
def build (headers : Row) (steps : List Step) : Table := steps.foldl apply (ofHeaders headers)

theorem build_concat (headers : Row) (steps : List Step) (s : Step) :
    build headers (steps ++ [s]) = (build headers steps).apply s := by
  simp [build]

section Holds

variable {Cell Title : List Char → Prop}

/-- What holds of the cells or of the title of a step; the blanks around a title do not count. -/
def Step.Holds (Cell Title : List Char → Prop) : Step → Prop
  | header title => Cell title
  | group name => Title (trim name)
  | row cells | subtotal _ cells | total cells => ∀ c ∈ cells, Cell c

instance [DecidablePred Cell] [DecidablePred Title] : (s : Step) → Decidable (s.Holds Cell Title)
  | .header title => inferInstanceAs (Decidable (Cell title))
  | .group name => inferInstanceAs (Decidable (Title (trim name)))
  | .row cells | .subtotal _ cells | .total cells => inferInstanceAs (Decidable (∀ c ∈ cells, Cell c))

theorem Holds.addHeader {t : Table} (h : Holds Cell Title t) {title : List Char} (htitle : Cell title) :
    Holds Cell Title (t.addHeader title) where
  cells := by
    intro row hrow
    rw [mem_rows] at hrow
    rcases hrow with rfl | hrow | hrow
    · intro c hc
      rcases List.mem_append.mp hc with hc | hc
      · exact h.cells t.headers (mem_rows.mpr (.inl rfl)) c hc
      · exact List.mem_singleton.mp hc ▸ htitle
    · exact h.cells row (mem_rows.mpr (.inr (.inl hrow)))
    · exact h.cells row (mem_rows.mpr (.inr (.inr hrow)))
  titles := h.titles

theorem Holds.apply {t : Table} (h : Holds Cell Title t) {s : Step} (hs : s.Holds Cell Title) :
    Holds Cell Title (t.apply s) := by
  cases s with
  | header title => exact h.addHeader hs
  | group name => exact h.begin hs
  | row cells => exact h.addRow hs
  | subtotal name cells => exact h.addSubtotal name hs
  | total cells => exact h.addTotal hs

theorem holds_build {headers : Row} {steps : List Step} (hheaders : ∀ c ∈ headers, Cell c) (htitle : Title [])
    (hsteps : ∀ s ∈ steps, s.Holds Cell Title) : Holds Cell Title (build headers steps) := by
  induction steps using List.reverseRecOn with
  | nil => exact holds_ofHeaders hheaders htitle
  | append_singleton steps s ih =>
    rw [build_concat]
    exact (ih fun s' hs' => hsteps s' (List.mem_append_left _ hs')).apply (hsteps s (by simp))

end Holds

/-! ## Lines -/

/-- Is a line a border? -/
def Line.isBorder : Line → Bool
  | border | columnBorder => true
  | title _ | cells _ => false

@[simp] theorem Line.isBorder_border : border.isBorder = true := rfl

@[simp] theorem Line.isBorder_columnBorder : columnBorder.isBorder = true := rfl

@[simp] theorem Line.isBorder_title (name : List Char) : (title name).isBorder = false := rfl

@[simp] theorem Line.isBorder_cells (row : Row) : (cells row).isBorder = false := rfl

@[simp] theorem isBorder_headBorder (t : Table) : t.headBorder.isBorder = true := by
  unfold headBorder
  split
  · rfl
  · split <;> rfl
  · rfl

/-- The lines of a group that are no borders. -/
def shownLines (name : List Char) (rows subtotals : List Row) : List Line :=
  if name.isEmpty then rows.map .cells else .title name :: (rows ++ subtotals).map .cells

theorem filter_intercalate {α : Type} {p : α → Bool} {b : α} (hb : p b = false) (ls : List (List α)) :
    ([b].intercalate ls).filter p = ls.flatMap fun l => l.filter p := by
  induction ls with
  | nil => rfl
  | cons l ls ih =>
    cases ls with
    | nil => simp [List.intercalate]
    | cons l' ls =>
      rw [List.intercalate_cons_cons, List.filter_append, List.filter_append, ih]
      simp [hb]

theorem filter_cells (rows : List Row) :
    (rows.map Line.cells).filter (fun l => !l.isBorder) = rows.map .cells := by
  simp [List.filter_map, Function.comp_def]

theorem filter_below (rows : List Row) : (below rows).filter (fun l => !l.isBorder) = rows.map .cells := by
  induction rows with
  | nil => rfl
  | cons row rows ih => simpa [below] using ih

theorem filter_groupLines (g : RowGroup) :
    (groupLines g).filter (fun l => !l.isBorder) = shownLines g.name g.rows g.subtotals := by
  unfold groupLines shownLines
  split
  · exact filter_cells g.rows
  · simp [filter_cells, filter_below]

/-- **What stands between the borders**: the headers, the groups that have rows, the subtotals of the rows without a
title, and the totals. -/
theorem filter_lines (t : Table) : t.lines.filter (fun l => !l.isBorder) =
    .cells t.headers :: (t.shownGroups.flatMap (fun g => shownLines g.name g.rows g.subtotals) ++
      t.untitledSubtotals.map .cells ++ t.totals.map .cells) := by
  have htotals : (if t.totals.isEmpty then [] else Line.border :: t.totals.map .cells).filter (fun l => !l.isBorder)
      = t.totals.map .cells := by
    split
    · next h => rw [List.isEmpty_iff.mp h]; rfl
    · simp [filter_cells]
  unfold lines
  simp only [List.filter_append, htotals, filter_below,
    filter_intercalate (b := Line.border) (p := fun l => !l.isBorder) rfl, List.flatMap_map, filter_groupLines]
  simp

end Worksheet.Table
