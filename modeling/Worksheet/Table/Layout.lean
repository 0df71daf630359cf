import Worksheet.Text.Class
import Worksheet.Text.Split

/-!
# Tables as text

A table has a row of headers, rows in groups, and total rows. The group without a name comes first;
the others follow in the order in which they were begun, each under a title that spans the table.
Subtotal rows belong to a group, those of the group without a name stand behind all groups.

Columns are as wide as their widest cell, counted in characters; a title does not widen them.

Main definitions: the steps `Table.begin`, `Table.addRow`, `Table.addSubtotal` and `Table.addTotal`;
`Table.lines`, what the lines of a table hold, and `Table.text`.
-/

namespace Worksheet

open Text

/-- The cells of a row. -/
abbrev Row := List (List Char)

/-- Rows that belong together. -/
structure RowGroup where
  /-- The name, empty for rows without a title. -/
  name : List Char
  /-- The rows. -/
  rows : List Row := []
  /-- The rows that sum them up. -/
  subtotals : List Row := []
deriving DecidableEq

/-- A table. -/
structure Table where
  /-- The titles of the columns. -/
  headers : Row
  /-- The groups of rows. -/
  groups : List RowGroup
  /-- The name of the group that a new row goes to. -/
  current : List Char
  /-- The rows that sum up the table. -/
  totals : List Row
deriving DecidableEq

namespace Table

/-! ## Building -/

/-- A table with these headers and nothing else. -/
def ofHeaders (headers : Row) : Table := ⟨headers, [⟨[], [], []⟩], [], []⟩

/-- One more column. -/
def addHeader (t : Table) (title : List Char) : Table := { t with headers := t.headers ++ [title] }

/-- From now on new rows go to the group with this name, which is begun if it is not there. -/
def begin (t : Table) (name : List Char) : Table :=
  let name := trim name
  let groups := if t.groups.any (·.name == name) then t.groups else t.groups ++ [⟨name, [], []⟩]
  { t with groups, current := name }

/-- Changes the group with a name, if there is one. -/
def changeGroup (t : Table) (name : List Char) (f : RowGroup → RowGroup) : Table :=
  { t with groups := t.groups.map fun g => if g.name == name then f g else g }

/-- One more row. -/
def addRow (t : Table) (row : Row) : Table :=
  t.changeGroup t.current fun g => { g with rows := g.rows ++ [row] }

/-- One more subtotal of a group, if there is such a group. -/
def addSubtotal (t : Table) (name : List Char) (row : Row) : Table :=
  t.changeGroup name fun g => { g with subtotals := g.subtotals ++ [row] }

/-- One more total. -/
def addTotal (t : Table) (row : Row) : Table := { t with totals := t.totals ++ [row] }

/-! ## Lines -/

/-- What a line of a table holds. -/
inductive Line where
  /-- A border across all columns. -/
  | border
  /-- A border that marks the columns. -/
  | columnBorder
  /-- The title of a group. -/
  | title (name : List Char)
  /-- The cells of a row. -/
  | cells (row : Row)
deriving DecidableEq

/-- Rows below a border each. -/
def below (rows : List Row) : List Line := rows.flatMap fun r => [.border, .cells r]

/-- The lines of a group: its title and its subtotals only if it has a name. -/
def groupLines (g : RowGroup) : List Line :=
  if g.name.isEmpty then g.rows.map .cells
  else [.title g.name, .border] ++ g.rows.map .cells ++ below g.subtotals

/-- The groups that have rows. -/
def shownGroups (t : Table) : List RowGroup := t.groups.filter fun g => !g.rows.isEmpty

/-- The subtotals of the rows without a title. -/
def untitledSubtotals (t : Table) : List Row :=
  (t.groups.filter fun g => g.name.isEmpty).flatMap RowGroup.subtotals

/-- The border below the headers, which marks the columns unless a title follows. -/
def headBorder (t : Table) : Line :=
  match t.groups with
  | [_] => .columnBorder
  | g :: _ => if g.rows.isEmpty then .border else .columnBorder
  | [] => .border

/-- The lines of a table. -/
def lines (t : Table) : List Line :=
  [.border, .cells t.headers, t.headBorder] ++
    [Line.border].intercalate (t.shownGroups.map groupLines) ++
    below t.untitledSubtotals ++
    (if t.totals.isEmpty then [] else .border :: t.totals.map .cells) ++
    [.border]

/-! ## Text -/

/-- All rows. -/
def rows (t : Table) : List Row :=
  t.headers :: t.groups.flatMap (fun g => g.rows ++ g.subtotals) ++ t.totals

/-- The widths of columns that hold the cells of a row besides what they hold already. -/
def widen : List Nat → Row → List Nat
  | [], row => row.map List.length
  | widths, [] => widths
  | w :: widths, c :: row => max w c.length :: widen widths row

/-- The widths of the columns. -/
def widths (t : Table) : List Nat := t.rows.foldl widen []

/-- A text with blanks behind it to fill a width. -/
def fillTo (width : Nat) (s : List Char) : List Char := s ++ List.replicate (width - s.length) ' '

/-- Cells filled to the widths of their columns; missing ones are empty. -/
def fillCells : List Nat → Row → Row
  | [], _ => []
  | w :: widths, [] => fillTo w [] :: fillCells widths []
  | w :: widths, c :: row => fillTo w c :: fillCells widths row

/-- How far the cells reach, with what stands between them. -/
def span (widths : List Nat) : Nat := widths.foldr (· + ·) 0 + 3 * (widths.length - 1)

/-- The text of a line. -/
def Line.text (widths : List Nat) : Line → List Char
  | border =>
    "|-".toList ++ joinWith "---".toList (widths.map fun w => List.replicate w '-') ++ "-|".toList
  | columnBorder =>
    "|-".toList ++ joinWith "-|-".toList (widths.map fun w => List.replicate w '-') ++ "-|".toList
  | title name => "| ".toList ++ fillTo (span widths) name ++ " |".toList
  | cells row => "| ".toList ++ joinWith " | ".toList (fillCells widths row) ++ " |".toList

/-- The text of a table. -/
def text (t : Table) : List Char := joinWith ['\n'] (t.lines.map (Line.text t.widths))

end Table

end Worksheet
