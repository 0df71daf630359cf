import Worksheet.Line
import Worksheet.Session
import Worksheet.Text.Lines

/-!
# Worksheets as text

A worksheet is a text. Each of its lines may be followed by what an earlier recalculation has
written below it: a note, or the lines of a table if the line asks for one. These are recognised
when the text is read, so that a recalculation replaces them.

Main definitions: `Document.ofText`, `Document.text` and `Document.lineNumber`; `Document.change`,
by which all that is written below a line is replaced.
-/

namespace Worksheet

open Text

/-- A line and what is written below it. -/
structure Entry where
  /-- The line. -/
  text : List Char
  /-- The note below it. -/
  note : Option (List Char)
  /-- The lines of the table below it. -/
  table : List (List Char)
deriving DecidableEq

namespace Entry

/-- A line with nothing below it. -/
def ofLine (line : List Char) : Entry := ⟨line, none, []⟩

/-- The lines of an entry. -/
def lines (e : Entry) : List (List Char) := e.text :: e.note.toList ++ e.table

/-- How many lines an entry takes up. -/
def height (e : Entry) : Nat := 1 + (if e.note.isSome then 1 else 0) + e.table.length

/-- Can a note stand below it? -/
def acceptsNote (e : Entry) : Bool :=
  !(trim e.text).isEmpty && e.note.isNone && e.table.isEmpty

/-- Can one more line of a table stand below it? -/
def acceptsTableLine (e : Entry) : Bool :=
  (trimStart e.text).head? == some '!' && e.note.isNone

/-- The entry with a line below it, if the line is written by a recalculation and can stand
there. -/
def absorb? (e : Entry) (line : List Char) : Option Entry :=
  if isNote line && e.acceptsNote then some { e with note := some line }
  else if (trimStart line).head? == some '|' && e.acceptsTableLine then
    some { e with table := e.table ++ [line] }
  else none

/-! ## Changes -/

/-- What stands in front of a note. -/
def indent : List Char := ['\t', '\t', '\t']

/-- With another note. -/
def writeNote (e : Entry) (a : Note) : Entry :=
  { e with note := some (indent ++ a.text) }

/-- Without a note. -/
def eraseNote (e : Entry) : Entry := { e with note := none }

/-- With another table. -/
def writeTable (e : Entry) (table : List Char) : Entry := { e with table := Text.lines table }

/-- Without a table. -/
def eraseTable (e : Entry) : Entry := { e with table := [] }

/-- With the result of the line below it and nothing else. -/
def write (e : Entry) : Except LineError Outcome → Entry
  | .ok (.noted a) => (e.writeNote a).eraseTable
  | .ok (.table text) => e.eraseNote.writeTable text
  | .ok .skipped | .error _ => e.eraseNote.eraseTable

end Entry

/-- A worksheet as text. -/
structure Document where
  /-- The lines with what is written below them. -/
  entries : List Entry
  /-- Does the text end with a line feed? -/
  endsWithLineFeed : Bool
  /-- The errors that have been reported, each with the number of its entry. -/
  errors : List (Nat × String)
deriving DecidableEq

namespace Document

/-- Lines in entries, behind an entry that may take the next ones in. -/
def groupFrom (e : Entry) : List (List Char) → List Entry
  | [] => [e]
  | line :: rest =>
    match e.absorb? line with
    | some e => groupFrom e rest
    | none => e :: groupFrom (.ofLine line) rest

/-- Lines in entries: what a recalculation has written goes to the line above it. -/
def group : List (List Char) → List Entry
  | [] => []
  | line :: rest => groupFrom (.ofLine line) rest

/-- The document that a text is. -/
def ofText (s : List Char) : Document := ⟨group (lines s), Text.endsWithLineFeed s, []⟩

/-- The text of a document. -/
def text (d : Document) : List Char :=
  let s := joinWith ['\n'] (d.entries.flatMap Entry.lines)
  if d.endsWithLineFeed && !s.isEmpty then s ++ ['\n'] else s

/-- The number of the line of an entry in the text, from one on. -/
def lineNumber (d : Document) (position : Nat) : Nat :=
  (d.entries.take position).foldl (fun n e => n + e.height) 1

/-- Changes the entry with a number, if there is one. -/
def change (d : Document) (position : Nat) (f : Entry → Entry) : Document :=
  { d with entries := d.entries.modify position f }

/-- One more error at an entry. -/
def report (d : Document) (position : Nat) (message : String) : Document :=
  { d with errors := d.errors ++ [(position, message)] }

/-- Without errors. -/
def clearErrors (d : Document) : Document := { d with errors := [] }

end Document

end Worksheet
