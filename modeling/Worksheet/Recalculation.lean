import Worksheet.Document

/-!
# Recalculation

A recalculation begins a session anew, runs the lines of a document in order and writes the result
of each below it. A line that fails is reported and does not stop the others. Of a very long
document only the first lines are run.

Main definition: `Session.recalculate`.
-/

namespace Worksheet

/-- How many lines are run. -/
def lineLimit : Nat := 10000

/-- What a recalculation has to say. -/
structure Report where
  /-- The errors, each with the number of its entry. -/
  errors : List (Nat × String)
  /-- How many lines were run. -/
  processed : Nat
  /-- Were there more of them? -/
  truncated : Bool
deriving DecidableEq

namespace Session

/-- Entries with their results, the errors among them, and the session behind them. The first entry
has the number `position`. -/
def runEntries (s : Session) (position : Nat) :
    List Entry → List Entry × List (Nat × String) × Session
  | [] => ([], [], s)
  | e :: rest =>
    let (result, s) := s.run e.text
    let (entries, errors, s) := runEntries s (position + 1) rest
    let failure := match result with
      | .ok _ => []
      | .error err => [(position, err.message)]
    (e.write result :: entries, failure ++ errors, s)

/-- Runs a document from the beginning: the document with the results, the report, and the session
behind it. -/
def recalculate (s : Session) (d : Document) : Document × Report × Session :=
  let (entries, errors, s) := s.restart.runEntries 0 (d.entries.take lineLimit)
  ({ d with entries := entries ++ d.entries.drop lineLimit, errors },
    ⟨errors, min d.entries.length lineLimit, decide (lineLimit < d.entries.length)⟩, s)

end Session

end Worksheet
