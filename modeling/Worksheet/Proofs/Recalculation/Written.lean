import Worksheet.Proofs.Document.Grouping
import Worksheet.Proofs.Recalculation.Replay

/-!
# Results that are read as results

The results below the lines are text like the lines themselves, so that a reader has to tell the two
apart. A note is told by its first word and a line of a table by the bar in front.

* **`Session.readable_withResult`** — a line with its result below is a readable entry, if the lines
  of a table begin with bars.
* **`Session.readable_recalculate`** — so are all entries of a document behind a recalculation.
-/

namespace Worksheet

open Text

namespace Session

/-! ## Lines that have a result -/

theorem step_of_run {s : Session} {line : List Char} {outcome : Outcome}
    (h : (s.run line).1 = .ok outcome) :
    Step s (LineKind.ofLine line) (.ok outcome (s.run line).2) := by
  have hstep := step_process s line
  rw [run_eq_ended] at h ⊢
  cases hr : (process line).run s with
  | ok outcome' s' =>
    rw [hr] at h hstep
    cases h
    exact hstep
  | error e s' =>
    rw [hr] at h
    cases h

theorem Step.kind_ne_blank_of_noted {s s' : Session} {kind : LineKind} {a : Note}
    (h : Step s kind (.ok (.noted a) s')) : kind ≠ .blank := by
  rintro rfl
  cases h

theorem ExpressionStep.ne_table {s s' : Session} {expr remark text : List Char} {isAnswer : Bool} :
    ¬ ExpressionStep s expr remark isAnswer (.ok (.table text) s') := by
  intro h
  -- an outcome of an expression is a note or nothing
  generalize hr : EStateM.Result.ok (Outcome.table text) s' = r at h
  cases h with
  | empty hempty => cases hr
  | undeclared hread => cases hr
  | valueless hread hvalue => cases hr
  | unshown hread hvalue hnote => cases hr
  | @stored d v c a hne hread hvalue hnote =>
    have houtcome : Outcome.table text = outcomeOf a := (EStateM.Result.ok.inj hr).1
    unfold outcomeOf at houtcome
    split at houtcome <;> cases houtcome

theorem Step.kind_eq_table {s s' : Session} {kind : LineKind} {text : List Char}
    (h : Step s kind (.ok (.table text) s')) : ∃ spec, kind = .table spec := by
  cases h with
  | table hne htable => exact ⟨_, rfl⟩
  | silent h => exact absurd h ExpressionStep.ne_table
  | expression h => exact absurd h ExpressionStep.ne_table

/-- **A line with its result is read as such.** Only lines with an expression have a note, and only
directives have a table; the lines of the table must begin with bars. -/
theorem readable_withResult (s : Session) (e : Entry)
    (hbars : ∀ l ∈ (e.withResult (s.run e.text).1).table, (trimStart l).head? = some '|') :
    (e.withResult (s.run e.text).1).Readable := by
  cases hresult : (s.run e.text).1 with
  | error err => exact .bare e.text
  | ok outcome =>
    have hstep := step_of_run hresult
    cases outcome with
    | skipped => exact .bare e.text
    | noted a =>
      exact .noted (LineKind.trim_ne_nil_of_ofLine_ne_blank hstep.kind_ne_blank_of_noted)
        (Entry.isNote_indent a)
    | table text =>
      obtain ⟨spec, hkind⟩ := hstep.kind_eq_table
      rw [hresult] at hbars
      exact .tabled (LineKind.isDirective_ofLine_iff.mp (by rw [hkind]; rfl)) hbars

theorem readable_runLines (s : Session) (es : List Entry)
    (hbars : ∀ e ∈ List.zipWith Entry.withResult es (s.runLines (es.map Entry.text)).1,
      ∀ l ∈ e.table, (trimStart l).head? = some '|') :
    ∀ e ∈ List.zipWith Entry.withResult es (s.runLines (es.map Entry.text)).1, e.Readable := by
  induction es generalizing s with
  | nil =>
    intro e he
    exact absurd he List.not_mem_nil
  | cons e es ih =>
    simp only [List.map_cons, runLines, List.zipWith_cons_cons, List.forall_mem_cons]
      at hbars ⊢
    exact ⟨readable_withResult s e hbars.1, ih (s.run e.text).2 hbars.2⟩

/-! ## Documents behind a recalculation -/

theorem map_text_recalculate (s : Session) (d : Document) :
    (s.recalculate d).1.entries.map Entry.text = d.entries.map Entry.text := by
  rw [recalculate_eq]
  show (written d.entries _).map Entry.text = _
  have hlength := length_runLines_inputs (start s.defaults s.now) d
  rw [written, List.map_append, map_text_zipWith hlength, ← List.map_append,
    List.take_append_drop]

/-- The entries beyond the limit are those that have been read. -/
theorem readable_recalculate (s : Session) {d : Document} (hreadable : ∀ e ∈ d.entries, e.Readable)
    (hbars : ∀ e ∈ (s.recalculate d).1.entries, ∀ l ∈ e.table, (trimStart l).head? = some '|') :
    ∀ e ∈ (s.recalculate d).1.entries, e.Readable := by
  rw [recalculate_eq] at hbars ⊢
  intro e he
  -- the entry has been written by this recalculation, or it is beyond the limit
  rcases List.mem_append.mp he with hrun | hrest
  · refine readable_runLines (start s.defaults s.now) (d.entries.take lineLimit) ?_ e hrun
    intro e' he'
    exact hbars e' (List.mem_append.mpr (Or.inl he'))
  · exact hreadable e (List.mem_of_mem_drop hrest)

end Session

end Worksheet
