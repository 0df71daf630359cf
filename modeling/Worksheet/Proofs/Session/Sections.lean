import Worksheet.Proofs.Session.Ending
import Worksheet.Proofs.Table.Sections

/-!
# Lines that are there for the reader

Headings, comments and what an earlier recalculation has written compute nothing. A heading does
change the session, but only in what `Session.withoutSections` erases, and no line can tell a
session from its erasure.

* **`run_withoutSections`** — the step lemma: a line has the same result in both, and what it leaves
  behind differs in the sections only.
* **`related_blank`** — a line for the reader and a blank one, side by side.
-/

namespace Worksheet

open Text

/-- Is a line of this kind there for the reader only? -/
def LineKind.forReader : LineKind → Bool
  | blank | note | comment | heading _ | tableLine => true
  | stack _ _ | silent _ | setting _ | table _ | expression _ => false

namespace Session

/-- The session as if no section had ever been begun. -/
def withoutSections (s : Session) : Session := { s with context := s.context.withoutSections }

/-- Do two sessions differ in their sections at most? -/
def SameButSections (s t : Session) : Prop := s.withoutSections = t.withoutSections

variable (s : Session)

/-! ## Values -/

theorem expression?_withoutSections (d : Declaration) :
    s.withoutSections.expression? d = s.expression? d := by
  have hfunction : s.withoutSections.context.function? = s.context.function? :=
    funext s.context.function?_withoutSections
  unfold expression?
  rw [hfunction]
  rfl

/-- A value is the same, and what it makes known is made known to the erasure. -/
theorem valueOf_withoutSections (d : Declaration) :
    s.withoutSections.valueOf d
      = (s.valueOf d).map fun (v, c) => (v, c.withoutSections) := by
  have hscope : s.withoutSections.context.scope = s.context.scope :=
    s.context.scope_withoutSections
  unfold valueOf
  rw [expression?_withoutSections, hscope]
  cases s.expression? d with
  | none => rfl
  | some e =>
    dsimp only
    cases e.value s.context.scope with
    | error cause => rfl
    | ok result =>
      dsimp only
      cases Value.ofDatum result <;> rfl

theorem itemOf_withoutSections (c : Context) (d : Declaration) (v : Value) (remark : List Char) :
    itemOf c.withoutSections d v remark = (itemOf c d v remark).withoutSection :=
  (c.withoutSection_item ..).symm

/-- No note shows a section. -/
theorem noteOf_withoutSections (expr : List Char) (item : Item) (v : Value) :
    s.withoutSections.noteOf expr item.withoutSection.template v
      = s.noteOf expr item.template v := rfl

/-! ## Lines -/

/-- Are these the same results, with sessions that differ in their sections at most? -/
def SameEnding (r r' : Except LineError Outcome × Session) : Prop :=
  r.1 = r'.1 ∧ SameButSections r.2 r'.2

theorem sameEnding_of_context (result : Except LineError Outcome) (settings : Settings)
    {c c' : Context} (h : c.withoutSections = c'.withoutSections) :
    SameEnding (result, { s.withoutSections with settings, context := c })
      (result, { s with settings, context := c' }) :=
  ⟨rfl, congrArg (Session.mk s.defaults s.now settings) h⟩

/-- With the session as it was. -/
theorem sameEnding_unchanged (result : Except LineError Outcome) :
    SameEnding (result, s.withoutSections) (result, s) :=
  s.sameEnding_of_context result s.settings s.context.withoutSections_withoutSections

theorem expressionEnding_withoutSections (expr remark : List Char) (isAnswer : Bool) :
    SameEnding (ended (s.withoutSections.expressionEnding expr remark isAnswer))
      (ended (s.expressionEnding expr remark isAnswer)) := by
  unfold expressionEnding
  split
  · exact s.sameEnding_unchanged _
  · cases Declaration.read expr with
    | error e => exact s.sameEnding_unchanged _
    | ok d =>
      dsimp only
      rw [valueOf_withoutSections]
      cases s.valueOf d with
      | error e => exact s.sameEnding_unchanged _
      | ok result =>
        obtain ⟨v, c⟩ := result
        dsimp only [Except.map]
        -- the item that is stored is the same but for its section, and so it is shown alike
        rw [itemOf_withoutSections, noteOf_withoutSections]
        cases s.noteOf expr (itemOf c d v remark).template v with
        | error e => exact s.sameEnding_unchanged _
        | ok a =>
          refine s.sameEnding_of_context _ s.settings ?_
          rw [← Context.withoutSections_store, Context.withoutSections_withoutSections]

theorem ending_withoutSections (kind : LineKind) :
    SameEnding (ended (s.withoutSections.ending kind)) (ended (s.ending kind)) := by
  cases kind with
  | blank | note | comment | tableLine => exact s.sameEnding_unchanged _
  | heading name =>
    exact s.sameEnding_of_context _ s.settings s.context.withoutSections_withoutSections
  | stack name remark =>
    refine s.sameEnding_of_context _ s.settings ?_
    show (s.context.withoutSections.startStack ..).withoutSections = _
    rw [← Context.withoutSections_startStack, Context.withoutSections_withoutSections]
  | setting directive =>
    have hsettings : s.withoutSections.settings.change directive = s.settings.change directive :=
      rfl
    simp only [ending, hsettings]
    cases s.settings.change directive with
    | error e => exact s.sameEnding_unchanged _
    | ok settings =>
      exact s.sameEnding_of_context _ settings s.context.withoutSections_withoutSections
  | table spec =>
    cases spec with
    | nil => exact s.sameEnding_unchanged _
    | cons ch spec =>
      have htable : TableReport.table ⟨s.withoutSections.context, s.withoutSections.settings⟩
            (ch :: spec)
          = TableReport.table ⟨s.context, s.settings⟩ (ch :: spec) :=
        TableReport.table_withoutSections ⟨s.context, s.settings⟩ _
      simp only [ending, htable]
      cases TableReport.table ⟨s.context, s.settings⟩ (ch :: spec) with
      | error e => exact s.sameEnding_unchanged _
      | ok t => exact s.sameEnding_unchanged _
  | silent text => exact s.expressionEnding_withoutSections ..
  | expression text => exact s.expressionEnding_withoutSections ..

/-- **No line can tell a session from its erasure.** -/
theorem run_withoutSections (line : List Char) :
    SameEnding (s.withoutSections.run line) (s.run line) := by
  rw [run_eq_ending, run_eq_ending]
  exact s.ending_withoutSections _

theorem run_of_forReader {line : List Char} (h : (LineKind.ofLine line).forReader = true) :
    SameEnding (.ok .skipped, s) (s.run line) := by
  rw [run_eq_ending]
  cases hkind : LineKind.ofLine line with
  | blank | note | comment | heading | tableLine => exact ⟨rfl, rfl⟩
  | stack | silent | setting | table | expression =>
    rw [hkind] at h
    cases h

/-! ## Two lines side by side -/

theorem related_self (line : List Char) : Related SameButSections Eq line line := by
  intro s t hst
  -- through the erasure, which the two sessions have in common
  obtain ⟨hs, hs'⟩ := s.run_withoutSections line
  obtain ⟨ht, ht'⟩ := t.run_withoutSections line
  have hsame : s.withoutSections = t.withoutSections := hst
  rw [hsame] at hs hs'
  exact ⟨hs.symm.trans ht, hs'.symm.trans ht'⟩

theorem related_blank {line blank : List Char} (hline : (LineKind.ofLine line).forReader = true)
    (hblank : trim blank = []) : Related SameButSections Eq line blank := by
  intro s t hst
  obtain ⟨hresult, hsession⟩ := s.run_of_forReader hline
  rw [run_blank hblank]
  exact ⟨hresult.symm, hsession.symm.trans hst⟩

end Session

end Worksheet
