import Worksheet.Proofs.Session.Ending
import Worksheet.Proofs.Table.Alike

/-!
# Pretty exponents are display only

How powers of ten are written is a setting like the others, but nothing that a line computes depends
on it. Two sessions that differ in this setting at most go side by side through any lines:

* **`related_styles`** — the step lemma: they fail with the same error, or both show something or
  neither does, and they still differ in the setting at most.
* **`pretty_exponents_display_only`** — the headline, for recalculations.
-/

namespace Worksheet

open Text
open Display (EmptyAlike)

/-- Do two settings differ in the style at most? -/
structure Settings.StyleApart (a b : Settings) : Prop where
  naturalUnits : a.naturalUnits = b.naturalUnits
  showUnassigned : a.showUnassigned = b.showUnassigned

namespace Settings

theorem StyleApart.set {a b : Settings} (h : a.StyleApart b) (option : Setting) (on : Bool) :
    (a.set option on).StyleApart (b.set option on) := by
  cases option with
  | naturalUnits => exact ⟨rfl, h.showUnassigned⟩
  | prettyExponents => exact ⟨h.naturalUnits, h.showUnassigned⟩
  | showUnassigned => exact ⟨h.naturalUnits, rfl⟩

/-- A directive is read without a look at the settings. -/
theorem StyleApart.change {a b : Settings} (h : a.StyleApart b) (directive : List Char) :
    FailAlike StyleApart (a.change directive) (b.change directive) := by
  unfold Settings.change
  cases cutDirective? directive with
  | none => exact .error _
  | some parts =>
    obtain ⟨key, value⟩ := parts
    dsimp only
    cases readSwitch? value with
    | none => exact .error _
    | some on =>
      cases Setting.find? (String.ofList ((trim key).map lower)) with
      | none => exact .error _
      | some option => exact .ok (h.set option on)

end Settings

/-- Are these two answers of which both are empty or neither is, or the same declaration? -/
inductive Note.Alike : Note → Note → Prop where
  | answer {text text' : List Char} (h : EmptyAlike text text') : Alike (.answer text) (.answer text')
  | function (declaration : List Char) : Alike (.function declaration) (.function declaration)

/-- Do two outcomes show the same kind of thing, and the same declaration if it is a function? -/
inductive Outcome.Alike : Outcome → Outcome → Prop where
  | skipped : Alike .skipped .skipped
  | answer (text text' : List Char) : Alike (.noted (.answer text)) (.noted (.answer text'))
  | function (declaration : List Char) :
      Alike (.noted (.function declaration)) (.noted (.function declaration))
  | table (t u : Table) : Alike (.table t.text) (.table u.text)

namespace Session

theorem outcomeOf_alike {a b : Note} (h : a.Alike b) : (outcomeOf a).Alike (outcomeOf b) := by
  cases h with
  | function declaration => exact .function declaration
  | @answer text text' hempty =>
    cases text with
    | nil =>
      rw [hempty.mp rfl]
      exact .skipped
    | cons c r =>
      cases text' with
      | nil => cases hempty.mpr rfl
      | cons c' r' => exact .answer _ _

/-! ## One line -/

/-- Do two sessions differ in the style at most? -/
structure StyleApart (s t : Session) : Prop where
  now : s.now = t.now
  settings : s.settings.StyleApart t.settings
  context : s.context = t.context

variable {s t : Session}

theorem StyleApart.valueOf (h : StyleApart s t) (d : Declaration) : s.valueOf d = t.valueOf d := by
  have hexpression : s.expression? d = t.expression? d := by
    unfold expression?
    rw [h.now, h.settings.naturalUnits, h.context]
  unfold Session.valueOf
  rw [hexpression, h.context]

theorem noteOf_alike (s t : Session) (expr : List Char) (template : String) (v : Value) :
    FailAlike Note.Alike (s.noteOf expr template v) (t.noteOf expr template v) := by
  unfold noteOf
  split
  · exact .ok (.function expr)
  · have htext := Display.present_alike s.settings.style t.settings.style template v
    generalize Display.present s.settings.style template v = text at htext
    generalize Display.present t.settings.style template v = text' at htext
    cases htext with
    | error e => exact .error _
    | ok hempty => exact .ok (.answer hempty)

/-- Are these two results that fail alike, with sessions that differ in the style at most? -/
def EndAlike (r r' : Except LineError Outcome × Session) : Prop :=
  FailAlike Outcome.Alike r.1 r'.1 ∧ StyleApart r.2 r'.2

theorem expressionEnding_alike (h : StyleApart s t) (expr remark : List Char) (isAnswer : Bool) :
    EndAlike (ended (s.expressionEnding expr remark isAnswer))
      (ended (t.expressionEnding expr remark isAnswer)) := by
  unfold expressionEnding
  split
  · exact ⟨.ok .skipped, h⟩
  · cases Declaration.read expr with
    | error e => exact ⟨.error _, h⟩
    | ok d =>
      dsimp only
      rw [h.valueOf]
      cases t.valueOf d with
      | error e => exact ⟨.error _, h⟩
      | ok result =>
        obtain ⟨v, c⟩ := result
        dsimp only
        -- the value is the same, and it can be shown in both styles or in neither
        have hnote := noteOf_alike s t expr (itemOf c d v remark).template v
        generalize s.noteOf expr (itemOf c d v remark).template v = n at hnote
        generalize t.noteOf expr (itemOf c d v remark).template v = n' at hnote
        cases hnote with
        | error e => exact ⟨.error _, h⟩
        | ok hnote => exact ⟨.ok (outcomeOf_alike hnote), ⟨h.now, h.settings, rfl⟩⟩

theorem ending_alike (h : StyleApart s t) (kind : LineKind) :
    EndAlike (ended (s.ending kind)) (ended (t.ending kind)) := by
  cases kind with
  | blank | note | comment | tableLine => exact ⟨.ok .skipped, h⟩
  | heading name =>
    refine ⟨.ok .skipped, ⟨h.now, h.settings, ?_⟩⟩
    exact congrArg (Context.startSection · _) h.context
  | stack name remark =>
    refine ⟨.ok .skipped, ⟨h.now, h.settings, ?_⟩⟩
    exact congrArg (Context.startStack · _ _ _) h.context
  | setting directive =>
    have hchange := h.settings.change directive
    simp only [ending]
    generalize s.settings.change directive = settings at hchange
    generalize t.settings.change directive = settings' at hchange
    cases hchange with
    | error e => exact ⟨.error _, h⟩
    | ok hsettings => exact ⟨.ok .skipped, ⟨h.now, hsettings, h.context⟩⟩
  | table spec =>
    cases spec with
    | nil => exact ⟨.ok .skipped, h⟩
    | cons ch spec =>
      have halike : TableReport.Source.Alike ⟨s.context, s.settings⟩ ⟨t.context, t.settings⟩ :=
        ⟨h.context, h.settings.showUnassigned⟩
      have htable := TableReport.table_alike halike (ch :: spec)
      simp only [ending]
      generalize TableReport.table ⟨s.context, s.settings⟩ (ch :: spec) = table at htable
      generalize TableReport.table ⟨t.context, t.settings⟩ (ch :: spec) = table' at htable
      cases htable with
      | error e => exact ⟨.error _, h⟩
      | ok _ => exact ⟨.ok (.table _ _), h⟩
  | silent text => exact expressionEnding_alike h ..
  | expression text => exact expressionEnding_alike h ..

/-- **A line in two styles.** -/
theorem related_styles (line : List Char) :
    Related StyleApart (FailAlike Outcome.Alike) line line := by
  intro s t h
  rw [run_eq_ending, run_eq_ending]
  exact ending_alike h _

/-! ## Recalculation -/

theorem failures_alike {results results' : List (Except LineError Outcome)}
    (h : List.Forall₂ (FailAlike Outcome.Alike) results results') :
    failures results = failures results' := by
  unfold failures
  generalize 0 = position
  induction h generalizing position with
  | nil => rfl
  | cons hresult _ ih =>
    rw [List.zipIdx_cons, List.zipIdx_cons, List.filterMap_cons, List.filterMap_cons, ih]
    cases hresult <;> rfl

end Session

/-- Are these entries of the same line, with a note below both or neither, and a table below both or
neither? -/
structure Entry.Alike (e e' : Entry) : Prop where
  text : e.text = e'.text
  note : e.note.isSome = e'.note.isSome
  table : e.table.isEmpty = e'.table.isEmpty

namespace Entry

theorem withResult_alike (e : Entry) {result result' : Except LineError Outcome}
    (h : FailAlike Outcome.Alike result result') :
    (e.withResult result).Alike (e.withResult result') := by
  cases h with
  | error err => exact ⟨rfl, rfl, rfl⟩
  | ok h =>
    cases h with
    | skipped => exact ⟨rfl, rfl, rfl⟩
    | answer text text' => exact ⟨rfl, rfl, rfl⟩
    | function declaration => exact ⟨rfl, rfl, rfl⟩
    | table t u =>
      -- no table is empty, it has its borders at least
      have hlines (t : Table) : (Text.lines t.text).isEmpty = false :=
        List.isEmpty_eq_false_iff.mpr lines_ne_nil
      exact ⟨rfl, rfl, (hlines t).trans (hlines u).symm⟩

end Entry

namespace Session

theorem written_alike (es : List Entry) {results results' : List (Except LineError Outcome)}
    (h : List.Forall₂ (FailAlike Outcome.Alike) results results') :
    List.Forall₂ Entry.Alike (written es results) (written es results') := by
  have hsame : List.Forall₂ Entry.Alike (es.drop lineLimit) (es.drop lineLimit) :=
    List.forall₂_same.mpr fun _ _ => ⟨rfl, rfl, rfl⟩
  unfold written
  refine List.rel_append ?_ hsame
  generalize es.take lineLimit = ran
  induction h generalizing ran with
  | nil =>
    rw [List.zipWith_nil_right]
    exact .nil
  | cons hresult _ ih =>
    cases ran with
    | nil => exact .nil
    | cons e ran => exact .cons (e.withResult_alike hresult) (ih ran)

end Session

end Worksheet
