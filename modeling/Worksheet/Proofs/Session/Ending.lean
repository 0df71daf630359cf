import Mathlib.Data.List.Forall2
import Worksheet.Proofs.Recalculation.Replay

/-!
# The end of a line as a function

The rules of `Step` say what can come of a line. To compare two sessions that run the same line it
is easier to have what does come of it, as a function of the session and the kind of the line.

* **`Session.ending`** — the end of a line of a kind; `run_eq_ending` says that `run` gives it.
* **`Session.runLines_related`** — two runs side by side: what each pair of lines keeps between two
  sessions, two whole runs keep.
-/

namespace Worksheet.Session

/-! ## One line -/

/-- How an expression with its remark ends. -/
def expressionEnding (s : Session) (expr remark : List Char) (isAnswer : Bool) : Ended :=
  if expr = [] then .ok .skipped s
  else
    match Declaration.read expr with
    | .error e => .error (.declaration e) s
    | .ok d =>
      match s.valueOf d with
      | .error e => .error (.evaluation e) s
      | .ok (v, c) =>
        match s.noteOf expr (itemOf c d v remark).template v with
        | .error e => .error e s
        | .ok a => .ok (outcomeOf a) { s with context := c.store (itemOf c d v remark) isAnswer }

/-- How a line of a kind ends. -/
def ending (s : Session) : LineKind → Ended
  | .blank | .note | .comment | .tableLine | .table [] => .ok .skipped s
  | .heading name => .ok .skipped { s with context := s.context.startSection (String.ofList name) }
  | .stack name remark =>
    .ok .skipped { s with
      context := s.context.startStack (String.ofList name) (String.ofList (splitTemplate remark).1)
        (String.ofList (splitTemplate remark).2) }
  | .setting directive =>
    match s.settings.change directive with
    | .ok settings => .ok .skipped { s with settings }
    | .error e => .error (.setting e) s
  | .table spec =>
    match TableReport.table ⟨s.context, s.settings⟩ spec with
    | .ok t => .ok (.table t.text) s
    | .error e => .error e s
  | .silent text => s.expressionEnding (splitRemark text).1 (splitRemark text).2 false
  | .expression text => s.expressionEnding (splitRemark text).1 (splitRemark text).2 true

theorem ExpressionStep.eq_ending {s : Session} {expr remark : List Char} {isAnswer : Bool}
    {r : Ended} (h : ExpressionStep s expr remark isAnswer r) (hne : expr ≠ []) :
    r = s.expressionEnding expr remark isAnswer := by
  rw [expressionEnding, if_neg hne]
  cases h with
  | empty hempty => exact absurd hempty hne
  | undeclared hread => rw [hread]
  | valueless hread hvalue => simp only [hread, hvalue]
  | unshown hread hvalue hnote => simp only [hread, hvalue, hnote]
  | stored _ hread hvalue hnote => simp only [hread, hvalue, hnote]

theorem run_processExpression (s : Session) (text : List Char) (isAnswer : Bool) :
    (processExpression text isAnswer).run s
      = s.expressionEnding (splitRemark text).1 (splitRemark text).2 isAnswer := by
  by_cases hempty : (splitRemark text).1 = []
  · rw [expressionEnding, if_pos hempty]
    unfold processExpression
    rcases hsplit : splitRemark text with ⟨expr, remark⟩
    obtain rfl : expr = [] := by rw [← hempty, hsplit]
    rfl
  · exact (expressionStep_process s text isAnswer).eq_ending hempty

theorem run_process (s : Session) (line : List Char) :
    (process line).run s = s.ending (LineKind.ofLine line) := by
  have hstep := step_process s line
  unfold process at hstep ⊢
  generalize LineKind.ofLine line = kind at hstep ⊢
  cases kind with
  | silent text => exact run_processExpression s text false
  | expression text => exact run_processExpression s text true
  | setting directive =>
    generalize EStateM.run _ s = r at hstep ⊢
    cases hstep with
    | setting hchange => simp only [ending, hchange]
    | settingFails hchange => simp only [ending, hchange]
  | table spec =>
    generalize EStateM.run _ s = r at hstep ⊢
    cases hstep with
    | noTable => rfl
    | table hne htable =>
      cases spec with
      | nil => exact absurd rfl hne
      | cons ch spec => simp only [ending, htable]
    | tableFails hne htable =>
      cases spec with
      | nil => exact absurd rfl hne
      | cons ch spec => simp only [ending, htable]
  | _ => rfl

/-- **The result of a line and the session behind it**, by the kind of the line. -/
theorem run_eq_ending (s : Session) (line : List Char) :
    s.run line = ended (s.ending (LineKind.ofLine line)) := by
  rw [run_eq_ended, run_process]

/-! ## Two runs side by side -/

/-- Sessions and results are related behind two lines whenever the sessions are before them. -/
def Related (R : Session → Session → Prop)
    (Q : Except LineError Outcome → Except LineError Outcome → Prop) (line line' : List Char) :
    Prop :=
  ∀ s t, R s t → Q (s.run line).1 (t.run line').1 ∧ R (s.run line).2 (t.run line').2

theorem runLines_related {R : Session → Session → Prop}
    {Q : Except LineError Outcome → Except LineError Outcome → Prop} {lines lines' : List (List Char)}
    (hlines : List.Forall₂ (Related R Q) lines lines') {s t : Session} (h : R s t) :
    List.Forall₂ Q (s.runLines lines).1 (t.runLines lines').1 ∧
      R (s.runLines lines).2 (t.runLines lines').2 := by
  induction hlines generalizing s t with
  | nil => exact ⟨.nil, h⟩
  | cons hline _ ih =>
    obtain ⟨hresult, hsession⟩ := hline s t h
    obtain ⟨hresults, hlast⟩ := ih hsession
    exact ⟨.cons hresult hresults, hlast⟩

end Worksheet.Session
