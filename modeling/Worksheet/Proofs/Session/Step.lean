import Worksheet.Session

/-!
# What a line can do to a session

A line works on its session in place: `evaluate` makes functions known before the value is shown,
and showing it can still fail. This module says once what can come of it, so that later proofs take
a line apart by cases and unfold nothing:

* **`ExpressionStep`** — the ways in which an expression ends: nothing to evaluate, no declaration,
  no value, a value that cannot be shown, or an item stored.
* **`Step`** — the ways in which a line ends, by the kind of the line.
* **`step_process`** — `process` follows these rules.
* **`Step.eq_of_error`** — every rule that ends in an error ends in the session that it began with.
  The one change that comes before a possible failure is made for functions only
  (`valueOf_eq_ok`), and a function is never shown in a template.
-/

namespace Worksheet

open Text

namespace Session

/-! ## Values

`valueOf` is `evaluate` as a function of the session: the value, and the context behind it. -/

/-- The value of a declaration, and the context in which the functions of its expression are known
if it is a function. -/
def valueOf (s : Session) (d : Declaration) : Evaluated (Value × Context) :=
  match s.expression? d with
  | none => .error .malformed
  | some e =>
    match e.value s.context.scope with
    | .error cause => .error cause
    | .ok result =>
      match Value.ofDatum result with
      | .function f =>
        .ok (.function (named (s.context.define e) d.binding f.closure), s.context.define e)
      | v => .ok (v, s.context)

theorem run_evaluate (s : Session) (d : Declaration) :
    (evaluate d).run s = match s.valueOf d with
      | .ok (v, c) => .ok v { s with context := c }
      | .error e => .error (.evaluation e) s := by
  simp only [evaluate, valueOf, EStateM.run_bind, EStateM.run_get]
  cases he : s.expression? d with
  | none => rfl
  | some e =>
    dsimp only
    cases hv : e.value s.context.scope with
    | error cause => rfl
    | ok result =>
      dsimp only
      -- a function is stored before it is returned, any other value leaves the session alone
      cases Value.ofDatum result <;> rfl

/-- Evaluating changes the context for functions only. -/
theorem valueOf_eq_ok {s : Session} {d : Declaration} {v : Value} {c : Context}
    (h : s.valueOf d = .ok (v, c)) : c = s.context ∨ v.isCallable = true := by
  unfold valueOf at h
  split at h
  · cases h
  · split at h
    · cases h
    · split at h
      · cases h
        exact Or.inr rfl
      · cases h
        exact Or.inl rfl

/-! ## Notes -/

/-- What is written does not depend on what earlier lines have left behind. -/
theorem noteOf_with_context (s : Session) (c : Context) (expr : List Char) (template : String)
    (v : Value) :
    Session.noteOf { s with context := c } expr template v = s.noteOf expr template v := rfl

theorem noteOf_of_isCallable (s : Session) (expr : List Char) (template : String) {v : Value}
    (h : v.isCallable = true) : s.noteOf expr template v = .ok (.function expr) := by
  rw [noteOf, if_pos h]

/-- Only a value that is no function can fail to be shown. -/
theorem noteOf_eq_error {s : Session} {expr : List Char} {template : String} {v : Value}
    {e : LineError} (h : s.noteOf expr template v = .error e) : v.isCallable = false := by
  cases hv : v.isCallable with
  | false => rfl
  | true =>
    rw [noteOf_of_isCallable s expr template hv] at h
    cases h

/-! ## Steps -/

/-- How work on a session ends: with an outcome or an error, and with the session behind it. -/
abbrev Ended := EStateM.Result LineError Session Outcome

/-- The item that an expression with this remark stores for a value. -/
def itemOf (c : Context) (d : Declaration) (v : Value) (remark : List Char) : Item :=
  c.item d.binding.name? v (String.ofList (splitTemplate remark).1)
    (String.ofList (splitTemplate remark).2)

/-- The ways in which an expression with the remark behind it ends. -/
inductive ExpressionStep (s : Session) (expr remark : List Char) (isAnswer : Bool) :
    Ended → Prop where
  | empty (hempty : expr = []) : ExpressionStep s expr remark isAnswer (.ok .skipped s)
  | undeclared {e : DeclarationError} (hread : Declaration.read expr = .error e) :
      ExpressionStep s expr remark isAnswer (.error (.declaration e) s)
  | valueless {d : Declaration} {e : EvalError} (hread : Declaration.read expr = .ok d)
      (hvalue : s.valueOf d = .error e) :
      ExpressionStep s expr remark isAnswer (.error (.evaluation e) s)
  | unshown {d : Declaration} {v : Value} {e : LineError} (hread : Declaration.read expr = .ok d)
      (hvalue : s.valueOf d = .ok (v, s.context))
      (hnote : s.noteOf expr (itemOf s.context d v remark).template v = .error e) :
      ExpressionStep s expr remark isAnswer (.error e s)
  | stored {d : Declaration} {v : Value} {c : Context} {a : Note} (hne : expr ≠ [])
      (hread : Declaration.read expr = .ok d) (hvalue : s.valueOf d = .ok (v, c))
      (hnote : s.noteOf expr (itemOf c d v remark).template v = .ok a) :
      ExpressionStep s expr remark isAnswer
        (.ok (outcomeOf a) { s with context := c.store (itemOf c d v remark) isAnswer })

/-- The ways in which a line of a kind ends. -/
inductive Step (s : Session) : LineKind → Ended → Prop where
  | blank : Step s .blank (.ok .skipped s)
  | note : Step s .note (.ok .skipped s)
  | comment : Step s .comment (.ok .skipped s)
  | tableLine : Step s .tableLine (.ok .skipped s)
  | heading (name : List Char) :
      Step s (.heading name)
        (.ok .skipped { s with context := s.context.startSection (String.ofList name) })
  | stack (name remark : List Char) :
      Step s (.stack name remark)
        (.ok .skipped { s with
          context := s.context.startStack (String.ofList name)
            (String.ofList (splitTemplate remark).1) (String.ofList (splitTemplate remark).2) })
  | setting {directive : List Char} {settings : Settings}
      (hchange : s.settings.change directive = .ok settings) :
      Step s (.setting directive) (.ok .skipped { s with settings })
  | settingFails {directive : List Char} {e : SettingError}
      (hchange : s.settings.change directive = .error e) :
      Step s (.setting directive) (.error (.setting e) s)
  | noTable : Step s (.table []) (.ok .skipped s)
  | table {spec : List Char} {t : Table} (hne : spec ≠ [])
      (htable : TableReport.table ⟨s.context, s.settings⟩ spec = .ok t) :
      Step s (.table spec) (.ok (.table t.text) s)
  | tableFails {spec : List Char} {e : LineError} (hne : spec ≠ [])
      (htable : TableReport.table ⟨s.context, s.settings⟩ spec = .error e) :
      Step s (.table spec) (.error e s)
  | silent {text : List Char} {r : Ended}
      (h : ExpressionStep s (splitRemark text).1 (splitRemark text).2 false r) :
      Step s (.silent text) r
  | expression {text : List Char} {r : Ended}
      (h : ExpressionStep s (splitRemark text).1 (splitRemark text).2 true r) :
      Step s (.expression text) r

theorem expressionStep_process (s : Session) (text : List Char) (isAnswer : Bool) :
    ExpressionStep s (splitRemark text).1 (splitRemark text).2 isAnswer
      ((processExpression text isAnswer).run s) := by
  unfold processExpression
  rcases splitRemark text with ⟨expr, remark⟩
  dsimp only
  by_cases hempty : expr = []
  · subst hempty
    exact .empty rfl
  -- from here on one rule for each stage that can fail, and one for none of them failing
  rw [if_neg (by simpa using hempty)]
  rcases hsplit : splitTemplate remark with ⟨rest, template⟩
  dsimp only
  cases hread : Declaration.read expr with
  | error e => exact .undeclared hread
  | ok d =>
    rw [EStateM.run_bind, run_evaluate]
    cases hvalue : s.valueOf d with
    | error e => exact .valueless hread hvalue
    | ok result =>
      obtain ⟨v, c⟩ := result
      have hitem : itemOf c d v remark
          = c.item d.binding.name? v (String.ofList rest) (String.ofList template) := by
        rw [itemOf, hsplit]
      dsimp only
      rw [EStateM.run_bind, EStateM.run_get]
      dsimp only
      rw [← hitem]
      rw [noteOf_with_context]
      cases hnote : s.noteOf expr (itemOf c d v remark).template v with
      | error e =>
        -- the value is no function, so that nothing has changed yet
        have hc : c = s.context := by
          rcases valueOf_eq_ok hvalue with hc | hcallable
          · exact hc
          · rw [noteOf_eq_error hnote] at hcallable
            cases hcallable
        subst hc
        exact .unshown hread hvalue hnote
      | ok a => exact .stored hempty hread hvalue hnote

/-- **What a line does.** The work of a line ends by one of the rules for its kind. -/
theorem step_process (s : Session) (line : List Char) :
    Step s (LineKind.ofLine line) ((process line).run s) := by
  unfold process
  generalize LineKind.ofLine line = kind
  cases kind with
  | blank => exact .blank
  | note => exact .note
  | comment => exact .comment
  | tableLine => exact .tableLine
  | heading name => exact .heading name
  | stack name remark =>
    simp only [EStateM.run_bind, EStateM.run_get, EStateM.run_set, EStateM.run_pure]
    exact .stack name remark
  | setting directive =>
    simp only [EStateM.run_bind, EStateM.run_get]
    cases hchange : s.settings.change directive with
    | error e => exact .settingFails hchange
    | ok settings => exact .setting hchange
  | table spec =>
    cases spec with
    | nil => exact .noTable
    | cons ch spec =>
      dsimp only
      rw [EStateM.run_bind, EStateM.run_get]
      dsimp only
      cases htable : TableReport.table ⟨s.context, s.settings⟩ (ch :: spec) with
      | error e => exact .tableFails (by simp) htable
      | ok t => exact .table (by simp) htable
  | silent text => exact .silent (expressionStep_process s text false)
  | expression text => exact .expression (expressionStep_process s text true)

/-! ## What no line changes -/

theorem ExpressionStep.eq_of_error {s s' : Session} {expr remark : List Char} {isAnswer : Bool}
    {e : LineError} (h : ExpressionStep s expr remark isAnswer (.error e s')) : s' = s := by
  cases h with
  | undeclared hread => rfl
  | valueless hread hvalue => rfl
  | unshown hread hvalue hnote => rfl

/-- A line that fails has changed nothing. -/
theorem Step.eq_of_error {s s' : Session} {kind : LineKind} {e : LineError}
    (h : Step s kind (.error e s')) : s' = s := by
  cases h with
  | settingFails hchange => rfl
  | tableFails hne htable => rfl
  | silent h => exact h.eq_of_error
  | expression h => exact h.eq_of_error

/-- The result of a line and the session behind it. -/
def ended : Ended → Except LineError Outcome × Session
  | .ok outcome s => (.ok outcome, s)
  | .error e s => (.error e, s)

theorem run_eq_ended (s : Session) (line : List Char) :
    s.run line = ended ((process line).run s) := by
  unfold run
  cases (process line).run s <;> rfl

theorem run_eq_of_error {s : Session} {line : List Char} {e : LineError}
    (h : (s.run line).1 = .error e) : s.run line = (.error e, s) := by
  have hstep := step_process s line
  rw [run_eq_ended] at h ⊢
  cases hr : (process line).run s with
  | ok outcome s' =>
    rw [hr] at h
    cases h
  | error e' s' =>
    rw [hr] at h hstep
    cases h
    rw [hstep.eq_of_error]
    rfl

theorem run_blank {blank : List Char} (hblank : trim blank = []) (s : Session) :
    s.run blank = (.ok .skipped, s) := by
  have hkind : LineKind.ofLine blank = .blank := by
    rw [LineKind.ofLine, hblank]
    decide
  unfold run process
  rw [hkind]
  rfl

/-- A line with an expression that has a value and can be shown. -/
theorem run_eq_of_expression {s : Session} {line text expr remark : List Char} {d : Declaration}
    {v : Value} {c : Context} {a : Note} (hkind : LineKind.ofLine line = .expression text)
    (hsplit : splitRemark text = (expr, remark)) (hne : expr ≠ [])
    (hread : Declaration.read expr = .ok d) (hvalue : s.valueOf d = .ok (v, c))
    (hnote : s.noteOf expr (itemOf c d v remark).template v = .ok a) :
    s.run line
      = (.ok (outcomeOf a), { s with context := c.store (itemOf c d v remark) true }) := by
  have hstep := step_process s line
  rw [run_eq_ended]
  generalize (process line).run s = r at hstep ⊢
  rw [hkind] at hstep
  cases hstep with
  | expression h =>
    rw [hsplit] at h
    -- every rule but the last one contradicts what is known of the stages
    cases h with
    | empty hempty => exact absurd hempty hne
    | undeclared hread' =>
      rw [hread] at hread'
      cases hread'
    | valueless hread' hvalue' =>
      rw [hread] at hread'
      cases hread'
      rw [hvalue] at hvalue'
      cases hvalue'
    | unshown hread' hvalue' hnote' =>
      rw [hread] at hread'
      cases hread'
      rw [hvalue] at hvalue'
      cases hvalue'
      rw [hnote] at hnote'
      cases hnote'
    | stored hne' hread' hvalue' hnote' =>
      rw [hread] at hread'
      cases hread'
      rw [hvalue] at hvalue'
      cases hvalue'
      rw [hnote] at hnote'
      cases hnote'
      rfl

theorem ExpressionStep.fixed {s : Session} {expr remark : List Char} {isAnswer : Bool} {r : Ended}
    (h : ExpressionStep s expr remark isAnswer r) :
    (ended r).2.defaults = s.defaults ∧ (ended r).2.now = s.now := by
  cases h <;> exact ⟨rfl, rfl⟩

/-- The settings to begin with and the clock are those of the worksheet. -/
theorem Step.fixed {s : Session} {kind : LineKind} {r : Ended} (h : Step s kind r) :
    (ended r).2.defaults = s.defaults ∧ (ended r).2.now = s.now := by
  cases h with
  | silent h => exact h.fixed
  | expression h => exact h.fixed
  | _ => exact ⟨rfl, rfl⟩

theorem run_fixed (s : Session) (line : List Char) :
    (s.run line).2.defaults = s.defaults ∧ (s.run line).2.now = s.now := by
  rw [run_eq_ended]
  exact (step_process s line).fixed

end Session

end Worksheet
