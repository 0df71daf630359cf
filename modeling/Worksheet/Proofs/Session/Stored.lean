import Worksheet.Proofs.Context.Representation
import Worksheet.Proofs.Recalculation.Replay
import Worksheet.Proofs.Text.Class

/-!
# What the lines of a worksheet have stored

* **`Session.itemOfLine?`**, **`Session.itemsOfLines`** — the items that lines store, in order, told
  without the context that they are stored in.
* **`Session.LineEffect`** — all that a line can do to a context; `lineEffect_run` says that it does
  one of these.
* **`Session.Recorded`** — the invariant of a run: a name is bound to the latest item of that name,
  and every bound name is an identifier. `LineEffect.recorded` is the step, `recorded_runLines` the
  run.
-/

namespace Worksheet

open Text

namespace Session

/-! ## The items of lines -/

/-- The item that an expression with its remark stores, if it has a value that can be shown. -/
def expressionItem? (s : Session) (expr remark : List Char) : Option Item :=
  if expr = [] then none
  else
    match Declaration.read expr with
    | .error _ => none
    | .ok d =>
      match s.valueOf d with
      | .error _ => none
      | .ok (v, c) =>
        match s.noteOf expr (itemOf c d v remark).template v with
        | .error _ => none
        | .ok _ => some (itemOf c d v remark)

/-- The item that a line stores. -/
def itemOfLine? (s : Session) (line : List Char) : Option Item :=
  match LineKind.ofLine line with
  | .silent text | .expression text =>
    s.expressionItem? (splitRemark text).1 (splitRemark text).2
  | _ => none

/-- The items that lines in turn store. -/
def itemsOfLines (s : Session) : List (List Char) → List Item
  | [] => []
  | line :: rest => (s.itemOfLine? line).toList ++ itemsOfLines (s.run line).2 rest

/-! ## What a line does to the context -/

/-- What a line can do to a context, with the item that it stores. -/
inductive LineEffect (c : Context) : Option Item → Context → Prop where
  | unchanged : LineEffect c none c
  | heading (name : String) : LineEffect c none (c.startSection name)
  | stack (name remark template : String) : LineEffect c none (c.startStack name remark template)
  | stored {c' : Context} {expr remark : List Char} {d : Declaration} {v : Value} (isAnswer : Bool)
      (hdefined : c' = c ∨ ∃ e, c' = c.define e) (hread : Declaration.read expr = .ok d) :
      LineEffect c (some (itemOf c' d v remark)) (c'.store (itemOf c' d v remark) isAnswer)

/-- Evaluating makes functions known and does nothing else to the context. -/
theorem valueOf_context {s : Session} {d : Declaration} {v : Value} {c : Context}
    (h : s.valueOf d = .ok (v, c)) : c = s.context ∨ ∃ e, c = s.context.define e := by
  unfold valueOf at h
  split at h
  · cases h
  · next e he =>
    split at h
    · cases h
    · split at h
      · cases h
        exact Or.inr ⟨e, rfl⟩
      · cases h
        exact Or.inl rfl

theorem ExpressionStep.lineEffect {s : Session} {expr remark : List Char} {isAnswer : Bool}
    {r : Ended} (h : ExpressionStep s expr remark isAnswer r) :
    LineEffect s.context (s.expressionItem? expr remark) (ended r).2.context := by
  by_cases hexpr : expr = []
  · have hnone : s.expressionItem? expr remark = none := if_pos hexpr
    rw [hnone]
    cases h with
    | stored hne hread hvalue hnote => exact absurd hexpr hne
    | _ => exact .unchanged
  · -- the item is read off the stages in which the step has gone, so it is missing where the step ends early
    rw [expressionItem?, if_neg hexpr]
    cases h with
    | empty hempty => exact absurd hempty hexpr
    | undeclared hread =>
      rw [hread]
      exact .unchanged
    | valueless hread hvalue =>
      rw [hread]
      dsimp only
      rw [hvalue]
      exact .unchanged
    | unshown hread hvalue hnote =>
      rw [hread]
      dsimp only
      rw [hvalue]
      dsimp only
      rw [hnote]
      exact .unchanged
    | stored hne hread hvalue hnote =>
      rw [hread]
      dsimp only
      rw [hvalue]
      dsimp only
      rw [hnote]
      exact .stored isAnswer (valueOf_context hvalue) hread

/-- **What a line does to the context.** -/
theorem lineEffect_run (s : Session) (line : List Char) :
    LineEffect s.context (s.itemOfLine? line) (s.run line).2.context := by
  have hstep := step_process s line
  rw [run_eq_ended]
  generalize (process line).run s = r at hstep ⊢
  unfold itemOfLine?
  generalize LineKind.ofLine line = kind at hstep
  cases hstep with
  | heading name => exact .heading _
  | stack name remark => exact .stack _ _ _
  | silent h => exact h.lineEffect
  | expression h => exact h.lineEffect
  | _ => exact .unchanged

/-! ## Names that lines declare -/

/-- What a line declares is an identifier. -/
theorem isIdentifier_of_read {text : List Char} {d : Declaration}
    (h : Declaration.read text = .ok d) {n : String} (hn : d.binding.name? = some n) :
    isIdentifier n.toList = true := by
  unfold Declaration.read at h
  dsimp only at h
  split at h
  · cases h
    cases hn
  · split at h
    · cases h
    · split at h
      · -- the name in front of parameters
        next name params hhead =>
        cases h
        cases hn
        unfold Declaration.functionHead? at hhead
        dsimp only at hhead
        split at hhead
        · split at hhead
          · split at hhead
            · next hidentifiers =>
              cases hhead
              rw [String.toList_ofList]
              exact (Bool.and_eq_true_iff.mp hidentifiers).1
            · cases hhead
          · cases hhead
        · cases hhead
      · split at h
        · -- the whole left side
          next hidentifier =>
          cases h
          cases hn
          rw [String.toList_ofList]
          exact hidentifier
        · cases h

/-- The item of a line carries the name that the line declares. -/
theorem name_itemOf {c : Context} {d : Declaration} {v : Value} {remark text : List Char}
    (h : Declaration.read text = .ok d) : (itemOf c d v remark).name = d.binding.name? := by
  show d.binding.name?.map trimmed = d.binding.name?
  cases hn : d.binding.name? with
  | none => rfl
  | some n => rw [Option.map_some, trimmed_of_identifier (isIdentifier_of_read h hn)]

end Session

/-! ## Names that are bound -/

namespace Context

/-- Without the items of one name the items of the others are found as before. -/
theorem find?_filter_name_ne (vs : List Item) (m n : String) :
    (vs.filter fun v => v.name != some m).find? (fun v => v.name == some n)
      = if m = n then none else vs.find? fun v => v.name == some n := by
  rw [List.find?_filter]
  split
  · next hm =>
    subst hm
    rw [List.find?_eq_none]
    simp
  · next hm =>
    congr 1
    funext v
    by_cases hv : v.name = some n <;> simp [hv, Ne.symm hm]

theorem find?_bind (c : Context) (item : Item) (n : String) :
    (c.bind item).find? n = if item.name = some n then some item else c.find? n := by
  unfold Context.bind Context.find?
  cases hname : item.name with
  | none => rfl
  | some m =>
    rw [if_neg (by simp), List.find?_append, find?_filter_name_ne]
    by_cases hm : m = n <;> simp [hname, hm]

theorem find?_store (c : Context) (item : Item) (isAnswer : Bool) (n : String) :
    (c.store item isAnswer).find? n = if item.name = some n then some item else c.find? n := by
  rw [← find?_bind]
  unfold Context.store
  split <;> rfl

theorem Sound.define {c : Context} (h : c.Sound) (e : Expr) : (c.define e).Sound :=
  ⟨h.bindings_named, h.bindings_nodup, h.stacks_nodup, h.anonymous_mem, h.sections_nodup,
    h.history_data, h.history_stack, h.stack_items, h.section_items⟩

end Context

namespace Session

/-! ## The invariant of a run -/

/-- The latest item of a name. -/
def latest? (items : List Item) (n : String) : Option Item :=
  (items.filter fun v => v.name == some n).getLast?

/-- A context in which these items have been stored. -/
structure Recorded (c : Context) (items : List Item) : Prop where
  sound : c.Sound
  identifier : ∀ v ∈ items, ∀ n, v.name = some n → isIdentifier n.toList = true
  latest : ∀ n, c.find? n = latest? items n

theorem recorded_empty : Recorded .empty [] where
  sound := Context.sound_empty
  identifier := by simp
  latest _ := rfl

theorem latest?_concat (items : List Item) (item : Item) (n : String) :
    latest? (items ++ [item]) n = if item.name = some n then some item else latest? items n := by
  unfold latest?
  by_cases hn : item.name = some n <;> simp [hn]

theorem LineEffect.recorded {c c' : Context} {item? : Option Item} {items : List Item}
    (h : LineEffect c item? c') (hc : Recorded c items) : Recorded c' (items ++ item?.toList) := by
  cases h with
  | unchanged => simpa using hc
  | heading name =>
    rw [Option.toList_none, List.append_nil]
    exact ⟨hc.sound.startSection name, hc.identifier, hc.latest⟩
  | stack name remark template =>
    rw [Option.toList_none, List.append_nil]
    exact ⟨hc.sound.startStack name remark template, hc.identifier, hc.latest⟩
  | @stored c' expr remark d v isAnswer hdefined hread =>
    have hc' : Recorded c' items := by
      rcases hdefined with rfl | ⟨e, rfl⟩
      · exact hc
      · exact ⟨hc.sound.define e, hc.identifier, hc.latest⟩
    refine ⟨hc'.sound.store _ _ _ _ isAnswer, ?_, ?_⟩
    · intro u hu n hn
      rcases List.mem_append.mp hu with hu | hu
      · exact hc'.identifier u hu n hn
      · rw [Option.toList_some, List.mem_singleton] at hu
        rw [hu, name_itemOf hread] at hn
        exact isIdentifier_of_read hread hn
    · intro n
      rw [Option.toList_some, latest?_concat, Context.find?_store, hc'.latest n]

theorem recorded_runLines_of_recorded {s : Session} {items : List Item}
    (h : Recorded s.context items) (lines : List (List Char)) :
    Recorded (s.runLines lines).2.context (items ++ s.itemsOfLines lines) := by
  induction lines generalizing s items with
  | nil => simpa [runLines, itemsOfLines] using h
  | cons line rest ih =>
    have hline := (lineEffect_run s line).recorded h
    have hrest := ih hline
    rw [List.append_assoc] at hrest
    exact hrest

/-- **What a run has recorded.** -/
theorem recorded_runLines (defaults : Settings) (now : DateTime) (lines : List (List Char)) :
    Recorded ((start defaults now).runLines lines).2.context
      ((start defaults now).itemsOfLines lines) := by
  have hstart : Recorded (start defaults now).context [] := recorded_empty
  exact recorded_runLines_of_recorded hstart lines

end Session

end Worksheet
