import Worksheet.Proofs.Session.Stored

/-!
# What a line leaves alone

* **`Session.Frame`** — all that may change between two sessions when a line is accepted: one answer
  more, one name bound anew, one bucket entered or added to.
* **`Session.NewEntry`** — what is known of the answer.
* **`Step.frame`** — the step lemma, one case for each thing that a line can do.
* **`Session.run_frame`** — the headline, behind any lines: an accepted line keeps the frame, and any
  other line changes nothing.

A template is resolved when the answer is shown and once more when it is stored. That this gives the
same template rests on an invariant of the run, `Context.Trimmed`: no template has blanks around it.
-/

namespace Worksheet

open Text

/-! ## Buckets -/

namespace Bucket

theorem addToLast_eq (bs : List Bucket) (position : Nat) :
    addToLast bs position = bs.dropLast ++ (bs.getLast?.map (add · position)).toList := by
  rcases List.eq_nil_or_concat bs with rfl | ⟨init, b, rfl⟩
  · rfl
  · simp [List.concat_eq_append]

/-- Entering a bucket leaves the others as they are. -/
theorem find?_enter_of_ne (bs : List Bucket) {name n : String} (hn : n ≠ trimmed name)
    (remark template : String) :
    (enter bs name remark template).find? (fun b => b.name == n)
      = bs.find? fun b => b.name == n := by
  have hne : (trimmed name == n) = false := beq_false_of_ne hn.symm
  unfold enter
  split
  · next old hold =>
    have hname : old.name = trimmed name := by simpa using List.find?_some hold
    have hlast : ([old.renew remark template].find? fun b => b.name == n) = none := by
      simp [name_renew, hname, hn.symm]
    rw [List.find?_append, hlast, Option.or_none, List.find?_filter]
    congr 1
    funext b
    by_cases hb : b.name = n <;> simp [hb, hn]
  · rw [List.find?_append]
    simp [ofName, hn.symm]

/-- An answer goes to the current bucket and leaves the others as they are. -/
theorem find?_addToLast_of_ne (bs : List Bucket) (position : Nat) {n : String}
    (hn : (addToLast bs position).getLast?.map name ≠ some n) :
    (addToLast bs position).find? (fun b => b.name == n) = bs.find? fun b => b.name == n := by
  rcases List.eq_nil_or_concat bs with rfl | ⟨init, b, rfl⟩
  · rfl
  · rw [List.concat_eq_append, addToLast_concat] at hn ⊢
    have hne : b.name ≠ n := by simpa [add] using hn
    simp [List.find?_append, add, hne]

theorem getLast?_addToLast (bs : List Bucket) (position : Nat) :
    (addToLast bs position).getLast?.map name = bs.getLast?.map name := by
  rcases List.eq_nil_or_concat bs with rfl | ⟨init, b, rfl⟩
  · rfl
  · simp [List.concat_eq_append, add]

theorem getLast?_enter (bs : List Bucket) (name remark template : String) :
    (enter bs name remark template).getLast?.map Bucket.name = some (trimmed name) := by
  unfold enter
  split
  · next old hold =>
    have hname : old.name = trimmed name := by simpa using List.find?_some hold
    simp [name_renew, hname]
  · simp [ofName]

/-- All buckets but the current one are as they were, and the current one is the one that was entered
if one was. -/
def Kept (bs bs' : List Bucket) (entered? : Option String) : Prop :=
  bs'.getLast?.map name = entered?.or (bs.getLast?.map name) ∧
  ∀ n, bs'.getLast?.map name ≠ some n →
    bs'.find? (fun b => b.name == n) = bs.find? fun b => b.name == n

theorem kept_self (bs : List Bucket) : Kept bs bs none := ⟨rfl, fun _ _ => rfl⟩

theorem kept_enter (bs : List Bucket) (name remark template : String) :
    Kept bs (enter bs name remark template) (some (trimmed name)) := by
  have hcurrent := getLast?_enter bs name remark template
  refine ⟨hcurrent, fun n hn => find?_enter_of_ne bs ?_ remark template⟩
  rintro rfl
  exact hn hcurrent

theorem kept_addToLast (bs : List Bucket) (position : Nat) :
    Kept bs (addToLast bs position) none :=
  ⟨getLast?_addToLast bs position, fun _ hn => find?_addToLast_of_ne bs position hn⟩

end Bucket

namespace Context

/-! ## Bindings -/

/-- The bindings with the item of a name moved to the end as another one, or as they are if no name
is given. -/
def Rebound (bs bs' : List Item) : Option String → Prop
  | none => bs' = bs
  | some n => ∃ item : Item, item.name = some n ∧
      bs' = (bs.filter fun v => v.name != some n) ++ [item]

/-- Binding an item does nothing but that. -/
theorem bind_eq_rebound (c : Context) (item : Item) :
    ∃ bs, c.bind item = { c with bindings := bs } ∧ Rebound c.bindings bs item.name := by
  unfold Context.bind
  cases hname : item.name with
  | none => exact ⟨_, rfl, rfl⟩
  | some n => exact ⟨_, rfl, item, hname, rfl⟩

/-! ## Templates that are resolved twice -/

/-- No stack has a template with blanks around it. -/
def Trimmed (c : Context) : Prop := ∀ b ∈ c.stackBuckets, trimmed b.template = b.template

theorem trimmed_empty : empty.Trimmed := by
  intro b hb
  obtain rfl := List.mem_singleton.mp hb
  exact trimmed_trimmed ""

theorem Trimmed.startStack {c : Context} (h : c.Trimmed) (name remark template : String) :
    (c.startStack name remark template).Trimmed := by
  intro b hb
  simp only [Context.startStack, Bucket.enter] at hb
  split at hb
  · next old hold =>
    rcases List.mem_append.mp hb with hb | hb
    · exact h b (List.mem_filter.mp hb).1
    · obtain rfl := List.mem_singleton.mp hb
      simp only [Bucket.renew]
      split
      · exact h old (List.mem_of_find?_eq_some hold)
      · exact trimmed_trimmed template
  · rcases List.mem_append.mp hb with hb | hb
    · exact h b hb
    · obtain rfl := List.mem_singleton.mp hb
      exact trimmed_trimmed template

theorem Trimmed.store {c : Context} (h : c.Trimmed) (item : Item) (isAnswer : Bool) :
    (c.store item isAnswer).Trimmed := by
  obtain ⟨bindings, hbind, -⟩ := c.bind_eq_rebound item
  unfold Context.store
  rw [hbind]
  split
  · intro b hb
    -- a position more changes no template
    obtain ⟨old, hold, htemplate⟩ : ∃ old ∈ c.stackBuckets, old.template = b.template := by
      simp only [answer, Bucket.addToLast_eq] at hb
      rcases List.mem_append.mp hb with hb | hb
      · exact ⟨b, List.dropLast_subset _ hb, rfl⟩
      · obtain ⟨last, hlast, rfl⟩ := Option.map_eq_some_iff.mp (Option.mem_toList.mp hb)
        exact ⟨last, List.mem_of_getLast? hlast, rfl⟩
    rw [← htemplate]
    exact h old hold
  · exact h

/-- A template that has been resolved is not changed by resolving it again. -/
theorem Trimmed.resolveTemplate_resolveTemplate {c : Context} (h : c.Trimmed) (template : String) :
    c.resolveTemplate (c.resolveTemplate template) = c.resolveTemplate template := by
  have hcurrent : trimmed ((c.currentStack?.map Bucket.template).getD "")
      = (c.currentStack?.map Bucket.template).getD "" := by
    cases hlast : c.currentStack? with
    | none => exact trimmed_trimmed ""
    | some b => exact h b (List.mem_of_getLast? hlast)
  unfold resolveTemplate
  dsimp only
  by_cases hempty : (trimmed template).isEmpty
  · rw [if_pos hempty, hcurrent]
    split <;> rfl
  · rw [if_neg hempty, trimmed_trimmed, if_neg hempty]

end Context

/-! ## What a line is about -/

namespace LineKind

/-- Is the line an expression or a silent one? -/
def Evaluates (kind : LineKind) : Prop :=
  (∃ text, kind = silent text) ∨ ∃ text, kind = expression text

/-- The name that the line declares. -/
def declaredName? : LineKind → Option String
  | silent text | expression text =>
    match Declaration.read (splitRemark text).1 with
    | .ok d => d.binding.name?
    | .error _ => none
  | _ => none

/-- The name of the stack that the line enters. -/
def enteredStack? : LineKind → Option String
  | stack name _ => some (trimmed (String.ofList name))
  | _ => none

/-- The name of the section that the line enters. -/
def enteredSection? : LineKind → Option String
  | heading name => some (trimmed (String.ofList name))
  | _ => none

theorem declaredName?_of_not_evaluates {kind : LineKind} (h : ¬ kind.Evaluates) :
    kind.declaredName? = none := by
  cases kind with
  | silent text => exact absurd (Or.inl ⟨text, rfl⟩) h
  | expression text => exact absurd (Or.inr ⟨text, rfl⟩) h
  | _ => rfl

theorem not_evaluates {kind : LineKind} (hsilent : ∀ text, kind ≠ silent text)
    (hexpression : ∀ text, kind ≠ expression text) : ¬ kind.Evaluates := by
  rintro (⟨text, h⟩ | ⟨text, h⟩)
  · exact hsilent text h
  · exact hexpression text h

/-- The kind of a line with an expression. -/
def evaluated (isAnswer : Bool) (text : List Char) : LineKind :=
  if isAnswer then expression text else silent text

theorem evaluates_evaluated (isAnswer : Bool) (text : List Char) :
    (evaluated isAnswer text).Evaluates := by
  cases isAnswer with
  | false => exact Or.inl ⟨text, rfl⟩
  | true => exact Or.inr ⟨text, rfl⟩

theorem evaluated_eq_expression {isAnswer : Bool} {text text' : List Char}
    (h : evaluated isAnswer text = expression text') : isAnswer = true ∧ text = text' := by
  cases isAnswer <;> cases h
  exact ⟨rfl, rfl⟩

theorem declaredName?_evaluated (isAnswer : Bool) (text : List Char) :
    (evaluated isAnswer text).declaredName?
      = match Declaration.read (splitRemark text).1 with
        | .ok d => d.binding.name?
        | .error _ => none := by
  cases isAnswer <;> rfl

theorem enteredStack?_evaluated (isAnswer : Bool) (text : List Char) :
    (evaluated isAnswer text).enteredStack? = none := by
  cases isAnswer <;> rfl

theorem enteredSection?_evaluated (isAnswer : Bool) (text : List Char) :
    (evaluated isAnswer text).enteredSection? = none := by
  cases isAnswer <;> rfl

end LineKind

namespace Session

/-! ## What may change -/

/-- Is the line an expression, and no silent one, with a value that is no function? -/
def Answers (s : Session) (kind : LineKind) : Prop :=
  ∃ text d v c, kind = .expression text ∧ (splitRemark text).1 ≠ [] ∧
    Declaration.read (splitRemark text).1 = .ok d ∧ s.valueOf d = .ok (v, c) ∧ v.isCallable = false

/-- The answer of a line: its name, the one bucket of each sort that it goes to, and what is written
below the line. -/
structure NewEntry (s : Session) (kind : LineKind) (item : Item) (outcome : Outcome)
    (s' : Session) : Prop where
  name : item.name = kind.declaredName?
  bound : ∀ n, item.name = some n → s'.context.find? n = some item
  resolved : s.context.resolveTemplate item.template = item.template
  stackBuckets : s'.context.stackBuckets = s.context.stackBuckets.dropLast ++
    (s.context.currentStack?.map (·.add s.context.history.length)).toList
  sectionBuckets : s'.context.sectionBuckets = s.context.sectionBuckets.dropLast ++
    (s.context.currentSection?.map (·.add s.context.history.length)).toList
  settings : s'.settings = s.settings
  shown : ∃ text, Display.present s.settings.style item.template item.value = .ok text ∧
    outcome = if text = [] then .skipped else .noted (.answer text)

/-- What an accepted line may change between the session before it and the session behind. -/
structure Frame (s : Session) (kind : LineKind) (outcome : Outcome) (s' : Session) : Prop where
  history : s'.context.history = s.context.history ∨
    ∃ item, s'.context.history = s.context.history ++ [item]
  grows_iff : s'.context.history ≠ s.context.history ↔ Answers s kind
  entry : ∀ item, s'.context.history = s.context.history ++ [item] →
    NewEntry s kind item outcome s'
  bindings : Context.Rebound s.context.bindings s'.context.bindings kind.declaredName?
  unevaluated : ¬ kind.Evaluates →
    s'.context.bindings = s.context.bindings ∧ s'.context.history = s.context.history
  stackBuckets : Bucket.Kept s.context.stackBuckets s'.context.stackBuckets kind.enteredStack?
  sectionBuckets : Bucket.Kept s.context.sectionBuckets s'.context.sectionBuckets kind.enteredSection?
  contents : ∀ b ∈ s.context.stackBuckets ++ s.context.sectionBuckets,
    s'.context.itemsOf b = s.context.itemsOf b

variable {s s' : Session} {kind : LineKind} {outcome : Outcome}

/-- A line without an answer. -/
theorem Frame.of_not_answers (hanswers : ¬ Answers s kind)
    (hhistory : s'.context.history = s.context.history)
    (hbindings : Context.Rebound s.context.bindings s'.context.bindings kind.declaredName?)
    (hunevaluated : ¬ kind.Evaluates → s'.context.bindings = s.context.bindings)
    (hstacks : Bucket.Kept s.context.stackBuckets s'.context.stackBuckets kind.enteredStack?)
    (hsections :
      Bucket.Kept s.context.sectionBuckets s'.context.sectionBuckets kind.enteredSection?) :
    Frame s kind outcome s' where
  history := Or.inl hhistory
  grows_iff := iff_of_false (fun h => h hhistory) hanswers
  entry item hitem := by
    rw [hhistory] at hitem
    simp at hitem
  bindings := hbindings
  unevaluated h := ⟨hunevaluated h, hhistory⟩
  stackBuckets := hstacks
  sectionBuckets := hsections
  contents b _ := by rw [Context.itemsOf_eq, Context.itemsOf_eq, hhistory]

/-- A line that evaluates nothing. -/
theorem Frame.of_not_evaluates (hevaluates : ¬ kind.Evaluates)
    (hbindings : s'.context.bindings = s.context.bindings)
    (hhistory : s'.context.history = s.context.history)
    (hstacks : Bucket.Kept s.context.stackBuckets s'.context.stackBuckets kind.enteredStack?)
    (hsections :
      Bucket.Kept s.context.sectionBuckets s'.context.sectionBuckets kind.enteredSection?) :
    Frame s kind outcome s' := by
  refine .of_not_answers ?_ hhistory ?_ (fun _ => hbindings) hstacks hsections
  · rintro ⟨text, d, v, c, hkind, -⟩
    exact hevaluates (Or.inr ⟨text, hkind⟩)
  · rw [LineKind.declaredName?_of_not_evaluates hevaluates]
    exact hbindings

/-- A line with an answer, which lies behind all positions in the buckets. -/
theorem Frame.of_answers {item : Item} (hsound : s.context.Sound) (hanswers : Answers s kind)
    (hhistory : s'.context.history = s.context.history ++ [item])
    (hbindings : Context.Rebound s.context.bindings s'.context.bindings kind.declaredName?)
    (hentry : NewEntry s kind item outcome s') : Frame s kind outcome s' := by
  obtain ⟨text, -, -, -, rfl, -⟩ := id hanswers
  exact {
    history := Or.inr ⟨item, hhistory⟩
    grows_iff := by
      refine iff_of_true ?_ hanswers
      rw [hhistory]
      simp
    entry := by
      intro item' hitem'
      rw [hhistory] at hitem'
      obtain rfl : item = item' := by simpa using hitem'
      exact hentry
    bindings := hbindings
    unevaluated := absurd (Or.inr ⟨text, rfl⟩)
    stackBuckets := by
      rw [hentry.stackBuckets, Context.currentStack?, ← Bucket.addToLast_eq]
      exact Bucket.kept_addToLast _ _
    sectionBuckets := by
      rw [hentry.sectionBuckets, Context.currentSection?, ← Bucket.addToLast_eq]
      exact Bucket.kept_addToLast _ _
    contents := by
      intro b hb
      rw [Context.itemsOf_eq, Context.itemsOf_eq, hhistory]
      refine List.filterMap_congr fun i hi => ?_
      exact List.getElem?_append_left ((hsound.items_ordered hb).2 i hi) }

/-! ## One line -/

/-- What is written below an answer. -/
theorem outcomeOf_eq_of_noteOf {expr : List Char} {template : String} {v : Value} {a : Note}
    (hdata : v.isCallable = false) (hnote : s.noteOf expr template v = .ok a) :
    ∃ text, Display.present s.settings.style template v = .ok text ∧
      outcomeOf a = if text = [] then .skipped else .noted (.answer text) := by
  unfold noteOf at hnote
  rw [hdata, if_neg Bool.false_ne_true] at hnote
  cases hpresent : Display.present s.settings.style template v with
  | error e =>
    rw [hpresent] at hnote
    cases hnote
  | ok text =>
    rw [hpresent] at hnote
    cases hnote
    refine ⟨text, rfl, ?_⟩
    cases text with
    | nil => rfl
    | cons ch text => rfl

theorem template_itemOf (c : Context) (d : Declaration) (v : Value) (remark : List Char) :
    (itemOf c d v remark).template
      = c.resolveTemplate (String.ofList (splitTemplate remark).2) := by
  dsimp only [itemOf, Context.item]

/-- An item that is stored as an answer or only for its name, in a context that may know more
functions. -/
theorem Frame.stored {c : Context} {expr text : List Char} {item : Item} {v : Value} {a : Note}
    {isAnswer : Bool} (hdefined : ∃ definitions, c = { s.context with definitions })
    (hsound : s.context.Sound)
    (hanswers : Answers s (.evaluated isAnswer text) ↔ (isAnswer && !v.isCallable) = true)
    (hname : item.name = (LineKind.evaluated isAnswer text).declaredName?)
    (hvalue : item.value = v)
    (hresolved : s.context.resolveTemplate item.template = item.template)
    (hnote : s.noteOf expr item.template v = .ok a) :
    Frame s (.evaluated isAnswer text) (outcomeOf a)
      { s with context := c.store item isAnswer } := by
  subst hvalue
  have hfind := c.find?_store item isAnswer
  obtain ⟨bs, hbind, hbs⟩ := c.bind_eq_rebound item
  rw [hname] at hbs
  unfold Context.store at hfind ⊢
  rw [hbind] at hfind ⊢
  obtain ⟨definitions, rfl⟩ := hdefined
  by_cases hanswer : (isAnswer && !item.value.isCallable) = true
  · have hdata : item.value.isCallable = false := by
      simpa using (Bool.and_eq_true_iff.mp hanswer).2
    rw [if_pos hanswer] at hfind ⊢
    have hhistory : (Context.answer { s.context with bindings := bs, definitions } item).history
        = s.context.history ++ [item] := rfl
    refine .of_answers hsound (hanswers.mpr hanswer) hhistory hbs ?_
    exact {
      name := hname
      bound := fun n hn => (hfind n).trans (if_pos hn)
      resolved := hresolved
      stackBuckets := Bucket.addToLast_eq s.context.stackBuckets s.context.history.length
      sectionBuckets := Bucket.addToLast_eq s.context.sectionBuckets s.context.history.length
      settings := rfl
      shown := outcomeOf_eq_of_noteOf hdata hnote }
  · rw [if_neg hanswer]
    refine .of_not_answers (fun h => hanswer (hanswers.mp h)) rfl hbs
      (absurd (LineKind.evaluates_evaluated ..)) ?_ ?_
    · rw [LineKind.enteredStack?_evaluated]
      exact Bucket.kept_self _
    · rw [LineKind.enteredSection?_evaluated]
      exact Bucket.kept_self _

/-- A line with a value is an answer if it is evaluated as one and its value can be shown. -/
theorem answers_evaluated_iff {text : List Char} {isAnswer : Bool} {d : Declaration} {v : Value}
    {c : Context} (hne : (splitRemark text).1 ≠ [])
    (hread : Declaration.read (splitRemark text).1 = .ok d)
    (hvalue : s.valueOf d = .ok (v, c)) :
    Answers s (.evaluated isAnswer text) ↔ (isAnswer && !v.isCallable) = true := by
  constructor
  · rintro ⟨text', d', v', c', hkind, -, hread', hvalue', hdata⟩
    obtain ⟨rfl, rfl⟩ := LineKind.evaluated_eq_expression hkind
    rw [hread] at hread'
    cases hread'
    rw [hvalue] at hvalue'
    cases hvalue'
    rw [hdata]
    rfl
  · intro hanswer
    obtain ⟨rfl, hdata⟩ := Bool.and_eq_true_iff.mp hanswer
    exact ⟨text, d, v, c, rfl, hne, hread, hvalue, by simpa using hdata⟩

theorem ExpressionStep.frame {text : List Char} {isAnswer : Bool}
    (h : ExpressionStep s (splitRemark text).1 (splitRemark text).2 isAnswer (.ok outcome s'))
    (hsound : s.context.Sound) (htrimmed : s.context.Trimmed) :
    Frame s (.evaluated isAnswer text) outcome s' := by
  have hdeclared := LineKind.declaredName?_evaluated isAnswer text
  cases h with
  | empty hempty =>
    refine .of_not_answers ?_ rfl ?_ (fun _ => rfl) ?_ ?_
    · rintro ⟨text', d, v, c, hkind, hne, -⟩
      obtain ⟨-, rfl⟩ := LineKind.evaluated_eq_expression hkind
      exact hne hempty
    · rw [hdeclared, hempty]
      rfl
    · rw [LineKind.enteredStack?_evaluated]
      exact Bucket.kept_self _
    · rw [LineKind.enteredSection?_evaluated]
      exact Bucket.kept_self _
  | @stored d v c a hne hread hvalue hnote =>
    rw [hread] at hdeclared
    have hdefined : ∃ definitions, c = { s.context with definitions } := by
      rcases valueOf_context hvalue with hc | ⟨e, hc⟩
      · exact ⟨s.context.definitions, hc⟩
      · exact ⟨e.closures ++ s.context.definitions, hc⟩
    have hresolved : s.context.resolveTemplate (itemOf c d v (splitRemark text).2).template
        = (itemOf c d v (splitRemark text).2).template := by
      have hsame : c.resolveTemplate = s.context.resolveTemplate := by
        obtain ⟨definitions, rfl⟩ := hdefined
        rfl
      rw [template_itemOf, hsame]
      exact htrimmed.resolveTemplate_resolveTemplate _
    exact .stored hdefined hsound (answers_evaluated_iff hne hread hvalue) ((name_itemOf hread).trans hdeclared.symm) rfl
      hresolved hnote

/-- **What a line that is accepted leaves alone.** -/
theorem Step.frame (h : Step s kind (.ok outcome s')) (hsound : s.context.Sound)
    (htrimmed : s.context.Trimmed) : Frame s kind outcome s' := by
  cases h with
  | silent h => exact h.frame hsound htrimmed
  | expression h => exact h.frame hsound htrimmed
  | heading name =>
    exact .of_not_evaluates (LineKind.not_evaluates nofun nofun) rfl rfl (Bucket.kept_self _)
      (Bucket.kept_enter _ _ _ _)
  | stack name remark =>
    exact .of_not_evaluates (LineKind.not_evaluates nofun nofun) rfl rfl
      (Bucket.kept_enter _ _ _ _) (Bucket.kept_self _)
  | _ =>
    exact .of_not_evaluates (LineKind.not_evaluates nofun nofun) rfl rfl (Bucket.kept_self _)
      (Bucket.kept_self _)

/-! ## Behind any lines -/

theorem LineEffect.trimmed {c c' : Context} {item? : Option Item} (h : LineEffect c item? c')
    (hc : c.Trimmed) : c'.Trimmed := by
  cases h with
  | unchanged => exact hc
  | heading name => exact hc
  | stack name remark template => exact hc.startStack name remark template
  | @stored c' expr remark d v isAnswer hdefined hread =>
    have hc' : c'.Trimmed := by
      rcases hdefined with rfl | ⟨e, rfl⟩
      · exact hc
      · exact hc
    exact hc'.store _ isAnswer

theorem trimmed_runLines {s : Session} (h : s.context.Trimmed) (lines : List (List Char)) :
    (s.runLines lines).2.context.Trimmed :=
  runLines_invariant (P := fun s => s.context.Trimmed)
    (fun line _ s hs => (lineEffect_run s line).trimmed hs) h

end Session

end Worksheet
