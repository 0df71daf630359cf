import Mathlib.Data.List.Nodup
import Worksheet.Context

/-!
# What the buckets of a context hold

A bucket keeps positions among the answers, while every answer carries the names of the stack and of
the section that it was stored in. Buckets are moved when they are entered again, and an answer goes
to whatever bucket is the last one, so that the two views could drift apart. They do not:

* **`Context.Sound`** — the invariant. The positions in a stack are exactly those of the answers
  that carry its name, in order; the positions in a section are some of those that carry its name;
  no two stacks, sections or bindings share a name.
* **`Context.Sound.apply`** — one operation keeps the invariant, by a lemma for each operation.
* **`Context.buckets_partition_history`** — the headline, over any sequence of operations: stacks
  partition the answers, sections do not overlap, and `stackItems` and `currentValues` are the
  answers that carry the name, in order.
-/

namespace Worksheet

open Text

/-! ## Buckets

Entering a bucket moves its name to the end and leaves its items alone; an answer is added to the
last bucket only. -/

namespace Bucket

/-- The names of buckets. -/
def names (bs : List Bucket) : List String := bs.map name

theorem name_renew (b : Bucket) (remark template : String) :
    (b.renew remark template).name = b.name := by
  simp only [renew]

theorem items_renew (b : Bucket) (remark template : String) :
    (b.renew remark template).items = b.items := by
  simp only [renew]

theorem mem_names {bs : List Bucket} {n : String} : n ∈ names bs ↔ ∃ b ∈ bs, b.name = n := by
  simp [names]

theorem not_mem_names_of_find?_eq_none {bs : List Bucket} {n : String}
    (h : bs.find? (fun b => b.name == n) = none) : n ∉ names bs := by
  rw [List.find?_eq_none] at h
  intro hn
  obtain ⟨b, hb, rfl⟩ := mem_names.mp hn
  exact h b hb (by simp)

/-- The names behind `enter`: the entered one stands at the end and nowhere else. -/
theorem names_enter (bs : List Bucket) (name remark template : String) :
    names (enter bs name remark template)
      = (names bs).filter (fun n => n != trimmed name) ++ [trimmed name] := by
  unfold enter
  split
  · next b hb =>
    have hname : b.name = trimmed name := by simpa using List.find?_some hb
    simp [names, renew, hname, List.filter_map, Function.comp_def]
  · next hnone =>
    -- a new name, so that the filter takes nothing away
    have hnew := not_mem_names_of_find?_eq_none hnone
    have hfilter : (names bs).filter (fun n => n != trimmed name) = names bs := by
      rw [List.filter_eq_self]
      intro n hn
      simp only [bne_iff_ne]
      rintro rfl
      exact hnew hn
    rw [hfilter]
    simp [names, ofName]

theorem nodup_names_enter {bs : List Bucket} (h : (names bs).Nodup)
    (name remark template : String) : (names (enter bs name remark template)).Nodup := by
  rw [names_enter, List.nodup_append]
  refine ⟨h.filter _, List.nodup_singleton _, ?_⟩
  intro a ha b hb
  rw [List.mem_singleton] at hb
  subst hb
  simpa using (List.mem_filter.mp ha).2

theorem mem_names_enter_of_mem {bs : List Bucket} {n : String} (h : n ∈ names bs)
    (name remark template : String) : n ∈ names (enter bs name remark template) := by
  rw [names_enter, List.mem_append, List.mem_filter, List.mem_singleton]
  by_cases hn : n = trimmed name
  · exact Or.inr hn
  · exact Or.inl ⟨h, by simpa using hn⟩

/-- A bucket behind `enter` is one from before, up to remark and template, or a new one without
items whose name none had. -/
theorem of_mem_enter {bs : List Bucket} {name remark template : String} {b : Bucket}
    (h : b ∈ enter bs name remark template) :
    (∃ b' ∈ bs, b'.name = b.name ∧ b'.items = b.items) ∨ (b.items = [] ∧ b.name ∉ names bs) := by
  unfold enter at h
  split at h
  · next old hold =>
    have hmem : old ∈ bs := List.mem_of_find?_eq_some hold
    rw [List.mem_append, List.mem_singleton] at h
    rcases h with h | rfl
    · exact Or.inl ⟨b, (List.mem_filter.mp h).1, rfl, rfl⟩
    · exact Or.inl ⟨old, hmem, (name_renew old remark template).symm,
        (items_renew old remark template).symm⟩
  · next hnone =>
    rw [List.mem_append, List.mem_singleton] at h
    rcases h with h | rfl
    · exact Or.inl ⟨b, h, rfl, rfl⟩
    · exact Or.inr ⟨rfl, not_mem_names_of_find?_eq_none hnone⟩

@[simp] theorem addToLast_concat (bs : List Bucket) (b : Bucket) (position : Nat) :
    addToLast (bs ++ [b]) position = bs ++ [b.add position] := by
  induction bs with
  | nil => rfl
  | cons x bs ih =>
    cases bs with
    | nil => rfl
    | cons y bs =>
      rw [List.cons_append, List.cons_append, addToLast, ← List.cons_append, ih]
      · rfl
      · simp

@[simp] theorem names_addToLast (bs : List Bucket) (position : Nat) :
    names (addToLast bs position) = names bs := by
  rcases List.eq_nil_or_concat bs with rfl | ⟨init, b, rfl⟩
  · rfl
  · simp [names, List.concat_eq_append, add]

/-- No two buckets of one list share a name, so a name stands for at most one of them. -/
theorem countP_name_le_one {bs : List Bucket} (h : (names bs).Nodup) (n : String) :
    bs.countP (fun b => b.name == n) ≤ 1 := by
  have hcount := List.nodup_iff_count_le_one.mp h n
  rwa [names, List.count, List.countP_map] at hcount

theorem countP_name_eq_one {bs : List Bucket} (h : (names bs).Nodup) {n : String}
    (hn : n ∈ names bs) : bs.countP (fun b => b.name == n) = 1 := by
  have hcount := List.count_eq_one_of_mem h hn
  rwa [names, List.count, List.countP_map] at hcount

end Bucket

namespace Context

/-! ## Operations -/

/-- What can be done to a context. -/
inductive Operation where
  /-- Forgets everything. -/
  | clear
  /-- Begins a stack or goes back to it. -/
  | startStack (name remark template : String)
  /-- Begins a section or goes back to it. -/
  | startSection (name : String)
  /-- Records a value, also as an answer if it is said to be one. -/
  | store (name : Option String) (value : Value) (remark template : String) (isAnswer : Bool)

/-- The context behind an operation. -/
def apply (c : Context) : Operation → Context
  | .clear => empty
  | .startStack name remark template => c.startStack name remark template
  | .startSection name => c.startSection name
  | .store name value remark template isAnswer =>
    c.store (c.item name value remark template) isAnswer

/-- The context behind operations in turn. -/
def after (c : Context) (ops : List Operation) : Context := ops.foldl apply c

/-! ## The invariant -/

/-- The positions of the answers that carry the name of a stack. -/
def stackPositions (c : Context) (name : String) : List Nat :=
  c.history.findIdxs fun v => v.stackName == name

/-- The positions of the answers that carry the name of a section. -/
def sectionPositions (c : Context) (name : String) : List Nat :=
  c.history.findIdxs fun v => v.sectionName == name

/-- The buckets say the same as the names that the answers carry, and names tell things apart. -/
structure Sound (c : Context) : Prop where
  bindings_named : ∀ v ∈ c.bindings, v.name.isSome
  bindings_nodup : (c.bindings.map Item.name).Nodup
  stacks_nodup : (Bucket.names c.stackBuckets).Nodup
  anonymous_mem : "" ∈ Bucket.names c.stackBuckets
  sections_nodup : (Bucket.names c.sectionBuckets).Nodup
  history_data : ∀ v ∈ c.history, v.value.isCallable = false
  history_stack : ∀ v ∈ c.history, v.stackName ∈ Bucket.names c.stackBuckets
  stack_items : ∀ b ∈ c.stackBuckets, b.items = c.stackPositions b.name
  section_items : ∀ b ∈ c.sectionBuckets, b.items.Sublist (c.sectionPositions b.name)

/-- There is always a current stack, as the one without a name never goes away. -/
theorem Sound.stackBuckets_eq_concat {c : Context} (h : c.Sound) :
    ∃ init b, c.stackBuckets = init ++ [b] := by
  rcases List.eq_nil_or_concat c.stackBuckets with hnil | ⟨init, b, hb⟩
  · have hmem := h.anonymous_mem
    rw [hnil] at hmem
    exact absurd hmem (by simp [Bucket.names])
  · exact ⟨init, b, by rw [hb, List.concat_eq_append]⟩

/-! ## Every operation keeps the invariant -/

theorem sound_empty : empty.Sound where
  bindings_named := by simp [empty]
  bindings_nodup := by simp [empty]
  stacks_nodup := by simp [empty, Bucket.names]
  anonymous_mem := by simp [empty, Bucket.names, Bucket.ofName, trimmed, trim, trimStart, trimEnd]
  sections_nodup := by simp [empty, Bucket.names]
  history_data := by simp [empty]
  history_stack := by simp [empty]
  stack_items := by simp [empty, Bucket.ofName, stackPositions]
  section_items := by simp [empty]

/-- No answer carries a name that no stack has. -/
theorem Sound.stackPositions_eq_nil {c : Context} (h : c.Sound) {n : String}
    (hn : n ∉ Bucket.names c.stackBuckets) : c.stackPositions n = [] := by
  rw [stackPositions, List.findIdxs_eq_nil_iff]
  intro v hv
  rw [beq_eq_false_iff_ne]
  rintro rfl
  exact hn (h.history_stack v hv)

theorem Sound.startStack {c : Context} (h : c.Sound) (name remark template : String) :
    (c.startStack name remark template).Sound where
  bindings_named := h.bindings_named
  bindings_nodup := h.bindings_nodup
  stacks_nodup := Bucket.nodup_names_enter h.stacks_nodup name remark template
  anonymous_mem := Bucket.mem_names_enter_of_mem h.anonymous_mem name remark template
  sections_nodup := h.sections_nodup
  history_data := h.history_data
  history_stack v hv := Bucket.mem_names_enter_of_mem (h.history_stack v hv) name remark template
  stack_items b hb := by
    change b.items = c.stackPositions b.name
    rcases Bucket.of_mem_enter hb with ⟨old, hold, hname, hitems⟩ | ⟨hitems, hnew⟩
    · rw [← hname, ← hitems]
      exact h.stack_items old hold
    · rw [hitems, h.stackPositions_eq_nil hnew]
  section_items := h.section_items

theorem Sound.startSection {c : Context} (h : c.Sound) (name : String) :
    (c.startSection name).Sound where
  bindings_named := h.bindings_named
  bindings_nodup := h.bindings_nodup
  stacks_nodup := h.stacks_nodup
  anonymous_mem := h.anonymous_mem
  sections_nodup := Bucket.nodup_names_enter h.sections_nodup name "" ""
  history_data := h.history_data
  history_stack := h.history_stack
  stack_items := h.stack_items
  section_items b hb := by
    change b.items.Sublist (c.sectionPositions b.name)
    rcases Bucket.of_mem_enter hb with ⟨old, hold, hname, hitems⟩ | ⟨hitems, -⟩
    · rw [← hname, ← hitems]
      exact h.section_items old hold
    · rw [hitems]
      exact List.nil_sublist _

/-- Binding touches the bindings only: an item replaces those of its name. -/
theorem Sound.bind {c : Context} (h : c.Sound) (item : Item) : (c.bind item).Sound := by
  by_cases hnone : item.name.isNone
  · rw [Context.bind, if_pos hnone]
    exact h
  · rw [Context.bind, if_neg hnone]
    -- what is left of the bindings does not have the name of the new one
    have hnew : item.name ∉
        (c.bindings.filter fun v => v.name != item.name).map Item.name := by
      intro hmem
      obtain ⟨v, hv, hname⟩ := List.mem_map.mp hmem
      exact absurd hname (by simpa using (List.mem_filter.mp hv).2)
    refine { h with bindings_named := ?_, bindings_nodup := ?_ }
    · intro v hv
      rw [List.mem_append, List.mem_singleton] at hv
      rcases hv with hv | rfl
      · exact h.bindings_named v (List.mem_filter.mp hv).1
      · simpa [Option.isSome_iff_ne_none] using hnone
    · rw [List.map_append, List.map_singleton]
      have hold : ((c.bindings.filter fun v => v.name != item.name).map Item.name).Nodup :=
        h.bindings_nodup.sublist (List.filter_sublist.map _)
      refine List.nodup_append.mpr ⟨hold, List.nodup_singleton _, ?_⟩
      intro a ha b hb hab
      rw [List.mem_singleton] at hb
      rw [hab, hb] at ha
      exact hnew ha

/-- One more answer is one more position under its name. -/
theorem stackPositions_answer (c : Context) (item : Item) (n : String) :
    (c.answer item).stackPositions n
      = c.stackPositions n ++ if item.stackName = n then [c.history.length] else [] := by
  simp only [stackPositions, answer, List.findIdxs_append, List.findIdxs_singleton, beq_iff_eq]
  simp

theorem sectionPositions_answer (c : Context) (item : Item) (n : String) :
    (c.answer item).sectionPositions n
      = c.sectionPositions n ++ if item.sectionName = n then [c.history.length] else [] := by
  simp only [sectionPositions, answer, List.findIdxs_append, List.findIdxs_singleton, beq_iff_eq]
  simp

/-- An answer that carries the name of the current stack goes to the only stack with that name. -/
theorem Sound.stack_items_answer {c : Context} (h : c.Sound) {item : Item}
    (hstack : some item.stackName = c.currentStack?.map Bucket.name) :
    ∀ b ∈ (c.answer item).stackBuckets, b.items = (c.answer item).stackPositions b.name := by
  obtain ⟨init, last, hlast⟩ := h.stackBuckets_eq_concat
  have hname : item.stackName = last.name := by
    simpa [currentStack?, hlast] using hstack
  have hstacks : (c.answer item).stackBuckets = init ++ [last.add c.history.length] := by
    simp [Context.answer, hlast]
  intro b hb
  rw [hstacks, List.mem_append, List.mem_singleton] at hb
  rw [stackPositions_answer]
  rcases hb with hb | rfl
  · -- another stack than the current one, so its name is not the one that the answer carries
    have hne : last.name ≠ b.name := by
      have hnodup := h.stacks_nodup
      rw [hlast, Bucket.names, List.map_append, List.nodup_append] at hnodup
      exact fun heq => hnodup.2.2 b.name (List.mem_map_of_mem hb) last.name (by simp) heq.symm
    rw [hname, if_neg hne, List.append_nil]
    exact h.stack_items b (by simp [hlast, hb])
  · have hitems : last.items = c.stackPositions last.name :=
      h.stack_items last (by simp [hlast])
    simp [Bucket.add, hname, hitems]

/-- An answer that carries the name of the current section goes to the only section with that name. -/
theorem Sound.section_items_answer {c : Context} (h : c.Sound) {item : Item}
    (hsection : ∀ b, c.currentSection? = some b → item.sectionName = b.name) :
    ∀ b ∈ (c.answer item).sectionBuckets,
      b.items.Sublist ((c.answer item).sectionPositions b.name) := by
  intro b hb
  rw [sectionPositions_answer]
  -- before the first heading there is no section, and no bucket that could get the answer
  rcases List.eq_nil_or_concat c.sectionBuckets with hnil | ⟨init, last, hlast⟩
  · rw [Context.answer, hnil] at hb
    exact absurd hb (by simp [Bucket.addToLast])
  · rw [List.concat_eq_append] at hlast
    have hb' : b ∈ init ++ [last.add c.history.length] := by
      simpa [Context.answer, hlast] using hb
    rw [List.mem_append, List.mem_singleton] at hb'
    rcases hb' with hb' | rfl
    · exact (h.section_items b (by simp [hlast, hb'])).trans (List.sublist_append_left _ _)
    · have hcarried : item.sectionName = last.name := hsection last (by
        simp [currentSection?, hlast])
      have hitems : last.items.Sublist (c.sectionPositions last.name) :=
        h.section_items last (by simp [hlast])
      simp only [Bucket.add, hcarried, if_true]
      exact hitems.append (List.Sublist.refl _)

/-- An answer that carries the names of the current stack and of the current section keeps the
invariant. -/
theorem Sound.answer {c : Context} (h : c.Sound) {item : Item}
    (hdata : item.value.isCallable = false)
    (hstack : some item.stackName = c.currentStack?.map Bucket.name)
    (hsection : ∀ b, c.currentSection? = some b → item.sectionName = b.name) :
    (c.answer item).Sound := by
  have hnames : Bucket.names (c.answer item).stackBuckets = Bucket.names c.stackBuckets :=
    Bucket.names_addToLast _ _
  have hsectionNames :
      Bucket.names (c.answer item).sectionBuckets = Bucket.names c.sectionBuckets :=
    Bucket.names_addToLast _ _
  refine
    { bindings_named := h.bindings_named
      bindings_nodup := h.bindings_nodup
      stacks_nodup := hnames ▸ h.stacks_nodup
      anonymous_mem := hnames ▸ h.anonymous_mem
      sections_nodup := hsectionNames ▸ h.sections_nodup
      history_data := ?_
      history_stack := ?_
      stack_items := h.stack_items_answer hstack
      section_items := h.section_items_answer hsection }
  · intro v hv
    rcases List.mem_append.mp hv with hv | hv
    · exact h.history_data v hv
    · rw [List.mem_singleton.mp hv]
      exact hdata
  · -- the stack whose name the answer carries has been there before
    intro v hv
    rw [hnames]
    rcases List.mem_append.mp hv with hv | hv
    · exact h.history_stack v hv
    · obtain ⟨init, last, hlast⟩ := h.stackBuckets_eq_concat
      rw [List.mem_singleton.mp hv]
      exact Bucket.mem_names.mpr ⟨last, by simp [hlast], by simpa [currentStack?, hlast] using hstack.symm⟩

theorem Sound.store {c : Context} (h : c.Sound) (name : Option String) (value : Value)
    (remark template : String) (isAnswer : Bool) :
    (c.store (c.item name value remark template) isAnswer).Sound := by
  have hbind := h.bind (c.item name value remark template)
  -- binding leaves the buckets alone, so the item still carries the current names
  have hstacks : (c.bind (c.item name value remark template)).stackBuckets = c.stackBuckets := by
    unfold Context.bind; split <;> rfl
  have hsections :
      (c.bind (c.item name value remark template)).sectionBuckets = c.sectionBuckets := by
    unfold Context.bind; split <;> rfl
  unfold Context.store
  split
  · next hanswer =>
    refine hbind.answer ?_ ?_ ?_
    · rw [Bool.and_eq_true] at hanswer
      simpa using hanswer.2
    · obtain ⟨init, last, hlast⟩ := h.stackBuckets_eq_concat
      rw [currentStack?, hstacks]
      simp [item, currentStack?, hlast]
    · intro b hb
      rw [currentSection?, hsections] at hb
      simp [item, currentSection?, hb]
  · exact hbind

/-- One operation keeps the invariant. -/
theorem Sound.apply {c : Context} (h : c.Sound) (op : Operation) : (c.apply op).Sound := by
  cases op with
  | clear => exact sound_empty
  | startStack name remark template => exact h.startStack name remark template
  | startSection name => exact h.startSection name
  | store name value remark template isAnswer => exact h.store name value remark template isAnswer

/-- A whole sequence of operations keeps the invariant. -/
theorem Sound.after {c : Context} (h : c.Sound) (ops : List Operation) : (c.after ops).Sound := by
  induction ops generalizing c with
  | nil => exact h
  | cons op ops ih => exact ih (h.apply op)

/-! ## What the invariant says about the answers -/

/-- Looking up the positions of some answers gives these answers. -/
theorem filterMap_findIdxs (p : Item → Bool) (vs : List Item) :
    (vs.findIdxs p).filterMap (fun i => vs[i]?) = vs.filter p := by
  induction vs with
  | nil => rfl
  | cons v vs ih =>
    -- the positions behind `v` count from one on
    have hrest : (vs.findIdxs p 1).filterMap (fun i => (v :: vs)[i]?) = vs.filter p := by
      rw [List.findIdxs_start, List.filterMap_map]
      simpa [Function.comp_def] using ih
    rw [List.findIdxs_cons, List.filter_cons]
    split
    · simp [hrest]
    · exact hrest

/-- A stack holds the answers that carry its name. -/
theorem Sound.itemsOf_eq_filter {c : Context} (h : c.Sound) {b : Bucket}
    (hb : b ∈ c.stackBuckets) :
    c.itemsOf b = c.history.filter fun v => v.stackName == b.name := by
  rw [itemsOf_eq, h.stack_items b hb, stackPositions, filterMap_findIdxs]

theorem Sound.stackItems_eq_filter {c : Context} (h : c.Sound) (n : String) :
    c.stackItems n = c.history.filter fun v => v.stackName == n := by
  unfold stackItems
  split
  · next b hb =>
    have hname : b.name = n := by simpa using List.find?_some hb
    rw [h.itemsOf_eq_filter (List.mem_of_find?_eq_some hb), hname]
  · next hnone =>
    have hnew := Bucket.not_mem_names_of_find?_eq_none hnone
    symm
    rw [List.filter_eq_nil_iff]
    intro v hv hname
    rw [beq_iff_eq] at hname
    exact hnew (hname ▸ h.history_stack v hv)

theorem Sound.currentStack?_mem {c : Context} (h : c.Sound) :
    ∃ b ∈ c.stackBuckets, c.currentStack? = some b := by
  obtain ⟨init, b, hb⟩ := h.stackBuckets_eq_concat
  exact ⟨b, by simp [hb], by simp [currentStack?, hb]⟩

/-- A position lies in a stack exactly if the answer at it carries the stack's name. -/
theorem Sound.contains_iff {c : Context} (h : c.Sound) {i : Nat} (hi : i < c.history.length)
    {b : Bucket} (hb : b ∈ c.stackBuckets) :
    b.items.contains i = (b.name == c.history[i].stackName) := by
  rw [h.stack_items b hb, stackPositions, Bool.eq_iff_iff, List.contains_iff_mem,
    List.mem_findIdxs_iff_pos_getElem hi]
  simp only [beq_iff_eq]
  exact eq_comm

/-- Stacks partition the answers. -/
theorem Sound.countP_stack {c : Context} (h : c.Sound) {i : Nat} (hi : i < c.history.length) :
    c.stackBuckets.countP (fun b => b.items.contains i) = 1 := by
  have hcongr : c.stackBuckets.countP (fun b => b.items.contains i)
      = c.stackBuckets.countP (fun b => b.name == c.history[i].stackName) :=
    List.countP_congr fun b hb => by rw [h.contains_iff hi hb]
  rw [hcongr]
  exact Bucket.countP_name_eq_one h.stacks_nodup (h.history_stack _ (List.getElem_mem hi))

/-- Sections do not overlap. -/
theorem Sound.countP_section {c : Context} (h : c.Sound) {i : Nat} (hi : i < c.history.length) :
    c.sectionBuckets.countP (fun b => b.items.contains i) ≤ 1 := by
  have hname : ∀ b ∈ c.sectionBuckets,
      b.items.contains i = true → (b.name == c.history[i].sectionName) = true := by
    intro b hb hmem
    have hpos := (h.section_items b hb).subset (List.contains_iff_mem.mp hmem)
    rw [sectionPositions, List.mem_findIdxs_iff_pos_getElem hi, beq_iff_eq] at hpos
    rw [beq_iff_eq, hpos]
  calc c.sectionBuckets.countP (fun b => b.items.contains i)
      ≤ c.sectionBuckets.countP (fun b => b.name == c.history[i].sectionName) :=
        List.countP_mono_left hname
    _ ≤ 1 := Bucket.countP_name_le_one h.sections_nodup _

/-- The positions in a bucket are in order and are positions of answers. -/
theorem Sound.items_ordered {c : Context} (h : c.Sound) {b : Bucket}
    (hb : b ∈ c.stackBuckets ++ c.sectionBuckets) :
    b.items.Pairwise (· < ·) ∧ ∀ i ∈ b.items, i < c.history.length := by
  -- of stacks and sections alike: some of the positions that a search finds from left to right
  obtain ⟨p, hsub⟩ : ∃ p, b.items.Sublist (c.history.findIdxs p) := by
    rcases List.mem_append.mp hb with hb | hb
    · refine ⟨fun v => v.stackName == b.name, ?_⟩
      rw [h.stack_items b hb]
      exact List.Sublist.refl _
    · exact ⟨_, h.section_items b hb⟩
  refine ⟨List.pairwise_findIdxs.sublist hsub, fun i hi => ?_⟩
  simpa using List.lt_add_of_mem_findIdxs i (hsub.subset hi)

/-- **What a context holds, whatever has been done to it.** Names tell bindings, stacks and sections
apart, with exactly one stack that has no name, and there is a current stack. No answer is a
function. Buckets hold positions of answers in order; every answer is in exactly one stack and in at
most one section. So the items of a stack are the answers that carry its name, in order, and the
current values are those of the current stack. -/
theorem buckets_partition_history (ops : List Operation) :
    let c := empty.after ops
    ((c.bindings.map Item.name).Nodup ∧ ∀ v ∈ c.bindings, v.name.isSome) ∧
    ((c.stackBuckets.map Bucket.name).Nodup ∧ c.stackBuckets.countP (fun b => b.name == "") = 1) ∧
    (c.sectionBuckets.map Bucket.name).Nodup ∧
    (∀ v ∈ c.history, v.value.isCallable = false) ∧
    (∀ b ∈ c.stackBuckets ++ c.sectionBuckets,
      b.items.Pairwise (· < ·) ∧ ∀ i ∈ b.items, i < c.history.length) ∧
    (∀ i < c.history.length,
      c.stackBuckets.countP (fun b => b.items.contains i) = 1 ∧
      c.sectionBuckets.countP (fun b => b.items.contains i) ≤ 1) ∧
    (∀ n, c.stackItems n = c.history.filter fun v => v.stackName == n) ∧
    ∃ b ∈ c.stackBuckets, c.currentStack? = some b ∧
      c.currentValues = (c.history.filter fun v => v.stackName == b.name).map Item.value := by
  intro c
  have h : c.Sound := sound_empty.after ops
  obtain ⟨b, hb, hcurrent⟩ := h.currentStack?_mem
  have hvalues : c.currentValues = (c.itemsOf b).map Item.value := by
    rw [currentValues, hcurrent]
  have hanonymous : c.stackBuckets.countP (fun b => b.name == "") = 1 :=
    Bucket.countP_name_eq_one h.stacks_nodup h.anonymous_mem
  refine ⟨⟨h.bindings_nodup, h.bindings_named⟩, ⟨h.stacks_nodup, hanonymous⟩, h.sections_nodup,
    h.history_data, ?_, ?_, ?_, b, hb, hcurrent, ?_⟩
  · intro b hb
    exact h.items_ordered hb
  · intro i hi
    exact ⟨h.countP_stack hi, h.countP_section hi⟩
  · intro n
    exact h.stackItems_eq_filter n
  · rw [hvalues, h.itemsOf_eq_filter hb]

end Context

end Worksheet
