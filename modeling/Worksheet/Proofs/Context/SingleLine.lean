import Worksheet.Proofs.Context.Representation
import Worksheet.Proofs.Text.Parts

/-!
# What a worksheet keeps of its lines

Names, remarks and templates are parts of the lines that they were written in, so that none of them
holds a line feed. `Context.SingleLine` says so of a context; every change of the context keeps it.
-/

namespace Worksheet

open Text

theorem newline_not_mem_trimmed {s : String} (h : '\n' ∉ s.toList) : '\n' ∉ (trimmed s).toList := by
  rw [trimmed, String.toList_ofList]
  exact fun hmem => h (trim_subset _ hmem)

namespace Bucket

variable {bs : List Bucket}

theorem newline_not_mem_enter (hbs : ∀ b ∈ bs, '\n' ∉ b.template.toList)
    {name remark template : String} (htemplate : '\n' ∉ template.toList) :
    ∀ b ∈ enter bs name remark template, '\n' ∉ b.template.toList := by
  have htrimmed := newline_not_mem_trimmed htemplate
  intro b hb
  unfold enter at hb
  split at hb
  · next old hold =>
    rcases List.mem_append.mp hb with hb | hb
    · exact hbs b (List.mem_filter.mp hb).1
    · rw [List.mem_singleton.mp hb]
      unfold renew
      dsimp only
      split
      · exact hbs old (List.mem_of_find?_eq_some hold)
      · exact htrimmed
  · rcases List.mem_append.mp hb with hb | hb
    · exact hbs b hb
    · rw [List.mem_singleton.mp hb]
      exact htrimmed

theorem newline_not_mem_addToLast (hbs : ∀ b ∈ bs, '\n' ∉ b.template.toList) (position : Nat) :
    ∀ b ∈ addToLast bs position, '\n' ∉ b.template.toList := by
  rcases List.eq_nil_or_concat bs with rfl | ⟨init, last, rfl⟩
  · exact hbs
  · intro b hb
    rw [List.concat_eq_append] at hb hbs
    rw [addToLast_concat] at hb
    rcases List.mem_append.mp hb with hb | hb
    · exact hbs b (List.mem_append.mpr (Or.inl hb))
    · rw [List.mem_singleton.mp hb]
      exact hbs last (by simp)

end Bucket

/-- An item whose texts are one line each. -/
structure Item.SingleLine (item : Item) : Prop where
  name : ∀ n, item.name = some n → '\n' ∉ n.toList
  remark : '\n' ∉ item.remark.toList
  template : '\n' ∉ item.template.toList

namespace Context

/-- A context whose texts are one line each. -/
structure SingleLine (c : Context) : Prop where
  bindings : ∀ item ∈ c.bindings, item.SingleLine
  history : ∀ item ∈ c.history, item.SingleLine
  buckets : ∀ b ∈ c.stackBuckets, '\n' ∉ b.template.toList

theorem singleLine_empty : empty.SingleLine where
  bindings := by simp [empty]
  history := by simp [empty]
  buckets := by
    simp only [empty, List.mem_singleton, forall_eq]
    decide +kernel

namespace SingleLine

variable {c : Context}

theorem startStack (h : c.SingleLine) (name remark : String) {template : String}
    (htemplate : '\n' ∉ template.toList) : (c.startStack name remark template).SingleLine :=
  ⟨h.bindings, h.history, Bucket.newline_not_mem_enter h.buckets htemplate⟩

theorem startSection (h : c.SingleLine) (name : String) : (c.startSection name).SingleLine :=
  ⟨h.bindings, h.history, h.buckets⟩

theorem define (h : c.SingleLine) (e : Expr) : (c.define e).SingleLine :=
  ⟨h.bindings, h.history, h.buckets⟩

/-- An item has its own template or that of the stack it belongs to. -/
theorem item (h : c.SingleLine) {name : Option String} (value : Value) {remark template : String}
    (hname : ∀ n, name = some n → '\n' ∉ n.toList) (hremark : '\n' ∉ remark.toList)
    (htemplate : '\n' ∉ template.toList) : (c.item name value remark template).SingleLine where
  name := by
    intro n hn
    obtain ⟨n', hn', rfl⟩ := Option.map_eq_some_iff.mp hn
    exact newline_not_mem_trimmed (hname n' hn')
  remark := newline_not_mem_trimmed hremark
  template := by
    unfold Context.item resolveTemplate
    dsimp only
    split
    · cases hstack : c.currentStack? with
      | none => simp
      | some b => exact h.buckets b (List.mem_of_getLast? hstack)
    · exact newline_not_mem_trimmed htemplate

theorem bind (h : c.SingleLine) {item : Item} (hitem : item.SingleLine) :
    (c.bind item).SingleLine := by
  unfold Context.bind
  split
  · exact h
  · refine ⟨fun v hv => ?_, h.history, h.buckets⟩
    rcases List.mem_append.mp hv with hv | hv
    · exact h.bindings v (List.mem_filter.mp hv).1
    · rwa [List.mem_singleton.mp hv]

theorem answer (h : c.SingleLine) {item : Item} (hitem : item.SingleLine) :
    (c.answer item).SingleLine := by
  refine ⟨h.bindings, fun v hv => ?_, Bucket.newline_not_mem_addToLast h.buckets _⟩
  rcases List.mem_append.mp hv with hv | hv
  · exact h.history v hv
  · rwa [List.mem_singleton.mp hv]

theorem store (h : c.SingleLine) {item : Item} (hitem : item.SingleLine) (isAnswer : Bool) :
    (c.store item isAnswer).SingleLine := by
  unfold Context.store
  split
  · exact (h.bind hitem).answer hitem
  · exact h.bind hitem

theorem find? (h : c.SingleLine) {name : String} {item : Item} (hfind : c.find? name = some item) :
    item.SingleLine :=
  h.bindings item (List.mem_of_find?_eq_some hfind)

theorem stackItems (h : c.SingleLine) (name : String) :
    ∀ item ∈ c.stackItems name, item.SingleLine := by
  intro item hitem
  unfold Context.stackItems at hitem
  split at hitem
  · rw [itemsOf_eq] at hitem
    obtain ⟨i, -, hi⟩ := List.mem_filterMap.mp hitem
    exact h.history item (List.mem_of_getElem? hi)
  · cases hitem

end SingleLine

end Context

end Worksheet
