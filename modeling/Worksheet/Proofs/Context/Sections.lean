import Worksheet.Context

/-!
# A context without its sections

Sections collect answers for the reader. Here they are erased from a context, and every way to read
a context and every way to change it is shown to commute with the erasure. So nothing that a line
computes can tell one set of headings from another.

* **`Context.withoutSections`** — the erasure: no section is left, and no item names one.
* **`Context.withoutSections_startSection`** — a heading leaves no trace behind the erasure.
* **`Context.scope_withoutSections`**, **`function?_withoutSections`** — what expressions can see.
* **`Context.withoutSections_store`** — an item is stored as ever, whatever section it goes to.
-/

namespace Worksheet

/-- The item, with no section named. -/
def Item.withoutSection (v : Item) : Item := { v with sectionName := "" }

namespace Context

/-- The context as if no section had ever been begun. -/
def withoutSections (c : Context) : Context :=
  { c with
    bindings := c.bindings.map Item.withoutSection
    history := c.history.map Item.withoutSection
    sectionBuckets := [] }

variable (c : Context)

theorem withoutSections_withoutSections :
    c.withoutSections.withoutSections = c.withoutSections := by
  unfold withoutSections
  simp only [List.map_map]
  rfl

/-! ## Reading -/

theorem hasStack_withoutSections (name : String) :
    c.withoutSections.hasStack name = c.hasStack name := rfl

theorem resolveTemplate_withoutSections (template : String) :
    c.withoutSections.resolveTemplate template = c.resolveTemplate template := rfl

theorem itemsOf_withoutSections (b : Bucket) :
    c.withoutSections.itemsOf b = (c.itemsOf b).map Item.withoutSection := by
  rw [itemsOf_eq, itemsOf_eq, List.map_filterMap]
  congr 1
  funext i
  exact List.getElem?_map ..

theorem stackItems_withoutSections (name : String) :
    c.withoutSections.stackItems name = (c.stackItems name).map Item.withoutSection := by
  have hbuckets : c.withoutSections.stackBuckets = c.stackBuckets := rfl
  unfold stackItems
  rw [hbuckets]
  cases c.stackBuckets.find? fun b => b.name == name with
  | none => rfl
  | some b => exact c.itemsOf_withoutSections b

theorem currentValues_withoutSections :
    c.withoutSections.currentValues = c.currentValues := by
  have hcurrent : c.withoutSections.currentStack? = c.currentStack? := rfl
  unfold currentValues
  rw [hcurrent]
  cases c.currentStack? with
  | none => rfl
  | some b =>
    dsimp only
    rw [itemsOf_withoutSections, List.map_map]
    rfl

theorem find?_withoutSections (name : String) :
    c.withoutSections.find? name = (c.find? name).map Item.withoutSection :=
  List.find?_map ..

theorem lastAnswer_withoutSections : c.withoutSections.lastAnswer = c.lastAnswer := by
  unfold lastAnswer
  show (((c.history.map Item.withoutSection).getLast?).map Item.value).getD (.int 0) = _
  rw [List.getLast?_map, Option.map_map]
  rfl

theorem function?_withoutSections (name : String) :
    c.withoutSections.function? name = c.function? name := by
  unfold function?
  rw [hasStack_withoutSections, find?_withoutSections, Option.map_map]
  rfl

theorem sequenceOf_withoutSection (items : List Item) :
    sequenceOf (items.map Item.withoutSection) = sequenceOf items := by
  unfold sequenceOf
  rw [List.map_map]
  rfl

/-- **An expression sees the same names.** -/
theorem scope_withoutSections : c.withoutSections.scope = c.scope := by
  have hstacks : c.namedStacks.map (fun b => (b.name, sequenceOf (c.withoutSections.itemsOf b)))
      = c.namedStacks.map fun b => (b.name, sequenceOf (c.itemsOf b)) := by
    refine List.map_congr_left fun b _ => ?_
    rw [itemsOf_withoutSections, sequenceOf_withoutSection]
  have hbindings : (c.bindings.map Item.withoutSection).filterMap
        (fun v => v.name.map fun n => (n, v.value.toDatum))
      = c.bindings.filterMap fun v => v.name.map fun n => (n, v.value.toDatum) :=
    List.filterMap_map ..
  unfold scope
  rw [currentValues_withoutSections, lastAnswer_withoutSections, ← hstacks, ← hbindings]
  rfl

/-! ## Changing -/

theorem withoutSections_startStack (name remark template : String) :
    (c.startStack name remark template).withoutSections
      = c.withoutSections.startStack name remark template := rfl

/-- The item that a context without sections makes names none. -/
theorem withoutSection_item (name : Option String) (v : Value) (remark template : String) :
    (c.item name v remark template).withoutSection
      = c.withoutSections.item name v remark template := by
  unfold item Item.withoutSection
  dsimp only
  rw [resolveTemplate_withoutSections]
  rfl

theorem withoutSections_bind (item : Item) :
    (c.bind item).withoutSections = c.withoutSections.bind item.withoutSection := by
  unfold bind
  show (if item.name.isNone then c else _).withoutSections
    = if item.name.isNone then c.withoutSections else _
  split
  · rfl
  · have hfilter : (c.bindings.filter fun v => v.name != item.name).map Item.withoutSection
        = (c.bindings.map Item.withoutSection).filter fun v => v.name != item.name := by
      rw [List.filter_map]
      rfl
    unfold withoutSections
    simp only [List.map_append, hfilter]
    rfl

theorem withoutSections_answer (item : Item) :
    (c.answer item).withoutSections = c.withoutSections.answer item.withoutSection := by
  unfold answer withoutSections
  simp only [List.map_append, List.length_map]
  rfl

/-- **An item is stored as ever**: the erasure of what is stored is stored in the erasure. -/
theorem withoutSections_store (item : Item) (isAnswer : Bool) :
    (c.store item isAnswer).withoutSections
      = c.withoutSections.store item.withoutSection isAnswer := by
  unfold store
  show _ = if (isAnswer && !item.value.isCallable) = true then _ else _
  split
  · rw [withoutSections_answer, withoutSections_bind]
  · exact c.withoutSections_bind item

end Context

end Worksheet
