import Worksheet.Expression.Eval

/-!
# What the lines of a worksheet leave behind

Variables, the answers in order, and the stacks and sections that collect the answers. The stack and
the section that were begun last are the current ones; an answer goes to the current stack and to
the current section, if there is one. A worksheet begins with a stack that has no name.

Main definitions: `Context.startStack`, `Context.startSection`, `Context.item` and `Context.store`;
`Context.scope`, the names that an expression can see, and `Context.function?`.
-/

namespace Worksheet

open Text

/-- A value that a line has produced. -/
structure Item where
  /-- The name it was given. -/
  name : Option String
  /-- The value. -/
  value : Value
  /-- The remark behind the expression. -/
  remark : String
  /-- The template it is shown in, empty for its natural text. -/
  template : String
  /-- The name of the stack that was the current one. -/
  stackName : String
  /-- The name of the section that was the current one. -/
  sectionName : String

/-- A stack or a section. -/
structure Bucket where
  /-- The name, empty for the stack that a worksheet begins with. -/
  name : String
  /-- The remark behind its beginning. -/
  remark : String
  /-- The template in which its items are shown, unless they have one of their own. -/
  template : String
  /-- The positions of its items among the answers. -/
  items : List Nat
deriving DecidableEq, Repr

namespace Bucket

/-- A bucket without items. -/
def ofName (name remark template : String) : Bucket :=
  ⟨trimmed name, trimmed remark, trimmed template, []⟩

/-- The bucket with another remark and template where there are such. -/
def renew (b : Bucket) (remark template : String) : Bucket :=
  let remark := trimmed remark
  let template := trimmed template
  { b with
    remark := if remark.isEmpty then b.remark else remark
    template := if template.isEmpty then b.template else template }

/-- The bucket with an item more. -/
def add (b : Bucket) (position : Nat) : Bucket := { b with items := b.items ++ [position] }

/-- The buckets with the one of a name as the last and so the current one, a new one if none has the
name. -/
def enter (bs : List Bucket) (name remark template : String) : List Bucket :=
  match bs.find? fun b => b.name == trimmed name with
  | some b => (bs.filter fun b => b.name != trimmed name) ++ [b.renew remark template]
  | none => bs ++ [ofName name remark template]

/-- The buckets with an item more in the current one. -/
def addToLast (bs : List Bucket) (position : Nat) : List Bucket :=
  match bs with
  | [] => []
  | [b] => [b.add position]
  | b :: rest => b :: addToLast rest position

end Bucket

/-- What the lines of a worksheet have left behind. -/
structure Context where
  /-- The latest item of each name, the one written last at the end. -/
  bindings : List Item
  /-- The answers. -/
  history : List Item
  /-- The stacks, the current one at the end. -/
  stackBuckets : List Bucket
  /-- The sections, the current one at the end. -/
  sectionBuckets : List Bucket
  /-- The parameters and bodies of the functions in lines whose value was a function. -/
  definitions : List (List String × Expr)

namespace Context

/-- At the beginning. -/
def empty : Context := ⟨[], [], [Bucket.ofName "" "Anonymous stack" ""], [], []⟩

instance : Inhabited Context := ⟨empty⟩

/-! ## Stacks and sections -/

/-- Begins a stack, or goes back to the one with the name. -/
def startStack (c : Context) (name remark template : String) : Context :=
  { c with stackBuckets := Bucket.enter c.stackBuckets name remark template }

/-- Begins a section, or goes back to the one with the name. -/
def startSection (c : Context) (name : String) : Context :=
  { c with sectionBuckets := Bucket.enter c.sectionBuckets name "" "" }

/-- The current stack. -/
def currentStack? (c : Context) : Option Bucket := c.stackBuckets.getLast?

/-- The current section. -/
def currentSection? (c : Context) : Option Bucket := c.sectionBuckets.getLast?

/-- The stacks that have a name. -/
def namedStacks (c : Context) : List Bucket := c.stackBuckets.filter fun b => b.name != ""

/-- Is there a stack with this name? -/
def hasStack (c : Context) (name : String) : Bool := c.namedStacks.any fun b => b.name == name

/-- The answers that a bucket holds. -/
def itemsOf (c : Context) (b : Bucket) : List Item :=
  -- an array, so that finding an answer does not take longer the later it is
  let answers := c.history.toArray
  b.items.filterMap fun i => answers[i]?

theorem itemsOf_eq (c : Context) (b : Bucket) :
    c.itemsOf b = b.items.filterMap fun i => c.history[i]? := by
  simp [itemsOf]

/-- The items of the stack with a name. -/
def stackItems (c : Context) (name : String) : List Item :=
  match c.stackBuckets.find? fun b => b.name == name with
  | some b => c.itemsOf b
  | none => []

/-- The values in the current stack. -/
def currentValues (c : Context) : List Value :=
  match c.currentStack? with
  | some b => (c.itemsOf b).map Item.value
  | none => []

/-! ## Items -/

/-- A template, or if it is empty that of the current stack. -/
def resolveTemplate (c : Context) (template : String) : String :=
  let template := trimmed template
  if template.isEmpty then (c.currentStack?.map Bucket.template).getD "" else template

/-- A value as an item of the current stack and section. -/
def item (c : Context) (name : Option String) (value : Value) (remark template : String) : Item :=
  ⟨name.map trimmed, value, trimmed remark, c.resolveTemplate template,
    (c.currentStack?.map Bucket.name).getD "", (c.currentSection?.map Bucket.name).getD ""⟩

/-- Binds an item to its name, if it has one. -/
def bind (c : Context) (item : Item) : Context :=
  if item.name.isNone then c
  else { c with bindings := (c.bindings.filter fun v => v.name != item.name) ++ [item] }

/-- One more answer. -/
def answer (c : Context) (item : Item) : Context :=
  { c with
    history := c.history ++ [item]
    stackBuckets := Bucket.addToLast c.stackBuckets c.history.length
    sectionBuckets := Bucket.addToLast c.sectionBuckets c.history.length }

/-- Records an item, also as an answer if it is said to be one and is no function. -/
def store (c : Context) (item : Item) (isAnswer : Bool) : Context :=
  if isAnswer && !item.value.isCallable then (c.bind item).answer item else c.bind item

/-- The item that a name is bound to. -/
def find? (c : Context) (name : String) : Option Item :=
  c.bindings.find? fun v => v.name == some name

/-- The last answer, zero if there is none. -/
def lastAnswer (c : Context) : Value := (c.history.getLast?.map Item.value).getD (.int 0)

/-! ## Names -/

/-- The names of the last answer. -/
def answerNames : List String := ["ans", "Ans", "ANS"]

/-- The name of the current stack's values. -/
def currentStackName : String := "_stack"

/-- The function that a name calls. -/
def function? (c : Context) (name : String) : Option Callable :=
  if c.hasStack name || answerNames.contains name then none
  else
    match (c.find? name).map Item.value with
    | some (.function f) => some f
    | _ => none

/-- The values of items as a sequence. -/
def sequenceOf (items : List Item) : Datum := .array (items.map fun i => i.value.toDatum)

/-- The names that an expression can see: the current stack hides the last answer, which hides
stacks, which hide variables, which hide constants. -/
def scope (c : Context) : Scope :=
  [(currentStackName, .array (c.currentValues.map Value.toDatum))] ++
    answerNames.map (fun n => (n, c.lastAnswer.toDatum)) ++
    c.namedStacks.map (fun b => (b.name, sequenceOf (c.itemsOf b))) ++
    c.bindings.filterMap (fun v => v.name.map fun n => (n, v.value.toDatum)) ++
    Library.constants

/-! ## Functions -/

/-- Is the function made by a line whose value was a function? -/
def defines (c : Context) (f : Closure) : Bool :=
  c.definitions.any fun (params, body) => params == f.params && body.same f.body

/-- The functions of one more expression are known. -/
def define (c : Context) (e : Expr) : Context :=
  { c with definitions := e.closures ++ c.definitions }

end Context

end Worksheet
