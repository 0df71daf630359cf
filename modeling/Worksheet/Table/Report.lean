import Worksheet.Context
import Worksheet.Display.Template
import Worksheet.LineError
import Worksheet.Table.Layout
import Worksheet.Table.Spec

/-!
# The table of a directive

The variables and stacks that a specification names become rows, one for a variable, one for every
item of a sequence or stack; then come what its aggregates make of the rows. A variable hides a
stack of its name here; a name that is neither shows nothing.

Main definitions: `TableReport.groups`, the rows, and `TableReport.table`.
-/

namespace Worksheet

open Text

namespace TableReport

/-- A row with the value it shows. -/
structure Entry where
  /-- What stands in the columns. -/
  cells : Row
  /-- The value that aggregates see. -/
  value : Value

/-- The rows under a title; those without one have the empty name. -/
structure Group where
  /-- The name of the sequence or stack. -/
  name : String
  /-- The rows. -/
  entries : List Entry

/-- What the rows of a table are taken from. -/
structure Source where
  /-- What earlier lines have left behind. -/
  context : Context
  /-- The settings. -/
  settings : Settings

/-- The titles of the first columns. -/
def headers : Row := ["Var".toList, "Value".toList, "Remark".toList]

/-! ## Rows -/

/-- A value in a template. -/
def shown (s : Source) (template : String) (v : Value) : Except LineError (List Char) :=
  (Display.present s.settings.style template v).mapError .template

/-- The row of an item of a sequence. Two or three items in a sequence of their own are a label, a
value and a remark. -/
def sequenceEntry (s : Source) (template : String) (v : Value) : Except LineError Entry := do
  let style := s.settings.style
  match v with
  | .sequence [label, value] =>
    .ok ⟨[Display.render style label, ← shown s template value, []], value⟩
  | .sequence [label, value, remark] =>
    .ok ⟨[Display.render style label, ← shown s template value, Display.render style remark], value⟩
  | v => .ok ⟨[[], ← shown s template v, []], v⟩

/-- The row of an item with a label. -/
def itemEntry (s : Source) (label : String) (item : Item) : Except LineError Entry := do
  .ok ⟨[label.toList, ← shown s item.template item.value, item.remark.toList], item.value⟩

/-- The groups with more rows under a name, at the end of the last ones if there are such. -/
def addEntries (groups : List Group) (name : String) (entries : List Entry) : List Group :=
  if groups.any (·.name == name) then
    groups.map fun g => if g.name == name then { g with entries := g.entries ++ entries } else g
  else groups ++ [⟨name, entries⟩]

/-- The groups with what a name stands for. -/
def addName (s : Source) (groups : List Group) (name : String) : Except LineError (List Group) := do
  match s.context.find? name with
  | some item =>
    match item.value with
    | .sequence vs => .ok (addEntries groups name (← vs.mapM (sequenceEntry s item.template)))
    | _ => .ok (addEntries groups "" [← itemEntry s name item])
  | none =>
    if s.context.hasStack name then
      let items := (s.context.stackItems name).filter fun i =>
        i.name.isSome || s.settings.showUnassigned
      .ok (addEntries groups name (← items.mapM fun i => itemEntry s (i.name.getD "") i))
    else .ok groups

/-- The rows of a table in their groups, the group without a title in front. -/
def groups (s : Source) (names : List String) : Except LineError (List Group) :=
  names.foldlM (addName s) [⟨"", []⟩]

/-- The values of rows as a sequence. -/
def valuesOf (entries : List Entry) : Value := .sequence (entries.map Entry.value)

/-! ## Aggregates -/

/-- The variables that hold the arguments of an aggregate. -/
def argumentNames (count : Nat) : List String :=
  (List.range count).map fun i => "__arg" ++ String.ofList (showNat i)

/-- The value of a call of a function, written as an expression. -/
def call (s : Source) (function : String) (args : List Value) (used : Nat) : Evaluated Datum :=
  let names := argumentNames args.length
  let text := function ++ "(" ++ String.intercalate ", " (names.take used) ++ ")"
  evaluate (names.zip (args.map Value.toDatum) ++ s.context.scope) text.toList

/-- The value of a function of the worksheet, which must take all arguments, or of a function of the
library, which may take the first of them only. -/
def aggregate (s : Source) (name : String) (args : List Value) : Except LineError Value :=
  if !isIdentifier name.toList then .error (.functionName name)
  else
    let value (r : Evaluated Datum) : Except LineError Value :=
      match r with
      | .ok d => .ok (.ofDatum d)
      | .error e => .error (.evaluation e)
    match s.context.function? name with
    | some f =>
      if f.params.length ≠ args.length then
        .error (.argumentCount name f.params.length args.length)
      else value (call s (name ++ ".call") args args.length)
    | none =>
      match call s name args args.length with
      | .error (.unknownFunction signature) =>
        if 1 < args.length then value (call s name args 1)
        else .error (.evaluation (.unknownFunction signature))
      | r => value r

/-- The cell of an aggregate. -/
def aggregateCell (s : Source) (a : Aggregate) (args : List Value) :
    Except LineError (List Char) := do
  let v ← aggregate s a.function args
  shown s a.template v

/-- The groups with one column more. -/
def addColumn (s : Source) (all : Value) (groups : List Group) (a : Aggregate) :
    Except LineError (List Group) :=
  groups.mapM fun g => do
    let entries ← g.entries.mapM fun e => do
      let cell ← aggregateCell s a [e.value, valuesOf g.entries, all]
      .ok { e with cells := e.cells ++ [cell] }
    .ok { g with entries }

/-- A row with the title and the value of an aggregate. -/
def aggregateRow (s : Source) (a : Aggregate) (args : List Value) : Except LineError Row := do
  .ok [a.title.toList, ← aggregateCell s a args]

/-- The table with a subtotal of every group that has rows. -/
def addSubtotals (s : Source) (all : Value) (groups : List Group) (t : Table) (a : Aggregate) :
    Except LineError Table :=
  (groups.filter fun g => !g.entries.isEmpty).foldlM (fun t g => do
    .ok (t.addSubtotal g.name.toList (← aggregateRow s a [valuesOf g.entries, all]))) t

/-- The table with one total more. -/
def addTotal (s : Source) (all : Value) (t : Table) (a : Aggregate) : Except LineError Table := do
  .ok (t.addTotal (← aggregateRow s a [all]))

/-- A table with the groups and nothing below them. -/
def tableOf (headers : Row) (groups : List Group) : Table :=
  let t := groups.foldl (fun t g =>
    g.entries.foldl (fun t e => t.addRow e.cells) (t.begin g.name.toList)) (Table.ofHeaders headers)
  t.begin []

/-- The table that a specification asks for. -/
def tableOfSpec (s : Source) (spec : TableSpec) : Except LineError Table := do
  let kind (k : AggregateKind) := spec.aggregates.filter fun a => a.kind == k
  let plain ← groups s spec.names
  let all := valuesOf (plain.flatMap Group.entries)
  let full ← (kind .column).foldlM (addColumn s all) plain
  let table := tableOf (headers ++ (kind .column).map fun a => a.title.toList) full
  let table ← (kind .subtotal).foldlM (addSubtotals s all full) table
  (kind .total).foldlM (addTotal s all) table

/-- The table that a directive asks for. -/
def table (s : Source) (directive : List Char) : Except LineError Table :=
  match TableSpec.read directive with
  | .error entry => .error (.tableEntry (String.ofList entry))
  | .ok spec => tableOfSpec s spec

end TableReport

end Worksheet
