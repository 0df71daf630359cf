import Worksheet.Line
import Worksheet.Table.Report

/-!
# Running a worksheet line by line

A session is what earlier lines have left behind, with the settings as they are now and the moment
that the clock words denote. A line works on its session in place, one step after the other, and
what a step has changed stays changed when a later one fails. The steps are in such an order that a
line which fails has changed nothing.

Main definitions: `Session.process`, `Session.run` and `Session.variablesReport`.
-/

namespace Worksheet

open Text

/-- What is written below a line. -/
inductive Note where
  /-- The value of an expression. -/
  | answer (text : List Char)
  /-- The declaration of a function. -/
  | function (declaration : List Char)
deriving DecidableEq

/-- How a note is written. -/
def Note.text : Note → List Char
  | answer text => "Answer = ".toList ++ text
  | function declaration => "Function: ".toList ++ declaration

/-- What a line results in. -/
inductive Outcome where
  /-- Nothing to show. -/
  | skipped
  /-- A note. -/
  | noted (a : Note)
  /-- A table. -/
  | table (text : List Char)
deriving DecidableEq

/-- How an outcome is shown apart from its worksheet: an answer without the word in front. -/
def Outcome.text? : Outcome → Option (List Char)
  | skipped => none
  | noted (.answer text) => some text
  | noted a => some a.text
  | table text => some text

/-- A worksheet between two lines. -/
structure Session where
  /-- The settings that a recalculation begins with. -/
  defaults : Settings
  /-- The moment that the clock words denote. -/
  now : DateTime
  /-- The settings. -/
  settings : Settings
  /-- What earlier lines have left behind. -/
  context : Context

namespace Session

/-- At the beginning. -/
def start (defaults : Settings) (now : DateTime) : Session := ⟨defaults, now, defaults, .empty⟩

/-- Back at the beginning. -/
def restart (s : Session) : Session := start s.defaults s.now

/-- Work on a session in place, which may fail half-way. -/
abbrev Work := EStateM LineError Session

/-! ## Values -/

/-- The expression that a declaration in worksheet notation stands for. -/
def expression? (s : Session) (d : Declaration) : Option Expr :=
  let expanded := Notation.expand ⟨s.now, s.settings.naturalUnits⟩ d.body.toList
  Expr.parse? (bindCalls (fun name => (s.context.function? name).isSome) expanded)

theorem expression?_ofList (s : Session) (b : Binding) (text : List Char) :
    s.expression? ⟨b, String.ofList text⟩
      = Expr.parse? (bindCalls (fun name => (s.context.function? name).isSome)
          (Notation.expand ⟨s.now, s.settings.naturalUnits⟩ text)) := by
  unfold expression?
  dsimp only
  rw [String.toList_ofList]

/-- A function with the names of its parameters: those of the declaration, or if it declares no
function those of the function as it was made in a line whose value it was. -/
def named (c : Context) (b : Binding) (f : Closure) : Callable :=
  match b with
  | .function _ params => ⟨f, params⟩
  | _ => ⟨f, if c.defines f then f.params else []⟩

/-- The value of a declaration. If it is a function, the functions of its expression are known from
then on. -/
def evaluate (d : Declaration) : Work Value := do
  let s ← get
  match s.expression? d with
  | none => throw (.evaluation .malformed)
  | some e =>
    match e.value s.context.scope with
    | .error cause => throw (.evaluation cause)
    | .ok result =>
      match Value.ofDatum result with
      | .function f =>
        let c := s.context.define e
        set { s with context := c }
        return .function (named c d.binding f.closure)
      | v => return v

/-! ## Lines -/

/-- What is written below a value. -/
def noteOf (s : Session) (expr : List Char) (template : String) (v : Value) :
    Except LineError Note :=
  if v.isCallable then .ok (.function expr)
  else
    match Display.present s.settings.style template v with
    | .ok text => .ok (.answer text)
    | .error e => .error (.template e)

/-- A note that says nothing is not shown. -/
def outcomeOf : Note → Outcome
  | .answer [] => .skipped
  | a => .noted a

/-- Evaluates an expression with its remark, as an answer or for its name only. -/
def processExpression (text : List Char) (isAnswer : Bool) : Work Outcome := do
  let (expr, remark) := splitRemark text
  if expr.isEmpty then return .skipped
  else
    let (remark, template) := splitTemplate remark
    match Declaration.read expr with
    | .error e => throw (.declaration e)
    | .ok d =>
      let v ← evaluate d
      let s ← get
      let item := s.context.item d.binding.name? v (String.ofList remark) (String.ofList template)
      match s.noteOf expr item.template v with
      | .error e => throw e
      | .ok note =>
        set { s with context := s.context.store item isAnswer }
        return outcomeOf note

/-- What a line results in. -/
def process (line : List Char) : Work Outcome := do
  match LineKind.ofLine line with
  | .blank | .note | .comment | .tableLine => return .skipped
  | .heading name =>
    let s ← get
    set { s with context := s.context.startSection (String.ofList name) }
    return .skipped
  | .stack name remark =>
    let s ← get
    let (remark, template) := splitTemplate remark
    let c :=
      s.context.startStack (String.ofList name) (String.ofList remark) (String.ofList template)
    set { s with context := c }
    return .skipped
  | .setting directive =>
    let s ← get
    match s.settings.change directive with
    | .ok settings =>
      set { s with settings }
      return .skipped
    | .error e => throw (.setting e)
  | .table [] => return .skipped
  | .table spec =>
    let s ← get
    match TableReport.table ⟨s.context, s.settings⟩ spec with
    | .ok t => return .table t.text
    | .error e => throw e
  | .silent text => processExpression text false
  | .expression text => processExpression text true

/-- What a line results in, and the session behind it. -/
def run (s : Session) (line : List Char) : Except LineError Outcome × Session :=
  match (process line).run s with
  | .ok outcome s => (.ok outcome, s)
  | .error e s => (.error e, s)

/-! ## The report of the variables -/

/-- A variable's name and its value as it is shown, in its natural text if its template fails. -/
def variableText? (style : Display.Style) (item : Item) : Option (List Char × List Char) :=
  item.name.map fun name =>
    match Display.present style item.template item.value with
    | .ok text => (name.toList, text)
    | .error _ => (name.toList, Display.render style item.value)

/-- A stack's name and its size. -/
def stackText (b : Bucket) : List Char × List Char :=
  let count := b.items.length
  let size := showNat count ++ (if count = 1 then " item>" else " items>").toList
  ('@' :: b.name.toList, "<Stack of ".toList ++ size)

/-- The names of a worksheet, each with what it stands for. -/
def variableTexts (s : Session) : List (List Char × List Char) :=
  s.context.bindings.filterMap (variableText? s.settings.style) ++
    s.context.namedStacks.map stackText ++
    [("ans".toList, Display.render s.settings.style s.context.lastAnswer)]

/-- The greatest length of texts. -/
def width (texts : List (List Char)) : Nat := (texts.map List.length).foldl max 0

/-- The variables, stacks and last answer in two columns below a title. -/
def variablesReport (s : Session) : List Char :=
  let entries := s.variableTexts
  let nameWidth := width (entries.map Prod.fst)
  let total := nameWidth + width (entries.map Prod.snd) + 3
  joinWith ['\n'] (["VARIABLES".toList, List.replicate total '-'] ++
    entries.map fun (name, text) => Table.fillTo nameWidth name ++ " : ".toList ++ text)

end Session

end Worksheet
