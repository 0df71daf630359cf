import Worksheet.Expression.Parse
import Worksheet.Library.Basic

/-!
# Evaluation

The value of an expression in a scope. Arguments are evaluated from left to right before the
function is looked up, only that a variable as the first argument is looked up behind the others;
what selectors take is evaluated before the value they are applied to. A function that an expression
makes keeps the outer variables it mentions as they were when it was made.

Evaluation follows the structure of the expression; the body of a function is evaluated with one
call less to spend, so that calls nest to a limited depth.

Main definitions: `Expr.eval`, `Closure.apply` and `evaluate`.
-/

namespace Worksheet

/-- The variables that an expression can see. Of two with one name the first counts. -/
abbrev Scope := List (String × Datum)

namespace Scope

/-- The value of a variable. -/
def lookup (s : Scope) (name : String) : Evaluated Datum :=
  match s.find? fun v => v.1 == name with
  | some v => .ok v.2
  | none => .error (.unknownName name)

end Scope

/-- How a function is applied to arguments. -/
abbrev Application := Closure → List Datum → Evaluated Datum

namespace Expression

/-! ## Functions that take functions -/

/-- Applies a function to an item, and to its position if it takes two arguments. -/
def onItem (apply : Application) (f : Closure) (item : Datum) (position : Nat) : Evaluated Datum :=
  match f.params.length with
  | 0 => apply f []
  | 1 => apply f [item]
  | _ => apply f [item, .int (Int64.ofNat position)]

/-- Applies a function to what has been accumulated and an item, and to the item's position if it
takes three arguments. -/
def onAccumulated (apply : Application) (f : Closure) (acc item : Datum) (position : Nat) :
    Evaluated Datum :=
  match f.params.length with
  | 1 => apply f [acc]
  | 2 => apply f [acc, item]
  | _ => apply f [acc, item, .int (Int64.ofNat position)]

/-- The results of a function on each item. -/
def mapItems (apply : Application) (f : Closure) (items : List Datum) : Evaluated Datum := do
  let results ← items.zipIdx.mapM fun (d, i) => onItem apply f d i
  .ok (.array results)

/-- The items on which a function is true. -/
def filterItems (apply : Application) (f : Closure) (items : List Datum) : Evaluated Datum := do
  let kept ← items.zipIdx.filterMapM fun (d, i) => do
    match ← onItem apply f d i with
    | .bool true => .ok (some d)
    | _ => .ok none
  .ok (.array kept)

/-- The items joined by a function, from the left. -/
def reduceItems (apply : Application) (f : Closure) (start : Datum) (items : List Datum) :
    Evaluated Datum :=
  items.zipIdx.foldlM (fun acc (d, i) => onAccumulated apply f acc d i) start

/-- Applies a function of the library, or one that takes functions. -/
def invoke (apply : Application) (name : String) (args : List Datum) : Evaluated Datum :=
  match name, args with
  | "call", .function f :: args => apply f args
  | "map", [.array items, .function f] => mapItems apply f items
  | "filter", [.array items, .function f] => filterItems apply f items
  | "reduce", [.array items, .function f] => reduceItems apply f .unit items
  | "reduce", [.array items, .function f, start] => reduceItems apply f start items
  | name, args => Library.apply name args

/-! ## Selectors -/

/-- A selector whose arguments have been evaluated. -/
inductive Selection where
  /-- A property. -/
  | property (name : String)
  /-- A function of the value and arguments. -/
  | method (name : String) (args : List Datum)
  /-- An element. -/
  | index (position : Datum)

/-- What a selector makes of a value. -/
def Selection.apply (application : Application) (d : Datum) : Selection → Evaluated Datum
  | property name => Library.property name d
  | method name args => invoke application name (d :: args)
  | index position => Library.element d position

/-- The truth value that a datum is. -/
def truth : Datum → Evaluated Bool
  | .bool b => .ok b
  | _ => .error .wrongKind

end Expression

namespace Expr

open Expression

mutual
/-- The value of an expression in a scope, given how functions are applied. -/
def eval (apply : Application) (scope : Scope) : Expr → Evaluated Datum
  | .unit => .ok .unit
  | .bool b => .ok (.bool b)
  | .int n => .ok (.int n)
  | .real x => .ok (.real x)
  | .char c => .ok (.char c)
  | .text s => .ok (.text s)
  | .template parts => do
    let ds ← evalAll apply scope parts
    .ok (.text (String.ofList (ds.flatMap Datum.written)))
  | .variable name => scope.lookup name
  | .array items => do
    let ds ← evalAll apply scope items
    .ok (.array ds)
  | .call name (.variable first :: rest) => do
    let ds ← evalAll apply scope rest
    let d ← scope.lookup first
    invoke apply name (d :: ds)
  | .call name args => do
    let ds ← evalAll apply scope args
    invoke apply name ds
  | .select base selectors => do
    let ss ← evalSelectors apply scope selectors
    let d ← eval apply scope base
    ss.foldlM (fun d s => s.apply apply d) d
  | .and left right => do
    if ← truth (← eval apply scope left) then
      let r ← truth (← eval apply scope right)
      .ok (.bool r)
    else .ok (.bool false)
  | .or left right => do
    if ← truth (← eval apply scope left) then .ok (.bool true)
    else
      let r ← truth (← eval apply scope right)
      .ok (.bool r)
  | .coalesce left right => do
    match ← eval apply scope left with
    | .unit => eval apply scope right
    | d => .ok d
  | .conditional condition yes no => do
    if ← truth (← eval apply scope condition) then eval apply scope yes else eval apply scope no
  | .block steps => evalInTurn apply scope steps
  | .assign name value => do
    let _ ← eval apply scope value
    let _ ← scope.lookup name
    .ok .unit
  | .closure params body => do
    let names := (freeNames body).filter fun n => !params.contains n
    let captured ← names.mapM fun n => do .ok (n, ← scope.lookup n)
    .ok (.function (.mk params body captured))

/-- The values of expressions from left to right. -/
def evalAll (apply : Application) (scope : Scope) : List Expr → Evaluated (List Datum)
  | [] => .ok []
  | e :: rest => do
    let d ← eval apply scope e
    let ds ← evalAll apply scope rest
    .ok (d :: ds)

/-- A selector with its arguments evaluated. -/
def evalSelector (apply : Application) (scope : Scope) : Selector → Evaluated Selection
  | .property name => .ok (.property name)
  | .method name args => do
    let ds ← evalAll apply scope args
    .ok (.method name ds)
  | .index position => do
    let d ← eval apply scope position
    .ok (.index d)

/-- Selectors with their arguments evaluated from left to right. -/
def evalSelectors (apply : Application) (scope : Scope) : List Selector → Evaluated (List Selection)
  | [] => .ok []
  | s :: rest => do
    let x ← evalSelector apply scope s
    let xs ← evalSelectors apply scope rest
    .ok (x :: xs)

/-- The last value of expressions in turn; an assignment is seen by those behind it. -/
def evalInTurn (apply : Application) (scope : Scope) : List Expr → Evaluated Datum
  | [] => .ok .unit
  | [e] => eval apply scope e
  | .assign name value :: rest => do
    let d ← eval apply scope value
    let _ ← scope.lookup name
    evalInTurn apply ((name, d) :: scope) rest
  | e :: rest => do
    let _ ← eval apply scope e
    evalInTurn apply scope rest
end

/-- A variable that a function is called on is looked up behind the other arguments. -/
theorem eval_call_variable (apply : Application) (scope : Scope) (name v : String) (rest : List Expr) :
    (Expr.call name (.variable v :: rest)).eval apply scope = (evalAll apply scope rest).bind fun ds =>
      (scope.lookup v).bind fun d => invoke apply name (d :: ds) := rfl

/-- Arguments of which the first is no variable are evaluated in turn. -/
theorem eval_call_of_ne {e : Expr} (he : ∀ v, e ≠ .variable v) (apply : Application) (scope : Scope)
    (name : String) (rest : List Expr) :
    (Expr.call name (e :: rest)).eval apply scope
      = (evalAll apply scope (e :: rest)).bind (invoke apply name) := by
  cases e <;> first | rfl | exact absurd rfl (he _)

/-- There are as many values as expressions. -/
theorem length_of_evalAll {apply : Application} {scope : Scope} {es : List Expr} {ds : List Datum}
    (h : evalAll apply scope es = .ok ds) : ds.length = es.length := by
  induction es generalizing ds with
  | nil =>
    cases h
    rfl
  | cons e rest ih =>
    obtain ⟨d, -, h⟩ := bind_eq_ok h
    obtain ⟨ds', hrest, h⟩ := bind_eq_ok h
    cases h
    exact congrArg Nat.succ (ih hrest)

end Expr

namespace Closure

/-- How deep calls of functions may nest. -/
def callLimit : Nat := 64

/-- Applies a function to arguments, with so many nested calls to spend. -/
def apply (calls : Nat) : Application := fun f args =>
  if f.params.length ≠ args.length then
    .error (.unknownFunction (callSignature f.name (f.captured.map Prod.snd ++ args)))
  else
    match calls with
    | 0 => .error .tooDeep
    | n + 1 =>
      match f.body.eval (apply n) ((f.params.zip args) ++ f.captured) with
      | .ok d => .ok d
      | .error e => .error (.inCall e)

end Closure

/-- The value of an expression in a scope. -/
def Expr.value (e : Expr) (scope : Scope) : Evaluated Datum :=
  e.eval (Closure.apply Closure.callLimit) scope

/-- The value of a text as an expression in a scope. -/
def evaluate (scope : Scope) (text : List Char) : Evaluated Datum :=
  match Expr.parse? text with
  | none => .error .malformed
  | some e => e.value scope

end Worksheet
