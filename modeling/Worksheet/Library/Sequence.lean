import Worksheet.Expression.Operator

/-!
# Functions of sequences

Sums and other aggregates. They follow the arithmetic of values, so that they take fractions,
durations and quantities as well as plain numbers.

Main definition: `sequence?`, none if the function does not exist or does not take such arguments.
-/

namespace Worksheet.Library

open Arithmetic

/-- The items joined by an operator, from the left; `empty` if there are none. -/
def fold (op : Operator) (empty : Value) : List Value → Outcome
  | [] => .ok empty
  | v :: rest => rest.foldlM (fun acc item => binary op acc item) v

/-- The sum. -/
def sum (items : List Value) : Outcome := fold .add (.int 0) items

/-- The product. -/
def product (items : List Value) : Outcome := fold .mul (.int 1) items

/-- The arithmetic mean. -/
def mean (items : List Value) : Outcome := do
  binary .div (← sum items) (.int (Int64.ofNat (max items.length 1)))

/-- Values that have no order. -/
def incomparable (a b : Value) : ArithmeticError := .incomparable a.kind b.kind

/-- Inserts a value into a list that descends from its head, above the items that are not greater; a
value without an order to an item stays above it, and that is reported. -/
def insertDescending (x : Value) :
    List Value → Option ArithmeticError → List Value × Option ArithmeticError
  | [], failure => ([x], failure)
  | y :: rest, failure =>
    match compare x y with
    | some .lt =>
      let (below, failure) := insertDescending x rest failure
      (y :: below, failure)
    | some _ => (x :: y :: rest, failure)
    | none => (x :: y :: rest, some (incomparable x y))

/-- The items in ascending order, equal ones in their own order. Of several pairs without an order
the last one that is met is reported. -/
def sorted (items : List Value) : Except ArithmeticError (List Value) :=
  let (descending, failure) :=
    items.foldl (fun (acc, failure) x => insertDescending x acc failure) ([], none)
  match failure with
  | some e => .error e
  | none => .ok descending.reverse

/-- The middle item, or the mean of the two middle ones; nothing if there are no items. -/
def median (items : List Value) : Outcome := do
  if items.isEmpty then .ok .nothing
  else
    let s ← sorted items
    let n := s.length
    let upper := s.getD (n / 2) .nothing
    if n % 2 = 1 then .ok upper
    else
      let both ← binary .add (s.getD (n / 2 - 1) .nothing) upper
      binary .div both (.real 2.0)

/-- The first item that no other one is before, in the wanted direction. -/
def extreme (wanted : Ordering) : List Value → Outcome
  | [] => .error .emptySequence
  | v :: rest =>
    rest.foldlM (fun best item =>
      match compare item best with
      | some o => .ok (if o == wanted then item else best)
      | none => .error (incomparable item best)) v

/-- The part of a value in the sum of a group. -/
def share (x : Value) (group : List Value) : Outcome := do binary .div x (← sum group)

/-- The item at a position counted from the end, beginning with 1; zero if there is none. -/
def fromTop (stack : List Datum) (n : Int64) : Datum :=
  if 1 ≤ n.toInt ∧ n.toInt ≤ stack.length then stack.getD (stack.length - n.toInt.toNat) (.int 0)
  else .int 0

/-- Is it a plain number? -/
def isPlain : Datum → Bool
  | .int _ | .real _ => true
  | _ => false

/-- The extreme of a sequence, of two plain numbers or of two texts. -/
def extreme? (wanted : Ordering) (args : List Datum) : Option (Evaluated Datum) :=
  match args with
  | [.array items] => some (.ofOutcome (extreme wanted (Value.ofDatumAll items)))
  | [a, b] =>
    if isPlain a && isPlain b then some (.ofOutcome (extreme wanted [.ofDatum a, .ofDatum b]))
    else
      match a, b with
      | .text s, .text t =>
        some (.ok (.text (if compareTexts s t == wanted || s == t then s else t)))
      | _, _ => none
  | _ => none

/-- The function of sequences with a name, applied to arguments. -/
def sequence? (name : String) (args : List Datum) : Option (Evaluated Datum) :=
  let aggregate (f : List Value → Outcome) :=
    match args with
    | [.array items] => some (Evaluated.ofOutcome (f (Value.ofDatumAll items)))
    | _ => none
  match name, args with
  | "sum", _ => aggregate sum
  | "prod", _ => aggregate product
  | "mean", _ | "avg", _ => aggregate mean
  | "median", _ => aggregate median
  | "count", [.array items] => some (.ok (.int (Int64.ofNat items.length)))
  | "min", args => extreme? .lt args
  | "max", args => extreme? .gt args
  | "sorted", _ => aggregate fun vs => (sorted vs).map Value.sequence
  | "share", [x, .array group] | "share", [x, .array group, .array _] =>
    some (.ofOutcome (share (.ofDatum x) (Value.ofDatumAll group)))
  | "stack_at", [.array stack, .int n] => some (.ok (fromTop stack n))
  | _, _ => none

end Worksheet.Library
