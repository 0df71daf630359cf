import Worksheet.Expression.Display
import Worksheet.Expression.Failure
import Worksheet.Number.Real

/-!
# Operators on data

An operator is chosen by the exact kinds of its operands. Plain numbers are added, subtracted and
multiplied in words and reals; division and powers, and every operator that meets a worksheet kind
such as a fraction or a date, follow the arithmetic of values. Comparing data of kinds that do not
go together says that they differ and that neither is before the other.

Main definition: `Operator.apply?`, none if the operator does not take such operands.
-/

namespace Worksheet.Expression

open Arithmetic

/-! ## Plain numbers -/

/-- An integer result, if it fits. -/
def fitting (operation : String) (n : Int) : Evaluated Datum :=
  match word? n with
  | some w => .ok (.int w)
  | none => .error (.overflow operation)

/-- The remainder of two integers, with the sign of the first one. -/
def wordRemainder (a b : Int64) : Evaluated Datum :=
  if b == 0 || (b == -1 && a == Int64.minValue) then .error .remainder
  else .ok (.int (Int64.ofInt (Int.tmod a.toInt b.toInt)))

/-- An integer moved to the left by a number of places, or to the right by a negative one. -/
def shifted (n : Int64) (places : Int) : Int64 :=
  if 64 ≤ places then 0
  else if 0 ≤ places then Int64.ofInt (n.toInt * (Nat.pow 2 places.toNat : Nat))
  else if places ≤ -64 then (if n < 0 then -1 else 0)
  else Int64.ofInt (Int.fdiv n.toInt (Nat.pow 2 (-places).toNat : Nat))

/-- A comparison that an order satisfies. -/
def holds? (op : String) (o : Ordering) : Option Bool :=
  match op with
  | "<" => some o.isLT
  | "<=" => some o.isLE
  | ">" => some o.isGT
  | ">=" => some o.isGE
  | "==" => some o.isEq
  | "!=" => some (!o.isEq)
  | _ => none

/-- A comparison of operands without an order: they differ. -/
def unordered? (op : String) : Option Bool :=
  match op with
  | "!=" => some true
  | "<" | "<=" | ">" | ">=" | "==" => some false
  | _ => none

/-- A comparison, given the order of the operands if they have one. -/
def comparison? (op : String) (o : Option Ordering) : Option (Evaluated Datum) :=
  (match o with
    | some o => holds? op o
    | none => unordered? op).map fun b => .ok (.bool b)

/-- An operator on two integers. -/
def onWords? (op : String) (a b : Int64) : Option (Evaluated Datum) :=
  match op with
  | "+" => some (fitting "Addition" (a.toInt + b.toInt))
  | "-" => some (fitting "Subtraction" (a.toInt - b.toInt))
  | "*" => some (fitting "Multiplication" (a.toInt * b.toInt))
  | "%" => some (wordRemainder a b)
  | "&" => some (.ok (.int (a &&& b)))
  | "|" => some (.ok (.int (a ||| b)))
  | "^" => some (.ok (.int (a ^^^ b)))
  | "<<" => some (.ok (.int (shifted a b.toInt)))
  | ">>" => some (.ok (.int (shifted a (-b.toInt))))
  | ".." => some (.ok (.range a b false))
  | "..=" => some (.ok (.range a b true))
  | _ => comparison? op (some (Ord.compare a.toInt b.toInt))

/-- An operator on two numbers of which one is a real. -/
def onReals? (op : String) (x y : Float) : Option (Evaluated Datum) :=
  match op with
  | "+" => some (.ok (.real (x + y)))
  | "-" => some (.ok (.real (x - y)))
  | "*" => some (.ok (.real (x * y)))
  | "%" => some (.ok (.real (Real.remainder x y)))
  | _ => comparison? op (compareReals x y)

/-! ## Worksheet kinds -/

/-- Is it a number, or of one of the kinds that worksheets add? -/
def isOperand : Datum → Bool
  | .int _ | .real _ | .rational _ | .date _ | .dateTime _ | .duration _ | .period _
  | .quantity _ =>
    true
  | _ => false

/-- Is it of one of the kinds that worksheets add? -/
def isWorksheetKind : Datum → Bool
  | .int _ | .real _ => false
  | d => isOperand d

/-- The arithmetic operator with a symbol. -/
def operator? (symbol : String) : Option Operator :=
  [Operator.add, .sub, .mul, .div, .pow].find? fun op => op.symbol == symbol

/-- An operator on two operands of which one is of a worksheet kind. -/
def onValues? (op : String) (a b : Datum) : Option (Evaluated Datum) :=
  let x := Value.ofDatum a
  let y := Value.ofDatum b
  match operator? op with
  | some op => some (.ofOutcome (binary op x y))
  | none =>
    match op with
    | "==" => some (.ok (.bool (equals x y)))
    | "!=" => some (.ok (.bool (!equals x y)))
    | _ =>
      match compare x y with
      | some o => comparison? op (some o)
      | none => (unordered? op).map fun _ => raise (.arithmetic (.incomparable x.kind y.kind))

/-! ## Texts, truth values and sequences -/

/-- The text without the places where `part` stands. -/
def without (part : List Char) (skip : Nat) : List Char → List Char
  | [] => []
  | c :: r =>
    match skip with
    | k + 1 => without part k r
    | 0 =>
      match part, Text.strip? part (c :: r) with
      | _ :: _, some rest => without part (r.length - rest.length) r
      | _, _ => c :: without part 0 r

/-- The characters of a text or of a single character. -/
def characters? : Datum → Option String
  | .text s => some s
  | .char c => some (String.singleton c)
  | _ => none

/-- An operator of which one operand is a text or a character. -/
def onTexts? (op : String) (a b : Datum) : Option (Evaluated Datum) :=
  match op, characters? a, characters? b with
  | "+", some s, some t => some (.ok (.text (s ++ t)))
  | "+", some s, none =>
    match a with
    | .text _ => some (.ok (.text (s ++ String.ofList b.written)))
    | _ => none
  | "+", none, some t =>
    match b with
    | .text _ => some (.ok (.text (String.ofList a.written ++ t)))
    | _ => none
  | "-", some s, some t =>
    match a with
    | .text _ => some (.ok (.text (String.ofList (without t.toList 0 s.toList))))
    | _ => none
  | op, some s, some t => comparison? op (some (compareTexts s t))
  | op, _, _ => comparison? op none

/-- An operator on two truth values. -/
def onTruth? (op : String) (a b : Bool) : Option (Evaluated Datum) :=
  match op with
  | "&" => some (.ok (.bool (a && b)))
  | "|" => some (.ok (.bool (a || b)))
  | "^" => some (.ok (.bool (a != b)))
  | _ => comparison? op (some (Ord.compare a.toNat b.toNat))

/-- An operator on two operands that need no comparison of items. -/
def onPair? (op : String) (a b : Datum) : Option (Evaluated Datum) :=
  match a, b with
  | .int x, .int y =>
    if op == "/" || op == "**" then onValues? op a b else onWords? op x y
  | .int x, .real y =>
    if op == "/" || op == "**" then onValues? op a b else onReals? op (Real.ofWord x) y
  | .real x, .int y =>
    if op == "/" || op == "**" then onValues? op a b else onReals? op x (Real.ofWord y)
  | .real x, .real y => if op == "/" || op == "**" then onValues? op a b else onReals? op x y
  | .bool x, .bool y => onTruth? op x y
  | .unit, .unit => comparison? op (if op == "==" || op == "!=" then some .eq else none)
  | .array x, .array y => if op == "+" then some (.ok (.array (x ++ y))) else none
  | .range p q r, .range s t u =>
    if op == "==" then some (.ok (.bool (p == s && q == t && r == u)))
    else if op == "!=" then some (.ok (.bool !(p == s && q == t && r == u)))
    else none
  | .function _, .function _ => none
  | a, b =>
    if isOperand a && isOperand b then onValues? op a b
    else if (characters? a).isSome || (characters? b).isSome then onTexts? op a b
    else comparison? op none

/-! ## Equality of sequences -/

mutual
/-- Equality of two data, as the operator decides it. -/
def equal (a b : Datum) : Evaluated Bool :=
  match a, b with
  | .array xs, .array ys => if xs.length = ys.length then equalAll xs ys else .ok false
  | a, b =>
    match onPair? "==" a b with
    | some (.ok (.bool r)) => .ok r
    | some (.error e) => .error e
    | _ => .error (.unknownFunction (callSignature "==" [a, b]))

/-- Equality item by item; the first difference decides. -/
def equalAll : List Datum → List Datum → Evaluated Bool
  | [], [] => .ok true
  | x :: xs, y :: ys => do if ← equal x y then equalAll xs ys else .ok false
  | _, _ => .ok false
end

/-- Does a sequence hold an item equal to the given one? -/
def contains (x : Datum) : List Datum → Evaluated Bool
  | [] => .ok false
  | y :: ys => do if ← equal y x then .ok true else contains x ys

/-- A binary operator on two operands; none if it does not take them. -/
def binaryOperator? (op : String) (a b : Datum) : Option (Evaluated Datum) :=
  match op, a, b with
  | "==", .array x, .array y =>
    some (if x.length = y.length then (equalAll x y).map Datum.bool else .ok (.bool false))
  | "!=", .array x, .array y =>
    some (if x.length = y.length then (equalAll x y).map fun r => .bool !r else .ok (.bool true))
  | op, a, b => onPair? op a b

/-- An operator in front of its operand; none if it does not take it. -/
def unaryOperator? (op : String) (a : Datum) : Option (Evaluated Datum) :=
  match op, a with
  | "-", .int n => some (fitting "Negation" (-n.toInt))
  | "-", .real x => some (.ok (.real (-x)))
  | "-", a => if isWorksheetKind a then some (.ofOutcome (negate (.ofDatum a))) else none
  | "+", .int n => some (.ok (.int n))
  | "+", .real x => some (.ok (.real x))
  | "!", .bool b => some (.ok (.bool (!b)))
  | _, _ => none

end Worksheet.Expression
