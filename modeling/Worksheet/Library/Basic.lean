import Worksheet.Expression.Token
import Worksheet.Library.Calendar
import Worksheet.Library.Chance
import Worksheet.Library.Math
import Worksheet.Library.Sequence

/-!
# The functions of the library

All functions and operators that an expression may apply, apart from those that take functions. A
function is chosen by its name and by the exact kinds of its arguments.

Main definitions: `apply`, `property`, `element` and `constants`.
-/

namespace Worksheet.Library

open Text Expression

/-- The names that every expression knows. -/
def constants : List (String × Datum) :=
  [("pi", .real pi), ("e", .real euler), ("tau", .real 6.283185307179586),
   ("inf", .real (1.0 / 0.0)), ("nan", .real (0.0 / 0.0))]

/-! ## Fractions and quantities -/

/-- The function of fractions with a name, applied to arguments. -/
def rational? (name : String) (args : List Datum) : Option (Evaluated Datum) :=
  match name, args with
  | "Fraction", [.int n, .int d] =>
    some (if d == 0 then raise (.zeroDenominator n)
      else
        match Fraction.ofRatio? n.toInt d.toInt with
        | some f => .ok (.rational f)
        | none => raise .fractionRange)
  | "Fraction", [.int n] => some (.ok (.rational (.ofWord n)))
  | "Fraction", [.real x] =>
    some (match Fraction.ofReal? x with
      | some f => .ok (.rational f)
      | none => raise (.noFraction x))
  | "Fraction", [.text s] =>
    some (match Fraction.parse? s.toList with
      | some f => .ok (.rational f)
      | none => raise (.fractionText s))
  | "approximate", [.rational f] => some (.ok (.rational f.approximate))
  | "limit_denominator", [.rational f] =>
    some (.ok (.rational (f.limitDenominator Fraction.realDenominatorBound)))
  | "limit_denominator", [.rational f, .int bound] =>
    some (if bound < 1 then raise .denominatorBound else .ok (.rational (f.limitDenominator bound)))
  | _, _ => none

/-- The function of quantities with a name, applied to arguments. -/
def quantity? (name : String) (args : List Datum) : Option (Evaluated Datum) :=
  match name, args with
  | "unit", [.text s] =>
    some (match Quantity.ofSymbol? s with
      | some q => .ok (.quantity q)
      | none => raise (.quantity (.unknownUnit s)))
  | "convert", [.quantity q, .text s] =>
    some (match q.convert s with
      | .ok q => .ok (.quantity q)
      | .error e => raise (.quantity e))
  | "magnitude", [.quantity q] => some (.ok (.real q.shown))
  | _, _ => none

/-! ## Texts -/

/-- Does `part` stand in a text? -/
def hasPart (part : List Char) : List Char → Bool
  | [] => part.isEmpty
  | c :: r => (strip? part (c :: r)).isSome || hasPart part r

/-- The integer that a text denotes in a base. -/
def readInteger (s : String) (base : Nat) : Evaluated Datum :=
  let (negative, digits) := Fraction.splitSign (trim s.toList)
  let valid := !digits.isEmpty && digits.all fun c => (digitOf? base c).isSome
  let n : Int := readBase base digits
  match if valid then word? (if negative then -n else n) else none with
  | some w => .ok (.int w)
  | none => raise (.integerText s)

/-- The function of texts, and of data as texts, with a name, applied to arguments. -/
def text? (name : String) (args : List Datum) : Option (Evaluated Datum) :=
  match name, args with
  | "to_string", [d] => some (.ok (.text (String.ofList d.written)))
  | "to_debug", [d] => some (.ok (.text (String.ofList d.quotedForm)))
  | "type_of", [d] => some (.ok (.text d.typeName))
  | "parse_int", [.text s] => some (readInteger s 10)
  | "parse_int", [.text s, .int base] =>
    if 2 ≤ base && base ≤ 16 then some (readInteger s base.toInt.toNat) else none
  | "len", [.text s] => some (.ok (.int (Int64.ofNat s.length)))
  | "len", [.array items] => some (.ok (.int (Int64.ofNat items.length)))
  | "is_empty", [.text s] => some (.ok (.bool s.isEmpty))
  | "is_empty", [.array items] => some (.ok (.bool items.isEmpty))
  | "contains", [.text s, .text part] => some (.ok (.bool (hasPart part.toList s.toList)))
  | "contains", [.text s, .char c] => some (.ok (.bool (s.toList.contains c)))
  | "contains", [.array items, d] => some ((contains d items).map Datum.bool)
  | "contains", [.range low high inclusive, .int n] =>
    some (.ok (.bool (low ≤ n && (n < high || (inclusive && n == high)))))
  | _, _ => none

/-! ## All functions -/

/-- The operator with a symbol, applied to operands. -/
def operator? (name : String) (args : List Datum) : Option (Evaluated Datum) :=
  match args with
  | [a] => unaryOperator? name a
  | [a, b] => binaryOperator? name a b
  | _ => none

/-- The families of functions. -/
def families : List (String → List Datum → Option (Evaluated Datum)) :=
  [operator?, math?, sequence?, calendar?, rational?, quantity?, text?, chance?]

/-- Applies the function or operator with a name to arguments. -/
def apply (name : String) (args : List Datum) : Evaluated Datum :=
  match families.findSome? fun f => f name args with
  | some result => result
  | none => .error (.unknownFunction (callSignature name args))

/-- The property of a datum with a name. -/
def property (name : String) (d : Datum) : Evaluated Datum :=
  match d, name with
  | .rational f, "numerator" => .ok (.int f.num)
  | .rational f, "denominator" => .ok (.int f.den)
  | .text s, "len" => .ok (.int (Int64.ofNat s.length))
  | .text s, "is_empty" => .ok (.bool s.isEmpty)
  | .array items, "len" => .ok (.int (Int64.ofNat items.length))
  | .array items, "is_empty" => .ok (.bool items.isEmpty)
  | d, name =>
    match calendarProperty? name d with
    | some n => .ok (.int (Int64.ofInt n))
    | none => .error (.unknownProperty name d.typeName)

/-- The position that an index denotes in something of a length; a negative one counts from
the end. -/
def position? (length : Nat) (i : Int64) : Option Nat :=
  let n : Int := if i < 0 then length + i.toInt else i.toInt
  if 0 ≤ n ∧ n < length then some n.toNat else none

/-- The element of a datum at an index. -/
def element (d index : Datum) : Evaluated Datum :=
  match d, index with
  | .array items, .int i =>
    match (position? items.length i).bind fun n => items[n]? with
    | some x => .ok x
    | none => .error (.outOfBounds .array i)
  | .text s, .int i =>
    match (position? s.length i).bind fun n => s.toList[n]? with
    | some c => .ok (.char c)
    | none => .error (.outOfBounds .text i)
  | .int n, .int i =>
    match position? 64 i with
    | some k => .ok (.bool (n.toUInt64.toNat.testBit k))
    | none => .error (.outOfBounds .bits i)
  | .array _, _ | .text _, _ | .int _, _ => .error .wrongKind
  | _, _ => .error .notIndexable

end Worksheet.Library
