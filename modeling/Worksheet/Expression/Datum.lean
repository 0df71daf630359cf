import Worksheet.Calendar.DateTime
import Worksheet.Expression.Digest
import Worksheet.Number.Fraction
import Worksheet.Quantity.Basic

/-!
# What expressions work on

A datum is a value inside an expression. Its kinds are told apart exactly: an operator is chosen by
the kinds of its operands, and an integer is never turned into a real to find one.
-/

namespace Worksheet

mutual
/-- A value inside an expression. -/
inductive Datum where
  /-- The absent value. -/
  | unit
  /-- A truth value. -/
  | bool (b : Bool)
  /-- An integer. -/
  | int (n : Int64)
  /-- A real. -/
  | real (x : Float)
  /-- A character. -/
  | char (c : Char)
  /-- A text. -/
  | text (s : String)
  /-- A sequence. -/
  | array (items : List Datum)
  /-- A function. -/
  | function (f : Closure)
  /-- A range of integers, with or without its upper end. -/
  | range (low high : Int64) (inclusive : Bool)
  /-- An exact fraction. -/
  | rational (f : Fraction)
  /-- A date. -/
  | date (d : Date)
  /-- A moment. -/
  | dateTime (t : DateTime)
  /-- A duration. -/
  | duration (d : Duration)
  /-- A number of months. -/
  | period (p : Period)
  /-- A physical quantity. -/
  | quantity (q : Quantity)

/-- A function: its parameters, its body, and the outer variables that the body mentions with the
values they had when the function was made. -/
inductive Closure where
  /-- Parameters, body, captured variables. -/
  | mk (params : List String) (body : Expr) (captured : List (String × Datum))
end

namespace Closure

/-- The parameters. -/
def params : Closure → List String
  | mk params _ _ => params

/-- The body. -/
def body : Closure → Expr
  | mk _ body _ => body

/-- The captured variables. -/
def captured : Closure → List (String × Datum)
  | mk _ _ captured => captured

/-- The name by which messages call it. -/
def name (f : Closure) : String := functionName f.params f.body

end Closure

namespace Datum

/-- The name of a datum's kind. -/
def typeName : Datum → String
  | .unit => "()"
  | .bool _ => "bool"
  | .int _ => "i64"
  | .real _ => "f64"
  | .char _ => "char"
  | .text _ => "string"
  | .array _ => "array"
  | .function _ => "Fn"
  | .range _ _ false => "range"
  | .range _ _ true => "range="
  | .rational _ => "Fraction"
  | .date _ => "Date"
  | .dateTime _ => "DateTime"
  | .duration _ => "Duration"
  | .period _ => "Period"
  | .quantity _ => "Quantity"

/-- The name of a datum's kind as an argument of a function. -/
def argumentTypeName : Datum → String
  | .text _ => "&str | ImmutableString | String"
  | d => d.typeName

end Datum

/-- A function's name with the kinds of the arguments it was called with. -/
def callSignature (name : String) (args : List Datum) : String :=
  name ++ " (" ++ String.intercalate ", " (args.map Datum.argumentTypeName) ++ ")"

end Worksheet
