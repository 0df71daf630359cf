import Worksheet.Expression.Datum

/-!
# Values

The closed set of values that a worksheet line can produce. Conversion to and from the data that
expressions work on loses nothing but the characters, which become texts, and the names of a
function's parameters.

Main statement: `ofDatum_toDatum`, a value without functions survives a round through expressions.
-/

namespace Worksheet

/-- A function as a worksheet keeps it. -/
structure Callable where
  /-- The function itself. -/
  closure : Closure
  /-- The names of its declared parameters, if they are known. -/
  params : List String

/-- The value of a worksheet line. -/
inductive Value where
  /-- No value. -/
  | nothing
  /-- A truth value. -/
  | bool (b : Bool)
  /-- An integer. -/
  | int (n : Int64)
  /-- A real. -/
  | real (x : Float)
  /-- An exact fraction. -/
  | rational (f : Fraction)
  /-- A date. -/
  | date (d : Date)
  /-- A moment. -/
  | dateTime (t : DateTime)
  /-- A duration. -/
  | duration (d : Duration)
  /-- A number of months. -/
  | period (p : Period)
  /-- A text. -/
  | text (s : String)
  /-- A sequence. -/
  | sequence (items : List Value)
  /-- A function. -/
  | function (f : Callable)
  /-- A physical quantity. -/
  | quantity (q : Quantity)

instance : Inhabited Value := ⟨.nothing⟩

namespace Value

mutual
/-- The value that a datum becomes when it leaves an expression. -/
def ofDatum : Datum → Value
  | .unit => .nothing
  | .bool b => .bool b
  | .int n => .int n
  | .real x => .real x
  | .char c => .text (String.singleton c)
  | .text s => .text s
  | .array items => .sequence (ofDatumAll items)
  | .function f => .function ⟨f, []⟩
  | .range low high inclusive =>
    .text (String.ofList (Text.showInt low.toInt ++ (if inclusive then "..=" else "..").toList ++
      Text.showInt high.toInt))
  | .rational f => .rational f
  | .date d => .date d
  | .dateTime t => .dateTime t
  | .duration d => .duration d
  | .period p => .period p
  | .quantity q => .quantity q

/-- `ofDatum` on every item. -/
def ofDatumAll : List Datum → List Value
  | [] => []
  | d :: rest => ofDatum d :: ofDatumAll rest
end

mutual
/-- The datum that stands for a value inside an expression. -/
def toDatum : Value → Datum
  | .nothing => .unit
  | .bool b => .bool b
  | .int n => .int n
  | .real x => .real x
  | .rational f => .rational f
  | .date d => .date d
  | .dateTime t => .dateTime t
  | .duration d => .duration d
  | .period p => .period p
  | .text s => .text s
  | .sequence items => .array (toDatumAll items)
  | .function f => .function f.closure
  | .quantity q => .quantity q

/-- `toDatum` on every item. -/
def toDatumAll : List Value → List Datum
  | [] => []
  | v :: rest => toDatum v :: toDatumAll rest
end

/-- Is it a function? -/
def isCallable : Value → Bool
  | .function _ => true
  | _ => false

/-- The name of a value's kind in messages. -/
def kind : Value → String
  | .nothing => "nothing"
  | .bool _ => "bool"
  | .int _ => "int"
  | .real _ => "float"
  | .rational _ => "fraction"
  | .date _ => "date"
  | .dateTime _ => "datetime"
  | .duration _ => "duration"
  | .period _ => "period"
  | .text _ => "text"
  | .sequence _ => "sequence"
  | .function _ => "function"
  | .quantity _ => "quantity"

/-- A value as a real, if it has a numeric meaning. -/
def toReal? : Value → Option Float
  | .int n => some (Real.ofWord n)
  | .real x => some x
  | .rational f => some f.toReal
  | .bool b => some (if b then 1.0 else 0.0)
  | .quantity q => if q.isDimensionless then some q.si else none
  | _ => none

mutual
/-- Equality within one kind. Functions are equal if their code is, whatever they captured; the unit
a quantity is shown in does not count. -/
def same : Value → Value → Bool
  | .nothing, .nothing => true
  | .bool a, .bool b => a == b
  | .int a, .int b => a == b
  | .real a, .real b => a == b
  | .rational a, .rational b => a == b
  | .date a, .date b => a == b
  | .dateTime a, .dateTime b => a == b
  | .duration a, .duration b => a == b
  | .period a, .period b => a == b
  | .text a, .text b => a == b
  | .sequence a, .sequence b => sameAll a b
  | .function a, .function b =>
    a.closure.params == b.closure.params && a.closure.body.same b.closure.body
  | .quantity a, .quantity b => a.same b
  | _, _ => false

/-- `same` item by item. -/
def sameAll : List Value → List Value → Bool
  | [], [] => true
  | a :: as, b :: bs => same a b && sameAll as bs
  | _, _ => false
end

mutual
/-- Holds no function, at any depth. -/
def IsData : Value → Prop
  | .sequence items => AllData items
  | .function _ => False
  | _ => True

/-- Every item holds no function. -/
def AllData : List Value → Prop
  | [] => True
  | v :: rest => IsData v ∧ AllData rest
end

mutual
/-- A value without functions is what it was after a round through expressions. -/
theorem ofDatum_toDatum : (v : Value) → IsData v → ofDatum (toDatum v) = v
  | .nothing, _ | .bool _, _ | .int _, _ | .real _, _ | .rational _, _ | .date _, _
  | .dateTime _, _ | .duration _, _ | .period _, _ | .text _, _ | .quantity _, _ => by
    simp only [toDatum, ofDatum]
  | .sequence items, h => by
    simp only [toDatum, ofDatum]
    rw [ofDatumAll_toDatumAll items (by simpa only [IsData] using h)]
  | .function f, h => by simp only [IsData] at h

theorem ofDatumAll_toDatumAll : (vs : List Value) → AllData vs → ofDatumAll (toDatumAll vs) = vs
  | [], _ => by simp only [toDatumAll, ofDatumAll]
  | v :: rest, h => by
    simp only [AllData] at h
    simp only [toDatumAll, ofDatumAll]
    rw [ofDatum_toDatum v h.1, ofDatumAll_toDatumAll rest h.2]
end

end Value

end Worksheet
