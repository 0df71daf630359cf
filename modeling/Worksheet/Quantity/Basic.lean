import Worksheet.Number.Decimal
import Worksheet.Quantity.Unit

/-!
# Quantities

A quantity is a magnitude in coherent units together with its dimension. It may remember the unit
it was written in, which decides only how it is shown.
-/

namespace Worksheet

/-- A physical quantity. -/
structure Quantity where
  /-- The magnitude in coherent units. -/
  si : Float
  /-- What it measures. -/
  dimension : Dimension
  /-- The symbol of the unit to show it in. -/
  unit : Option String

/-- Why an operation on quantities has no result. -/
inductive QuantityError where
  /-- No unit has this symbol. -/
  | unknownUnit (symbol : String)
  /-- The unit measures something else. -/
  | cannotConvert (source target : String)
  /-- The summands measure different things. -/
  | cannotAdd (left right : String)
deriving DecidableEq, Repr

/-- The wording of an error. -/
def QuantityError.message : QuantityError → String
  | unknownUnit symbol => s!"unknown unit '{symbol}'"
  | cannotConvert source target => s!"cannot convert {source} to {target}"
  | cannotAdd left right => s!"cannot add {left} and {right}"

/-- Repeated multiplication by squaring: `acc * base ^ e`. -/
def powBySquaring (acc base : Float) (e : Nat) : Float :=
  if e = 0 then acc
  else powBySquaring (if e % 2 = 1 then acc * base else acc) (base * base) (e / 2)
termination_by e

/-- A real raised to a whole power; a negative exponent inverts the result. -/
def wholePower (x : Float) (n : Int) : Float :=
  let p := powBySquaring 1.0 x n.natAbs
  if n < 0 then 1.0 / p else p

namespace Quantity

/-- One of a unit. -/
def ofSymbol? (symbol : String) : Option Quantity :=
  (MeasureUnit.find? symbol).map fun u => ⟨u.factor, u.dimension, some u.symbol⟩

/-- A magnitude shown in the coherent unit of its dimension, if that has a name. -/
def derived (si : Float) (d : Dimension) : Quantity :=
  ⟨si, d, (MeasureUnit.coherent? d).map fun u => u.symbol⟩

/-- Is it a pure number? -/
def isDimensionless (q : Quantity) : Bool := q.dimension == Dimension.none

/-- The magnitude in the unit it is shown in. -/
def shown (q : Quantity) : Float :=
  match q.unit.bind MeasureUnit.find? with
  | some u => q.si / u.factor
  | none => q.si

/-- The unit it is shown in, or else a product of base units: `m*s^-1`. -/
def unitText (q : Quantity) : String :=
  match q.unit with
  | some u => u
  | none =>
    let parts := (MeasureUnit.baseSymbols.zip q.dimension.toList).filterMap fun (symbol, e) =>
      if e = 0 then none
      else if e = 1 then some symbol
      else some (symbol ++ "^" ++ String.ofList (Text.showInt e.toInt))
    String.intercalate "*" parts

/-- The same quantity shown in another unit, which must measure the same. -/
def convert (q : Quantity) (symbol : String) : Except QuantityError Quantity :=
  match MeasureUnit.find? symbol with
  | none => .error (.unknownUnit symbol)
  | some u =>
    if u.dimension != q.dimension then .error (.cannotConvert q.unitText u.symbol)
    else .ok { q with unit := some u.symbol }

/-- A multiple of the quantity. -/
def scale (q : Quantity) (k : Float) : Quantity := { q with si := q.si * k }

/-- The sum, shown like the left summand, or else like the right one. -/
def add (a b : Quantity) : Except QuantityError Quantity :=
  if a.dimension != b.dimension then .error (.cannotAdd a.unitText b.unitText)
  else .ok ⟨a.si + b.si, a.dimension, a.unit.or b.unit⟩

/-- The product. -/
def mul (a b : Quantity) : Quantity := derived (a.si * b.si) (a.dimension.mul b.dimension)

/-- The quotient. -/
def div (a b : Quantity) : Quantity := derived (a.si / b.si) (a.dimension.div b.dimension)

/-- A whole power. -/
def pow (q : Quantity) (n : Int8) : Quantity :=
  derived (wholePower q.si n.toInt) (q.dimension.pow n)

/-- Magnitude and unit as plain text. -/
def text (q : Quantity) : String :=
  String.ofList (Decimal.shortestText q.shown) ++ " " ++ q.unitText

/-- Equal magnitude and dimension; the unit shown does not count. -/
def same (a b : Quantity) : Bool := a.dimension == b.dimension && a.si == b.si

end Quantity

end Worksheet
