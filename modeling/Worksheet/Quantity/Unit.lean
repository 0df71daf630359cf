/-!
# Units of measurement

The dimension of a quantity is a vector of seven exponents, one for each base unit. A unit has a
symbol, a dimension and a factor to the coherent unit of that dimension.
-/

namespace Worksheet

/-- Exponents of metre, kilogram, second, ampere, kelvin, mole and candela. -/
abbrev Dimension := Vector Int8 7

namespace Dimension

/-- The dimension of a pure number. -/
def none : Dimension := #v[0, 0, 0, 0, 0, 0, 0]

/-- The exponent nearest to an integer. -/
def clampExponent (n : Int) : Int8 :=
  if n < -128 then -128 else if 127 < n then 127 else Int8.ofInt n

/-- The dimension of a product. Exponents stop at the ends of their range. -/
def mul (a b : Dimension) : Dimension :=
  Vector.zipWith (fun x y => clampExponent (x.toInt + y.toInt)) a b

/-- The dimension of a quotient: the divisor's exponents are negated within their range first. -/
def div (a b : Dimension) : Dimension :=
  Vector.zipWith (fun x y => clampExponent (x.toInt + (clampExponent (-y.toInt)).toInt)) a b

/-- The dimension of a power. Exponents stop at the ends of their range. -/
def pow (a : Dimension) (n : Int8) : Dimension :=
  a.map fun x => clampExponent (x.toInt * n.toInt)

end Dimension

/-- A unit of measurement. -/
structure MeasureUnit where
  /-- How it is written. -/
  symbol : String
  /-- How many coherent units it is worth. -/
  factor : Float
  /-- What it measures. -/
  dimension : Dimension

namespace MeasureUnit

/-- Length. -/
def length : Dimension := #v[1, 0, 0, 0, 0, 0, 0]

/-- Mass. -/
def mass : Dimension := #v[0, 1, 0, 0, 0, 0, 0]

/-- Time. -/
def time : Dimension := #v[0, 0, 1, 0, 0, 0, 0]

/-- Force. -/
def force : Dimension := #v[1, 1, -2, 0, 0, 0, 0]

/-- Energy. -/
def energy : Dimension := #v[2, 1, -2, 0, 0, 0, 0]

/-- Power. -/
def power : Dimension := #v[2, 1, -3, 0, 0, 0, 0]

/-- Pressure. -/
def pressure : Dimension := #v[-1, 1, -2, 0, 0, 0, 0]

/-- The units a worksheet knows. The order matters twice: a text is searched for the symbols in this
order, and the first coherent unit of a dimension names it. -/
def table : List MeasureUnit :=
  [⟨"km", 1000.0, length⟩, ⟨"m", 1.0, length⟩, ⟨"cm", 0.01, length⟩, ⟨"mm", 0.001, length⟩,
   ⟨"ft", 0.3048, length⟩, ⟨"mi", 1609.344, length⟩,
   ⟨"t", 1000.0, mass⟩, ⟨"kg", 1.0, mass⟩, ⟨"g", 0.001, mass⟩, ⟨"mg", 1e-6, mass⟩,
   ⟨"lb", 0.45359237, mass⟩,
   ⟨"h", 3600.0, time⟩, ⟨"s", 1.0, time⟩, ⟨"ms", 0.001, time⟩,
   ⟨"Hz", 1.0, #v[0, 0, -1, 0, 0, 0, 0]⟩,
   ⟨"N", 1.0, force⟩, ⟨"J", 1.0, energy⟩, ⟨"kJ", 1000.0, energy⟩,
   ⟨"W", 1.0, power⟩, ⟨"kW", 1000.0, power⟩, ⟨"Pa", 1.0, pressure⟩, ⟨"kPa", 1000.0, pressure⟩,
   ⟨"A", 1.0, #v[0, 0, 0, 1, 0, 0, 0]⟩, ⟨"V", 1.0, #v[2, 1, -3, -1, 0, 0, 0]⟩,
   ⟨"K", 1.0, #v[0, 0, 0, 0, 1, 0, 0]⟩, ⟨"L", 0.001, #v[3, 0, 0, 0, 0, 0, 0]⟩]

/-- The unit with a symbol. -/
def find? (symbol : String) : Option MeasureUnit := table.find? fun u => u.symbol == symbol

/-- The coherent unit that names a dimension. -/
def coherent? (d : Dimension) : Option MeasureUnit :=
  table.find? fun u => u.dimension == d && u.factor == 1.0

/-- Symbols of the base units, in the order of the exponents. -/
def baseSymbols : List String := ["m", "kg", "s", "A", "K", "mol", "cd"]

end MeasureUnit

end Worksheet
