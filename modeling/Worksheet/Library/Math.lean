import Worksheet.Expression.Failure
import Worksheet.Number.Real

/-!
# Mathematical functions

Functions of real and whole numbers. A real function takes integers and exact fractions as well, and
objects where it has no value; a function that rounds gives an integer.

Main definition: `math?`, none if the function does not exist or does not take such arguments.
-/

namespace Worksheet.Library

/-- The ratio of a circle's circumference to its diameter. -/
def pi : Float := 3.141592653589793

/-- The base of the natural logarithm. -/
def euler : Float := 2.718281828459045

/-- The functions from reals to reals. -/
def realFunction? (name : String) : Option (Float → Float) :=
  match name with
  | "sqrt" => some Float.sqrt
  | "cbrt" => some Real.cubeRoot
  | "exp" => some Float.exp
  | "ln" | "log" => some Float.log
  | "log10" => some Float.log10
  | "log2" => some Float.log2
  | "sin" => some Float.sin
  | "cos" => some Float.cos
  | "tan" => some Float.tan
  | "asin" => some Float.asin
  | "acos" => some Float.acos
  | "atan" => some Float.atan
  | "sinh" => some Float.sinh
  | "cosh" => some Float.cosh
  | "tanh" => some Float.tanh
  | "degrees" => some fun x => x * (180.0 / pi)
  | "radians" => some fun x => x * (pi / 180.0)
  | "float" => some fun x => x
  | _ => none

/-- The functions that round a real to a whole number. -/
def rounding? (name : String) : Option (Float → Float) :=
  match name with
  | "floor" => some Float.floor
  | "ceil" => some Float.ceil
  | "round" => some Float.round
  | "trunc" | "int" => some Real.truncate
  | _ => none

/-- The value of a real function, which must be a number if its argument is one. -/
def checkedReal (argument value : Float) : Evaluated Datum :=
  if Decimal.isNaN value && !Decimal.isNaN argument then raise .mathDomain else .ok (.real value)

/-- A whole real as an integer. -/
def toWord (x : Float) : Evaluated Int64 :=
  match Real.toWord? x with
  | some n => .ok n
  | none => raise .notWord

/-- A plain number or fraction as a real. -/
def realArgument? : Datum → Option Float
  | .int n => some (Real.ofWord n)
  | .real x => some x
  | .rational f => some f.toReal
  | _ => none

/-- The size of an integer, which a word without a sign always holds. -/
def magnitude (n : Int64) : UInt64 := UInt64.ofNat n.toInt.natAbs

/-- Euclid's algorithm. -/
def euclid (a b : UInt64) : UInt64 := if b = 0 then a else euclid b (a % b)
termination_by b.toNat
decreasing_by
  next hb =>
    rw [UInt64.toNat_mod]
    exact Nat.mod_lt _ (Nat.pos_of_ne_zero fun h => hb (UInt64.toNat_inj.mp h))

/-- The greatest common divisor of the sizes, read as a word with a sign. -/
def gcd (a b : Int64) : Int64 := (euclid (magnitude a) (magnitude b)).toInt64

/-- The quotient of two integers, rounded towards zero. -/
def quotient (a b : Int64) : Evaluated Int64 :=
  if b == 0 then .error (.fault .divisionByZero) else inWord (a.toInt.tdiv b.toInt)

/-- The least common multiple. Whether the product fits is looked at, whether its size does is not. -/
def lcm (a b : Int64) : Evaluated Int64 :=
  if a == 0 || b == 0 then .ok 0
  else do
    let q ← quotient a (gcd a b)
    match word? (q.toInt * b.toInt) with
    | some n => inWord n.toInt.natAbs
    | none => raise (.arithmetic .integerOverflow)

/-- The product of `k`, `k + 1` and so on, `count` factors in all, times `exact`, if it fits, and
times `approx`; none if the latter is infinite. -/
def risingProduct (exact : Option Int64) (approx : Float) (k : Nat) :
    Nat → Option (Option Int64 × Float)
  | 0 => some (exact, approx)
  | count + 1 =>
    let approx := approx * Float.ofNat k
    if Decimal.isInfinite approx then none
    else risingProduct (exact.bind fun e => word? (e.toInt * k)) approx (k + 1) count

/-- The number above which no factorial is finite. -/
def factorialBound : Nat := 171

/-- The factorial: exact if it fits in a word. -/
def factorial (n : Int64) : Evaluated Datum :=
  if n < 0 then raise .negativeFactorial
  else
    match risingProduct (some 1) 1.0 2 (min n.toInt.toNat factorialBound - 1) with
    | none => raise .hugeFactorial
    | some (some exact, _) => .ok (.int exact)
    | some (none, approx) => .ok (.real approx)

/-- A real rounded to a number of decimal places. -/
def roundTo (x : Float) (digits : Int64) : Evaluated Datum :=
  if digits < -2147483648 || 2147483647 < digits then raise .digitRange
  else
    let scale := wholePower 10.0 digits.toInt
    .ok (.real ((x * scale).round / scale))

/-- The absolute value. -/
def absolute? : Datum → Option (Evaluated Datum)
  | .int n =>
    some (if n < 0 then
        match word? (-n.toInt) with
        | some m => .ok (.int m)
        | none => .error (.overflow "Negation")
      else .ok (.int n))
  | .real x => some (.ok (.real x.abs))
  | .rational f => some (.ok (.rational (if f.num < 0 then f.neg else f)))
  | .duration t => some (.ok (.duration t.abs))
  | .quantity q => some (.ok (.quantity { q with si := q.si.abs }))
  | _ => none

/-- The mathematical function with a name, applied to arguments. -/
def math? (name : String) (args : List Datum) : Option (Evaluated Datum) :=
  match name, args with
  | "log", [.real x, .real base] => some (checkedReal x (x.log / base.log))
  | "log", [.int x, .int base] =>
    some (checkedReal (Real.ofWord x) ((Real.ofWord x).log / (Real.ofWord base).log))
  | "atan2", [.real y, .real x] => some (.ok (.real (Float.atan2 y x)))
  | "atan2", [.int y, .int x] => some (.ok (.real (Float.atan2 (Real.ofWord y) (Real.ofWord x))))
  | "hypot", [.real x, .real y] => some (.ok (.real (Real.hypotenuse x y)))
  | "hypot", [.int x, .int y] =>
    some (.ok (.real (Real.hypotenuse (Real.ofWord x) (Real.ofWord y))))
  | "round", [.real x, .int digits] => some (roundTo x digits)
  | "round", [.int n, .int _] => some (.ok (.int n))
  | "abs", [a] => absolute? a
  | "gcd", [.int a, .int b] => some (.ok (.int (gcd a b)))
  | "lcm", [.int a, .int b] => some ((lcm a b).map Datum.int)
  | "factorial", [.int n] => some (factorial n)
  | "factorial", [.real x] =>
    some (if Real.fraction x == 0.0 then do factorial (← toWord x) else raise .fractionalFactorial)
  | name, [a] =>
    match realFunction? name, rounding? name, a with
    | some f, _, a => (realArgument? a).map fun x => checkedReal x (f x)
    | none, some _, .int n => some (.ok (.int n))
    | none, some f, a => (realArgument? a).map fun x => (toWord (f x)).map Datum.int
    | none, none, _ => none
  | _, _ => none

end Worksheet.Library
