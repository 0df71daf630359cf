import Worksheet.Value.Basic

/-!
# Arithmetic on values

Numbers form a tower: integers, exact fractions, reals. An operator works on the wider of its two
operands' kinds; integer division and powers leave the integers only where they have no exact
integer result, and exact fractions fall back to reals when a result does not fit. Dates move by
durations and by months, quantities carry their dimensions along.

Main definitions: `binary`, `negate`, `compare` and `equals`.
-/

namespace Worksheet

/-- An arithmetic operator. -/
inductive Operator where
  /-- Sum. -/
  | add
  /-- Difference. -/
  | sub
  /-- Product. -/
  | mul
  /-- Quotient. -/
  | div
  /-- Power. -/
  | pow
deriving DecidableEq, Repr

/-- How an operator is written. -/
def Operator.symbol : Operator → String
  | add => "+"
  | sub => "-"
  | mul => "*"
  | div => "/"
  | pow => "**"

/-- Why an operation on values has no result. -/
inductive ArithmeticError where
  /-- An exact integer result does not fit. -/
  | integerOverflow
  /-- Division by zero, or zero to a negative power. -/
  | divisionByZero
  /-- A negative base with a fractional exponent. -/
  | fractionalPower
  /-- A date, duration or period out of range. -/
  | dateRange
  /-- A scaled duration out of range. -/
  | durationRange
  /-- An exponent that no quantity can have. -/
  | quantityExponent
  /-- Two quantities that do not go together. -/
  | quantity (e : QuantityError)
  /-- The operator does not take values of these kinds. -/
  | unsupported (op : Operator) (left right : String)
  /-- A value of this kind has no opposite. -/
  | unsupportedNegation (operand : String)
  /-- Values of these kinds have no order. -/
  | incomparable (left right : String)
  /-- There is no least or greatest item. -/
  | emptySequence
deriving DecidableEq, Repr

/-- The wording of an error. -/
def ArithmeticError.message : ArithmeticError → String
  | integerOverflow => "integer overflow"
  | divisionByZero => "division by zero"
  | fractionalPower => "negative number cannot be raised to a fractional power"
  | dateRange => "date value out of range"
  | durationRange => "duration out of range"
  | quantityExponent => "exponent too large for a quantity"
  | quantity e => e.message
  | unsupported op left right =>
    "unsupported operand types for " ++ op.symbol ++ ": '" ++ left ++ "' and '" ++ right ++ "'"
  | unsupportedNegation operand => "bad operand type for unary -: '" ++ operand ++ "'"
  | incomparable left right => "cannot compare '" ++ left ++ "' and '" ++ right ++ "'"
  | emptySequence => "arg is an empty sequence"

namespace Arithmetic

/-- The outcome of an operation. -/
abbrev Outcome := Except ArithmeticError Value

/-- `some` as success, `none` as the given error. -/
def orError {α β : Type} (o : Option α) (f : α → β) (e : ArithmeticError) :
    Except ArithmeticError β :=
  match o with
  | some a => .ok (f a)
  | none => .error e

/-! ## The tower of numbers -/

/-- A number of the tower. -/
inductive Number where
  /-- An integer. -/
  | int (n : Int64)
  /-- An exact fraction. -/
  | rational (f : Fraction)
  /-- A real. -/
  | real (x : Float)

namespace Number

/-- The number a value is, if it is one. A truth value counts as 0 or 1. -/
def ofValue? : Value → Option Number
  | .int n => some (int n)
  | .bool b => some (int (if b then 1 else 0))
  | .rational f => some (rational f)
  | .real x => some (real x)
  | _ => none

/-- The number as a real. -/
def toReal : Number → Float
  | int n => Real.ofWord n
  | rational f => f.toReal
  | real x => x

/-- The number as an exact fraction, unless it is a real. -/
def toFraction? : Number → Option Fraction
  | int n => some (Fraction.ofWord n)
  | rational f => some f
  | real _ => none

end Number

/-- Is the real a whole number? -/
def isWhole (x : Float) : Bool := x.floor == x && !Decimal.isInfinite x

/-- An operator on two reals. -/
def realOp (op : Operator) (x y : Float) : Outcome :=
  match op with
  | .add => .ok (.real (x + y))
  | .sub => .ok (.real (x - y))
  | .mul => .ok (.real (x * y))
  | .div => if y == 0.0 then .error .divisionByZero else .ok (.real (x / y))
  | .pow =>
    if x == 0.0 && y < 0.0 then .error .divisionByZero
    else if x < 0.0 && !isWhole y then .error .fractionalPower
    else .ok (.real (x.pow y))

/-- The exact power of an integer, if the exponent is below `2 ^ 32` and the power fits. -/
def intPow? (x y : Int64) : Option Int64 :=
  if 0 ≤ y.toInt ∧ y.toInt < 0x100000000 then
    (powWithin? (decide <| FitsWord ·) 1 x.toInt y.toInt.toNat).bind word?
  else none

/-- An operator on two integers. -/
def intOp (op : Operator) (x y : Int64) : Outcome :=
  match op with
  | .add => orError (word? (x.toInt + y.toInt)) .int .integerOverflow
  | .sub => orError (word? (x.toInt - y.toInt)) .int .integerOverflow
  | .mul => orError (word? (x.toInt * y.toInt)) .int .integerOverflow
  | .div =>
    if y.toInt = 0 then .error .divisionByZero
    else
      -- the quotient stays an integer only where it is exact and fits
      match if x.toInt.tmod y.toInt = 0 then word? (x.toInt.tdiv y.toInt) else none with
      | some q => .ok (.int q)
      | none => .ok (.real (Real.ofWord x / Real.ofWord y))
  | .pow =>
    if y.toInt < 0 then
      if x.toInt = 0 then .error .divisionByZero
      else .ok (.real ((Real.ofWord x).pow (Real.ofWord y)))
    else
      match intPow? x y with
      | some p => .ok (.int p)
      | none => .ok (.real ((Real.ofWord x).pow (Real.ofWord y)))

/-- An operator on two exact fractions; reals take over where the exact result does not fit. -/
def rationalOp (op : Operator) (x y : Fraction) : Outcome :=
  let settle (exact : Option Fraction) : Outcome :=
    match exact with
    | some f => .ok (.rational f)
    | none => realOp op x.toReal y.toReal
  match op with
  | .add => settle (x.add? y)
  | .sub => settle (x.sub? y)
  | .mul => settle (x.mul? y)
  | .div => if y.num = 0 then .error .divisionByZero else settle (x.div? y)
  | .pow =>
    if !y.isWhole then realOp op x.toReal y.toReal
    else if x.num = 0 ∧ y.num.toInt < 0 then .error .divisionByZero
    else settle (x.pow? y.num)

/-- An operator on two numbers, at the wider of their kinds. -/
def numberOp (op : Operator) (a b : Number) : Outcome :=
  match a, b with
  | .int x, .int y => intOp op x y
  | a, b =>
    match a.toFraction?, b.toFraction? with
    | some x, some y => rationalOp op x y
    | _, _ => realOp op a.toReal b.toReal

/-! ## Quantities -/

/-- A quantity as a value: a pure number is a real. -/
def settle (q : Quantity) : Value :=
  if q.isDimensionless then .real q.si else .quantity q

/-- The sum of two quantities as a value. -/
def quantitySum (x y : Quantity) : Outcome :=
  match x.add y with
  | .ok q => .ok (settle q)
  | .error e => .error (.quantity e)

/-- An operator with at least one quantity. -/
def quantityOp (op : Operator) (a b : Value) : Outcome :=
  let unsupported : ArithmeticError := .unsupported op a.kind b.kind
  let scalar (v : Value) : Option Float := (Number.ofValue? v).map Number.toReal
  match a, b, op with
  | .quantity x, .quantity y, .add => quantitySum x y
  | .quantity x, .quantity y, .sub => quantitySum x (y.scale (-1.0))
  | .quantity x, .quantity y, .mul => .ok (settle (x.mul y))
  | .quantity x, .quantity y, .div =>
    if y.si == 0.0 then .error .divisionByZero else .ok (settle (x.div y))
  | .quantity x, other, .mul | other, .quantity x, .mul =>
    orError (scalar other) (fun k => settle (x.scale k)) unsupported
  | .quantity x, other, .div =>
    match scalar other with
    | none => .error unsupported
    | some k => if k == 0.0 then .error .divisionByZero else .ok (settle (x.scale (1.0 / k)))
  | other, .quantity y, .div =>
    match scalar other with
    | none => .error unsupported
    | some k =>
      if y.si == 0.0 then .error .divisionByZero else .ok (settle ((y.pow (-1)).scale k))
  | .quantity x, .int n, .pow =>
    if -128 ≤ n.toInt ∧ n.toInt ≤ 127 then .ok (settle (x.pow (Int8.ofInt n.toInt)))
    else .error .quantityExponent
  | _, _, _ => .error unsupported

/-! ## Dates, durations and periods -/

/-- A multiple of a duration, counted in whole milliseconds and rounded to them. -/
def scaleDuration (t : Duration) (k : Float) : Outcome :=
  orError (Duration.ofRealMillis? (Real.ofWord (.ofInt t.millis) * k)) .duration .durationRange

/-- A date moved by the whole days of a duration. -/
def shiftDays (d : Date) (n : Int) : Outcome := orError (d.addDays? n) .date .dateRange

/-- A date moved by months. -/
def shiftMonths (d : Date) (p : Period) : Outcome :=
  orError (d.addMonths? p.months.toInt) .date .dateRange

/-- A moment moved by months. -/
def shiftMoment (t : DateTime) (p : Period) : Outcome :=
  orError (t.addMonths? p.months.toInt) .dateTime .dateRange

/-- An operator on dates, moments, durations and periods. -/
def temporalOp (op : Operator) (a b : Value) : Outcome :=
  let unsupported : ArithmeticError := .unsupported op a.kind b.kind
  match op, a, b with
  | .add, .date d, .duration t | .add, .duration t, .date d => shiftDays d t.days
  | .sub, .date d, .duration t => shiftDays d (-t.days)
  | .add, .date d, .period p | .add, .period p, .date d => shiftMonths d p
  | .sub, .date d, .period p => shiftMonths d p.neg
  | .add, .dateTime m, .duration t | .add, .duration t, .dateTime m =>
    orError (m.add? t) .dateTime .dateRange
  | .sub, .dateTime m, .duration t => orError (m.sub? t) .dateTime .dateRange
  | .add, .dateTime m, .period p | .add, .period p, .dateTime m => shiftMoment m p
  | .sub, .dateTime m, .period p => shiftMoment m p.neg
  | .sub, .date x, .date y => orError (x.since? y) .duration .dateRange
  | .sub, .dateTime x, .dateTime y => orError (x.since? y) .duration .dateRange
  | .sub, .dateTime x, .date y => orError (x.since? (.midnight y)) .duration .dateRange
  | .sub, .date x, .dateTime y => orError ((DateTime.midnight x).since? y) .duration .dateRange
  | .add, .duration x, .duration y => orError (x.add? y) .duration .dateRange
  | .sub, .duration x, .duration y => orError (x.sub? y) .duration .dateRange
  | .div, .duration x, .duration y =>
    if y.nanos = 0 then .error .divisionByZero
    else .ok (.real (Real.ofWord (.ofInt x.millis) / Real.ofWord (.ofInt y.millis)))
  | .mul, .duration t, k | .mul, k, .duration t =>
    match Number.ofValue? k with
    | none => .error unsupported
    | some k => scaleDuration t k.toReal
  | .div, .duration t, k =>
    match Number.ofValue? k with
    | none => .error unsupported
    | some k =>
      if k.toReal == 0.0 then .error .divisionByZero else scaleDuration t (1.0 / k.toReal)
  | .add, .period x, .period y => orError (x.add? y) .period .dateRange
  | .sub, .period x, .period y => orError (x.add? y.neg) .period .dateRange
  | .mul, .period p, .int n | .mul, .int n, .period p => orError (p.mul? n) .period .dateRange
  | _, _, _ => .error unsupported

/-! ## The operators on values -/

/-- Applies an operator to two values. -/
def binary (op : Operator) (a b : Value) : Outcome :=
  match Number.ofValue? a, Number.ofValue? b with
  | some x, some y => numberOp op x y
  | _, _ =>
    match op, a, b with
    | op, .quantity x, b => quantityOp op (.quantity x) b
    | op, a, .quantity y => quantityOp op a (.quantity y)
    | .add, .text x, .text y => .ok (.text (x ++ y))
    | .add, .sequence x, .sequence y => .ok (.sequence (x ++ y))
    | op, a, b => temporalOp op a b

/-- The opposite of a value. -/
def negate (v : Value) : Outcome :=
  match v with
  | .int n => orError (word? (-n.toInt)) .int .integerOverflow
  | .real x => .ok (.real (-x))
  | .rational f => .ok (.rational f.neg)
  | .duration t => .ok (.duration t.neg)
  | .period p => .ok (.period p.neg)
  | .quantity q => .ok (.quantity (q.scale (-1.0)))
  | other => .error (.unsupportedNegation other.kind)

/-! ## Order -/

/-- The order of two reals; none if one of them is not a number. -/
def compareReals (x y : Float) : Option Ordering :=
  if x < y then some .lt else if x == y then some .eq else if y < x then some .gt else none

/-- The order of two numbers: exact unless one of them is a real. -/
def compareNumbers (a b : Number) : Option Ordering :=
  match a.toFraction?, b.toFraction? with
  | some x, some y => some (x.compare y)
  | _, _ => compareReals a.toReal b.toReal

/-- The order of two texts, by code points. -/
def compareTexts (a b : String) : Ordering :=
  if a < b then .lt else if a = b then .eq else .gt

/-- The order of two values; none if they have none. -/
def compare (a b : Value) : Option Ordering :=
  match Number.ofValue? a, Number.ofValue? b with
  | some x, some y => compareNumbers x y
  | _, _ =>
    match a, b with
    | .date x, .date y => some (x.compare y)
    | .dateTime x, .dateTime y => some (x.compare y)
    | .date x, .dateTime y => some ((DateTime.midnight x).compare y)
    | .dateTime x, .date y => some (x.compare (.midnight y))
    | .duration x, .duration y => some (x.compare y)
    | .period x, .period y => some (x.compare y)
    | .text x, .text y => some (compareTexts x y)
    | .quantity x, .quantity y =>
      if x.dimension == y.dimension then compareReals x.si y.si else none
    | _, _ => none

/-- Equality across kinds: values with an order are equal if neither is before the other. -/
def equals (a b : Value) : Bool :=
  match compare a b with
  | some o => o == .eq
  | none => a.same b

end Arithmetic

end Worksheet
