import Worksheet.Arithmetic
import Worksheet.Number.Wide

/-!
# Arithmetic on a machine

The operators on exact numbers and on periods, as a machine carries them out that checks its
arithmetic. Operations on integers look out for what no word holds, so that a machine has nothing to
refuse there. Fractions are computed in wider words, and the opposite of a fraction or of a period is
a plain negation.

Main definitions: `Machine.binary` and `Machine.negate`.
-/

namespace Worksheet.Machine

open Arithmetic

/-- The opposite period. Of the words of 64 bits, the least one has none. -/
def negPeriod (p : Period) : Except Fault Period :=
  if FitsWord (-p.months.toInt) then .ok p.neg else .error .overflow

/-- An operator on two exact fractions. -/
def rationalOp (op : Operator) (x y : Fraction) : Except Fault Outcome :=
  let settle (exact : Option (Int64 × Int64)) : Outcome :=
    match exact.bind fun w => Fraction.ofCoprime? w.1 w.2 with
    | some f => .ok (.rational f)
    | none => realOp op x.toReal y.toReal
  match op with
  | .add => (Wide.add x y).map settle
  | .sub => (Wide.sub x y).map settle
  | .mul => (Wide.mul x y).map settle
  | .div => if y.num = 0 then .ok (.error .divisionByZero) else (Wide.div x y).map settle
  | .pow =>
    if !y.isWhole then .ok (realOp op x.toReal y.toReal)
    else if x.num = 0 ∧ y.num.toInt < 0 then .ok (.error .divisionByZero)
    else (Wide.pow x y.num).map settle

/-- An operator on two numbers, at the wider of their kinds. -/
def numberOp (op : Operator) (a b : Number) : Except Fault Outcome :=
  match a, b with
  | .int x, .int y => .ok (intOp op x y)
  | a, b =>
    match a.toFraction?, b.toFraction? with
    | some x, some y => rationalOp op x y
    | _, _ => .ok (realOp op a.toReal b.toReal)

/-- Applies an operator to two values. The steps are those of numbers and periods; operations on
other values are taken as a whole. -/
def binary (op : Operator) (a b : Value) : Except Fault Outcome :=
  match Number.ofValue? a, Number.ofValue? b with
  | some x, some y => numberOp op x y
  | _, _ =>
    match op, a, b with
    | .sub, .date d, .period p => (negPeriod p).map (shiftMonths d)
    | .sub, .dateTime m, .period p => (negPeriod p).map (shiftMoment m)
    | .sub, .period x, .period y =>
      (negPeriod y).map fun opposite => orError (x.add? opposite) .period .dateRange
    | op, a, b => .ok (Arithmetic.binary op a b)

/-- The opposite of a value. -/
def negate (v : Value) : Except Fault Outcome :=
  match v with
  | .rational f => (Wide.neg f).map fun opposite => .ok (.rational opposite)
  | .period p => (negPeriod p).map fun opposite => .ok (.period opposite)
  | v => .ok (Arithmetic.negate v)

end Worksheet.Machine
