import Worksheet.Number.Decimal

/-!
# Functions on reals

Functions whose results are the nearest real to the exact ones, computed on the binary form of their
arguments, and the way from a real to an integer.
-/

namespace Worksheet.Real

open Decimal

/-- The whole part, toward zero. -/
def truncate (x : Float) : Float := if x < 0.0 then x.ceil else x.floor

/-- The part behind the point. -/
def fraction (x : Float) : Float := x - truncate x

/-- The real nearest to a word; halfway between two of them, the one with the even significand. -/
def ofWord (n : Int64) : Float := .ofModel (.ofInt64 n)

/-- A whole real as an integer, if its magnitude is below `2 ^ 63`. -/
def toWord? (x : Float) : Option Int64 :=
  if !isFinite x || x.abs ≥ 9223372036854775808.0 then none else some x.toInt64

/-- The remainder of the division that rounds toward zero; it has the sign of the dividend. -/
def remainder (x y : Float) : Float :=
  if isNaN x || isNaN y || isInfinite x || y == 0.0 then 0.0 / 0.0
  else if isInfinite y || x == 0.0 then x
  else
    let a := Binary.ofFloat x
    let b := Binary.ofFloat y
    let e := min a.exponent b.exponent
    let m := a.over e % b.over e
    let r := (Float.ofNat m).scaleB e
    if isNegative x then -r else r

/-- The whole part of a root, by bisection of `[low, low + 2 ^ steps)`. -/
def rootBetween (degree n low : Nat) : Nat → Nat
  | 0 => low
  | k + 1 =>
    let middle := low + Nat.pow 2 k
    rootBetween degree n (if Nat.pow middle degree ≤ n then middle else low) k

/-- The whole part of a root. -/
def wholeRoot (degree n : Nat) : Nat := rootBetween degree n 0 (n.log2 / degree + 1)

/-- The root of `n * 2 ^ (degree * e)`. It is taken to about 62 binary digits; whether there are
more of them goes into the last one, so that rounding to a real sees it. -/
def rootOf (degree n : Nat) (e : Int) : Float :=
  let shift := (61 * degree - (n.log2 : Int)) / degree
  let unit := Nat.pow 2 (degree * shift.natAbs)
  let scaled := if 0 ≤ shift then n * unit else n / unit
  let exact := 0 ≤ shift || scaled * unit == n
  let r := wholeRoot degree scaled
  let sticky := if exact && Nat.pow r degree == scaled then r else r ||| 1
  (Float.ofNat sticky).scaleB (e - shift)

/-- The cube root. -/
def cubeRoot (x : Float) : Float :=
  if !isFinite x || x == 0.0 then x
  else
    let b := Binary.ofFloat x
    let r := rootOf 3 (b.mantissa * Nat.pow 2 (b.exponent % 3).toNat) (b.exponent / 3)
    if isNegative x then -r else r

/-- The length of the hypotenuse. -/
def hypotenuse (x y : Float) : Float :=
  if isInfinite x || isInfinite y then 1.0 / 0.0
  else if isNaN x || isNaN y then 0.0 / 0.0
  else
    let a := Binary.ofFloat x
    let b := Binary.ofFloat y
    let e := min a.exponent b.exponent
    let p := a.over e
    let q := b.over e
    if p == 0 && q == 0 then 0.0 else rootOf 2 (p * p + q * q) e

end Worksheet.Real
