import Worksheet.Text.Digits

/-!
# Decimal text of binary reals

A finite real is exactly `mantissa * 2 ^ exponent`, so every question about its decimal digits is
one of exact integer arithmetic. Two families of texts are built here: a given number of decimal
places or digits, where a value halfway between two candidates goes to the even one, and the fewest
digits that read back as the same real, where the candidate nearest to the value wins.

Main definitions: `fixed`, `scientific`, `shortest`, and `read`, which rounds a decimal numeral to
the nearest real.
-/

namespace Worksheet.Decimal

open Worksheet.Text

/-- The absolute value of a finite real, `mantissa * 2 ^ exponent`. -/
structure Binary where
  /-- The integer significand. -/
  mantissa : Nat
  /-- The power of two it is scaled by. -/
  exponent : Int
deriving Repr, DecidableEq

/-- The sign bit. -/
def isNegative (x : Float) : Bool := x.toBits.toNat / 0x8000000000000000 == 1

/-- Not a number. -/
def isNaN (x : Float) : Bool :=
  x.toBits.toNat / 0x10000000000000 % 2048 == 2047 && x.toBits.toNat % 0x10000000000000 != 0

/-- One of the two infinities. -/
def isInfinite (x : Float) : Bool :=
  x.toBits.toNat / 0x10000000000000 % 2048 == 2047 && x.toBits.toNat % 0x10000000000000 == 0

/-- Neither infinite nor not a number. -/
def isFinite (x : Float) : Bool := x.toBits.toNat / 0x10000000000000 % 2048 != 2047

/-- The binary significand and exponent of the absolute value of a finite real. -/
def Binary.ofFloat (x : Float) : Binary :=
  let bits := x.toBits.toNat
  let biased : Nat := bits / 0x10000000000000 % 2048
  let field : Nat := bits % 0x10000000000000
  if biased = 0 then ⟨field, -1074⟩ else ⟨field + 0x10000000000000, (biased : Int) - 1075⟩

/-- Numerator of the exact value as a fraction of natural numbers. -/
def Binary.num (b : Binary) : Nat := b.mantissa * Nat.pow 2 b.exponent.toNat

/-- Denominator of the exact value, a power of two. -/
def Binary.den (b : Binary) : Nat := Nat.pow 2 (-b.exponent).toNat

/-- The value in units of `2 ^ e`, for an `e` that is not above the exponent. -/
def Binary.over (b : Binary) (e : Int) : Nat := b.mantissa * Nat.pow 2 (b.exponent - e).toNat

/-- A fraction of natural numbers rounded to the nearest integer, a half going to the even one. -/
def roundHalfEven (num den : Nat) : Nat :=
  let q := num / den
  let r := num % den
  if 2 * r < den then q else if den < 2 * r then q + 1 else q + q % 2

/-- `num / den * 10 ^ k` as a fraction of natural numbers. -/
def scaled (num den : Nat) (k : Int) : Nat × Nat := 
  (num * Nat.pow 10 k.toNat, den * Nat.pow 10 (-k).toNat)

/--
The decade of a positive fraction: the `k` with `10 ^ k ≤ num / den < 10 ^ (k + 1)`. The lengths of
the two numerals leave two candidates, and one comparison decides between them.
-/
def decade (num den : Nat) : Int :=
  let guess : Int := (showNat num).length - (showNat den).length
  let (n, d) := scaled num den (-guess)
  if d ≤ n then guess else guess - 1

/-! ## A given number of places or digits -/

/-- A natural number of `10 ^ -places` written with that many digits behind the point. -/
def placePoint (n places : Nat) : List Char :=
  if places = 0 then showNat n
  else
    let s := showPadded (places + 1) n
    s.take (s.length - places) ++ '.' :: s.drop (s.length - places)

/-- A minus in front of `s` if the sign bit of `x` is set. -/
def signed (x : Float) (s : List Char) : List Char := if isNegative x then '-' :: s else s

/-- A finite real with exactly `places` digits behind the point. -/
def fixed (places : Nat) (x : Float) : List Char :=
  let b := Binary.ofFloat x
  signed x (placePoint (roundHalfEven (b.num * Nat.pow 10 places) b.den) places)

/-- Decimal significand of `count` digits and decimal exponent: the value is about
`digits * 10 ^ (exponent - count + 1)`. -/
structure Digits where
  /-- The significand. -/
  digits : Nat
  /-- The decimal exponent of its first digit. -/
  exponent : Int
deriving Repr, DecidableEq

/-- The first `count` significant digits of a nonnegative value, rounded. -/
def roundDigits (count : Nat) (b : Binary) : Digits :=
  if b.mantissa = 0 then ⟨0, 0⟩
  else
    let e := decade b.num b.den
    let (n, d) := scaled b.num b.den ((count : Int) - 1 - e)
    let m := roundHalfEven n d
    if m = Nat.pow 10 count then ⟨Nat.pow 10 (count - 1), e + 1⟩ else ⟨m, e⟩

/-- A significand with a point behind its first digit, as in scientific notation. -/
def pointAfterFirst (s : List Char) : List Char :=
  match s with
  | [] => []
  | [c] => [c]
  | c :: r => c :: '.' :: r

/-- Mantissa text and exponent of a finite real in scientific notation with `places` digits behind
the point. -/
def scientificParts (places : Nat) (x : Float) : List Char × Int :=
  let d := roundDigits (places + 1) (Binary.ofFloat x)
  (signed x (pointAfterFirst (showPadded (places + 1) d.digits)), d.exponent)

/-- A finite real in scientific notation with `places` digits behind the point: `1.50e-3`. -/
def scientific (places : Nat) (x : Float) : List Char :=
  let (m, e) := scientificParts places x
  m ++ 'e' :: showInt e

/-! ## The fewest digits that read back -/

/--
The reals that round to `mantissa * 2 ^ exponent`, as bounds in units of a quarter of the last
binary place. Below a power of two the neighbour is only half as far. The bounds themselves belong
to the interval when the significand is even.
-/
structure Interval where
  /-- Lower bound. -/
  low : Nat
  /-- The value itself. -/
  mid : Nat
  /-- Upper bound. -/
  high : Nat
  /-- Whether the bounds round to the value too. -/
  closed : Bool
deriving Repr

/-- The interval of a positive value, in units of `2 ^ (exponent - 2)`. -/
def Binary.interval (b : Binary) : Interval :=
  let m := b.mantissa
  let below := if m = 0x10000000000000 ∧ b.exponent ≠ -1074 then 1 else 2
  ⟨4 * m - below, 4 * m, 4 * m + 2, m % 2 == 0⟩

/--
The nearest point of the decimal grid of step `10 ^ k` that reads back, if one of the two
neighbours of the value does. Positions are compared as integers after scaling by `unit`, the
interval's unit over a common denominator; a tie goes to the even neighbour.
-/
def gridPoint? (i : Interval) (unit step : Nat) : Option Nat :=
  let inside (c : Nat) : Bool :=
    let p := c * step
    if i.closed then i.low * unit ≤ p && p ≤ i.high * unit
    else i.low * unit < p && p < i.high * unit
  let v := i.mid * unit
  let c := v / step
  let down := v - c * step
  let up := (c + 1) * step - v
  let (first, second) :=
    if down < up || (down == up && c % 2 == 0) then (c, c + 1) else (c + 1, c)
  if inside first then some first else if inside second then some second else none

/-- Without trailing zeros; the first component counts the digits left. -/
def dropZeros (count n : Nat) : Nat × Nat :=
  match count with
  | 0 => (0, n)
  | c + 1 => if n % 10 = 0 ∧ n ≠ 0 then dropZeros c (n / 10) else (c + 1, n)

/--
The fewest significant digits that read back as the value, tried from one to seventeen digits:
their number, the significand, and the decimal exponent of the first digit.
-/
def shortestDigits (b : Binary) : Nat × Digits :=
  if b.mantissa = 0 then (1, ⟨0, 0⟩)
  else
    let e := decade b.num b.den
    let i := b.interval
    -- one unit of the interval is `2 ^ q` with `q = exponent - 2`
    let q := b.exponent - 2
    let attempt (n : Nat) : Option (Nat × Digits) :=
      -- the grid step is `10 ^ k`; both sides are scaled by the powers in the denominators
      let k := e + 1 - (n : Int)
      let unit := Nat.pow 2 q.toNat * Nat.pow 10 (-k).toNat
      let step := Nat.pow 10 k.toNat * Nat.pow 2 (-q).toNat
      (gridPoint? i unit step).map fun m =>
        if m = Nat.pow 10 n then (1, ⟨1, e + 1⟩) else (n, ⟨m, e⟩)
    match (List.range 17).findSome? fun n => attempt (n + 1) with
    | some r => r
    | none => (17, roundDigits 17 b)

/-- Digits with the point at its place and without exponent: `1230`, `12.3`, `0.00123`. -/
def positional (digits : List Char) (exponent : Int) : List Char :=
  if exponent < 0 then
    '0' :: '.' :: (List.replicate ((-exponent).toNat - 1) '0' ++ digits)
  else
    let whole := exponent.toNat + 1
    if digits.length ≤ whole then digits ++ List.replicate (whole - digits.length) '0'
    else digits.take whole ++ '.' :: digits.drop whole

/-- Digits and exponent of the shortest text of a finite real, without its sign. -/
def shortestParts (x : Float) : List Char × Int :=
  let (n, d) := shortestDigits (Binary.ofFloat x)
  let (n', m) := dropZeros n d.digits
  (showPadded n' m, d.exponent)

/-- The shortest text of a finite real that reads back, never with an exponent. -/
def shortest (x : Float) : List Char :=
  let (s, e) := shortestParts x
  signed x (positional s e)

/-- The shortest text of a finite real in scientific notation: `1.5e300`. -/
def shortestScientific (x : Float) : List Char :=
  let (s, e) := shortestParts x
  signed x (pointAfterFirst s ++ 'e' :: showInt e)

/-- The shortest text of any real, with `NaN` and `inf` for those that are not finite. -/
def shortestText (x : Float) : List Char :=
  if isNaN x then ['N', 'a', 'N']
  else if isInfinite x then signed x ['i', 'n', 'f']
  else shortest x

/-! ## Reading -/

/--
The real nearest to `significand * 10 ^ exponent`. Exponents that put the value beyond every finite
real or below every positive one are cut off first, so the work stays bounded.
-/
def ofParts (significand : Nat) (exponent : Int) : Float :=
  if significand = 0 then 0.0
  else
    let top := exponent + (showNat significand).length
    if top > 400 then 1.0 / 0.0
    else if top < -400 then 0.0
    else Float.ofScientific significand (exponent < 0) exponent.natAbs

/-- An unsigned numeral as a real: the digits in front of the point, those behind it, and the
exponent. -/
def read (whole fraction : List Char) (exponent : Int) : Float :=
  ofParts (readDigits (whole ++ fraction)) (exponent - fraction.length)

/-- A decimal numeral with optional sign, point and exponent: the value it denotes, rounded. -/
def read? (s : List Char) : Option Float :=
  let (negative, r) := match s with
    | '-' :: r => (true, r)
    | '+' :: r => (false, r)
    | r => (false, r)
  let sign (x : Float) : Float := if negative then -x else x
  let (mantissa, exponent) := match cutAt? 'e' (r.map lower) with
    | some (m, e) => (m, readInt? e)
    | none => (r, some 0)
  let (whole, fraction) := (cutAt? '.' mantissa).getD (mantissa, [])
  if (whole ++ fraction).isEmpty || !(whole ++ fraction).all isDigit then none
  else exponent.map fun e => sign (read whole fraction e)

end Worksheet.Decimal
