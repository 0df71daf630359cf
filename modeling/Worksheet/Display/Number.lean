import Worksheet.Number.Decimal

/-!
# Reals for the reader

A real is shown with twelve significant digits and without trailing zeros. Very large and very small
magnitudes are shown with a power of ten, which may be written with superscript digits.
-/

namespace Worksheet.Display

open Worksheet.Text

/-- Choices that change how values look but not what they are. -/
structure Style where
  /-- Show powers of ten as `1.5·10²⁰` instead of `1.5e20`. -/
  prettyExponents : Bool
deriving DecidableEq, Repr

/-- The style without any embellishment. -/
def Style.plain : Style := ⟨false⟩

/-- The significant digits that are shown. -/
def significantDigits : Nat := 12

/-- Without the given character at the end. -/
def dropTrailing (c : Char) (s : List Char) : List Char := (s.reverse.dropWhile (· == c)).reverse

/-- Without the zeros at the end of a decimal fraction, and without the point if nothing follows
it. -/
def trimFraction (s : List Char) : List Char :=
  if s.contains '.' then dropTrailing '.' (dropTrailing '0' s) else s

/-- The superscript form of a decimal digit. -/
def superscriptDigit (c : Char) : Char :=
  match c with
  | '1' => '¹'
  | '2' => '²'
  | '3' => '³'
  | '4' => '⁴'
  | '5' => '⁵'
  | '6' => '⁶'
  | '7' => '⁷'
  | '8' => '⁸'
  | '9' => '⁹'
  | _ => '⁰'

/-- An integer in superscript. -/
def superscript (n : Int) : List Char :=
  (if n < 0 then ['⁻'] else []) ++ (showNat n.natAbs).map superscriptDigit

/-- A mantissa and a power of ten in a style. -/
def withPower (style : Style) (mantissa : List Char) (exponent : Int) : List Char :=
  if style.prettyExponents then mantissa ++ '·' :: '1' :: '0' :: superscript exponent
  else mantissa ++ 'e' :: showInt exponent

/-- The digits behind the point that make twelve significant digits. -/
def placesFor (magnitude : Float) : Nat :=
  (((significantDigits : Int) - 1) - magnitude.log10.floor.toInt64.toInt).toNat

/-- A real as it is shown. -/
def number (style : Style) (x : Float) : List Char :=
  if Decimal.isNaN x then ['n', 'a', 'n']
  else if Decimal.isInfinite x then
    if Decimal.isNegative x then ['-', 'i', 'n', 'f'] else ['i', 'n', 'f']
  else if x == 0.0 then ['0']
  else if x.abs < 1e-5 || 1e15 ≤ x.abs then
    let (mantissa, exponent) := Decimal.scientificParts (significantDigits - 1) x
    withPower style (trimFraction mantissa) exponent
  else trimFraction (Decimal.fixed (placesFor x.abs) x)

end Worksheet.Display
