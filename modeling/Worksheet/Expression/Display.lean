import Worksheet.Display.Value
import Worksheet.Expression.Datum

/-!
# Data as text

What is written when a datum is joined to a text. Dates, quantities and the like look as they do in
a worksheet; numbers and sequences have a form of their own here.
-/

namespace Worksheet.Datum

open Text

/-- The magnitudes of reals that are written out in full. -/
def plainLow : Float := 1e-13

/-- The magnitudes of reals that are written out in full. -/
def plainHigh : Float := 1e13

/-- A real in the expression language: always with a point or an exponent. -/
def realText (x : Float) : List Char :=
  if x == 0.0 then ['0', '.', '0']
  else if Decimal.isNaN x || Decimal.isInfinite x then Decimal.shortestText x
  else if x.abs > plainHigh || x.abs < plainLow then Decimal.shortestScientific x
  else
    let s := Decimal.shortest x
    if s.contains '.' then s else s ++ ['.', '0']

mutual
/-- A datum as text. -/
def written : Datum → List Char
  | .unit => []
  | .bool b => if b then "true".toList else "false".toList
  | .int n => showInt n.toInt
  | .real x => realText x
  | .char c => [c]
  | .text s => s.toList
  | .array items => '[' :: itemTexts items
  | .function f => "Fn(".toList ++ f.name.toList ++ [')']
  | d => Display.render .plain (.ofDatum d)

/-- A datum inside a sequence: texts in quotes. -/
def quotedForm : Datum → List Char
  | .unit => ['(', ')']
  | .char c => ['\x27', c, '\x27']
  | .text s => quoted s.toList
  | .array items => '[' :: itemTexts items
  | .function f => "Fn(".toList ++ f.name.toList ++ [')']
  | .bool b => if b then "true".toList else "false".toList
  | .int n => showInt n.toInt
  | .real x => realText x
  | d => Display.render .plain (.ofDatum d)

/-- The items of a sequence, parted by commas, and the closing bracket. -/
def itemTexts : List Datum → List Char
  | [] => [']']
  | [d] => quotedForm d ++ [']']
  | d :: rest => quotedForm d ++ [',', ' '] ++ itemTexts rest
end

end Worksheet.Datum
