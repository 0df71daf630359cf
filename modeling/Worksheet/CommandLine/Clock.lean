import Worksheet.Calendar.DateTime

/-!
# Moments on the command line

A moment is written `2024-01-31 09:30:00` or, for midnight, `2024-01-31`. Every number may have
fewer digits and blanks in front, and a year with a sign may have more than four digits.

Main definition: `DateTime.read?`.
-/

namespace Worksheet

open Text

namespace CommandLine

/-- A number of one to `limit` digits behind blanks, and the text behind it. -/
def readNumber? (limit : Nat) (s : List Char) : Option (Nat × List Char) :=
  let s := trimStart s
  let digits := (s.take limit).takeWhile isDigit
  if digits.isEmpty then none else some (readDigits digits, s.drop digits.length)

/-- A year, and the text behind it. -/
def readYear? (s : List Char) : Option (Int × List Char) :=
  let signed (r : List Char) : Option (Nat × List Char) :=
    if (r.head?.map isDigit).getD false then readNumber? r.length r else none
  match trimStart s with
  | '-' :: r => (signed r).map fun (n, r) => (-(n : Int), r)
  | '+' :: r => (signed r).map fun (n, r) => ((n : Int), r)
  | s => (readNumber? 4 s).map fun (n, r) => ((n : Int), r)

/-- A date, and the text behind it. -/
def readDate? (s : List Char) : Option (Date × List Char) := do
  let (y, r) ← readYear? s
  let (m, r) ← readNumber? 2 (← strip? ['-'] r)
  let (d, r) ← readNumber? 2 (← strip? ['-'] r)
  some (← Date.ofCivil? y m d, r)

/-- The time of day that a text is. A leap second counts as the second before it. -/
def readTime? (d : Date) (s : List Char) : Option DateTime := do
  let (hour, r) ← readNumber? 2 s
  let (minute, r) ← readNumber? 2 (← strip? [':'] r)
  let (second, r) ← readNumber? 2 (← strip? [':'] r)
  if r.isEmpty then DateTime.ofParts? d hour minute (if second == 60 then 59 else second) 0
  else none

end CommandLine

/-- The moment that a text is. -/
def DateTime.read? (s : List Char) : Option DateTime := do
  let (d, r) ← CommandLine.readDate? s
  if r.isEmpty then some (midnight d) else CommandLine.readTime? d r

end Worksheet
