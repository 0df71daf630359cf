import Worksheet.Calendar.DateTime
import Worksheet.Text.Digits

/-!
# Date patterns

A pattern shows the fields of a date by percent signs and letters: `%d %b %Y`. A pattern is first
read into items; an unknown letter makes the whole pattern invalid. Fields of the time of day have
no text for a date alone, and time zones have none at all.
-/

namespace Worksheet.Display

open Worksheet.Text

/-- What fills a number up to its width. -/
inductive Padding where
  /-- Nothing. -/
  | none
  /-- Zeros. -/
  | zero
  /-- Spaces. -/
  | space
deriving DecidableEq, Repr

/-- A field shown as a number. -/
inductive NumberField where
  /-- The year. -/
  | year
  /-- The year without its last two digits. -/
  | century
  /-- The last two digits of the year. -/
  | yearOfCentury
  /-- The year that the ISO week belongs to. -/
  | isoYear
  /-- The last two digits of that year. -/
  | isoYearOfCentury
  /-- The quarter of the year. -/
  | quarter
  /-- The month. -/
  | month
  /-- The day of the month. -/
  | day
  /-- The week of the year, counted from the first Sunday. -/
  | weekFromSunday
  /-- The week of the year, counted from the first Monday. -/
  | weekFromMonday
  /-- The ISO week. -/
  | isoWeek
  /-- Days since Sunday. -/
  | daysSinceSunday
  /-- The day of the week, Monday being 1. -/
  | dayOfWeek
  /-- The day of the year. -/
  | dayOfYear
  /-- The hour. -/
  | hour
  /-- The hour on a dial of twelve. -/
  | dialHour
  /-- The minute. -/
  | minute
  /-- The second. -/
  | second
  /-- The nanosecond. -/
  | nanosecond
  /-- Seconds since 1970. -/
  | timestamp
deriving DecidableEq, Repr

/-- A field shown in a form of its own. -/
inductive FixedField where
  /-- Abbreviated name of the month. -/
  | shortMonth
  /-- Name of the month. -/
  | longMonth
  /-- Abbreviated name of the weekday. -/
  | shortWeekday
  /-- Name of the weekday. -/
  | longWeekday
  /-- `am` or `pm`. -/
  | lowerHalf
  /-- `AM` or `PM`. -/
  | upperHalf
  /-- The part of a second with its point, with as many places as it needs. -/
  | fraction
  /-- So many places of the part of a second, with or without a point. -/
  | places (count : Nat) (point : Bool)
  /-- Something about the time zone, which no date has. -/
  | zone
deriving DecidableEq, Repr

/-- A piece of a pattern. -/
inductive PatternItem where
  /-- A character that stands for itself. -/
  | literal (c : Char)
  /-- A number. -/
  | number (field : NumberField) (padding : Padding)
  /-- A fixed form. -/
  | fixed (field : FixedField)
deriving DecidableEq, Repr

namespace PatternItem

/-- Year, month and day with dashes. -/
def isoDate : List PatternItem :=
  [.number .year .zero, .literal '-', .number .month .zero, .literal '-', .number .day .zero]

/-- Hour and minute. -/
def hourMinute : List PatternItem := [.number .hour .zero, .literal ':', .number .minute .zero]

/-- Hour, minute and second. -/
def clock : List PatternItem := hourMinute ++ [.literal ':', .number .second .zero]

/-- Month, day and two-digit year with slashes. -/
def slashDate : List PatternItem :=
  [.number .month .zero, .literal '/', .number .day .zero, .literal '/',
   .number .yearOfCentury .zero]

/-- The items of a single letter that needs no further character. -/
def ofLetter? (c : Char) : Option (List PatternItem) :=
  match c with
  | 'A' => some [.fixed .longWeekday]
  | 'B' => some [.fixed .longMonth]
  | 'C' => some [.number .century .zero]
  | 'D' | 'x' => some slashDate
  | 'F' => some isoDate
  | 'G' => some [.number .isoYear .zero]
  | 'H' => some [.number .hour .zero]
  | 'I' => some [.number .dialHour .zero]
  | 'M' => some [.number .minute .zero]
  | 'P' => some [.fixed .lowerHalf]
  | 'R' => some hourMinute
  | 'S' => some [.number .second .zero]
  | 'T' | 'X' => some clock
  | 'U' => some [.number .weekFromSunday .zero]
  | 'V' => some [.number .isoWeek .zero]
  | 'W' => some [.number .weekFromMonday .zero]
  | 'Y' => some [.number .year .zero]
  | 'Z' | 'z' | '+' => some [.fixed .zone]
  | 'a' => some [.fixed .shortWeekday]
  | 'b' | 'h' => some [.fixed .shortMonth]
  | 'c' => some ([.fixed .shortWeekday, .literal ' ', .fixed .shortMonth, .literal ' ',
      .number .day .space, .literal ' '] ++ clock ++ [.literal ' ', .number .year .zero])
  | 'd' => some [.number .day .zero]
  | 'e' => some [.number .day .space]
  | 'f' => some [.number .nanosecond .zero]
  | 'g' => some [.number .isoYearOfCentury .zero]
  | 'j' => some [.number .dayOfYear .zero]
  | 'k' => some [.number .hour .space]
  | 'l' => some [.number .dialHour .space]
  | 'm' => some [.number .month .zero]
  | 'n' => some [.literal '\n']
  | 'p' => some [.fixed .upperHalf]
  | 'q' => some [.number .quarter .none]
  | 'r' => some ([.number .dialHour .zero, .literal ':', .number .minute .zero, .literal ':',
      .number .second .zero, .literal ' ', .fixed .upperHalf])
  | 's' => some [.number .timestamp .none]
  | 't' => some [.literal '\t']
  | 'u' => some [.number .dayOfWeek .none]
  | 'v' => some [.number .day .space, .literal '-', .fixed .shortMonth, .literal '-',
      .number .year .zero]
  | 'w' => some [.number .daysSinceSunday .none]
  | 'y' => some [.number .yearOfCentury .zero]
  | '%' => some [.literal '%']
  | _ => none

/-- The number of places that a digit asks for. -/
def placesOf? (c : Char) : Option Nat :=
  match c with
  | '3' => some 3
  | '6' => some 6
  | '9' => some 9
  | _ => none

/-- The items after a percent sign and a possible modifier, and the rest of the pattern. -/
def directive? (s : List Char) : Option (List PatternItem × List Char) :=
  match s with
  | ':' :: ':' :: ':' :: 'z' :: r => some ([.fixed .zone], r)
  | ':' :: ':' :: 'z' :: r => some ([.fixed .zone], r)
  | ':' :: 'z' :: r => some ([.fixed .zone], r)
  | '.' :: 'f' :: r => some ([.fixed .fraction], r)
  | '.' :: d :: 'f' :: r => (placesOf? d).map fun n => ([.fixed (.places n true)], r)
  | d :: 'f' :: r =>
    match placesOf? d with
    | some n => some ([.fixed (.places n false)], r)
    | none => (ofLetter? d).map fun items => (items, 'f' :: r)
  | c :: r => (ofLetter? c).map fun items => (items, r)
  | [] => none

/-- A number with another padding; no other item can be padded. -/
def pad? (p : Padding) (items : List PatternItem) : Option (List PatternItem) :=
  match items with
  | [.number field _] => some [.number field p]
  | _ => none

/-- The items after a percent sign: `-`, `0` and `_` change the padding, `#` belongs to a time
zone. -/
def afterPercent? (s : List Char) : Option (List PatternItem × List Char) :=
  let padded (p : Padding) (r : List Char) : Option (List PatternItem × List Char) := do
    let (items, r) ← directive? r
    (pad? p items).map fun items => (items, r)
  match s with
  | '-' :: r => padded .none r
  | '0' :: r => padded .zero r
  | '_' :: r => padded .space r
  | '#' :: 'z' :: r => some ([.fixed .zone], r)
  | '#' :: _ => none
  | s => directive? s

/-- The items of a pattern, at most `fuel` of its directives and characters. -/
def readFuel : Nat → List Char → Option (List PatternItem)
  | 0, _ => some []
  | _ + 1, [] => some []
  | fuel + 1, '%' :: r => do
    let (items, r) ← afterPercent? r
    let rest ← readFuel fuel r
    some (items ++ rest)
  | fuel + 1, c :: r => (readFuel fuel r).map (.literal c :: ·)

/-- The items of a pattern; none if it is invalid. Each step uses up a character at least. -/
def read? (s : List Char) : Option (List PatternItem) := readFuel s.length s

end PatternItem

/-! ## Fields of a date -/

/-- Names of the months. -/
def monthNames : List String :=
  ["January", "February", "March", "April", "May", "June", "July", "August", "September",
   "October", "November", "December"]

/-- Names of the weekdays, from Monday. -/
def weekdayNames : List String :=
  ["Monday", "Tuesday", "Wednesday", "Thursday", "Friday", "Saturday", "Sunday"]

/-- Days since Sunday. -/
def daysSinceSunday (d : Date) : Nat := (d.weekday + 1) % 7

/-- Year and number of the ISO week of a date: the week, from Monday, belongs to the year that holds
its Thursday. -/
def isoWeek (d : Date) : Int × Nat :=
  let thursday := d.dayNumber - d.weekday + 3
  let (y, r) := Date.yearOfDayNumber thursday
  (y, r.toNat / 7 + 1)

/-- The day number of 1 January 1970. -/
def unixEpoch : Int := 719163

/-- A number field of a date with a possible time of day: its value and its least width. Years
outside 0 to 9999 show a sign. -/
def numberField? (d : Date) (t : Option DateTime) (f : NumberField) : Option (Int × Nat × Bool) :=
  let year (y : Int) : Option (Int × Nat × Bool) := some (y, 4, decide (y < 0 ∨ 9999 < y))
  let plain (n : Int) (w : Nat) : Option (Int × Nat × Bool) := some (n, w, false)
  match f with
  | .year => year d.year
  | .century => plain (d.year / 100) 2
  | .yearOfCentury => plain (d.year % 100) 2
  | .isoYear => year (isoWeek d).1
  | .isoYearOfCentury => plain ((isoWeek d).1 % 100) 2
  | .quarter => plain (((d.month - 1) / 3 + 1 : Nat)) 1
  | .month => plain d.month 2
  | .day => plain d.day 2
  | .weekFromSunday => plain (((d.dayOfYear + 6 - daysSinceSunday d) / 7 : Nat)) 2
  | .weekFromMonday => plain (((d.dayOfYear + 6 - d.weekday) / 7 : Nat)) 2
  | .isoWeek => plain (isoWeek d).2 2
  | .daysSinceSunday => plain (daysSinceSunday d) 1
  | .dayOfWeek => plain ((d.weekday + 1 : Nat)) 1
  | .dayOfYear => plain d.dayOfYear 3
  | .hour => t.bind fun t => plain t.hour 2
  | .dialHour => t.bind fun t => plain (if t.hour % 12 = 0 then 12 else t.hour % 12 : Nat) 2
  | .minute => t.bind fun t => plain t.minute 2
  | .second => t.bind fun t => plain t.second 2
  | .nanosecond => t.bind fun t => plain t.nanosecond 9
  | .timestamp => t.bind fun t =>
      plain ((t.date.dayNumber - unixEpoch) * 86400 + (t.nanos / 1000000000 : Nat)) 9

/-- A number filled up to a width. A sign counts as one more place and stands in front of zeros. -/
def padNumber (p : Padding) (n : Int) (width : Nat) (signed : Bool) : List Char :=
  let sign := if n < 0 then ['-'] else if signed then ['+'] else []
  let digits := showNat n.natAbs
  let gap := (if signed then width + 1 else width) - (sign.length + digits.length)
  match p with
  | .none => sign ++ digits
  | .zero => sign ++ List.replicate gap '0' ++ digits
  | .space => List.replicate gap ' ' ++ sign ++ digits

/-- A fixed field of a date with a possible time of day. -/
def fixedField? (d : Date) (t : Option DateTime) (f : FixedField) : Option (List Char) :=
  match f with
  | .shortMonth => (monthNames[d.month - 1]?).map fun s => s.toList.take 3
  | .longMonth => (monthNames[d.month - 1]?).map String.toList
  | .shortWeekday => (weekdayNames[d.weekday]?).map fun s => s.toList.take 3
  | .longWeekday => (weekdayNames[d.weekday]?).map String.toList
  | .lowerHalf => t.map fun t => if t.hour < 12 then ['a', 'm'] else ['p', 'm']
  | .upperHalf => t.map fun t => if t.hour < 12 then ['A', 'M'] else ['P', 'M']
  | .fraction => t.map fun t =>
      let n := t.nanosecond
      if n = 0 then []
      else if n % 1000000 = 0 then '.' :: showPadded 3 (n / 1000000)
      else if n % 1000 = 0 then '.' :: showPadded 6 (n / 1000)
      else '.' :: showPadded 9 n
  | .places count point => t.map fun t =>
      (if point then ['.'] else []) ++ showPadded count (t.nanosecond / Nat.pow 10 (9 - count))
  | .zone => none

/-- An item of a pattern for a date with a possible time of day. -/
def patternItem? (d : Date) (t : Option DateTime) (item : PatternItem) : Option (List Char) :=
  match item with
  | .literal c => some [c]
  | .number f p => (numberField? d t f).map fun (n, width, signed) => padNumber p n width signed
  | .fixed f => fixedField? d t f

/-- A date with a possible time of day in a pattern; none if the pattern is invalid or asks for
something that is not there. -/
def datePattern? (d : Date) (t : Option DateTime) (pattern : List Char) : Option (List Char) := do
  let items ← PatternItem.read? pattern
  let parts ← items.mapM (patternItem? d t)
  some parts.flatten

end Worksheet.Display
