import Worksheet.Expression.Failure

/-!
# Functions of the calendar

Constructors of dates, moments and spans of time, and their properties.

Main definitions: `calendar?` and `calendarProperty?`, none if there is no such function or
property.
-/

namespace Worksheet.Library

/-- A part of a date or time as a natural number of 32 bits. -/
def part (label : String) (n : Int64) : Evaluated Nat :=
  if 0 ≤ n && n < 4294967296 then .ok n.toInt.toNat else raise (.partRange label)

/-- The date with these parts. -/
def makeDate (y m d : Int64) : Evaluated Date :=
  if y < -2147483648 || 2147483647 < y then raise (.partRange "year")
  else do
    let month ← part "month" m
    let day ← part "day" d
    match Date.ofCivil? y.toInt month day with
    | some date => .ok date
    | none => raise (.invalidDate y m d)

/-- The moment of a date with these parts of the time of day. -/
def makeDateTime (date : Date) (h m s : Int64) : Evaluated DateTime := do
  let hour ← part "hour" h
  let minute ← part "minute" m
  let second ← part "second" s
  match DateTime.ofParts? date hour minute second 0 with
  | some t => .ok t
  | none => raise (.invalidTime h m s)

/-- The seconds in a unit of time. -/
def unitSeconds? (name : String) : Option Float :=
  match name with
  | "seconds" => some 1.0
  | "minutes" => some 60.0
  | "hours" => some 3600.0
  | "days" => some 86400.0
  | "weeks" => some 604800.0
  | _ => none

/-- The duration of a real number of seconds. -/
def makeDuration (seconds : Float) : Evaluated Datum :=
  match Duration.ofRealSeconds? seconds with
  | some t => .ok (.duration t)
  | none => raise .spanRange

/-- The function of the calendar with a name, applied to arguments. -/
def calendar? (name : String) (args : List Datum) : Option (Evaluated Datum) :=
  match name, args with
  | "date", [.int y, .int m, .int d] => some ((makeDate y m d).map Datum.date)
  | "date", [.dateTime t] => some (.ok (.date t.date))
  | "datetime", [.int y, .int m, .int d] =>
    some ((makeDate y m d).map fun date => .dateTime (.midnight date))
  | "datetime", [.int y, .int m, .int d, .int h, .int mi, .int s] =>
    some (do
      let date ← makeDate y m d
      let t ← makeDateTime date h mi s
      .ok (.dateTime t))
  | "months", [.int n] => some (.ok (.period ⟨n⟩))
  | "years", [.int n] =>
    some (match Period.ofYears? n with
      | some p => .ok (.period p)
      | none => raise .periodRange)
  | "total_seconds", [.duration t] => some (.ok (.real (Float.ofInt t.millis / 1000.0)))
  | name, [.int n] => (unitSeconds? name).map fun u => makeDuration (Real.ofWord n * u)
  | name, [.real x] => (unitSeconds? name).map fun u => makeDuration (x * u)
  | _, _ => none

/-- A property of a date. -/
def dateProperty? (name : String) (d : Date) : Option Int :=
  match name with
  | "year" => some d.year
  | "month" => some d.month
  | "day" => some d.day
  | "weekday" => some d.weekday
  | _ => none

/-- The property of something of the calendar. The days and seconds of a duration are whole days and
the seconds left, which are never negative. -/
def calendarProperty? (name : String) (d : Datum) : Option Int :=
  match d, name with
  | .date d, name => dateProperty? name d
  | .dateTime t, "hour" => some t.hour
  | .dateTime t, "minute" => some t.minute
  | .dateTime t, "second" => some t.second
  | .dateTime t, name => dateProperty? name t.date
  | .duration t, "days" => some (t.seconds.fdiv Duration.secondsPerDay)
  | .duration t, "seconds" => some (t.seconds.fmod Duration.secondsPerDay)
  | .period p, "months" => some p.months.toInt
  | _, _ => none

end Worksheet.Library
