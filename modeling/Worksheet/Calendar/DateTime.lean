import Worksheet.Calendar.Date
import Worksheet.Calendar.Duration

/-!
# Moments

A moment is a date together with a time of day in nanoseconds. There is no time zone and no leap
second, so every day has the same length and moments form a line on which durations move them.
-/

namespace Worksheet

/-- Nanoseconds in a day. -/
def nanosPerDay : Nat := 86400 * 1000000000

/-- A date and a time of day. -/
structure DateTime where
  /-- The day. -/
  date : Date
  /-- Nanoseconds since midnight. -/
  nanos : Nat
  nanos_lt : nanos < nanosPerDay
deriving DecidableEq

namespace DateTime

/-- The first moment of a date. -/
def midnight (d : Date) : DateTime := ⟨d, 0, by decide⟩

/-- The moment with this time of day, if the time of day is one. -/
def ofParts? (d : Date) (hour minute second nano : Nat) : Option DateTime :=
  if hour < 24 ∧ minute < 60 ∧ second < 60 ∧ nano < 1000000000 then
    let n := (3600 * hour + 60 * minute + second) * 1000000000 + nano
    if h : n < nanosPerDay then some ⟨d, n, h⟩ else none
  else none

/-- The hour of the day. -/
def hour (t : DateTime) : Nat := t.nanos / 3600000000000

/-- The minute of the hour. -/
def minute (t : DateTime) : Nat := t.nanos / 60000000000 % 60

/-- The second of the minute. -/
def second (t : DateTime) : Nat := t.nanos / 1000000000 % 60

/-- The nanosecond of the second. -/
def nanosecond (t : DateTime) : Nat := t.nanos % 1000000000

/-- Nanoseconds since the midnight at which the day numbered 0 begins. -/
def stamp (t : DateTime) : Int := t.date.dayNumber * (nanosPerDay : Int) + (t.nanos : Int)

/-- The moment with a stamp, if its date is in the calendar. -/
def ofStamp? (s : Int) : Option DateTime :=
  let r := (s % (nanosPerDay : Int)).toNat
  if h : r < nanosPerDay then
    (Date.ofDayNumber? (s / (nanosPerDay : Int))).map fun d => ⟨d, r, h⟩
  else none

/-- The moment a duration later, if its date is in the calendar. -/
def add? (t : DateTime) (d : Duration) : Option DateTime := ofStamp? (t.stamp + d.nanos)

/-- The moment a duration earlier, if its date is in the calendar. -/
def sub? (t : DateTime) (d : Duration) : Option DateTime := ofStamp? (t.stamp - d.nanos)

/-- The duration from `b` to `a`; two moments of the calendar are never too far apart. -/
def since? (a b : DateTime) : Option Duration := Duration.ofNanos? (a.stamp - b.stamp)

/-- The moment `n` months later, at the same time of day. -/
def addMonths? (t : DateTime) (n : Int) : Option DateTime :=
  (t.date.addMonths? n).map fun d => { t with date := d }

/-- Earlier moments come first. -/
def compare (a b : DateTime) : Ordering :=
  (a.date.compare b.date).then (Ord.compare a.nanos b.nanos)

/-! ## Text -/

/-- The time of day to the second: `09:30:00`. -/
def clockText (t : DateTime) : List Char :=
  Text.showPadded 2 t.hour ++ ':' :: Text.showPadded 2 t.minute ++ ':' :: Text.showPadded 2 t.second

/-- Date and time of day. Midnight shows the date alone, and a second that is not whole shows six
places. -/
def text (t : DateTime) : List Char :=
  if t.nanos = 0 then t.date.text
  else
    t.date.text ++ ' ' :: t.clockText ++
      (if t.nanosecond = 0 then [] else '.' :: Text.showPadded 6 (t.nanosecond / 1000))

end DateTime

/-- The duration from the date `b` to the date `a`. -/
def Date.since? (a b : Date) : Option Duration :=
  (DateTime.midnight a).since? (DateTime.midnight b)

end Worksheet
