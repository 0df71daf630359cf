import Worksheet.Number.Decimal

/-!
# Durations and periods

A duration is a length of time in whole nanoseconds; its size is at most `2 ^ 63 - 1` milliseconds.
A period is a number of calendar months, whose length depends on the date it is applied to.
-/

namespace Worksheet

/-- The size limit of durations, in nanoseconds. -/
def maxNanos : Int := (0x8000000000000000 - 1) * 1000000

/-- A length of time. -/
structure Duration where
  /-- Its length in nanoseconds. -/
  nanos : Int
  bounded : -maxNanos ≤ nanos ∧ nanos ≤ maxNanos
deriving DecidableEq

namespace Duration

/-- The duration of so many nanoseconds, if it is within the limit. -/
def ofNanos? (n : Int) : Option Duration :=
  if h : -maxNanos ≤ n ∧ n ≤ maxNanos then some ⟨n, h⟩ else none

theorem ofNanos?_eq_some_iff {n : Int} {t : Duration} : ofNanos? n = some t ↔ t.nanos = n := by
  unfold ofNanos?
  constructor
  · intro h
    split at h
    · rw [← Option.some.inj h]
    · exact absurd h (by simp)
  · rintro rfl
    rw [dif_pos t.bounded]

/-- Nanoseconds in a second. -/
def nanosPerSecond : Int := 1000000000

/-- Seconds in a day. -/
def secondsPerDay : Int := 86400

/-- No time at all. -/
def zero : Duration := ⟨0, by decide⟩

/-- The duration in the other direction. -/
def neg (t : Duration) : Duration := ⟨-t.nanos, by have := t.bounded; omega⟩

/-- The duration without its direction. -/
def abs (t : Duration) : Duration := if t.nanos < 0 then t.neg else t

/-- The sum, if it is within the limit. -/
def add? (a b : Duration) : Option Duration := ofNanos? (a.nanos + b.nanos)

/-- The difference, if it is within the limit. -/
def sub? (a b : Duration) : Option Duration := ofNanos? (a.nanos - b.nanos)

/-- Whole milliseconds, cut off toward zero. -/
def millis (t : Duration) : Int := Int.tdiv t.nanos 1000000

/-- Whole seconds, cut off toward zero. -/
def seconds (t : Duration) : Int := Int.tdiv t.nanos nanosPerSecond

/-- Whole days, cut off toward zero. -/
def days (t : Duration) : Int := Int.tdiv t.seconds secondsPerDay

/-- Whole microseconds, cut off toward zero, and taken from whole milliseconds where they do not
fit in a word. -/
def micros (t : Duration) : Int :=
  let exact := Int.tdiv t.nanos 1000
  if FitsWord exact then exact else t.millis * 1000

/-- Shorter durations come first. -/
def compare (a b : Duration) : Ordering := Ord.compare a.nanos b.nanos

/-- The duration of a real number of milliseconds, rounded half away from zero. -/
def ofRealMillis? (x : Float) : Option Duration :=
  if !Decimal.isFinite x then none
  else
    let r := x.round
    if 9223372036854775808.0 ≤ r.abs then none
    else ofNanos? (r.toInt64.toInt * 1000000)

/-- The duration of a real number of seconds, rounded to milliseconds. -/
def ofRealSeconds? (x : Float) : Option Duration :=
  if !Decimal.isFinite x then none else ofRealMillis? (x * 1000.0)

/-! ## Text -/

/-- A count of days with its noun. -/
def dayWords (d : Int) : List Char :=
  Text.showInt d ++ (if d.natAbs = 1 then " day" else " days").toList

/-- Microseconds in a day. -/
def microsPerDay : Int := 86400 * 1000000

/-- Hours, minutes and seconds of a number of seconds: `2:03:04`. -/
def clockText (s : Int) : List Char :=
  Text.showInt (s / 3600) ++ ':' :: Text.showPadded 2 (s / 60 % 60).toNat ++
    ':' :: Text.showPadded 2 (s % 60).toNat

/-- The part of a second behind the point, absent if it is zero: `.500000`. -/
def fractionText (u : Int) : List Char :=
  if u = 0 then [] else '.' :: Text.showPadded 6 u.toNat

/-- Days and time of day: `1 day, 2:03:04`, `-1 day, 23:59:59`; the days are rounded down and absent
when they are zero. -/
def text (t : Duration) : List Char :=
  let d := t.micros / microsPerDay
  let r := t.micros % microsPerDay
  (if d = 0 then [] else dayWords d ++ [',', ' ']) ++ clockText (r / 1000000) ++
    fractionText (r % 1000000)

/-- As `text`, but behind days a clock that stands at zero is left out: `14 days`. Only the part of
a second is still shown. -/
def brief (t : Duration) : List Char :=
  let d := t.micros / microsPerDay
  let r := t.micros % microsPerDay
  if d ≠ 0 ∧ r / 1000000 = 0 then dayWords d ++ fractionText (r % 1000000) else t.text

end Duration

/-! ## Periods -/

/-- A number of calendar months. -/
structure Period where
  /-- The number of months. -/
  months : Int64
deriving DecidableEq

namespace Period

/-- The period of so many years, if its months fit in a word. -/
def ofYears? (n : Int64) : Option Period := (word? (12 * n.toInt)).map Period.mk

/-- The sum, if it fits. -/
def add? (a b : Period) : Option Period := (word? (a.months.toInt + b.months.toInt)).map Period.mk

/-- The multiple, if it fits. -/
def mul? (a : Period) (k : Int64) : Option Period :=
  (word? (a.months.toInt * k.toInt)).map Period.mk

/-- The opposite period. Words negate modulo `2 ^ 64`, so the least one stays itself. -/
def neg (a : Period) : Period := ⟨-a.months⟩

/-- Shorter periods come first. -/
def compare (a b : Period) : Ordering := Ord.compare a.months.toInt b.months.toInt

/-- A count with its noun, in the plural unless it is one. -/
def counted (n : Nat) (noun : String) : List Char :=
  Text.showNat n ++ ' ' :: noun.toList ++ (if n = 1 then [] else ['s'])

/-- Years and months: `1 year, 2 months`, `-3 months`, `0 months`. A minus in front holds for
both. -/
def text (p : Period) : List Char :=
  let total := p.months.toInt.natAbs
  let years := total / 12
  let months := total % 12
  (if p.months.toInt < 0 then ['-'] else []) ++
    (if years = 0 then counted months "month"
     else if months = 0 then counted years "year"
     else counted years "year" ++ ',' :: ' ' :: counted months "month")

end Period

end Worksheet
