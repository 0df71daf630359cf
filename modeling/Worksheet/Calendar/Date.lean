import Worksheet.Text.Digits

/-!
# Civil dates

Days of the proleptic Gregorian calendar, from the year -262143 to the year 262142. A date is a
valid triple of year, month and day; `Date.dayNumber` counts days so that 1 January of the year 1 is
day 1, and `Date.ofDayNumber?` goes back.

Main statements: `day_le_daysIn`, a date never exceeds its month, and `weekday_lt`.
-/

namespace Worksheet

/-- A year of 366 days: every fourth, but of the hundreds only every fourth. -/
def isLeapYear (y : Int) : Bool := y % 4 == 0 && (y % 100 != 0 || y % 400 == 0)

/-- The number of days in a month of a year. -/
def daysIn (y : Int) (m : Nat) : Nat :=
  match m with
  | 2 => if isLeapYear y then 29 else 28
  | 4 | 6 | 9 | 11 => 30
  | _ => 31

/-- The first year of the calendar. -/
def firstYear : Int := -262143

/-- The last year of the calendar. -/
def lastYear : Int := 262142

/-- Is the triple a day of the calendar? -/
def IsCivil (y : Int) (m d : Nat) : Prop :=
  firstYear ≤ y ∧ y ≤ lastYear ∧ 1 ≤ m ∧ m ≤ 12 ∧ 1 ≤ d ∧ d ≤ daysIn y m

instance (y : Int) (m d : Nat) : Decidable (IsCivil y m d) := by unfold IsCivil; infer_instance

/-- A day of the calendar. -/
structure Date where
  /-- The astronomical year; the year before 1 is 0. -/
  year : Int
  /-- The month, from 1 to 12. -/
  month : Nat
  /-- The day of the month, from 1. -/
  day : Nat
  valid : IsCivil year month day
deriving DecidableEq

namespace Date

/-- The date with these parts, if it is one. -/
def ofCivil? (y : Int) (m d : Nat) : Option Date :=
  if h : IsCivil y m d then some ⟨y, m, d, h⟩ else none

theorem ofCivil?_eq_some_iff {y : Int} {m d : Nat} {t : Date} :
    ofCivil? y m d = some t ↔ t.year = y ∧ t.month = m ∧ t.day = d := by
  unfold ofCivil?
  constructor
  · intro h
    split at h
    · rw [← Option.some.inj h]; exact ⟨rfl, rfl, rfl⟩
    · exact absurd h (by simp)
  · rintro ⟨rfl, rfl, rfl⟩
    rw [dif_pos t.valid]

theorem day_le_daysIn (t : Date) : t.day ≤ daysIn t.year t.month := t.valid.2.2.2.2.2

/-! ## Day numbers -/

/-- The number of days before the year `y`, counted from the year 1. -/
def daysBeforeYear (y : Int) : Int :=
  let p := y - 1
  365 * p + p / 4 - p / 100 + p / 400

/-- The number of days of the year before the month `m`. -/
def daysBeforeMonth (y : Int) : Nat → Nat
  | 0 => 0
  | 1 => 0
  | m + 2 => daysBeforeMonth y (m + 1) + daysIn y (m + 1)

/-- The place of a date within its year, from 1. -/
def dayOfYear (t : Date) : Nat := daysBeforeMonth t.year t.month + t.day

/-- The number of a day; 1 January of the year 1 has number 1. -/
def dayNumber (t : Date) : Int := daysBeforeYear t.year + t.dayOfYear

/-- The year of a day number, and the place within it from 0: whole spans of 400, 100, 4 and 1
years are taken off in turn, the last of a span not exceeding its length. -/
def yearOfDayNumber (n : Int) : Int × Int :=
  let n := n - 1
  let n400 := n / 146097
  let r := n % 146097
  let n100 := min 3 (r / 36524)
  let r := r - n100 * 36524
  let n4 := r / 1461
  let r := r % 1461
  let n1 := min 3 (r / 365)
  (400 * n400 + 100 * n100 + 4 * n4 + n1 + 1, r - n1 * 365)

/-- The month that holds the day at place `r` (from 0) counted from the start of month `m`, and the
day in it; `months` are still to come. -/
def monthOfDay (y : Int) (m r : Nat) : Nat → Nat × Nat
  | 0 => (m, r + 1)
  | months + 1 =>
    if r < daysIn y m then (m, r + 1) else monthOfDay y (m + 1) (r - daysIn y m) months

/-- The date with a day number, if it is in the calendar. -/
def ofDayNumber? (n : Int) : Option Date :=
  let (y, r) := yearOfDayNumber n
  let (m, d) := monthOfDay y 1 r.toNat 11
  ofCivil? y m d

/-- Days since Monday. -/
def weekday (t : Date) : Nat := ((t.dayNumber - 1) % 7).toNat

theorem weekday_lt (t : Date) : t.weekday < 7 := by
  unfold weekday
  have := Int.emod_nonneg (t.dayNumber - 1) (show (7 : Int) ≠ 0 by decide)
  have := Int.emod_lt_of_pos (t.dayNumber - 1) (show (0 : Int) < 7 by decide)
  omega

/-- The date `n` days later, if it is in the calendar. -/
def addDays? (t : Date) (n : Int) : Option Date := ofDayNumber? (t.dayNumber + n)

/-- Earlier dates come first. -/
def compare (a b : Date) : Ordering :=
  (Ord.compare a.year b.year).then ((Ord.compare a.month b.month).then (Ord.compare a.day b.day))

/-! ## Months -/

/--
The date `n` months later: the same day of the month, or the last day of the month if it is
shorter.
-/
def addMonths? (t : Date) (n : Int) : Option Date :=
  let k := 12 * t.year + ((t.month : Int) - 1) + n
  let y := k / 12
  let m := (k % 12).toNat + 1
  ofCivil? y m (min t.day (daysIn y m))

/-! ## Text -/

/-- A year of at least four digits. Outside 0 to 9999 it carries its sign. -/
def yearText (y : Int) : List Char :=
  let digits := Text.showPadded 4 y.natAbs
  if y < 0 then '-' :: digits else if 9999 < y then '+' :: digits else digits

/-- Year, month and day: `2024-01-31`. -/
def text (t : Date) : List Char :=
  yearText t.year ++ '-' :: Text.showPadded 2 t.month ++ '-' :: Text.showPadded 2 t.day

end Date

end Worksheet
