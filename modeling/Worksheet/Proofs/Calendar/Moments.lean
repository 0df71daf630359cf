import Worksheet.Calendar.DateTime
import Worksheet.Proofs.Calendar.DayNumber

/-!
# Moments on a line

A moment is known from its stamp, the nanoseconds that have passed, and a duration moves it by that
much. So moving follows the laws of addition wherever the calendar reaches, and the duration between
two moments is always one, because the calendar is shorter than the longest duration.

* **`ofStamp?_eq_some_iff`** — a moment and its stamp.
* **`add?_of_add?`**, **`sub?_of_add?`** — moving by durations, on and back.
* **`exists_since?`**, **`since?_neg`**, **`add?_of_since?`** — the time between two moments.
* **`Date.addDays?_of_since?`** — the time between two dates, which is a number of whole days.
-/

namespace Worksheet

namespace DateTime

theorem stamp_eq (t : DateTime) : t.stamp = t.date.dayNumber * 86400000000000 + t.nanos := rfl

theorem ext_of_parts {t u : DateTime} (hdate : t.date = u.date) (hnanos : t.nanos = u.nanos) : t = u := by
  cases t
  cases u
  cases hdate
  cases hnanos
  rfl

/-- **Moments and stamps.** The moment with a stamp is the one that has it. -/
theorem ofStamp?_eq_some_iff {s : Int} {t : DateTime} : ofStamp? s = some t ↔ t.stamp = s := by
  have hparts : ofStamp? s = some t ↔
      t.date.dayNumber = s / 86400000000000 ∧ t.nanos = (s % 86400000000000).toNat := by
    have hnanos : (s % (nanosPerDay : Int)).toNat < nanosPerDay := by
      show (s % 86400000000000).toNat < 86400000000000
      omega
    unfold ofStamp?
    dsimp only
    rw [dif_pos hnanos, Option.map_eq_some_iff]
    constructor
    · rintro ⟨d, hd, rfl⟩
      exact ⟨Date.ofDayNumber?_eq_some_iff.mp hd, rfl⟩
    · rintro ⟨hday, hrest⟩
      exact ⟨t.date, Date.ofDayNumber?_eq_some_iff.mpr hday, ext_of_parts rfl hrest.symm⟩
  -- nanoseconds of the day are what is left over, so no carry is lost
  have hnanos : t.nanos < 86400000000000 := t.nanos_lt
  rw [hparts, stamp_eq]
  omega

variable {t u : DateTime} {d : Duration}

theorem add?_eq_some_iff : t.add? d = some u ↔ u.stamp = t.stamp + d.nanos := ofStamp?_eq_some_iff

theorem sub?_eq_some_iff : t.sub? d = some u ↔ u.stamp = t.stamp - d.nanos := ofStamp?_eq_some_iff

/-- Two steps are as good as one. -/
theorem add?_of_add? {a b c : Duration} (hu : t.add? a = some u) (hc : a.add? b = some c) :
    u.add? b = t.add? c := by
  rw [add?_eq_some_iff] at hu
  rw [Duration.add?, Duration.ofNanos?_eq_some_iff] at hc
  rw [add?, add?, hu, hc, Int.add_assoc]

theorem sub?_of_add? (h : t.add? d = some u) : u.sub? d = some t := by
  rw [add?_eq_some_iff] at h
  rw [sub?_eq_some_iff]
  omega

theorem stamp_bounds (t : DateTime) : -(maxNanos / 2) ≤ t.stamp ∧ t.stamp ≤ maxNanos / 2 := by
  have hday := t.date.dayNumber_bounds
  have hnanos : t.nanos < 86400000000000 := t.nanos_lt
  unfold maxNanos
  rw [stamp_eq]
  omega

theorem since?_eq_some_iff : t.since? u = some d ↔ d.nanos = t.stamp - u.stamp :=
  Duration.ofNanos?_eq_some_iff

/-- The time between two moments is a duration. -/
theorem exists_since? (t u : DateTime) : ∃ d, t.since? u = some d := by
  have ht := t.stamp_bounds
  have hu := u.stamp_bounds
  have hbounded : -maxNanos ≤ t.stamp - u.stamp ∧ t.stamp - u.stamp ≤ maxNanos := by omega
  exact ⟨⟨_, hbounded⟩, since?_eq_some_iff.mpr rfl⟩

/-- The time back is the opposite. -/
theorem since?_neg (h : t.since? u = some d) : u.since? t = some d.neg := by
  rw [since?_eq_some_iff] at h ⊢
  show -d.nanos = u.stamp - t.stamp
  omega

theorem add?_of_since? (h : t.since? u = some d) : u.add? d = some t := by
  rw [since?_eq_some_iff] at h
  rw [add?_eq_some_iff]
  omega

theorem stamp_midnight (d : Date) : (midnight d).stamp = d.dayNumber * (nanosPerDay : Int) :=
  Int.add_zero _

end DateTime

/-- A duration of whole days has that many of them. -/
theorem Duration.days_of_whole {d : Duration} {k : Int} (h : d.nanos = k * (nanosPerDay : Int)) :
    d.days = k := by
  have hseconds : d.seconds = k * Duration.secondsPerDay := by
    rw [Duration.seconds, h, show (nanosPerDay : Int) = secondsPerDay * nanosPerSecond from rfl,
      ← Int.mul_assoc, Int.mul_tdiv_cancel _ (by decide)]
  rw [Duration.days, hseconds, Int.mul_tdiv_cancel _ (by decide)]

/-- The time between two dates is a number of whole days, so that none of it is lost where a date is
moved by it. -/
theorem Date.addDays?_of_since? {a b : Date} {d : Duration} (h : a.since? b = some d) :
    b.addDays? d.days = some a := by
  have hnanos : d.nanos = (a.dayNumber - b.dayNumber) * (nanosPerDay : Int) := by
    rw [DateTime.since?_eq_some_iff.mp h, DateTime.stamp_midnight, DateTime.stamp_midnight,
      Int.sub_mul]
  rw [addDays?, Duration.days_of_whole hnanos, ofDayNumber?_eq_some_iff]
  omega

end Worksheet
