import Worksheet.Proofs.Arithmetic.Order
import Worksheet.Proofs.Calendar.Moments
import Worksheet.Proofs.Calendar.Months

/-!
# Dates and moments under the operators

A period moves a date from month to month, and a duration moves a date by whole days and a moment by
nanoseconds. Durations are differences, so they can be taken back; periods only as far as the months
on the way are long enough.

* **`date_add_period`**, **`date_add_duration`**, **`dateTime_add_duration`** and their like — what the
  operators do.
* **`shift_months`** — moving by periods.
* **`difference_shift`** — differences, and moving by durations.
-/

namespace Worksheet.Arithmetic

theorem orError_eq_ok {α β : Type} {o : Option α} {f : α → β} {e : ArithmeticError} {b : β} :
    orError o f e = .ok b ↔ ∃ a, o = some a ∧ f a = b := by
  cases o <;> simp [orError]

/-! ## Periods -/

section Periods

variable {t u : Date} {p : Period}

theorem atMost_date_iff : AtMost (.date t) (.date u) ↔ (t.compare u).isLE = true := by
  simp [AtMost, compare, Number.ofValue?]

theorem date_add_period :
    binary .add (.date t) (.period p) = .ok (.date u) ↔ t.addMonths? p.months.toInt = some u := by
  show orError (t.addMonths? p.months.toInt) Value.date .dateRange = .ok (.date u) ↔ _
  simp [orError_eq_ok]

theorem date_sub_period :
    binary .sub (.date t) (.period p) = .ok (.date u) ↔ t.addMonths? p.neg.months.toInt = some u := by
  show orError (t.addMonths? p.neg.months.toInt) Value.date .dateRange = .ok (.date u) ↔ _
  simp [orError_eq_ok]

theorem dateTime_add_period {m : DateTime} {v : Value} :
    binary .add (.dateTime m) (.period p) = .ok v ↔
      ∃ u, m.date.addMonths? p.months.toInt = some u ∧ v = .dateTime { m with date := u } := by
  show orError (m.addMonths? p.months.toInt) Value.dateTime .dateRange = .ok v ↔ _
  rw [orError_eq_ok, DateTime.addMonths?]
  constructor
  · rintro ⟨w, hw, rfl⟩
    obtain ⟨u, hu, rfl⟩ := Option.map_eq_some_iff.mp hw
    exact ⟨u, hu, rfl⟩
  · rintro ⟨u, hu, rfl⟩
    exact ⟨_, Option.map_eq_some_iff.mpr ⟨u, hu, rfl⟩, rfl⟩

/-- A period that has moved a date is so short that it has an opposite. -/
theorem toInt_neg_months (h : t.addMonths? p.months.toInt = some u) :
    p.neg.months.toInt = -p.months.toInt := by
  have hmonth := (Date.addMonths?_eq_some_iff.mp h).1
  have ht := t.monthIndex_bounds
  have hu := u.monthIndex_bounds
  refine toInt_neg_of_fits ?_
  unfold FitsWord
  omega

end Periods

/-- **Calendar shifts.** A period moves a date wherever the calendar has the month so many months
later. The date arrives in that month, on the same day or on the last one if the month is shorter, the
day with the first day of the next month behind it.
Dates keep their order if they are moved alike, and longer periods lead farther. The same period leads
back into the original month, never behind the original date, and to it exactly if the month in
between has that day. A moment is moved with its date and keeps its time of day. -/
theorem shift_months (t : Date) (p : Period) :
    ((∃ u, binary .add (.date t) (.period p) = .ok (.date u)) ↔
      firstYear ≤ (t.monthIndex + p.months.toInt) / 12 ∧
        (t.monthIndex + p.months.toInt) / 12 ≤ lastYear) ∧
    (∀ u, binary .add (.date t) (.period p) = .ok (.date u) →
      (u.monthIndex = t.monthIndex + p.months.toInt ∧ u.day = min t.day (daysIn u.year u.month)) ∧
      (u.day ≠ t.day → ∀ v : Date, v.dayNumber = u.dayNumber + 1 →
        v.monthIndex = u.monthIndex + 1) ∧
      (∀ t' u', binary .add (.date t') (.period p) = .ok (.date u') →
        AtMost (.date t) (.date t') → AtMost (.date u) (.date u')) ∧
      (∀ q u', binary .add (.date t) (.period q) = .ok (.date u') →
        p.months ≤ q.months → AtMost (.date u) (.date u')) ∧
      ∃ back, binary .sub (.date u) (.period p) = .ok (.date back) ∧
        AtMost (.date back) (.date t) ∧ (back = t ↔ t.day ≤ daysIn u.year u.month)) ∧
    ∀ m v, m.date = t → (binary .add (.dateTime m) (.period p) = .ok v ↔
      ∃ u, binary .add (.date t) (.period p) = .ok (.date u) ∧
        v = .dateTime { m with date := u }) := by
  simp only [date_add_period, date_sub_period, atMost_date_iff]
  refine ⟨?_, fun u hu => ⟨Date.addMonths?_eq_some_iff.mp hu, fun hcut v hv => ?_,
    fun t' u' hu' h => ?_, fun q u' hu' h => ?_, ?_⟩, ?_⟩
  · rw [← Date.isSome_addMonths?_iff, Option.isSome_iff_exists]
  · obtain ⟨-, hday⟩ := Date.addMonths?_eq_some_iff.mp hu
    exact (Date.day_eq_daysIn_iff hv).mp (by omega)
  · exact Date.isLE_addMonths? hu hu' h
  · exact Date.isLE_addMonths?_months hu hu' (Int64.le_iff_toInt_le.mp h)
  · obtain ⟨back, hback, hmonth, hday⟩ := Date.exists_addMonths?_neg hu
    rw [toInt_neg_months hu]
    refine ⟨back, hback, Date.isLE_compare_iff.mpr (.inr ⟨hmonth, by omega⟩), ?_, fun hfits => ?_⟩
    · rintro rfl
      omega
    · exact Date.ext_of_monthIndex hmonth (by omega)
  · rintro m v rfl
    exact dateTime_add_period

/-- The last day of January of a leap year becomes that of February, from which no way leads back. -/
theorem shift_months_leap_day :
    let january : Date := ⟨2024, 1, 31, by decide⟩
    let february : Date := ⟨2024, 2, 29, by decide⟩
    binary .add (.date january) (.period ⟨1⟩) = .ok (.date february) ∧
      ∃ back, binary .sub (.date february) (.period ⟨1⟩) = .ok (.date back) ∧
        AtMost (.date back) (.date january) ∧ back ≠ january := by
  intro january february
  have hmoved : binary .add (.date january) (.period ⟨1⟩) = .ok (.date february) :=
    date_add_period.mpr (by decide)
  obtain ⟨back, hback, hle, hiff⟩ := ((shift_months january ⟨1⟩).2.1 february hmoved).2.2.2.2
  exact ⟨hmoved, back, hback, hle, hiff.not.mpr (by decide)⟩

/-! ## Durations -/

section Durations

variable {v : Value} {d : Duration}

theorem date_sub_date {x y : Date} :
    binary .sub (.date x) (.date y) = .ok v ↔ ∃ d, x.since? y = some d ∧ .duration d = v := orError_eq_ok

theorem date_add_duration {t : Date} :
    binary .add (.date t) (.duration d) = .ok v ↔ ∃ u, t.addDays? d.days = some u ∧ .date u = v :=
  orError_eq_ok

theorem dateTime_sub_dateTime {x y : DateTime} :
    binary .sub (.dateTime x) (.dateTime y) = .ok v ↔ ∃ d, x.since? y = some d ∧ .duration d = v :=
  orError_eq_ok

theorem dateTime_add_duration {t : DateTime} :
    binary .add (.dateTime t) (.duration d) = .ok v ↔ ∃ u, t.add? d = some u ∧ .dateTime u = v :=
  orError_eq_ok

theorem dateTime_sub_duration {t : DateTime} :
    binary .sub (.dateTime t) (.duration d) = .ok v ↔ ∃ u, t.sub? d = some u ∧ .dateTime u = v :=
  orError_eq_ok

theorem duration_add_duration {a b : Duration} :
    binary .add (.duration a) (.duration b) = .ok v ↔ ∃ d, a.add? b = some d ∧ .duration d = v :=
  orError_eq_ok

end Durations

/-- **Differences and shifts.** For two dates, and for two moments, the difference `x - y` is a duration
that leads from `y` to `x`, and `y - x` is its opposite. A moment that is moved by one duration and then
by another one ends as if it had been moved by their sum, in an error too, and a moment that has been
moved is moved back by the same duration. -/
theorem difference_shift :
    (∀ x y : Date, ∃ d, binary .sub (.date x) (.date y) = .ok (.duration d) ∧
      binary .add (.date y) (.duration d) = .ok (.date x) ∧
      binary .sub (.date y) (.date x) = negate (.duration d)) ∧
    (∀ x y : DateTime, ∃ d, binary .sub (.dateTime x) (.dateTime y) = .ok (.duration d) ∧
      binary .add (.dateTime y) (.duration d) = .ok (.dateTime x) ∧
      binary .sub (.dateTime y) (.dateTime x) = negate (.duration d)) ∧
    (∀ (t : DateTime) (a b : Duration) (u c : Value),
      binary .add (.dateTime t) (.duration a) = .ok u →
      binary .add (.duration a) (.duration b) = .ok c →
      binary .add u (.duration b) = binary .add (.dateTime t) c) ∧
    ∀ (t : DateTime) (a : Duration) (u : Value), binary .add (.dateTime t) (.duration a) = .ok u →
      binary .sub u (.duration a) = .ok (.dateTime t) := by
  refine ⟨fun x y => ?_, fun x y => ?_, fun t a b u c hu hc => ?_, fun t a u hu => ?_⟩
  · obtain ⟨d, hd⟩ := DateTime.exists_since? (.midnight x) (.midnight y)
    exact ⟨d, date_sub_date.mpr ⟨d, hd, rfl⟩,
      date_add_duration.mpr ⟨x, Date.addDays?_of_since? hd, rfl⟩,
      date_sub_date.mpr ⟨d.neg, DateTime.since?_neg hd, rfl⟩⟩
  · obtain ⟨d, hd⟩ := DateTime.exists_since? x y
    exact ⟨d, dateTime_sub_dateTime.mpr ⟨d, hd, rfl⟩,
      dateTime_add_duration.mpr ⟨x, DateTime.add?_of_since? hd, rfl⟩,
      dateTime_sub_dateTime.mpr ⟨d.neg, DateTime.since?_neg hd, rfl⟩⟩
  · obtain ⟨m, hm, rfl⟩ := dateTime_add_duration.mp hu
    obtain ⟨d, hd, rfl⟩ := duration_add_duration.mp hc
    show orError (m.add? b) Value.dateTime .dateRange = orError (t.add? d) Value.dateTime .dateRange
    rw [DateTime.add?_of_add? hm hd]
  · obtain ⟨m, hm, rfl⟩ := dateTime_add_duration.mp hu
    exact dateTime_sub_duration.mpr ⟨t, DateTime.sub?_of_add? hm, rfl⟩

/-- Half a second before March of a leap year, and back. -/
theorem difference_shift_midnight :
    let t : DateTime := .midnight ⟨2024, 3, 1, by decide⟩
    let u : DateTime := ⟨⟨2024, 2, 29, by decide⟩, 86399500000000, by decide⟩
    let d : Duration := ⟨-500000000, by decide⟩
    binary .add (.dateTime t) (.duration d) = .ok (.dateTime u) ∧
      binary .sub (.dateTime u) (.duration d) = .ok (.dateTime t) := by
  intro t u d
  have hmoved : binary .add (.dateTime t) (.duration d) = .ok (.dateTime u) :=
    dateTime_add_duration.mpr ⟨u, by decide, rfl⟩
  exact ⟨hmoved, difference_shift.2.2.2 t d _ hmoved⟩

end Worksheet.Arithmetic
