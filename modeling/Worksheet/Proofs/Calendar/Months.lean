import Worksheet.Calendar.DateTime
import Worksheet.Proofs.Calendar.DayNumber

/-!
# Moving by months

Months are counted as days are, but a date that is moved by months keeps its day, and where the month
that it arrives in is too short it gets the last day of it. So dates that are moved alike keep their
order and may meet, and the way back leads to the original date or to an earlier one of its month.

* **`addMonths?_eq_some_iff`** — what moving by months is; **`isSome_addMonths?_iff`** — and how far it
  goes.
* **`day_eq_daysIn_iff`** — the last day of a month.
* **`isLE_compare_iff`**, **`isLE_compare_iff_dayNumber_le`** — dates are ordered by month first, which
  is the order of the days.
* **`isLE_addMonths?`**, **`isLE_addMonths?_months`** — the order is kept, of the dates and of the months.
* **`exists_addMonths?_neg`** — the way back.
-/

namespace Worksheet.Date

/-- The place of a date's month among all months; January of the year 0 is at place 0. -/
def monthIndex (t : Date) : Int := 12 * t.year + (t.month - 1)

theorem eq_of_monthIndex_eq {t u : Date} (h : t.monthIndex = u.monthIndex) :
    t.year = u.year ∧ t.month = u.month := by
  have ht := t.month_bounds
  have hu := u.month_bounds
  unfold monthIndex at h
  omega

theorem ext_of_monthIndex {t u : Date} (h : t.monthIndex = u.monthIndex) (hday : t.day = u.day) : t = u := by
  obtain ⟨hyear, hmonth⟩ := eq_of_monthIndex_eq h
  cases t
  cases u
  cases hyear
  cases hmonth
  cases hday
  rfl

/-- The days of a month come before those of the months to come. -/
theorem dayNumber_lt_of_monthIndex_lt {t u : Date} (h : t.monthIndex < u.monthIndex) :
    t.dayNumber < u.dayNumber := by
  have ht := t.month_bounds
  have hu := u.month_bounds
  have hplace := place_bounds ht t.day_bounds
  have hplace' := place_bounds hu u.day_bounds
  unfold monthIndex at h
  rw [dayNumber_eq, dayNumber_eq]
  -- the year is later, or the month is a later one of the same year
  rcases Int.lt_or_eq_of_le (show t.year ≤ u.year by omega) with hyear | hyear
  · have hover := daysBeforeYear_succ t.year
    have hlater : daysBeforeYear (t.year + 1) ≤ daysBeforeYear u.year := daysBeforeYear_mono hyear
    omega
  · have hover := daysBeforeMonth_succ t.year ht.1
    have hlater : daysBeforeMonth t.year (t.month + 1) ≤ daysBeforeMonth t.year u.month :=
      daysBeforeMonth_mono t.year (by omega) (by omega)
    have hday := t.day_bounds.2
    have hday' := u.day_bounds.1
    rw [← hyear]
    omega

/-- The last day of a month is the one with the first day of the next month behind it. -/
theorem day_eq_daysIn_iff {t u : Date} (h : u.dayNumber = t.dayNumber + 1) :
    t.day = daysIn t.year t.month ↔ u.monthIndex = t.monthIndex + 1 := by
  have hm := t.month_bounds
  have hd := u.day_bounds
  unfold monthIndex
  rcases next_day h with ⟨hyear, hmonth, hday⟩ | ⟨hlast, -, ⟨hyear, hmonth⟩ | ⟨hyear, hdecember, hmonth⟩⟩
  · rw [hyear, hmonth] at hd
    omega
  · omega
  · omega

theorem monthIndex_bounds (t : Date) : -3145716 ≤ t.monthIndex ∧ t.monthIndex ≤ 3145715 := by
  have hmonth := t.month_bounds
  obtain ⟨hfirst, hlast⟩ := t.year_bounds
  unfold firstYear at hfirst
  unfold lastYear at hlast
  unfold monthIndex
  omega

variable {t t' u u' : Date} {n n' : Int}

/-- **Moving by months**: into the month so many months later, on the same day or on the last one. -/
theorem addMonths?_eq_some_iff :
    t.addMonths? n = some u ↔
      u.monthIndex = t.monthIndex + n ∧ u.day = min t.day (daysIn u.year u.month) := by
  have hmonth := u.month_bounds
  unfold addMonths? monthIndex
  dsimp only
  rw [ofCivil?_eq_some_iff]
  constructor
  · rintro ⟨hy, hm, hd⟩
    rw [← hy, ← hm] at hd
    exact ⟨by omega, hd⟩
  · rintro ⟨hplace, hd⟩
    have hy : u.year = (12 * t.year + ((t.month : Int) - 1) + n) / 12 := by omega
    have hm : u.month = ((12 * t.year + ((t.month : Int) - 1) + n) % 12).toNat + 1 := by omega
    rw [← hy, ← hm]
    exact ⟨rfl, rfl, hd⟩

/-- It fails where the month lies outside the calendar, and only there. -/
theorem isSome_addMonths?_iff :
    (t.addMonths? n).isSome ↔
      firstYear ≤ (t.monthIndex + n) / 12 ∧ (t.monthIndex + n) / 12 ≤ lastYear := by
  have hday := t.day_bounds.1
  have hlength := daysIn_pos ((t.monthIndex + n) / 12) (((t.monthIndex + n) % 12).toNat + 1)
  have hcivil : (t.addMonths? n).isSome ↔ IsCivil ((t.monthIndex + n) / 12)
      (((t.monthIndex + n) % 12).toNat + 1) (min t.day
        (daysIn ((t.monthIndex + n) / 12) (((t.monthIndex + n) % 12).toNat + 1))) := by
    unfold addMonths? ofCivil? monthIndex
    dsimp only
    split <;> simp_all
  -- month and day are in order by themselves, so only the year can lie outside
  rw [hcivil]
  unfold IsCivil
  omega

/-! ## Order -/

/-- Dates are ordered by month first, and within the month by day. -/
theorem isLE_compare_iff :
    (t.compare u).isLE = true ↔
      t.monthIndex < u.monthIndex ∨ t.monthIndex = u.monthIndex ∧ t.day ≤ u.day := by
  have ht := t.month_bounds
  have hu := u.month_bounds
  simp only [compare, monthIndex, Ordering.isLE_then_iff_or, Int.compare_eq_lt, Int.compare_eq_eq,
    Nat.compare_eq_lt, Nat.compare_eq_eq, Nat.isLE_compare]
  omega

/-- So they are ordered as their days are counted. -/
theorem isLE_compare_iff_dayNumber_le : (t.compare u).isLE = true ↔ t.dayNumber ≤ u.dayNumber := by
  rw [isLE_compare_iff]
  constructor
  · rintro (hlt | ⟨heq, hday⟩)
    · exact Int.le_of_lt (dayNumber_lt_of_monthIndex_lt hlt)
    · obtain ⟨hyear, hmonth⟩ := eq_of_monthIndex_eq heq
      rw [dayNumber_eq, dayNumber_eq, hyear, hmonth]
      omega
  · intro h
    rcases Int.lt_trichotomy t.monthIndex u.monthIndex with hlt | heq | hgt
    · exact .inl hlt
    · obtain ⟨hyear, hmonth⟩ := eq_of_monthIndex_eq heq
      rw [dayNumber_eq, dayNumber_eq, hyear, hmonth] at h
      exact .inr ⟨heq, by omega⟩
    · have := dayNumber_lt_of_monthIndex_lt hgt
      omega

theorem isLE_addMonths? (hu : t.addMonths? n = some u) (hu' : t'.addMonths? n = some u')
    (h : (t.compare t').isLE = true) : (u.compare u').isLE = true := by
  rw [addMonths?_eq_some_iff] at hu hu'
  rw [isLE_compare_iff] at h ⊢
  rcases h with hlt | ⟨heq, hday⟩
  · exact .inl (by omega)
  · -- in one month both days are cut off at the same length, and so may become one
    have hplace : u.monthIndex = u'.monthIndex := by omega
    obtain ⟨hyear, hmonth⟩ := eq_of_monthIndex_eq hplace
    rw [hyear, hmonth] at hu
    exact .inr ⟨hplace, by omega⟩

theorem isLE_addMonths?_months (hu : t.addMonths? n = some u) (hu' : t.addMonths? n' = some u')
    (h : n ≤ n') : (u.compare u').isLE = true := by
  rcases Int.lt_or_eq_of_le h with hlt | rfl
  · rw [addMonths?_eq_some_iff] at hu hu'
    rw [isLE_compare_iff]
    exact .inl (by omega)
  · obtain rfl := Option.some.inj (hu.symm.trans hu')
    rw [isLE_compare_iff]
    exact .inr ⟨rfl, Nat.le_refl _⟩

/-! ## The way back -/

/-- The way back leads into the original month, on the day that was left of the original one. -/
theorem exists_addMonths?_neg (hu : t.addMonths? n = some u) :
    ∃ back, u.addMonths? (-n) = some back ∧ back.monthIndex = t.monthIndex ∧
      back.day = min t.day (daysIn u.year u.month) := by
  rw [addMonths?_eq_some_iff] at hu
  have hday : u.day ≤ t.day := by omega
  have hvalid : IsCivil t.year t.month u.day := by
    obtain ⟨hfirst, hlast, hm, hm', -, hd⟩ := t.valid
    exact ⟨hfirst, hlast, hm, hm', u.day_bounds.1, Nat.le_trans hday hd⟩
  -- the day that is left exists in the original month, so it is not cut off again
  refine ⟨⟨t.year, t.month, u.day, hvalid⟩, ?_, rfl, hu.2⟩
  rw [addMonths?_eq_some_iff]
  have hfits := hvalid.2.2.2.2.2
  constructor
  · show t.monthIndex = u.monthIndex + -n
    omega
  · show u.day = min u.day (daysIn t.year t.month)
    omega

end Worksheet.Date
