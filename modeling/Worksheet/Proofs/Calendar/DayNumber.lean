import Worksheet.Calendar.Date

/-!
# Days are counted without gaps

Years and months follow each other in the count of days as they do in the calendar: where one of
them ends, the next one begins. So a day number belongs to exactly one year and place in it, a place
in a year to exactly one month and day, and a date is known from its number.

* **`daysBeforeYear_succ`**, **`daysBeforeMonth_succ`** — a year or month ends where the next begins.
* **`yearOfDayNumber_spec`**, **`year_unique`** — the year of a day number.
* **`monthOfDay_spec`**, **`month_unique`** — the month of a place in a year.
* **`parts_unique`**, **`next_day`** — a day and the one after it.
* **`ofDayNumber?_eq_some_iff`** — the headline.
* **`dayNumber_bounds`** — how far the count goes.
-/

namespace Worksheet

theorem isLeapYear_iff {y : Int} :
    isLeapYear y = true ↔ y % 4 = 0 ∧ (y % 100 ≠ 0 ∨ y % 400 = 0) := by
  simp [isLeapYear]

/-- The number of days in a year. -/
def yearLength (y : Int) : Int := if isLeapYear y then 366 else 365

theorem daysIn_pos (y : Int) (m : Nat) : 1 ≤ daysIn y m := by
  unfold daysIn
  repeat' split
  all_goals decide

namespace Date

/-! ## Years -/

theorem daysBeforeYear_eq (y : Int) :
    daysBeforeYear y = 365 * (y - 1) + (y - 1) / 4 - (y - 1) / 100 + (y - 1) / 400 := rfl

theorem daysBeforeYear_succ (y : Int) : daysBeforeYear (y + 1) = daysBeforeYear y + yearLength y := by
  rw [daysBeforeYear_eq, daysBeforeYear_eq, yearLength]
  by_cases hleap : isLeapYear y = true
  · rw [if_pos hleap]
    rw [isLeapYear_iff] at hleap
    omega
  · rw [if_neg hleap]
    rw [isLeapYear_iff] at hleap
    omega

theorem daysBeforeYear_mono {y y' : Int} (h : y ≤ y') : daysBeforeYear y ≤ daysBeforeYear y' := by
  rw [daysBeforeYear_eq, daysBeforeYear_eq]
  omega

/-- A day belongs to one year only. -/
theorem year_unique {y y' r r' : Int} (h : daysBeforeYear y + r = daysBeforeYear y' + r')
    (hr : 0 ≤ r ∧ r < yearLength y) (hr' : 0 ≤ r' ∧ r' < yearLength y') : y = y' ∧ r = r' := by
  -- of two different years one ends before the other begins
  have hapart : ∀ {a b : Int}, a < b → daysBeforeYear a + yearLength a ≤ daysBeforeYear b := by
    intro a b hab
    rw [← daysBeforeYear_succ]
    exact daysBeforeYear_mono hab
  rcases Int.lt_trichotomy y y' with hlt | rfl | hgt
  · have := hapart hlt
    omega
  · exact ⟨rfl, by omega⟩
  · have := hapart hgt
    omega

/-- A year by its place among the spans of 400, 100, 4 and 1 years. -/
def yearOfSpans (a b c d : Int) : Int := 400 * a + 100 * b + 4 * c + d + 1

section Spans

variable {a b c d : Int}

theorem daysBeforeYear_yearOfSpans (hb : 0 ≤ b ∧ b ≤ 3) (hc : 0 ≤ c ∧ c ≤ 24) (hd : 0 ≤ d ∧ d ≤ 3) :
    daysBeforeYear (yearOfSpans a b c d) = 146097 * a + 36524 * b + 1461 * c + 365 * d := by
  rw [daysBeforeYear_eq, yearOfSpans]
  omega

/-- The last year of four is a leap year, but that of a hundred only at the end of 400 years. -/
theorem yearLength_yearOfSpans (hb : 0 ≤ b ∧ b ≤ 3) (hc : 0 ≤ c ∧ c ≤ 24) (hd : 0 ≤ d ∧ d ≤ 3) :
    yearLength (yearOfSpans a b c d) = if d = 3 ∧ (c = 24 → b = 3) then 366 else 365 := by
  have hleap : isLeapYear (yearOfSpans a b c d) = true ↔ d = 3 ∧ (c = 24 → b = 3) := by
    rw [isLeapYear_iff, yearOfSpans]
    omega
  simp only [yearLength, hleap]

end Spans

theorem yearOfDayNumber_spec (n : Int) :
    daysBeforeYear (yearOfDayNumber n).1 + (yearOfDayNumber n).2 + 1 = n ∧
      0 ≤ (yearOfDayNumber n).2 ∧ (yearOfDayNumber n).2 < yearLength (yearOfDayNumber n).1 := by
  obtain ⟨a, b, c, d, hyear, hb, hc, hd, hsum, hplace, hlast⟩ :
      ∃ a b c d : Int, (yearOfDayNumber n).1 = yearOfSpans a b c d ∧
        (0 ≤ b ∧ b ≤ 3) ∧ (0 ≤ c ∧ c ≤ 24) ∧ (0 ≤ d ∧ d ≤ 3) ∧
        146097 * a + 36524 * b + 1461 * c + 365 * d + (yearOfDayNumber n).2 + 1 = n ∧
        (0 ≤ (yearOfDayNumber n).2 ∧ (yearOfDayNumber n).2 ≤ 365) ∧
        ((yearOfDayNumber n).2 = 365 → d = 3 ∧ (c = 24 → b = 3)) := by
    -- a span is cut off at the fourth of its kind, so only the last year of spans has 366 days
    unfold yearOfDayNumber
    dsimp only
    exact ⟨_, _, _, _, rfl, by omega, by omega, by omega, by omega, by omega, by omega⟩
  rw [hyear, daysBeforeYear_yearOfSpans hb hc hd, yearLength_yearOfSpans hb hc hd]
  refine ⟨hsum, hplace.1, ?_⟩
  split <;> omega

/-! ## Months -/

theorem daysBeforeMonth_one (y : Int) : daysBeforeMonth y 1 = 0 := rfl

theorem daysBeforeMonth_succ (y : Int) {m : Nat} (hm : 1 ≤ m) :
    daysBeforeMonth y (m + 1) = daysBeforeMonth y m + daysIn y m := by
  obtain ⟨k, rfl⟩ := Nat.exists_eq_add_of_le' hm
  rfl

theorem daysBeforeMonth_mono (y : Int) {m m' : Nat} (hm : 1 ≤ m) (h : m ≤ m') :
    daysBeforeMonth y m ≤ daysBeforeMonth y m' := by
  induction h with
  | refl => exact Nat.le_refl _
  | step hk ih =>
    rw [daysBeforeMonth_succ y (Nat.le_trans hm hk)]
    exact Nat.le_add_right_of_le ih

/-- A year ends with its twelfth month. -/
theorem daysBeforeMonth_thirteen (y : Int) : (daysBeforeMonth y 13 : Int) = yearLength y := by
  unfold yearLength
  by_cases hleap : isLeapYear y = true <;> simp [daysBeforeMonth, daysIn, hleap]

/-- A place in a year belongs to one month only. -/
theorem month_unique {y : Int} {m m' d d' : Nat} (hm : 1 ≤ m) (hm' : 1 ≤ m')
    (h : daysBeforeMonth y m + d = daysBeforeMonth y m' + d')
    (hd : 1 ≤ d ∧ d ≤ daysIn y m) (hd' : 1 ≤ d' ∧ d' ≤ daysIn y m') : m = m' ∧ d = d' := by
  have hapart : ∀ {a b : Nat}, 1 ≤ a → a < b → daysBeforeMonth y a + daysIn y a ≤ daysBeforeMonth y b := by
    intro a b ha hab
    rw [← daysBeforeMonth_succ y ha]
    exact daysBeforeMonth_mono y (Nat.le_succ_of_le ha) hab
  rcases Nat.lt_trichotomy m m' with hlt | rfl | hgt
  · have := hapart hm hlt
    omega
  · exact ⟨rfl, by omega⟩
  · have := hapart hm' hgt
    omega

/-- The month and day at a place counted from the start of a month, if the months to come reach as
far. -/
theorem monthOfDay_spec {y : Int} (m r months : Nat) (hm : 1 ≤ m)
    (hr : daysBeforeMonth y m + r < daysBeforeMonth y (m + months + 1)) :
    (m ≤ (monthOfDay y m r months).1 ∧ (monthOfDay y m r months).1 ≤ m + months) ∧
      daysBeforeMonth y (monthOfDay y m r months).1 + (monthOfDay y m r months).2
        = daysBeforeMonth y m + r + 1 ∧
      1 ≤ (monthOfDay y m r months).2 ∧
      (monthOfDay y m r months).2 ≤ daysIn y (monthOfDay y m r months).1 := by
  induction months generalizing m r with
  | zero =>
    rw [Nat.add_zero, daysBeforeMonth_succ y hm] at hr
    dsimp only [monthOfDay]
    omega
  | succ months ih =>
    unfold monthOfDay
    have hnext := daysBeforeMonth_succ y hm
    split
    · dsimp only
      omega
    · next hlater =>
      -- the month is over: the rest is counted from the next one
      have hreach : daysBeforeMonth y (m + 1) + (r - daysIn y m)
          < daysBeforeMonth y (m + 1 + months + 1) := by
        rw [hnext, Nat.add_right_comm m 1 months]
        rw [← Nat.add_assoc m months 1] at hr
        omega
      have hrest := ih (m + 1) (r - daysIn y m) (by omega) hreach
      omega

/-! ## Dates -/

section Parts

variable {y y' : Int} {m m' d d' : Nat}

/-- A day of a month lies in the year. -/
theorem place_bounds (hm : 1 ≤ m ∧ m ≤ 12) (hd : 1 ≤ d ∧ d ≤ daysIn y m) :
    1 ≤ daysBeforeMonth y m + d ∧ ((daysBeforeMonth y m + d : Nat) : Int) ≤ yearLength y := by
  have hnext := daysBeforeMonth_succ y hm.1
  have hend : daysBeforeMonth y (m + 1) ≤ daysBeforeMonth y 13 :=
    daysBeforeMonth_mono y (by omega) (by omega)
  have hyear := daysBeforeMonth_thirteen y
  omega

/-- The number of a day belongs to no other day. -/
theorem parts_unique (hm : 1 ≤ m ∧ m ≤ 12) (hd : 1 ≤ d ∧ d ≤ daysIn y m) (hm' : 1 ≤ m' ∧ m' ≤ 12)
    (hd' : 1 ≤ d' ∧ d' ≤ daysIn y' m')
    (h : daysBeforeYear y + (daysBeforeMonth y m + d : Nat)
      = daysBeforeYear y' + (daysBeforeMonth y' m' + d' : Nat)) : y = y' ∧ m = m' ∧ d = d' := by
  have hplace := place_bounds hm hd
  have hplace' := place_bounds hm' hd'
  obtain ⟨rfl, hsame⟩ : y = y' ∧ ((daysBeforeMonth y m + d : Nat) : Int) - 1
      = (daysBeforeMonth y' m' + d' : Nat) - 1 := year_unique (by omega) (by omega) (by omega)
  exact ⟨rfl, month_unique hm.1 hm'.1 (by omega) hd hd'⟩

end Parts

theorem month_bounds (t : Date) : 1 ≤ t.month ∧ t.month ≤ 12 := ⟨t.valid.2.2.1, t.valid.2.2.2.1⟩

theorem day_bounds (t : Date) : 1 ≤ t.day ∧ t.day ≤ daysIn t.year t.month :=
  ⟨t.valid.2.2.2.2.1, t.day_le_daysIn⟩

theorem year_bounds (t : Date) : firstYear ≤ t.year ∧ t.year ≤ lastYear := ⟨t.valid.1, t.valid.2.1⟩

theorem dayNumber_eq (t : Date) :
    t.dayNumber = daysBeforeYear t.year + (daysBeforeMonth t.year t.month + t.day : Nat) := rfl

theorem ofDayNumber?_eq (n : Int) :
    ofDayNumber? n =
      let p := monthOfDay (yearOfDayNumber n).1 1 (yearOfDayNumber n).2.toNat 11
      ofCivil? (yearOfDayNumber n).1 p.1 p.2 := rfl

/-- The day that a day number stands for, whether or not its year is in the calendar. -/
theorem exists_parts (n : Int) :
    ∃ y m d, ofDayNumber? n = ofCivil? y m d ∧ (1 ≤ m ∧ m ≤ 12) ∧ (1 ≤ d ∧ d ≤ daysIn y m) ∧
      daysBeforeYear y + (daysBeforeMonth y m + d : Nat) = n := by
  obtain ⟨hyear, hplace⟩ := yearOfDayNumber_spec n
  have hplaces := daysBeforeMonth_thirteen (yearOfDayNumber n).1
  have hreach : daysBeforeMonth (yearOfDayNumber n).1 1 + (yearOfDayNumber n).2.toNat
      < daysBeforeMonth (yearOfDayNumber n).1 13 := by
    rw [daysBeforeMonth_one]
    omega
  obtain ⟨hm, hday, hd⟩ := monthOfDay_spec 1 _ 11 (Nat.le_refl 1) hreach
  rw [daysBeforeMonth_one] at hday
  refine ⟨_, _, _, ofDayNumber?_eq n, hm, hd, ?_⟩
  rw [hday]
  omega

/-- **Dates and day numbers.** The date with a day number is the one that has it. -/
theorem ofDayNumber?_eq_some_iff {n : Int} {t : Date} : ofDayNumber? n = some t ↔ t.dayNumber = n := by
  obtain ⟨y, m, d, hparts, hm, hd, hn⟩ := exists_parts n
  rw [hparts, ofCivil?_eq_some_iff, dayNumber_eq]
  constructor
  · rintro ⟨rfl, rfl, rfl⟩
    exact hn
  · exact fun ht => parts_unique t.month_bounds t.day_bounds hm hd (ht.trans hn.symm)

/-- The day after a date is the next one of its month, or the first one of the next month. -/
theorem next_day {t u : Date} (h : u.dayNumber = t.dayNumber + 1) :
    (u.year = t.year ∧ u.month = t.month ∧ u.day = t.day + 1) ∨
      t.day = daysIn t.year t.month ∧ u.day = 1 ∧
        (u.year = t.year ∧ u.month = t.month + 1 ∨
          u.year = t.year + 1 ∧ t.month = 12 ∧ u.month = 1) := by
  have hm := t.month_bounds
  have hd := t.day_bounds
  rw [dayNumber_eq, dayNumber_eq] at h
  rcases Nat.lt_or_eq_of_le hd.2 with hinside | hlast
  · exact .inl (parts_unique u.month_bounds u.day_bounds hm (by omega) (by omega))
  · -- the month is over, and so is the year if it was December
    have hover := daysBeforeMonth_succ t.year hm.1
    have hfirst : ∀ y m, 1 ≤ 1 ∧ 1 ≤ daysIn y m := fun y m => ⟨Nat.le_refl 1, daysIn_pos y m⟩
    rcases Nat.lt_or_eq_of_le hm.2 with hbefore | hdecember
    · obtain ⟨hy, hmonth, hday⟩ : u.year = t.year ∧ u.month = t.month + 1 ∧ u.day = 1 :=
        parts_unique u.month_bounds u.day_bounds (by omega) (hfirst _ _) (by omega)
      exact .inr ⟨hlast, hday, .inl ⟨hy, hmonth⟩⟩
    · have hyear := daysBeforeYear_succ t.year
      have hlength : (daysBeforeMonth t.year (12 + 1) : Int) = yearLength t.year :=
        daysBeforeMonth_thirteen t.year
      have hjanuary := daysBeforeMonth_one (t.year + 1)
      rw [hlast, ← hover, hdecember, hlength] at h
      obtain ⟨hy, hmonth, hday⟩ : u.year = t.year + 1 ∧ u.month = 1 ∧ u.day = 1 :=
        parts_unique u.month_bounds u.day_bounds (by omega) (hfirst _ _) (by omega)
      exact .inr ⟨hlast, hday, .inr ⟨hy, hdecember, hmonth⟩⟩

theorem dayNumber_bounds (t : Date) : -96000000 ≤ t.dayNumber ∧ t.dayNumber ≤ 96000000 := by
  have hplace := place_bounds t.month_bounds t.day_bounds
  obtain ⟨hfirst, hlast⟩ := t.year_bounds
  have hlength : yearLength t.year ≤ 366 := by
    unfold yearLength
    split <;> decide
  unfold firstYear at hfirst
  unfold lastYear at hlast
  rw [dayNumber_eq, daysBeforeYear_eq]
  omega

end Date

end Worksheet
