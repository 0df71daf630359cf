import Worksheet.Display.Value
import Worksheet.Library.Basic
import Worksheet.Proofs.Text.Digits
import Worksheet.Proofs.Text.Pattern

/-!
# Durations for the reader

A duration is written as whole days, rounded down, and the time of day that is left. Three readers take
part: the long text, the natural text, from which a clock at zero is struck out, and the properties that
an expression can ask for. They do not always agree.

* **`Parts`** — days, hours, minutes, seconds and microseconds, and how they are written.
* **`exists_parts`**, **`text_eq`** — the long text of a duration shows its parts.
* **`strike_text`**, **`brief_eq`** — the natural text; **`render_duration`** — which parts it shows.
* **`duration_properties`** — the days and the second of the day.
-/

namespace Worksheet

open Text

namespace Text

/-! ## Striking out -/

/-- Fits where a part stands, and leaves nothing of it. -/
def Pattern.strike (part : List Char) : Pattern (List Char) :=
  fun _ s => (strip? part s).map fun rest => ([], rest)

/-- Two texts that are cut by the same separator agree in front of it and behind it. -/
theorem append_cons_inj {c : Char} {a a' b b' : List Char} (ha : c ∉ a) (ha' : c ∉ a')
    (h : a ++ c :: b = a' ++ c :: b') : a = a' ∧ b = b' := by
  have hcut := cutAt?_append ha b
  rw [h, cutAt?_append ha' b'] at hcut
  obtain ⟨rfl, rfl⟩ := Prod.mk.inj (Option.some.inj hcut)
  exact ⟨rfl, rfl⟩

namespace Pattern

variable {c : Char} {part a r : List Char}

theorem strike_of_ne {d : Char} (hd : d ≠ c) (before : List Char) :
    strike (c :: part) before (d :: r) = none := by
  simp [strike, strip?, Ne.symm hd]

/-- Up to the first character of the part nothing is struck out. -/
theorem scanFrom_strike (ha : c ∉ a) (before t : List Char) :
    scanFrom (strike (c :: part)) before 0 (a ++ t)
      = a.map Sum.inl ++ scanFrom (strike (c :: part)) (a.reverse ++ before) 0 t := by
  refine scanFrom_append_of_none fun pre d u hsplit => strike_of_ne ?_ _
  rintro rfl
  exact ha (by rw [hsplit]; simp)

theorem scanFrom_strike_end (ha : c ∉ a) (before : List Char) :
    scanFrom (strike (c :: part)) before 0 a = a.map Sum.inl := by
  have h : scanFrom (strike (c :: part)) before 0 (a ++ []) = _ := scanFrom_strike ha before []
  rwa [List.append_nil, scanFrom, List.append_nil] at h

theorem strike_of_not_mem (ha : c ∉ a) : (strike (c :: part)).substitute a = a := by
  rw [substitute, scanFrom_strike_end ha, flatMap_inl]

/-- Where the first character of the part stands only once, the part is struck out there or not
at all. -/
theorem strike_eq (ha : c ∉ a) (hr : c ∉ r) :
    (strike (c :: part)).substitute (a ++ c :: r)
      = a ++ match strip? part r with
        | some rest => rest
        | none => c :: r := by
  rw [substitute, scanFrom_strike ha, List.flatMap_append, flatMap_inl]
  congr 1
  cases hstrip : strip? part r with
  | none =>
    have hnone : strike (c :: part) (a.reverse ++ []) (c :: r) = none := by
      simp [strike, strip?, hstrip]
    rw [scanFrom_of_none hnone, scanFrom_strike_end hr, List.flatMap_cons, flatMap_inl]
    rfl
  | some rest =>
    obtain rfl := strip?_eq_some_iff.mp hstrip
    have hfit : strike (c :: part) (a.reverse ++ []) (c :: part ++ rest) = some ([], rest) := by
      simp [strike, strip?, hstrip]
    have hrest : c ∉ rest := fun h => hr (List.mem_append_right _ h)
    rw [← List.cons_append, scanFrom_of_fit (List.cons_ne_nil c part) hfit,
      scanFrom_strike_end hrest, List.flatMap_cons, flatMap_inl]
    rfl

end Pattern

end Text

namespace Duration

/-! ## Parts -/

/-- Days and a time of day, to the microsecond. -/
structure Parts where
  /-- Whole days, rounded down. -/
  days : Int
  /-- The hour. -/
  hours : Nat
  /-- The minute of the hour. -/
  minutes : Nat
  /-- The second of the minute. -/
  seconds : Nat
  /-- The microsecond of the second. -/
  micros : Nat
  hours_lt : hours < 24
  minutes_lt : minutes < 60
  seconds_lt : seconds < 60
  micros_lt : micros < 1000000

namespace Parts

/-- The second of the day. -/
def secondOfDay (p : Parts) : Nat := 3600 * p.hours + 60 * p.minutes + p.seconds

theorem secondOfDay_lt (p : Parts) : p.secondOfDay < 86400 := by
  have hhours := p.hours_lt
  have hminutes := p.minutes_lt
  have hseconds := p.seconds_lt
  unfold secondOfDay
  omega

/-- All of it in microseconds. -/
def totalMicros (p : Parts) : Int := (86400 * p.days + p.secondOfDay) * 1000000 + p.micros

/-- The time of day to the second. -/
def clock (p : Parts) : List Char :=
  showNat p.hours ++ ':' :: showPadded 2 p.minutes ++ ':' :: showPadded 2 p.seconds

/-- The part of a second. -/
def fraction (p : Parts) : List Char := if p.micros = 0 then [] else '.' :: showPadded 6 p.micros

/-- Days, unless there are none, and the time of day. -/
def long (p : Parts) : List Char :=
  (if p.days = 0 then [] else dayWords p.days ++ [',', ' ']) ++ p.clock ++ p.fraction

/-- The same, but behind days a time of day of exactly zero is left out. -/
def short (p : Parts) : List Char :=
  if p.days ≠ 0 ∧ p.secondOfDay = 0 ∧ p.micros = 0 then dayWords p.days else p.long

/-- The parts of so many microseconds. -/
def ofMicros (u : Int) : Parts where
  days := u / microsPerDay
  hours := (u % microsPerDay / 1000000 / 3600).toNat
  minutes := (u % microsPerDay / 1000000 / 60 % 60).toNat
  seconds := (u % microsPerDay / 1000000 % 60).toNat
  micros := (u % microsPerDay % 1000000).toNat
  hours_lt := by unfold microsPerDay; omega
  minutes_lt := by omega
  seconds_lt := by omega
  micros_lt := by omega

theorem totalMicros_ofMicros (u : Int) : (ofMicros u).totalMicros = u := by
  unfold totalMicros secondOfDay ofMicros microsPerDay
  dsimp only
  omega

theorem secondOfDay_ofMicros (u : Int) : (ofMicros u).secondOfDay = u % microsPerDay / 1000000 := by
  unfold secondOfDay ofMicros microsPerDay
  dsimp only
  omega

theorem clock_ofMicros (u : Int) : (ofMicros u).clock = clockText (u % microsPerDay / 1000000) := by
  have hnonneg : ¬u % microsPerDay / 1000000 / 3600 < 0 := by
    unfold microsPerDay
    omega
  have hhours : (u % microsPerDay / 1000000 / 3600).natAbs = (u % microsPerDay / 1000000 / 3600).toNat := by
    omega
  rw [clockText, showInt, if_neg hnonneg, hhours]
  rfl

theorem fraction_ofMicros (u : Int) : (ofMicros u).fraction = fractionText (u % microsPerDay % 1000000) := by
  have hzero : (ofMicros u).micros = 0 ↔ u % microsPerDay % 1000000 = 0 := by
    show (u % microsPerDay % 1000000).toNat = 0 ↔ _
    omega
  rw [fraction, fractionText]
  simp only [hzero]
  rfl

/-! ## The clean-up of the text -/

/-- What is struck out of the long text. -/
def midnight : List Char := ", 0:00:00".toList

theorem comma_not_mem_dayWords (d : Int) : ',' ∉ dayWords d := by
  have hdays : ',' ∉ showInt d := not_mem_showInt (by decide) (by decide) d
  unfold dayWords
  split <;> simp [hdays]

theorem comma_not_mem_clock (p : Parts) : ',' ∉ p.clock ++ p.fraction := by
  have hfraction : ',' ∉ p.fraction := by
    unfold fraction
    split <;> simp [not_mem_showPadded (c := ',') (by decide)]
  simp [clock, hfraction, not_mem_showNat (c := ',') (by decide),
    not_mem_showPadded (c := ',') (by decide)]

/-- The written clock stands at zero exactly if the clock does. -/
theorem clock_at_zero {p : Parts} {rest : List Char} :
    p.clock ++ p.fraction = "0:00:00".toList ++ rest ↔ p.secondOfDay = 0 ∧ rest = p.fraction := by
  have hcolon : ∀ n, ':' ∉ showNat n := not_mem_showNat (by decide)
  have hcolon' : ∀ n, ':' ∉ showPadded 2 n := not_mem_showPadded (by decide) 2
  have htext : p.clock ++ p.fraction
      = showNat p.hours ++ ':' :: (showPadded 2 p.minutes ++ ':' :: (showPadded 2 p.seconds ++ p.fraction)) := by
    simp [clock]
  have hzero : "0:00:00".toList ++ rest
      = showNat 0 ++ ':' :: (showPadded 2 0 ++ ':' :: (showPadded 2 0 ++ rest)) := rfl
  rw [htext, hzero]
  constructor
  · intro h
    -- no numeral holds a colon, so the two texts are cut at the same places
    obtain ⟨hhours, h⟩ := append_cons_inj (hcolon _) (hcolon _) h
    obtain ⟨hminutes, h⟩ := append_cons_inj (hcolon' _) (hcolon' _) h
    have hlength : (showPadded 2 p.seconds).length = (showPadded 2 0).length :=
      showPadded_length (by decide) (Nat.lt_trans p.seconds_lt (by decide))
    obtain ⟨hseconds, h⟩ := List.append_inj h hlength
    have hpadded : ∀ {n}, showPadded 2 n = showPadded 2 0 → n = 0 := fun {n} h => by
      rw [← readDigits_showPadded 2 n, h, readDigits_showPadded]
    have hhours : p.hours = 0 := by
      rw [← readDigits_showNat p.hours, hhours, readDigits_showNat]
    rw [secondOfDay, hhours, hpadded hminutes, hpadded hseconds]
    exact ⟨rfl, h.symm⟩
  · rintro ⟨hclock, rfl⟩
    obtain ⟨hhours, hminutes, hseconds⟩ : p.hours = 0 ∧ p.minutes = 0 ∧ p.seconds = 0 := by
      unfold secondOfDay at hclock
      omega
    rw [hhours, hminutes, hseconds]

theorem strike_long (p : Parts) :
    (Pattern.strike midnight).substitute p.long
      = if p.days ≠ 0 ∧ p.secondOfDay = 0 then dayWords p.days ++ p.fraction else p.long := by
  have hclock := p.comma_not_mem_clock
  have hmidnight : midnight = ',' :: ' ' :: "0:00:00".toList := rfl
  by_cases hdays : p.days = 0
  · -- without days there is no comma in the text
    have hlong : p.long = p.clock ++ p.fraction := by simp [long, hdays]
    rw [if_neg (fun h => h.1 hdays), hlong, hmidnight, Pattern.strike_of_not_mem hclock]
  · -- the only comma is the one behind the days, so the clock is struck out there or nowhere
    have hlong : p.long = dayWords p.days ++ ',' :: (' ' :: (p.clock ++ p.fraction)) := by
      simp [long, hdays]
    have hbehind : ',' ∉ ' ' :: (p.clock ++ p.fraction) := by simpa using hclock
    rw [hlong, hmidnight, Pattern.strike_eq (comma_not_mem_dayWords _) hbehind]
    have hstrip : ∀ rest, strip? (' ' :: "0:00:00".toList) (' ' :: (p.clock ++ p.fraction)) = some rest
        ↔ p.secondOfDay = 0 ∧ rest = p.fraction := by
      intro rest
      rw [strip?_eq_some_iff, List.cons_append, List.cons_inj_right, clock_at_zero]
    by_cases hzero : p.secondOfDay = 0
    · rw [if_pos ⟨hdays, hzero⟩, (hstrip _).mpr ⟨hzero, rfl⟩]
    · rw [if_neg (fun h => hzero h.2)]
      cases hnone : strip? (' ' :: "0:00:00".toList) (' ' :: (p.clock ++ p.fraction)) with
      | none => rfl
      | some rest => exact absurd ((hstrip rest).mp hnone).1 hzero

end Parts

/-! ## The texts of a duration -/

theorem text_eq (t : Duration) : t.text = (Parts.ofMicros t.micros).long := by
  rw [Parts.long, Parts.clock_ofMicros, Parts.fraction_ofMicros]
  rfl

theorem brief_eq (t : Duration) :
    t.brief = (Pattern.strike Parts.midnight).substitute t.text := by
  have hzero : (Parts.ofMicros t.micros).secondOfDay = 0 ↔ t.micros % microsPerDay / 1000000 = 0 := by
    rw [← Parts.secondOfDay_ofMicros]
    exact Int.natCast_eq_zero.symm
  rw [text_eq, Parts.strike_long, ← text_eq, Parts.fraction_ofMicros]
  simp only [hzero]
  rfl

/-- A duration of whole milliseconds is a number of microseconds, even where these do not fit in a
word. -/
theorem micros_of_whole {t : Duration} (h : 1000000 ∣ t.nanos) : 1000 * t.micros = t.nanos := by
  obtain ⟨k, hk⟩ := h
  have hexact : t.nanos.tdiv 1000 = 1000 * k := by
    rw [hk, show (1000000 : Int) = 1000 * 1000 from rfl, Int.mul_assoc,
      Int.mul_tdiv_cancel_left _ (by decide)]
  have hmillis : t.millis = k := by rw [millis, hk, Int.mul_tdiv_cancel_left _ (by decide)]
  -- counted directly or by milliseconds, nothing of the duration is cut off
  unfold micros
  dsimp only
  rw [hexact, hmillis]
  split <;> omega

theorem exists_parts {t : Duration} (h : 1000000 ∣ t.nanos) :
    ∃ p : Parts, 1000 * p.totalMicros = t.nanos ∧ t.text = p.long :=
  ⟨.ofMicros t.micros, by rw [Parts.totalMicros_ofMicros, micros_of_whole h], text_eq t⟩

/-- Whole seconds are cut off toward zero, which is down only where there is something to cut off in
front of zero. -/
theorem seconds_eq (t : Duration) :
    t.seconds = t.nanos / 1000000000 + if 0 ≤ t.nanos ∨ 1000000000 ∣ t.nanos then 0 else 1 := by
  rw [seconds, nanosPerSecond, Int.tdiv_eq_ediv]
  rfl

theorem seconds_bounds (t : Duration) : -10000000000000000 < t.seconds ∧ t.seconds < 10000000000000000 := by
  have hbounded := t.bounded
  unfold maxNanos at hbounded
  rw [seconds_eq]
  split <;> omega

end Duration

namespace Display

open Duration

theorem render_eq_brief (style : Style) (t : Duration) : render style (.duration t) = t.brief := by
  rw [render]

/-- **Durations for the reader.** The long text of a duration of whole milliseconds shows its days and the
time of day that is left, to the microsecond. The natural text is the long text without `, 0:00:00`. So
it leaves the time of day out where that is zero, but to the second only: it says what it should
unless there are days, no full second of the day, and a part of a second, which then follows the
days. -/
theorem render_duration (style : Style) {t : Duration} (h : 1000000 ∣ t.nanos) :
    ∃ p : Parts, 1000 * p.totalMicros = t.nanos ∧ t.text = p.long ∧
      render style (.duration t) = (Pattern.strike ", 0:00:00".toList).substitute p.long ∧
      (render style (.duration t) = p.short ↔ p.days = 0 ∨ p.secondOfDay ≠ 0 ∨ p.micros = 0) ∧
      (p.days ≠ 0 → p.secondOfDay = 0 →
        render style (.duration t) = dayWords p.days ++ p.fraction) := by
  obtain ⟨p, hmicros, htext⟩ := exists_parts h
  have hrender : render style (.duration t) = (Pattern.strike Parts.midnight).substitute p.long := by
    rw [render_eq_brief, brief_eq, htext]
  refine ⟨p, hmicros, htext, hrender, ?_, fun hdays hzero => ?_⟩
  · rw [hrender, Parts.strike_long]
    by_cases hdays : p.days = 0
    · simp [Parts.short, hdays]
    by_cases hzero : p.secondOfDay = 0
    · by_cases hwhole : p.micros = 0
      · simp [Parts.short, Parts.fraction, hdays, hzero, hwhole]
      · -- the long text has the time of day as well
        have hne : dayWords p.days ++ p.fraction ≠ p.long := by
          intro heq
          have hlength := congrArg List.length heq
          simp only [Parts.long, hdays, if_false, List.length_append, List.length_cons] at hlength
          omega
        simp [Parts.short, hdays, hzero, hwhole, hne]
    · simp [Parts.short, hzero]
  · rw [hrender, Parts.strike_long, if_pos ⟨hdays, hzero⟩]

/-- A second before midnight. -/
theorem render_duration_negative_second :
    ∃ t : Duration, t.nanos = -1000000000 ∧ 1000000 ∣ t.nanos ∧
      ∃ p : Parts, 1000 * p.totalMicros = t.nanos ∧ render .plain (.duration t) = p.short ∧
        p.short = "-1 day, 23:59:59".toList := by
  let t : Duration := ⟨-1000000000, by decide⟩
  have hwhole : 1000000 ∣ t.nanos := by decide
  obtain ⟨p, hmicros, -, -, hshort, -⟩ := render_duration .plain hwhole
  have hsecond : p.secondOfDay ≠ 0 := by
    have hlt := p.micros_lt
    have htotal : 1000 * p.totalMicros = -1000000000 := hmicros
    unfold Parts.totalMicros at htotal
    omega
  have hrender := hshort.mpr (.inr (.inl hsecond))
  refine ⟨t, rfl, hwhole, p, hmicros, hrender, ?_⟩
  rw [← hrender, render_eq_brief]
  decide

/-- Half a second after a day: the clock is struck out in front of the half second. -/
theorem render_duration_half_second :
    ∃ (t : Duration) (p : Parts), 1000000 ∣ t.nanos ∧ 1000 * p.totalMicros = t.nanos ∧
      p.short = "1 day, 0:00:00.500000".toList ∧
      render .plain (.duration t) = "1 day.500000".toList ∧
      render .plain (.duration t) ≠ p.short := by
  refine ⟨⟨86400500000000, by decide⟩,
    ⟨1, 0, 0, 0, 500000, by decide, by decide, by decide, by decide⟩,
    by decide, by decide, by decide, ?_⟩
  rw [render_eq_brief]
  decide

end Display

namespace Library

open Duration

theorem property_days (t : Duration) :
    ∃ d : Int64, property "days" (.duration t) = .ok (.int d) ∧ d.toInt = t.seconds / 86400 := by
  have hbounds := t.seconds_bounds
  refine ⟨_, rfl, ?_⟩
  rw [secondsPerDay, Int.fdiv_eq_ediv_of_nonneg _ (by decide), Int64.toInt_ofInt_of_le] <;> omega

theorem property_seconds (t : Duration) :
    ∃ n : Int64, property "seconds" (.duration t) = .ok (.int n) ∧ n.toInt = t.seconds % 86400 := by
  refine ⟨_, rfl, ?_⟩
  rw [secondsPerDay, Int.fmod_eq_emod_of_nonneg _ (by decide), Int64.toInt_ofInt_of_le] <;> omega

/-- **The days and seconds of a duration.** The seconds are a second of the day. For a duration of whole
milliseconds days and seconds are rounded down, and are those that the text shows, exactly if the
duration is not negative or has no part of a second. Otherwise they are a second too late. -/
theorem duration_properties {t : Duration} (h : 1000000 ∣ t.nanos) :
    ∃ (d n : Int64) (p : Parts),
      property "days" (.duration t) = .ok (.int d) ∧
      property "seconds" (.duration t) = .ok (.int n) ∧
      (1000 * p.totalMicros = t.nanos ∧ t.text = p.long) ∧
      (0 ≤ n.toInt ∧ n.toInt < 86400) ∧
      ((86400 * d.toInt + n.toInt) * 1000000000 ≤ t.nanos ∧
          t.nanos < (86400 * d.toInt + n.toInt + 1) * 1000000000 ↔
        0 ≤ t.nanos ∨ 1000000000 ∣ t.nanos) ∧
      (d.toInt = p.days ∧ n.toInt = p.secondOfDay ↔ 0 ≤ t.nanos ∨ 1000000000 ∣ t.nanos) ∧
      (t.nanos < 0 → ¬1000000000 ∣ t.nanos →
        86400 * d.toInt + n.toInt = 86400 * p.days + p.secondOfDay + 1) := by
  obtain ⟨p, hmicros, htext⟩ := exists_parts h
  obtain ⟨d, hd, hdays⟩ := property_days t
  obtain ⟨n, hn, hseconds⟩ := property_seconds t
  have hsecond := p.secondOfDay_lt
  have hmicros_lt := p.micros_lt
  have hcut := t.seconds_eq
  have hfloor : 86400 * p.days + p.secondOfDay = t.nanos / 1000000000 := by
    unfold Parts.totalMicros at hmicros
    omega
  refine ⟨d, n, p, hd, hn, ⟨hmicros, htext⟩, by omega, ?_⟩
  rw [hdays, hseconds]
  -- both come from the seconds that were cut off toward zero, one too many in front of zero
  split at hcut
  · next hdown =>
    omega
  · next hup =>
    omega

/-- A second before midnight. -/
theorem duration_properties_negative_second :
    ∃ t : Duration, t.nanos = -1000000000 ∧ 1000000 ∣ t.nanos ∧
      ∃ d n : Int64, property "days" (.duration t) = .ok (.int d) ∧ d.toInt = -1 ∧
        property "seconds" (.duration t) = .ok (.int n) ∧ n.toInt = 86399 := by
  let t : Duration := ⟨-1000000000, by decide⟩
  have hwhole : 1000000 ∣ t.nanos := by decide
  obtain ⟨d, n, p, hd, hn, ⟨hmicros, -⟩, -, -, hparts, -⟩ := duration_properties hwhole
  obtain ⟨hdays, hseconds⟩ := hparts.mpr (.inr (by decide))
  have hlt := p.micros_lt
  have hsecond := p.secondOfDay_lt
  have htotal : 1000 * p.totalMicros = -1000000000 := hmicros
  unfold Parts.totalMicros at htotal
  exact ⟨t, rfl, hwhole, d, n, hd, by omega, hn, by omega⟩

/-- Half a second before midnight the properties are at midnight already. -/
theorem duration_properties_half_second :
    ∃ t : Duration, t.nanos = -500000000 ∧ 1000000 ∣ t.nanos ∧
      property "days" (.duration t) = .ok (.int 0) ∧
      property "seconds" (.duration t) = .ok (.int 0) ∧
      ¬(86400 * (0 : Int64).toInt + (0 : Int64).toInt) * 1000000000 ≤ t.nanos ∧
      t.text = "-1 day, 23:59:59.500000".toList :=
  ⟨⟨-500000000, by decide⟩, rfl, by decide, rfl, rfl, by decide, by decide⟩

end Library

end Worksheet
