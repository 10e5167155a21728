import RetroCloudSync.Library.Gregorian
import RetroCloudSync.CalendarStore.Component

/-!
# Civil days

`CivilDay` and `RCRecurrenceDay` of `RCCalendarProjection.c`: both ways of rewriting a recurrence
index their tables by the days since the start. The functions of libical they ask are the fields of
`TimeFunctions`; `icaltime_is_valid_time` does not look at the month and the day, so that whether a
time has a date of the calendar is a matter of its own (`(date t).Proper`).

`CivilDay` counts the leap days of the years before by the Gregorian rule, and leaves those of the
year itself to `icaltime_day_of_year`, which has the leap years of libical: those of the calendar
from 1753 on, and every fourth year before. `ahead` is by how much the one count runs ahead of the
other (`civilDay_number`).
-/

set_option autoImplicit false

namespace Projection

open Library CalendarStore

/-- `icaltime_is_null_time`, `icaltime_is_valid_time`, and `icaltime_day_of_year` with the
`icaltime_is_leap_year` that it asks. -/
structure TimeFunctions where
  isNull : IcalTime → Bool
  isValidTime : IcalTime → Bool
  isLeapYear : Int → Bool
  dayOfYear : IcalTime → Int

/-- The days that libical counts up to a date of a year more than the calendar does. -/
def TimeFunctions.ahead (lib : TimeFunctions) (d : Date) : Int :=
  if 2 < d.month then (lib.isLeapYear d.year).toInt - (Date.isLeap d.year).toInt else 0

/-- The date of a time. -/
def date (t : IcalTime) : Date := ⟨t.year, t.month, t.day⟩

/-- The clock that a time shows, or none of a date. -/
def clock (t : IcalTime) : Bool × Int × Int × Int := (t.isDate, t.hour, t.minute, t.second)

/-- The day of the year is the place of a date in its year, with or without a leap day. -/
structure TimeFunctions.Documented (lib : TimeFunctions) : Prop where
  isLeapYear : ∀ y, 1752 < y → lib.isLeapYear y = Date.isLeap y
  dayOfYear : ∀ t, (date t).Proper → lib.dayOfYear t = (date t).ordinal + lib.ahead (date t)

/-- `CivilDay`. -/
def civilDay (lib : TimeFunctions) (t : IcalTime) : Int :=
  let y := t.year - 1
  365 * y + y.tdiv 4 - y.tdiv 100 + y.tdiv 400 + lib.dayOfYear t

/-- `RCRecurrenceDay`. -/
def recurrenceDay (lib : TimeFunctions) (start date : IcalTime) : Option Int :=
  if lib.isNull date || !lib.isValidTime date || !lib.isValidTime start ||
      start.isDate ≠ date.isDate || start.hour ≠ date.hour || start.minute ≠ date.minute ||
      start.second ≠ date.second then none
  else
    let days := civilDay lib date - civilDay lib start
    if days < 0 ∨ 3660 < days then none else some days

/-! ## What a day is -/

/-- A valid time that shows the clock of the start on the date `n` days later. -/
def IsDay (lib : TimeFunctions) (start t : IcalTime) (n : Int) : Prop :=
  (lib.isValidTime t = true ∧ lib.isNull t = false) ∧ clock t = clock start ∧
    ∃ k : Nat, n = k ∧ k ≤ 3660 ∧ date t = Date.next^[k] (date start)

/-- Libical is as far ahead at both dates; or neither the days between them nor those that are
counted are a day of the table. -/
def Level (lib : TimeFunctions) (start t : IcalTime) : Prop :=
  (lib.isValidTime t = true ∧ lib.isNull t = false) → clock t = clock start →
    lib.ahead (date t) = lib.ahead (date start) ∨
      ∀ days ∈ [(date t).number - (date start).number,
        (date t).number + lib.ahead (date t) - ((date start).number + lib.ahead (date start))],
        days < 0 ∨ 3660 < days

section
variable {lib : TimeFunctions} {s t : IcalTime}

theorem ahead_modern (h : lib.Documented) {d : Date} (hy : 1752 < d.year) : lib.ahead d = 0 := by
  unfold TimeFunctions.ahead
  rw [h.isLeapYear d.year hy]
  split <;> omega

theorem ahead_le (lib : TimeFunctions) (d : Date) :
    lib.ahead d ≤ 1 ∧ (Date.isLeap d.year = true → lib.ahead d ≤ 0) := by
  unfold TimeFunctions.ahead
  cases lib.isLeapYear d.year <;> cases Date.isLeap d.year <;> split <;> simp

/-- The two counts part at the end of February and meet again at the end of the year. -/
theorem ahead_next {d : Date} (hd : d.Proper) : lib.ahead d.next = lib.ahead d ↔
    lib.isLeapYear d.year = Date.isLeap d.year ∨
      ¬ (d.month = 2 ∧ d.day = Date.daysInMonth d.year 2 ∨ d.month = 12 ∧ d.day = 31) := by
  have hdiff : (lib.isLeapYear d.year).toInt - (Date.isLeap d.year).toInt = 0 ↔
      lib.isLeapYear d.year = Date.isLeap d.year := by
    cases lib.isLeapYear d.year <;> cases Date.isLeap d.year <;> simp
  have h31 : Date.daysInMonth d.year 12 = 31 := by simp [Date.daysInMonth]
  obtain ⟨-, hm', -, hday'⟩ := hd
  unfold Date.next
  split_ifs with hday hmonth
  · refine iff_of_true rfl (.inr ?_)
    rintro (⟨hm, he⟩ | ⟨hm, he⟩)
    · rw [hm] at hday
      omega
    · rw [hm] at hday
      omega
  · by_cases hm : d.month = 2
    · have he : d.day = Date.daysInMonth d.year 2 := by
        rw [hm] at hday hday'
        omega
      simp [TimeFunctions.ahead, hm, he, hdiff]
    · have hside : 2 < d.month + 1 ↔ 2 < d.month := by omega
      refine iff_of_true (by simp only [TimeFunctions.ahead, hside]) (.inr ?_)
      omega
  · have hm : d.month = 12 := by omega
    have he : d.day = 31 := by
      rw [hm] at hday hday'
      omega
    simp [TimeFunctions.ahead, hm, he, hdiff, eq_comm (a := (0 : Int))]

/-- **From year 1 on a civil day is the number of the date**, but for what libical is ahead. -/
theorem civilDay_number (h : lib.Documented) (ht : (date t).Proper) (hy : 1 ≤ t.year) :
    civilDay lib t = (date t).number + lib.ahead (date t) := by
  have hdiv : ∀ k : Int, (t.year - 1).tdiv k = (t.year - 1) / k := fun k =>
    Int.tdiv_eq_ediv_of_nonneg (by omega)
  simp only [civilDay, h.dayOfYear t ht, hdiv, Date.number, ← Int.add_assoc]
  rfl

theorem civilDay_modern (h : lib.Documented) (ht : (date t).Proper) (hy : 1752 < t.year) :
    civilDay lib t = (date t).number := by
  rw [civilDay_number h ht (by omega), ahead_modern h hy, Int.add_zero]

/-- The dates before 1753 are counted before those from then on. -/
theorem civilDay_before (h : lib.Documented) (ht : (date t).Proper) (hy : 0 ≤ t.year)
    (hy' : t.year ≤ 1752) : civilDay lib t ≤ Date.yearsBefore 1753 := by
  have hle := ht.ordinal_le_year
  obtain ⟨hone, hleap⟩ := ahead_le lib (date t)
  have hdate : (date t).year = t.year := rfl
  by_cases hzero : t.year = 0
  · have hyear : Date.daysInYear (date t).year ≤ 366 := by
      unfold Date.daysInYear
      split <;> omega
    have hcivil : civilDay lib t = -365 + lib.dayOfYear t := by
      simp only [civilDay, hzero]
      have h4 : (0 - 1 : Int).tdiv 4 = 0 := by decide
      have h100 : (0 - 1 : Int).tdiv 100 = 0 := by decide
      have h400 : (0 - 1 : Int).tdiv 400 = 0 := by decide
      omega
    have hdoy := h.dayOfYear t ht
    have hbefore : 2 ≤ Date.yearsBefore 1753 := by decide
    omega
  · have hnum : (date t).number = Date.yearsBefore (date t).year + (date t).ordinal := rfl
    have hsucc := Date.yearsBefore_succ (date t).year
    rw [civilDay_number h ht (by omega)]
    cases hc : Date.isLeap (date t).year with
    | true =>
      have hahead := hleap hc
      have hnext := Date.yearsBefore_le (show (date t).year + 1 ≤ 1753 by omega)
      omega
    | false =>
      -- 1752 has a leap day
      have hlast : (date t).year ≠ 1752 := fun he => by
        rw [he] at hc
        exact absurd hc (by decide)
      have hnext := Date.yearsBefore_le (show (date t).year + 1 ≤ 1752 by omega)
      have hleast : Date.yearsBefore 1752 < Date.yearsBefore 1753 := by decide
      omega

/-- The conditions under which a day is returned at all. -/
theorem recurrenceDay_some {n : Int} : recurrenceDay lib s t = some n ↔
    ((lib.isValidTime t = true ∧ lib.isNull t = false) ∧ lib.isValidTime s = true ∧
      clock t = clock s) ∧ n = civilDay lib t - civilDay lib s ∧ 0 ≤ n ∧ n ≤ 3660 := by
  unfold recurrenceDay
  split
  · rename_i hc
    simp only [reduceCtorEq, false_iff, not_and]
    rintro ⟨⟨ht, hnull⟩, hs, hclock⟩
    simp only [clock, Prod.mk.injEq] at hclock
    simp [hnull, hs, ht, hclock] at hc
  · rename_i hc
    simp only [Bool.or_eq_true, Bool.not_eq_true', decide_eq_true_iff, not_or, ne_eq,
      Bool.not_eq_false, Bool.not_eq_true, not_not] at hc
    obtain ⟨⟨⟨⟨⟨⟨hnull, ht⟩, hs⟩, hd⟩, hh⟩, hm⟩, hsec⟩ := hc
    have hclock : clock t = clock s := by simp [clock, hd, hh, hm, hsec]
    simp only [ht, hnull, hs, hclock, true_and, and_self]
    split
    · simp only [reduceCtorEq, false_iff, not_and]
      omega
    · simp only [Option.some.injEq]
      omega

theorem isDay_iff (hs : (date s).Proper) (ht : (date t).Proper) {n : Int} : IsDay lib s t n ↔
    ((lib.isValidTime t = true ∧ lib.isNull t = false) ∧ clock t = clock s) ∧
      n = (date t).number - (date s).number ∧ 0 ≤ n ∧ n ≤ 3660 := by
  unfold IsDay
  rw [← and_assoc]
  refine and_congr_right fun _ => ?_
  constructor
  · rintro ⟨k, rfl, hk, hdate⟩
    rw [Date.eq_iterate_next hs ht] at hdate
    omega
  · rintro ⟨rfl, h0, hle⟩
    refine ⟨((date t).number - (date s).number).toNat, by omega, by omega, ?_⟩
    rw [Date.eq_iterate_next hs ht]
    omega

/-- **When civil day arithmetic is exact.** The next date is the next day exactly if libical has the
leap day of its year or not as the calendar does, or the date is neither the end of February nor of
the year; and a time is found on the day it is on exactly if libical is as far ahead at both dates,
or no day of the table is concerned. -/
theorem civilDay_exact (h : lib.Documented) :
    (∀ t u : IcalTime, (date t).Proper → 1 ≤ t.year → date u = (date t).next →
      (civilDay lib u = civilDay lib t + 1 ↔ lib.isLeapYear t.year = Date.isLeap t.year ∨
        ¬ (t.month = 2 ∧ t.day = Date.daysInMonth t.year 2 ∨ t.month = 12 ∧ t.day = 31))) ∧
    ∀ start t : IcalTime, lib.isValidTime start = true → (date start).Proper → 1 ≤ start.year →
      (date t).Proper → 1 ≤ t.year →
        ((∀ n : Int, recurrenceDay lib start t = some n ↔ IsDay lib start t n) ↔
          Level lib start t) := by
  constructor
  · intro t u ht hy hu
    have hp : (date u).Proper := hu ▸ ht.next
    have hle := (date t).year_le_next
    have hy' : 1 ≤ u.year := by
      have hu' : u.year = (date t).next.year := congrArg Date.year hu
      have ht' : (date t).year = t.year := rfl
      omega
    have hnext : lib.ahead (date t).next = lib.ahead (date t) ↔
        lib.isLeapYear t.year = Date.isLeap t.year ∨
          ¬ (t.month = 2 ∧ t.day = Date.daysInMonth t.year 2 ∨ t.month = 12 ∧ t.day = 31) :=
      ahead_next ht
    rw [← hnext, civilDay_number h hp hy', civilDay_number h ht hy, hu, Date.number_next ht]
    omega
  · intro start t hs hps hy hpt hy'
    unfold Level
    simp only [recurrenceDay_some, isDay_iff hps hpt, civilDay_number h hpt hy',
      civilDay_number h hps hy, hs, true_and, List.mem_cons, List.not_mem_nil, or_false,
      forall_eq_or_imp, forall_eq]
    constructor
    · intro hall hvalid hclock
      -- the two days that could differ
      have hdays := hall ((date t).number - (date start).number)
      have hcounted := hall
        ((date t).number + lib.ahead (date t) - ((date start).number + lib.ahead (date start)))
      simp only [hvalid, hclock, and_self, true_and] at hdays hcounted
      omega
    · intro hlevel n
      refine and_congr_right fun ⟨hvalid, hclock⟩ => ?_
      have hlevel := hlevel hvalid hclock
      omega

end

/-! ## The functions of libical -/

/-- The functions as libical has them. -/
def libical : TimeFunctions where
  isNull t := t.year + t.month + t.day + t.hour + t.minute + t.second = 0
  isValidTime t := decide (0 ≤ t.year ∧ t.year ≤ 3000)
  isLeapYear y := if y ≤ 1752 then y % 4 = 0 else Date.isLeap y
  dayOfYear t := (date t).ordinal + if 2 < t.month then
      (if t.year ≤ 1752 then decide (t.year % 4 = 0) else Date.isLeap t.year).toInt -
        (Date.isLeap t.year).toInt
    else 0

theorem libical_documented : libical.Documented where
  isLeapYear y h := if_neg (by omega)
  dayOfYear _ _ := rfl

/-- 1 January of 1701 is counted as the day of 31 December of 1700. -/
theorem civilDay_julian :
    ¬ ((∀ t u : IcalTime, (date t).Proper → 1 ≤ t.year → date u = (date t).next →
        civilDay libical u = civilDay libical t + 1) ∧
      ∀ start t : IcalTime, libical.isValidTime start = true → (date start).Proper →
        1 ≤ start.year → (date t).Proper → 1 ≤ t.year →
          ∀ n : Int, recurrenceDay libical start t = some n ↔ IsDay libical start t n) := by
  rintro ⟨hnext, -⟩
  exact absurd (hnext ⟨1700, 12, 31, 9, 0, 0, false, false⟩ ⟨1701, 1, 1, 9, 0, 0, false, false⟩
    (by decide) (by decide) (by decide)) (by decide)

theorem civilDay_exact_century :
    recurrenceDay libical ⟨2099, 12, 31, 9, 0, 0, false, false⟩
      ⟨2100, 3, 1, 9, 0, 0, false, false⟩ = some 60 :=
  (((civilDay_exact libical_documented).2 ⟨2099, 12, 31, 9, 0, 0, false, false⟩
    ⟨2100, 3, 1, 9, 0, 0, false, false⟩ (by decide) (by decide) (by decide) (by decide)
    (by decide)).2 (fun _ _ => .inl (by decide)) 60).2
      ⟨by decide, by decide, 60, rfl, by decide, by decide +kernel⟩

end Projection
