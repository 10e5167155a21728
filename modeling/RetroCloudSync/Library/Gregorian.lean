import Mathlib.Logic.Function.Iterate
import Mathlib.Order.Defs.LinearOrder
import Mathlib.Tactic.SplitIfs

/-!
# The Gregorian calendar

Dates of the proleptic Gregorian calendar, and the number of a day counted from 1 January of year 1.

* `number_next`: the next day has the next number, over months, leap years and centuries.
* `number_inj`: a number is the number of one date only.
* `eq_iterate_next`: a date is the one `n` days later exactly when its number is larger by `n`.
* `number_shift`: the number of the date any number of days away.
-/

set_option autoImplicit false

namespace Library

/-- A date, as its three numbers. -/
structure Date where
  year : Int
  month : Int
  day : Int
deriving DecidableEq, Repr

namespace Date

def isLeap (y : Int) : Bool := y % 4 = 0 && (y % 100 ≠ 0 || y % 400 = 0)

def daysInMonth (y m : Int) : Int :=
  if m = 2 then if isLeap y then 29 else 28
  else if m = 4 ∨ m = 6 ∨ m = 9 ∨ m = 11 then 30
  else 31

def daysInYear (y : Int) : Int := if isLeap y then 366 else 365

/-- A date that the calendar has. -/
structure Proper (d : Date) : Prop where
  month_pos : 1 ≤ d.month
  month_le : d.month ≤ 12
  day_pos : 1 ≤ d.day
  day_le : d.day ≤ daysInMonth d.year d.month

instance (d : Date) : Decidable d.Proper :=
  decidable_of_iff (1 ≤ d.month ∧ d.month ≤ 12 ∧ 1 ≤ d.day ∧ d.day ≤ daysInMonth d.year d.month)
    ⟨fun ⟨a, b, c, e⟩ => ⟨a, b, c, e⟩, fun h => ⟨h.month_pos, h.month_le, h.day_pos, h.day_le⟩⟩

/-- The day after. -/
def next (d : Date) : Date :=
  if d.day < daysInMonth d.year d.month then ⟨d.year, d.month, d.day + 1⟩
  else if d.month < 12 then ⟨d.year, d.month + 1, 1⟩
  else ⟨d.year + 1, 1, 1⟩

/-- The days of a year before its month `n + 1`. -/
def daysBefore (y : Int) : Nat → Int
  | 0 => 0
  | n + 1 => daysBefore y n + daysInMonth y (n + 1)

/-- The day of the year. -/
def ordinal (d : Date) : Int := daysBefore d.year (d.month - 1).toNat + d.day

/-- The days before a year, from year 1 on. -/
def yearsBefore (y : Int) : Int :=
  365 * (y - 1) + (y - 1) / 4 - (y - 1) / 100 + (y - 1) / 400

/-- The number of a day: 1 January of year 1 has number 1. -/
def number (d : Date) : Int := yearsBefore d.year + d.ordinal

/-! ## Months and years -/

theorem daysInMonth_pos (y m : Int) : 28 ≤ daysInMonth y m := by
  unfold daysInMonth
  split_ifs <;> omega

theorem daysBefore_twelve (y : Int) : daysBefore y 12 = daysInYear y := by
  simp only [daysBefore, daysInMonth, daysInYear]
  cases isLeap y <;> rfl

theorem daysBefore_le (y : Int) {m n : Nat} (h : m ≤ n) : daysBefore y m ≤ daysBefore y n := by
  induction h with
  | refl => exact Int.le_refl _
  | step _ ih =>
    rename_i k _
    have hp := daysInMonth_pos y (k + 1)
    simp only [daysBefore]
    omega

theorem yearsBefore_succ (y : Int) : yearsBefore (y + 1) = yearsBefore y + daysInYear y := by
  unfold yearsBefore daysInYear isLeap
  split <;> rename_i h <;> simp at h <;> omega

theorem yearsBefore_le {y z : Int} (h : y ≤ z) : yearsBefore y ≤ yearsBefore z := by
  unfold yearsBefore
  omega

/-! ## Days -/

variable {d e : Date}

theorem Proper.ordinal_pos (h : d.Proper) : 1 ≤ d.ordinal := by
  have hb := daysBefore_le d.year (Nat.zero_le (d.month - 1).toNat)
  have hd := h.day_pos
  simp only [daysBefore] at hb
  unfold ordinal
  omega

/-- A date lies before the months after it. -/
theorem Proper.ordinal_le (h : d.Proper) {n : Nat} (hn : d.month ≤ n) :
    d.ordinal ≤ daysBefore d.year n := by
  have hm := h.month_pos
  have hd := h.day_le
  have hb := daysBefore_le d.year (show (d.month - 1).toNat + 1 ≤ n by omega)
  have he : ((d.month - 1).toNat : Int) + 1 = d.month := by omega
  simp only [daysBefore, he] at hb
  unfold ordinal
  omega

theorem Proper.ordinal_le_year (h : d.Proper) : d.ordinal ≤ daysInYear d.year := by
  rw [← daysBefore_twelve]
  exact h.ordinal_le h.month_le

theorem Proper.next (h : d.Proper) : d.next.Proper := by
  obtain ⟨hm, hm', hd, hd'⟩ := h
  have hp := daysInMonth_pos d.year (d.month + 1)
  have hp' := daysInMonth_pos (d.year + 1) 1
  unfold Date.next
  split_ifs with h1 h2
  · exact ⟨hm, hm', by simp only; omega, by simp only; omega⟩
  · exact ⟨by simp only; omega, by simp only; omega, by simp only; omega, by simp only; omega⟩
  · exact ⟨by simp only; omega, by simp only; omega, by simp only; omega, by simp only; omega⟩

theorem year_le_next (d : Date) : d.year ≤ d.next.year := by
  unfold Date.next
  split_ifs
  · exact Int.le_refl _
  · exact Int.le_refl _
  · simp only
    omega

/-- **The next day has the next number.** -/
theorem number_next (h : d.Proper) : d.next.number = d.number + 1 := by
  obtain ⟨hm, hm', hd, hd'⟩ := h
  unfold Date.next
  split_ifs with h1 h2
  · simp only [number, ordinal]
    omega
  · have he : (d.month + 1 - 1).toNat = (d.month - 1).toNat + 1 := by omega
    have he' : ((d.month - 1).toNat : Int) + 1 = d.month := by omega
    simp only [number, ordinal, he, daysBefore, he']
    omega
  · have hdec : d.month = 12 := by omega
    have hy := daysBefore_twelve d.year
    have h12 : daysBefore d.year 12 = daysBefore d.year 11 + daysInMonth d.year 12 := rfl
    simp only [hdec] at h1 hd'
    simp only [number, ordinal, yearsBefore_succ, hdec]
    have h0 : daysBefore (d.year + 1) ((1 : Int) - 1).toNat = 0 := rfl
    have h11 : daysBefore d.year ((12 : Int) - 1).toNat = daysBefore d.year 11 := rfl
    omega

/-- A later year has larger numbers. -/
theorem number_lt_of_year (hd : d.Proper) (he : e.Proper) (h : d.year < e.year) :
    d.number < e.number := by
  have hs := yearsBefore_succ d.year
  have hy := yearsBefore_le (show d.year + 1 ≤ e.year by omega)
  have h1 := hd.ordinal_le_year
  have h2 := he.ordinal_pos
  unfold number
  omega

/-- So has a later month. -/
theorem number_lt_of_month (hd : d.Proper) (he : e.Proper) (hy : d.year = e.year)
    (h : d.month < e.month) : d.number < e.number := by
  have hm := hd.month_pos
  have hp := he.day_pos
  have hle := hd.ordinal_le (n := (e.month - 1).toNat) (by omega)
  unfold number
  rw [hy] at hle ⊢
  unfold ordinal at hle ⊢
  rw [hy] at hle ⊢
  omega

/-- **A number is the number of one date.** -/
theorem number_inj (hd : d.Proper) (he : e.Proper) (h : d.number = e.number) : d = e := by
  have hy : d.year = e.year := by
    rcases Int.lt_trichotomy d.year e.year with hlt | heq | hlt
    · have := number_lt_of_year hd he hlt
      omega
    · exact heq
    · have := number_lt_of_year he hd hlt
      omega
  have hm : d.month = e.month := by
    rcases Int.lt_trichotomy d.month e.month with hlt | heq | hlt
    · have := number_lt_of_month hd he hy hlt
      omega
    · exact heq
    · have := number_lt_of_month he hd hy.symm hlt
      omega
  have hday : d.day = e.day := by
    unfold number ordinal at h
    rw [hy, hm] at h
    omega
  cases d
  cases e
  simp_all

/-- **The numbers from a year on** are those behind the days before it. -/
theorem Proper.le_year_iff (h : d.Proper) {y : Int} : y ≤ d.year ↔ yearsBefore y < d.number := by
  constructor
  · intro hy
    have hbefore := yearsBefore_le hy
    have hpos := h.ordinal_pos
    unfold number
    omega
  · intro hn
    by_contra hlt
    have hbefore := yearsBefore_le (show d.year + 1 ≤ y by omega)
    have hyear := yearsBefore_succ d.year
    have hle := h.ordinal_le_year
    unfold number at hn
    omega

/-! ## Later days -/

theorem Proper.iterate (h : d.Proper) (n : Nat) : (Date.next^[n] d).Proper := by
  induction n with
  | zero => exact h
  | succ n ih =>
    rw [Function.iterate_succ_apply']
    exact ih.next

theorem number_iterate (h : d.Proper) (n : Nat) : (Date.next^[n] d).number = d.number + n := by
  induction n with
  | zero => simp
  | succ n ih =>
    rw [Function.iterate_succ_apply', number_next (h.iterate n), ih]
    omega

theorem year_le_iterate (d : Date) (n : Nat) : d.year ≤ (Date.next^[n] d).year := by
  induction n with
  | zero => simp
  | succ n ih =>
    rw [Function.iterate_succ_apply']
    have hstep := year_le_next (Date.next^[n] d)
    omega

/-- So many years have more days. -/
theorem Proper.year_iterate_le (h : d.Proper) {n k : Nat} (hn : n ≤ 365 * k) :
    (Date.next^[n] d).year ≤ d.year + k := by
  by_contra hlt
  have hfirst := yearsBefore_le (show d.year + k + 1 ≤ (Date.next^[n] d).year by omega)
  have hnum := number_iterate h n
  have hpos := (h.iterate n).ordinal_pos
  have hlast := h.ordinal_le_year
  have hyear := yearsBefore_succ d.year
  have hyears : yearsBefore (d.year + 1) + 365 * k ≤ yearsBefore (d.year + k + 1) := by
    unfold yearsBefore
    omega
  unfold number at hnum
  omega

/-- **The date `n` days later** is the one whose number is larger by `n`. -/
theorem eq_iterate_next (hd : d.Proper) (he : e.Proper) (n : Nat) :
    e = Date.next^[n] d ↔ e.number = d.number + n := by
  constructor
  · rintro rfl
    exact number_iterate hd n
  · intro h
    exact number_inj he (hd.iterate n) (h.trans (number_iterate hd n).symm)

/-! ## Earlier days -/

/-- The day before. -/
def prev (d : Date) : Date :=
  if 1 < d.day then ⟨d.year, d.month, d.day - 1⟩
  else if 1 < d.month then ⟨d.year, d.month - 1, daysInMonth d.year (d.month - 1)⟩
  else ⟨d.year - 1, 12, 31⟩

theorem Proper.prev (h : d.Proper) : d.prev.Proper := by
  obtain ⟨hm, hm', hd, hd'⟩ := h
  have hp := daysInMonth_pos d.year (d.month - 1)
  unfold Date.prev
  split_ifs with h1 h2
  · exact ⟨hm, hm', by simp only; omega, by simp only; omega⟩
  · exact ⟨by simp only; omega, by simp only; omega, by simp only; omega, by simp only; omega⟩
  · exact ⟨by simp, by simp, by simp, by simp [daysInMonth]⟩

theorem next_prev (h : d.Proper) : d.prev.next = d := by
  obtain ⟨hm, hm', hd, hd'⟩ := h
  obtain ⟨y, m, n⟩ := d
  simp only at hm hm' hd hd'
  unfold Date.prev
  split_ifs with h1 h2
  · have hlast : n - 1 < daysInMonth y m := by omega
    simp [next, hlast]
  · have hday : n = 1 := by
      simp only at h1
      omega
    have hmonth : m - 1 < 12 := by omega
    simp [next, hmonth, hday]
  · have hday : n = 1 := by
      simp only at h1
      omega
    have hmonth : m = 1 := by
      simp only at h2
      omega
    have h31 : daysInMonth (y - 1) 12 = 31 := by simp [daysInMonth]
    simp [next, h31, hday, hmonth]

/-- **The day before has the number before.** -/
theorem number_prev (h : d.Proper) : d.prev.number = d.number - 1 := by
  have hnext := number_next h.prev
  rw [next_prev h] at hnext
  omega

/-- The date `n` days away. -/
def shift (d : Date) (n : Int) : Date :=
  if 0 ≤ n then Date.next^[n.toNat] d else Date.prev^[(-n).toNat] d

theorem iterate_prev (h : d.Proper) (n : Nat) :
    (Date.prev^[n] d).Proper ∧ (Date.prev^[n] d).number = d.number - n := by
  induction n with
  | zero => exact ⟨h, by simp⟩
  | succ n ih =>
    rw [Function.iterate_succ_apply', number_prev ih.1, ih.2]
    exact ⟨ih.1.prev, by omega⟩

theorem Proper.shift (h : d.Proper) (n : Int) : (d.shift n).Proper := by
  unfold Date.shift
  split_ifs
  · exact h.iterate _
  · exact (iterate_prev h _).1

theorem number_shift (h : d.Proper) (n : Int) : (d.shift n).number = d.number + n := by
  unfold Date.shift
  split_ifs with hn
  · rw [number_iterate h]
    omega
  · rw [(iterate_prev h _).2]
    omega

end Date

end Library
