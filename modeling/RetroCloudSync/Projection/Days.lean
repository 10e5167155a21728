import RetroCloudSync.Projection.Civil

/-!
# The table of days

Both ways of rewriting a recurrence walk its rules with the iterators of libical and enter what they
find into a table of 3661 cells, one for each day from the start on. `Slots` is that table; an entry
past its end is no table. `RecurFunctions` is what the walks ask of libical.

`walk_spec`: what a walk that ends has entered. `walk_inside`: no walk writes past the table.
-/

set_option autoImplicit false

namespace Projection

open Library Journal CalendarStore

/-! ## What a time shows -/

/-- A date of the calendar and a time of the day. -/
structure Proper (t : IcalTime) : Prop where
  date : (date t).Proper
  hour : 0 ≤ t.hour ∧ t.hour < 24
  minute : 0 ≤ t.minute ∧ t.minute < 60
  second : 0 ≤ t.second ∧ t.second < 60

instance (t : IcalTime) : Decidable (Proper t) :=
  decidable_of_iff ((date t).Proper ∧ (0 ≤ t.hour ∧ t.hour < 24) ∧ (0 ≤ t.minute ∧ t.minute < 60) ∧
    (0 ≤ t.second ∧ t.second < 60)) ⟨fun ⟨a, b, c, d⟩ => ⟨a, b, c, d⟩,
    fun ⟨a, b, c, d⟩ => ⟨a, b, c, d⟩⟩

/-- What a time shows. -/
abbrev Wall : Type := Date × Bool × Int × Int × Int

def wall (t : IcalTime) : Wall := (date t, clock t)

/-- `n` days later at the same time of day. -/
def later (s : IcalTime) (n : Nat) : Wall := (Date.next^[n] (date s), clock s)

/-- The time that shows it. -/
def moved (t : IcalTime) (n : Nat) : IcalTime :=
  let d := Date.next^[n] (date t)
  { t with year := d.year, month := d.month, day := d.day }

/-- The seconds up to a time. -/
def seconds (t : IcalTime) : Int :=
  (date t).number * 86400 + t.hour * 3600 + t.minute * 60 + t.second

section
variable {s t u : IcalTime}

theorem wall_moved (t : IcalTime) (n : Nat) : wall (moved t n) = later t n := rfl

theorem Proper.moved (h : Proper t) (n : Nat) : Proper (moved t n) :=
  ⟨h.date.iterate n, h.hour, h.minute, h.second⟩

theorem Proper.later (h : Proper s) {n : Nat} (hw : wall t = later s n) : Proper t := by
  obtain ⟨hdate, hclock⟩ := Prod.mk.inj hw
  simp only [clock, Prod.mk.injEq] at hclock
  exact ⟨hdate ▸ h.date.iterate n, hclock.2.1 ▸ h.hour, hclock.2.2.1 ▸ h.minute,
    hclock.2.2.2 ▸ h.second⟩

theorem seconds_moved (h : (date t).Proper) (n : Nat) :
    seconds (moved t n) = seconds t + n * 86400 := by
  have hnum : (date (moved t n)).number = (date t).number + n := Date.number_iterate h n
  have hclock : clock (moved t n) = clock t := rfl
  simp only [clock, Prod.mk.injEq] at hclock
  simp only [seconds, hnum, hclock]
  omega

theorem later_inj (h : (date s).Proper) {m n : Nat} (he : later s m = later s n) : m = n := by
  have hdate : Date.next^[m] (date s) = Date.next^[n] (date s) := congrArg Prod.fst he
  have hnum := congrArg Date.number hdate
  rw [Date.number_iterate h, Date.number_iterate h] at hnum
  omega

theorem seconds_wall (h : wall t = wall u) : seconds t = seconds u := by
  obtain ⟨hdate, hclock⟩ := Prod.mk.inj h
  simp only [clock, Prod.mk.injEq] at hclock
  simp only [seconds, hdate, hclock]

/-- A time is what it shows, in UTC or not. -/
theorem eq_of_wall (h : wall t = wall u) (hz : t.isUTC = u.isUTC) : t = u := by
  cases t
  cases u
  simp only [wall, date, clock, Prod.mk.injEq, Date.mk.injEq] at h hz
  simp only [h, hz]

theorem wall_of_seconds (ht : Proper t) (hu : Proper u) (hd : t.isDate = u.isDate)
    (h : seconds t = seconds u) : wall t = wall u := by
  have hh := ht.hour
  have hm := ht.minute
  have hs := ht.second
  have hh' := hu.hour
  have hm' := hu.minute
  have hs' := hu.second
  simp only [seconds] at h
  have hnum : (date t).number = (date u).number := by omega
  have hdate := Date.number_inj ht.date hu.date hnum
  have hclock : t.hour = u.hour ∧ t.minute = u.minute ∧ t.second = u.second := by omega
  simp only [wall, clock, hdate, hd, hclock]

end

/-! ## From 1753 on -/

/-- The first second of 1753. -/
def eraStart : Int := (Date.yearsBefore 1753 + 1) * 86400

/-- A time since 1753: the leap years of libical are those of the calendar. -/
structure Modern (t : IcalTime) : Prop where
  proper : Proper t
  year : 1752 < t.year

instance (t : IcalTime) : Decidable (Modern t) :=
  decidable_of_iff (Proper t ∧ 1752 < t.year) ⟨fun ⟨a, b⟩ => ⟨a, b⟩, fun ⟨a, b⟩ => ⟨a, b⟩⟩

section
variable {s t : IcalTime}

theorem modern_iff (h : Proper t) : Modern t ↔ eraStart ≤ seconds t := by
  have hyear : 1753 ≤ t.year ↔ Date.yearsBefore 1753 < (date t).number := h.date.le_year_iff
  have hhour := h.hour
  have hminute := h.minute
  have hsecond := h.second
  unfold eraStart seconds
  constructor
  · rintro ⟨-, hy⟩
    have hnum := hyear.1 hy
    omega
  · intro hsec
    exact ⟨h, hyear.2 (by omega)⟩

theorem Modern.seconds_le (h : Modern t) : eraStart ≤ seconds t := (modern_iff h.proper).1 h

theorem Modern.later (h : Modern s) {n : Nat} (hw : wall t = later s n) : Modern t := by
  have hle := Date.year_le_iterate (date s) n
  have hdate : date t = Date.next^[n] (date s) := congrArg Prod.fst hw
  rw [← hdate] at hle
  exact ⟨h.proper.later hw, Int.lt_of_lt_of_le h.year hle⟩

end

/-! ## Rules of recurrence -/

/-- What is asked about times and rules: `icaltime_null_time`, `icaltime_adjust` by days, hours,
minutes and seconds, `icaltime_compare`, the fields `count` and `until` of a rule,
`icalrecurrencetype_from_string`, and `icalrecur_iterator_new` with the times that
`icalrecur_iterator_next` returns one after the other. -/
structure RecurFunctions (R : Type) extends TimeFunctions where
  nullTime : IcalTime
  adjust : IcalTime → Int → Int → Int → Int → IcalTime
  compare : IcalTime → IcalTime → Int
  count : R → Int
  setCount : R → Int → R
  untilTime : R → IcalTime
  recurrence : Bytes → R
  iterator : R → IcalTime → Option (Nat → IcalTime)
  /-- The last year that an iterator goes to. -/
  lastYear : Int

/-- The times of an iterator: those before the first null time. -/
def Yields (isNull : IcalTime → Bool) (it : Nat → IcalTime) (t : IcalTime) : Prop :=
  ∃ n, it n = t ∧ ∀ i ≤ n, isNull (it i) = false

section
variable {R : Type} (lib : RecurFunctions R)

namespace RecurFunctions

def addDays (t : IcalTime) (n : Nat) : IcalTime := lib.adjust t n 0 0 0

def addSeconds (t : IcalTime) (n : Int) : IcalTime := lib.adjust t 0 0 0 n

/-- `rule.count || !icaltime_is_null_time(rule.until)`. -/
def isFinite (r : R) : Bool := lib.count r ≠ 0 || !lib.isNull (lib.untilTime r)

/-- `FREQ=DAILY` with a `count`. -/
def daily (count : Nat) : R := lib.setCount (lib.recurrence (ascii "FREQ=DAILY")) count

/-- The times of a rule. -/
def Occurs (r : R) (s t : IcalTime) : Prop :=
  ∃ it, lib.iterator r s = some it ∧ Yields lib.isNull it t

/-- Behind a time past some day come times of later days only. Times are compared as instants, so
that a rule need not do so where its zone leaves out an hour. -/
def Ascends (r : R) (s : IcalTime) : Prop :=
  ∀ it, lib.iterator r s = some it → ∀ i j, i ≤ j → lib.isNull (it j) = false →
    ∀ m n : Nat, wall (it j) = later s m → 0 < lib.compare (it i) (lib.addDays s n) → n < m

/-- What libical says about these functions, for times that are `Proper`, and since 1753 where it
counts days. -/
structure Documented : Prop extends lib.toTimeFunctions.Documented where
  year : ∀ t, lib.isValidTime t = true → 0 ≤ t.year
  /-- The null time is none of the calendar. -/
  shown : ∀ t, Proper t → 0 ≤ t.year → lib.isNull t = false
  null : lib.isNull lib.nullTime = true
  /-- A time is moved by the sum and normalised. -/
  adjust_time : ∀ t d h m s, Modern t → t.isDate = false →
    eraStart ≤ seconds t + d * 86400 + h * 3600 + m * 60 + s → Proper (lib.adjust t d h m s) ∧
      seconds (lib.adjust t d h m s) = seconds t + d * 86400 + h * 3600 + m * 60 + s
  /-- A date is moved by the days alone. -/
  adjust_date : ∀ t d h m s, Modern t → t.isDate = true → 0 ≤ d →
    date (lib.adjust t d h m s) = (date t).shift d ∧ clock (lib.adjust t d h m s) = clock t
  adjust_kind : ∀ t d h m s, (lib.adjust t d h m s).isDate = t.isDate ∧
    (lib.adjust t d h m s).isUTC = t.isUTC
  occurs_date : ∀ r s t, Modern s → lib.Occurs r s t → (date t).Proper
  /-- A daily rule has the days from the start on. -/
  daily_iterator : ∀ s, ∀ n : Nat, lib.isValidTime s = true → Modern s → 0 < n →
    (Date.next^[n] (date s)).year ≤ lib.lastYear →
      ∃ it, lib.iterator (lib.daily n) s = some it ∧
        (∀ i < n, wall (it i) = later s i ∧ lib.isNull (it i) = false) ∧ lib.isNull (it n) = true

end RecurFunctions

end

section
variable {R : Type} {lib : RecurFunctions R}

/-- **Days later the same clock is shown.** -/
theorem wall_addDays (h : lib.Documented) {t : IcalTime} (ht : Modern t) (n : Nat) :
    wall (lib.addDays t n) = later t n := by
  cases hd : t.isDate with
  | true =>
    obtain ⟨hdate, hclock⟩ := h.adjust_date t n 0 0 0 ht hd (Int.natCast_nonneg n)
    have hshift : (date t).shift n = Date.next^[n] (date t) := by
      rw [Date.shift, if_pos (Int.natCast_nonneg n), Int.toNat_natCast]
    rw [wall, RecurFunctions.addDays, hdate, hclock, hshift]
    rfl
  | false =>
    have hera := ht.seconds_le
    obtain ⟨hp, hsec⟩ := h.adjust_time t n 0 0 0 ht hd (by omega)
    refine wall_of_seconds hp (ht.proper.moved n) (h.adjust_kind t n 0 0 0).1 ?_
    rw [hsec, seconds_moved ht.proper.date]
    omega

theorem addDays_modern (h : lib.Documented) {t : IcalTime} (ht : Modern t) (n : Nat) :
    Modern (lib.addDays t n) := ht.later (wall_addDays h ht n)

theorem seconds_addDays (h : lib.Documented) {t : IcalTime} (ht : Modern t) (n : Nat) :
    seconds (lib.addDays t n) = seconds t + n * 86400 := by
  have hwall := (wall_addDays h ht n).trans (wall_moved t n).symm
  rw [seconds_wall hwall, seconds_moved ht.proper.date]

/-- **The index of a time** says that it is the start so many days later. -/
theorem recurrenceDay_later (h : lib.Documented) {s t : IcalTime} (hs : Modern s)
    (hpt : (date t).Proper) {n : Nat}
    (hday : recurrenceDay lib.toTimeFunctions s t = some (n : Int)) : wall t = later s n := by
  have hps := hs.proper.date
  have hfirst := civilDay_modern h.toDocumented hps hs.year
  obtain ⟨⟨⟨hvalid, -⟩, -, hclock⟩, hn, -, -⟩ := recurrenceDay_some.1 hday
  by_cases hty : 1752 < t.year
  · rw [civilDay_modern h.toDocumented hpt hty, hfirst] at hn
    have hdate := (Date.eq_iterate_next hps hpt n).2 (by omega)
    rw [wall, later, hdate, hclock]
  · -- an earlier time is counted before the start
    have hbefore := civilDay_before h.toDocumented hpt (h.year t hvalid) (by omega)
    have hstart := hps.le_year_iff.1 (show 1753 ≤ (date s).year from hs.year)
    omega

/-- And so has it: a time on a day of the table has the index of the day. -/
theorem recurrenceDay_of_later (h : lib.Documented) {s t : IcalTime} (hs : lib.isValidTime s = true)
    (hms : Modern s) (ht : lib.isValidTime t = true) {n : Nat} (hn : n ≤ 3660)
    (hw : wall t = later s n) : recurrenceDay lib.toTimeFunctions s t = some (n : Int) := by
  obtain ⟨hdate, hclock⟩ := Prod.mk.inj hw
  have hmt := hms.later hw
  have hyear := hmt.year
  have hnum := (Date.eq_iterate_next hms.proper.date hmt.proper.date n).1 hdate
  refine recurrenceDay_some.2
    ⟨⟨⟨ht, h.shown t hmt.proper (by omega)⟩, hs, hclock⟩, ?_, by omega, by omega⟩
  rw [civilDay_modern h.toDocumented hmt.proper.date hyear,
    civilDay_modern h.toDocumented hms.proper.date hms.year]
  omega

end

/-! ## Slots -/

/-- A table of days with the last day that was entered. -/
structure Slots (α : Type) where
  cells : List α
  last : Nat
deriving DecidableEq, Repr

namespace Slots

variable {α : Type}

/-- `table[day]=v`; `none` is a write past the table. -/
def put (s : Slots α) (day : Int) (v : α) : Option (Slots α) :=
  if 0 ≤ day ∧ day < s.cells.length then some { s with cells := s.cells.set day.toNat v } else none

/-- `if(day>last) last=day`. -/
def reach (s : Slots α) (day : Int) : Slots α :=
  if s.last < day then { s with last := day.toNat } else s

end Slots

/-- How a walk ends that does not go through. -/
inductive Refused
  | unsupported
  | overrun
deriving DecidableEq, Repr

/-- One entry. -/
def enter {α : Type} (grow : Bool) (s : Slots α) (day : Int) (v : α) : Except Refused (Slots α) :=
  match s.put day v with
  | none => .error .overrun
  | some s => .ok (if grow then s.reach day else s)

/-- The loop over the times of an iterator from the `i`th on. `left` is what remains of the budget,
`entry` the cell of a time and what is written there. -/
def walk {α : Type} (stop : IcalTime → Bool) (entry : IcalTime → Option (Int × α)) (grow : Bool)
    (it : Nat → IcalTime) : Nat → Nat → Slots α → Except Refused (Slots α × Nat)
  | left, i, s =>
    if stop (it i) then .ok (s, left)
    else match left with
      | 0 => .error .unsupported
      | left + 1 => match entry (it i) with
        | none => .error .unsupported
        | some (day, v) => do walk stop entry grow it left (i + 1) (← enter grow s day v)

/-! ## Staying in the table -/

/-- No write past the table, and `I` of what comes out. -/
def Inside {σ : Type} (I : σ → Prop) (x : Except Refused σ) : Prop :=
  x ≠ .error .overrun ∧ ∀ s, x = .ok s → I s

section
variable {σ τ β : Type} {I : σ → Prop} {J : τ → Prop}

theorem inside_ok {s : σ} (h : I s) : Inside I (.ok s) :=
  ⟨by simp, fun s' hs => Except.ok.inj hs ▸ h⟩

theorem inside_unsupported : Inside I (.error .unsupported) := ⟨by simp, by simp⟩

theorem inside_bind {x : Except Refused σ} {f : σ → Except Refused τ} (hx : Inside I x)
    (hf : ∀ s, I s → Inside J (f s)) : Inside J (x >>= f) := by
  cases x with
  | error e =>
    refine ⟨fun h => hx.1 ?_, fun s h => ?_⟩
    · cases h
      rfl
    · cases h
  | ok s => exact hf s (hx.2 s rfl)

theorem inside_foldlM {f : σ → β → Except Refused σ} (hf : ∀ x s, I s → Inside I (f s x)) :
    ∀ {l : List β} {s : σ}, I s → Inside I (l.foldlM f s)
  | [], _, h => inside_ok h
  | x :: l, s, h => by
    rw [List.foldlM_cons]
    exact inside_bind (hf x s h) fun s' h' => inside_foldlM hf h'

end

/-! ## What a walk has entered -/

section
variable {α : Type} {stop : IcalTime → Bool} {entry : IcalTime → Option (Int × α)} {grow : Bool}
  {it : Nat → IcalTime}

theorem enter_ok {s s' : Slots α} {day : Int} {v : α} (h : enter grow s day v = .ok s') :
    0 ≤ day ∧ day < s.cells.length ∧ s'.cells = s.cells.set day.toNat v ∧
      s'.last = if grow then max s.last day.toNat else s.last := by
  unfold enter Slots.put at h
  split at h
  · cases h
  · rename_i hput
    split at hput
    · rename_i hday
      cases hput
      cases h
      refine ⟨hday.1, hday.2, ?_, ?_⟩
      · cases grow
        · rfl
        · simp only [Slots.reach, if_true]
          split <;> rfl
      · cases grow
        · rfl
        · simp only [Slots.reach, if_true]
          split
          · show day.toNat = _
            omega
          · show s.last = _
            omega
    · cases hput

/-- The times that a walk from the `i`th on enters before it ends at the `n`th. -/
structure Walked (stop : IcalTime → Bool) (entry : IcalTime → Option (Int × α)) (grow : Bool)
    (it : Nat → IcalTime) (i n : Nat) (s s' : Slots α) : Prop where
  ends : stop (it n) = true
  entered : ∀ j, i ≤ j → j < n → stop (it j) = false ∧ ∃ d : Nat, ∃ v, entry (it j) = some (↑d, v) ∧
    d < s.cells.length ∧ (grow = true → d ≤ s'.last)
  length : s'.cells.length = s.cells.length
  /-- A cell is as it was, or holds what one of the times has for it. -/
  cell : ∀ k : Nat,
    (∃ j v, i ≤ j ∧ j < n ∧ entry (it j) = some ((k : Int), v) ∧ s'.cells[k]? = some v) ∨
    (∀ j v, i ≤ j → j < n → entry (it j) ≠ some ((k : Int), v)) ∧ s'.cells[k]? = s.cells[k]?
  last_le : s.last ≤ s'.last
  last : s'.last = s.last ∨ grow = true ∧ ∃ j v, i ≤ j ∧ j < n ∧ entry (it j) = some (↑s'.last, v)

/-- **What a walk that ends has entered.** -/
theorem walk_spec : ∀ {left i : Nat} {s s' : Slots α} {left' : Nat},
    walk stop entry grow it left i s = .ok (s', left') →
      ∃ n, i ≤ n ∧ Walked stop entry grow it i n s s' := by
  intro left
  induction left with
  | zero =>
    intro i s s' left' h
    unfold walk at h
    split at h
    · rename_i hstop
      cases h
      exact ⟨i, Nat.le_refl i, hstop, fun j hij hj => by omega, rfl,
        fun k => .inr ⟨fun j v hij hj => by omega, rfl⟩, Nat.le_refl _, .inl rfl⟩
    · cases h
  | succ left ih =>
    intro i s s' left' h
    unfold walk at h
    split at h
    · rename_i hstop
      cases h
      exact ⟨i, Nat.le_refl i, hstop, fun j hij hj => by omega, rfl,
        fun k => .inr ⟨fun j v hij hj => by omega, rfl⟩, Nat.le_refl _, .inl rfl⟩
    · rename_i hstop
      dsimp only at h
      split at h
      · cases h
      · rename_i day v hentry
        cases henter : enter grow s day v with
        | error e =>
          rw [henter] at h
          cases h
        | ok s₁ =>
          rw [henter] at h
          obtain ⟨n, hin, hw⟩ := ih (show walk stop entry grow it left (i + 1) s₁ = _ from h)
          obtain ⟨h0, hlt, hcells, hlast⟩ := enter_ok henter
          obtain ⟨d, rfl⟩ := Int.eq_ofNat_of_zero_le h0
          have hlen : s₁.cells.length = s.cells.length := by rw [hcells, List.length_set]
          have hle : s₁.last ≤ s'.last := hw.last_le
          refine ⟨n, by omega, hw.ends, fun j hij hj => ?_, hw.length.trans hlen, fun k => ?_, ?_,
            ?_⟩
          · by_cases hji : j = i
            · subst hji
              refine ⟨by simpa using hstop, d, v, hentry, by omega, fun hg => ?_⟩
              rw [if_pos hg] at hlast
              have htoNat : (d : Int).toNat = d := Int.toNat_natCast d
              omega
            · rw [← hlen]
              exact hw.entered j (by omega) hj
          · obtain ⟨j, v', hij, hj, hv, hk⟩ | ⟨hnone, hk⟩ := hw.cell k
            · exact .inl ⟨j, v', by omega, hj, hv, hk⟩
            · rw [hcells, Int.toNat_natCast] at hk
              by_cases hkd : k = d
              · subst hkd
                refine .inl ⟨i, v, Nat.le_refl i, by omega, hentry, ?_⟩
                rw [hk, List.getElem?_set_self (by omega)]
              · refine .inr ⟨fun j v' hij hj => ?_, ?_⟩
                · by_cases hji : j = i
                  · rw [hji, hentry]
                    simp only [ne_eq, Option.some.injEq, Prod.mk.injEq, Int.natCast_inj, not_and]
                    exact fun hd => absurd hd.symm hkd
                  · exact hnone j v' (by omega) hj
                · rw [hk, List.getElem?_set_ne (Ne.symm hkd)]
          · cases grow <;> simp at hlast <;> omega
          · obtain hsame | ⟨hg, j, v', hij, hj, hv⟩ := hw.last
            · by_cases hg : grow = true
              · rw [if_pos hg, Int.toNat_natCast] at hlast
                by_cases hmax : d ≤ s.last
                · exact .inl (by omega)
                · refine .inr ⟨hg, i, v, Nat.le_refl i, by omega, ?_⟩
                  rw [hentry, hsame, hlast, Nat.max_eq_right (by omega)]
              · rw [if_neg hg] at hlast
                exact .inl (by omega)
            · exact .inr ⟨hg, j, v', by omega, hj, hv⟩

/-- **No walk writes past the table** when its entries are days of the table. -/
theorem walk_inside : ∀ {left i : Nat} {s : Slots α},
    (∀ t day v, entry t = some (day, v) → 0 ≤ day ∧ day < s.cells.length) →
      walk stop entry grow it left i s ≠ .error .overrun := by
  intro left
  induction left with
  | zero =>
    intro i s _
    unfold walk
    split <;> simp
  | succ left ih =>
    intro i s hentry
    unfold walk
    split
    · simp
    · dsimp only
      split
      · simp
      · rename_i day v hv
        obtain ⟨s₁, h₁⟩ : ∃ s₁, enter grow s day v = .ok s₁ := by
          simp [enter, Slots.put, hentry _ day v hv]
        rw [h₁]
        apply ih
        rw [(enter_ok h₁).2.2.1, List.length_set]
        exact hentry

end

/-! ## The functions of libical -/

/-- `FREQ=DAILY` with an `INTERVAL` and a `COUNT`. -/
structure Steps where
  interval : Nat
  count : Nat
deriving DecidableEq, Repr

/-- Whether an iterator has an `n`th time. -/
def Steps.has (r : Steps) (s : IcalTime) (n : Nat) : Bool :=
  (r.count = 0 || n < r.count) && (Date.next^[r.interval * n] (date s)).year ≤ 2582

/-- A time moved by the sum and normalised, or a date by the days. -/
def gregorianAdjust (t : IcalTime) (d h m s : Int) : IcalTime :=
  let total := t.hour * 3600 + t.minute * 60 + t.second + h * 3600 + m * 60 + s
  let rest := total % 86400
  let e := (date t).shift (if t.isDate then d else d + total / 86400)
  if t.isDate then { t with year := e.year, month := e.month, day := e.day }
  else { t with
    year := e.year, month := e.month, day := e.day
    hour := rest / 3600, minute := rest % 3600 / 60, second := rest % 60 }

/-- Rules by days, and no others. -/
def gregorianRecur : RecurFunctions Steps where
  toTimeFunctions := libical
  nullTime := ⟨0, 0, 0, 0, 0, 0, false, false⟩
  adjust := gregorianAdjust
  compare t u := seconds t - seconds u
  count r := r.count
  setCount r n := { r with count := n.toNat }
  untilTime _ := ⟨0, 0, 0, 0, 0, 0, false, false⟩
  recurrence b := if b = ascii "FREQ=DAILY" then ⟨1, 0⟩ else ⟨0, 0⟩
  iterator r s := if libical.isValidTime s then
      some fun n => if r.has s n then moved s (r.interval * n) else ⟨0, 0, 0, 0, 0, 0, false, false⟩
    else none
  lastYear := 2582

/-- An iterator that has a time has those before it. -/
theorem Steps.has_le {r : Steps} {s : IcalTime} {i j : Nat} (hij : i ≤ j)
    (h : r.has s j = true) : r.has s i = true := by
  simp only [Steps.has, Bool.and_eq_true, Bool.or_eq_true, decide_eq_true_iff] at h ⊢
  obtain ⟨k, hk⟩ := Nat.exists_eq_add_of_le (Nat.mul_le_mul_left r.interval hij)
  have hle := Date.year_le_iterate (Date.next^[r.interval * i] (date s)) k
  rw [← Function.iterate_add_apply, Nat.add_comm k, ← hk] at hle
  exact ⟨h.1.imp_right fun hj => by omega, by omega⟩

theorem libical_shown (t : IcalTime) (h : Proper t) (hy : 0 ≤ t.year) :
    libical.isNull t = false := by
  have hmonth : 1 ≤ t.month := h.date.month_pos
  have hday : 1 ≤ t.day := h.date.day_pos
  have hhour := h.hour.1
  have hminute := h.minute.1
  have hsecond := h.second.1
  simp only [libical, decide_eq_false_iff_not]
  omega

theorem gregorianAdjust_date {t : IcalTime} (hd : t.isDate = true)
    (d h m s : Int) : date (gregorianAdjust t d h m s) = (date t).shift d ∧
      clock (gregorianAdjust t d h m s) = clock t := by
  simp only [gregorianAdjust, hd, if_true]
  exact ⟨rfl, by simp only [clock, hd]⟩

theorem gregorianAdjust_time {t : IcalTime} (ht : Proper t) (hd : t.isDate = false)
    (d h m s : Int) : Proper (gregorianAdjust t d h m s) ∧
      seconds (gregorianAdjust t d h m s) = seconds t + d * 86400 + h * 3600 + m * 60 + s := by
  generalize hn : d + (t.hour * 3600 + t.minute * 60 + t.second + h * 3600 + m * 60 + s) / 86400 = n
  have hdate : date (gregorianAdjust t d h m s) = (date t).shift n := by
    simp only [gregorianAdjust, hd, Bool.false_eq_true, if_false, hn]
    rfl
  have hnum : (date (gregorianAdjust t d h m s)).number = (date t).number + n := by
    rw [hdate, Date.number_shift ht.date]
  have hhour : (gregorianAdjust t d h m s).hour =
      (t.hour * 3600 + t.minute * 60 + t.second + h * 3600 + m * 60 + s) % 86400 / 3600 := by
    simp only [gregorianAdjust, hd, Bool.false_eq_true, if_false]
  have hminute : (gregorianAdjust t d h m s).minute =
      (t.hour * 3600 + t.minute * 60 + t.second + h * 3600 + m * 60 + s) % 86400 % 3600 / 60 := by
    simp only [gregorianAdjust, hd, Bool.false_eq_true, if_false]
  have hsecond : (gregorianAdjust t d h m s).second =
      (t.hour * 3600 + t.minute * 60 + t.second + h * 3600 + m * 60 + s) % 86400 % 60 := by
    simp only [gregorianAdjust, hd, Bool.false_eq_true, if_false]
  refine ⟨⟨hdate ▸ ht.date.shift n, by omega, by omega, by omega⟩, ?_⟩
  simp only [seconds, hnum, hhour, hminute, hsecond]
  omega

/-- The seconds of a time moved by days. -/
theorem gregorianAdjust_days {s : IcalTime} (hs : Proper s) (n : Nat) :
    seconds (gregorianAdjust s n 0 0 0) = seconds s + n * 86400 := by
  cases hd : s.isDate with
  | true =>
    obtain ⟨hdate, hclock⟩ := gregorianAdjust_date hd n 0 0 0
    simp only [clock, Prod.mk.injEq] at hclock
    simp only [seconds, hdate, hclock, Date.number_shift hs.date]
    omega
  | false =>
    rw [(gregorianAdjust_time hs hd n 0 0 0).2]
    omega

theorem gregorian_iterator {r : Steps} {s : IcalTime} {it : Nat → IcalTime}
    (h : gregorianRecur.iterator r s = some it) : libical.isValidTime s = true ∧
      ∀ n, (r.has s n = true → it n = moved s (r.interval * n)) ∧
        (libical.isNull (it n) = false → r.has s n = true ∧ it n = moved s (r.interval * n)) := by
  simp only [gregorianRecur] at h
  split at h
  · rename_i hs
    cases h
    refine ⟨hs, fun n => ⟨fun hhas => if_pos hhas, fun hn => ?_⟩⟩
    dsimp only at hn ⊢
    split at hn
    · rename_i hhas
      exact ⟨hhas, if_pos hhas⟩
    · cases hn
  · cases h

theorem gregorianRecur_ascends {r : Steps} {s : IcalTime} (hs : Proper s) :
    gregorianRecur.Ascends r s := by
  intro it hit i j hij hj m n hw hi
  obtain ⟨-, hmoved⟩ := gregorian_iterator hit
  obtain ⟨hhas, hitj⟩ := (hmoved j).2 hj
  have hiti := (hmoved i).1 (Steps.has_le hij hhas)
  have hle : r.interval * i ≤ r.interval * j := Nat.mul_le_mul_left _ hij
  have hday := later_inj hs.date ((wall_moved s _).symm.trans (hitj ▸ hw))
  have hlimit := gregorianAdjust_days hs n
  rw [hiti] at hi
  simp only [gregorianRecur, RecurFunctions.addDays, seconds_moved hs.date] at hi
  omega

theorem gregorianRecur_documented : gregorianRecur.Documented where
  toDocumented := libical_documented
  year t h := by
    simp only [gregorianRecur, libical, decide_eq_true_iff] at h
    exact h.1
  shown := libical_shown
  null := rfl
  adjust_time _ d h m s ht hd _ := gregorianAdjust_time ht.proper hd d h m s
  adjust_date _ d h m s _ hd _ := gregorianAdjust_date hd d h m s
  adjust_kind t d h m s := by
    cases hd : t.isDate <;> simp [gregorianRecur, gregorianAdjust, hd]
  occurs_date := by
    rintro r s t hs ⟨it, hit, n, rfl, hn⟩
    obtain ⟨-, hmoved⟩ := ((gregorian_iterator hit).2 n).2 (hn n (Nat.le_refl n))
    rw [hmoved]
    exact (hs.proper.moved _).date
  daily_iterator s n hs hps hn hlast := by
    have hrule : gregorianRecur.daily n = ⟨1, n⟩ := by
      simp [gregorianRecur, RecurFunctions.daily]
    have hsome : gregorianRecur.isValidTime s = libical.isValidTime s := rfl
    rw [hsome] at hs
    rw [hrule]
    refine ⟨_, by simp only [gregorianRecur, hs, if_true]; rfl, fun i hi => ?_, ?_⟩
    · have hhas : Steps.has ⟨1, n⟩ s i = true := by
        obtain ⟨k, rfl⟩ := Nat.exists_eq_add_of_le hi.le
        have hle := Date.year_le_iterate (Date.next^[i] (date s)) k
        rw [← Function.iterate_add_apply, Nat.add_comm k] at hle
        simp only [Steps.has, Bool.and_eq_true, Bool.or_eq_true, decide_eq_true_iff, Nat.one_mul]
        exact ⟨.inr hi, Int.le_trans hle hlast⟩
      have hyear := Date.year_le_iterate (date s) i
      simp only [libical, decide_eq_true_iff] at hs
      simp only [hhas, if_true, Nat.one_mul]
      exact ⟨wall_moved s i, libical_shown _ (hps.proper.moved i) (Int.le_trans hs.1 hyear)⟩
    · have hhas : Steps.has ⟨1, n⟩ s n = false := by
        simp only [Steps.has, Nat.lt_irrefl, decide_false, Bool.or_false, Bool.and_eq_false_iff,
          decide_eq_false_iff_not]
        exact .inl hn.ne'
      simp only [hhas, Bool.false_eq_true, if_false]
      rfl

end Projection
