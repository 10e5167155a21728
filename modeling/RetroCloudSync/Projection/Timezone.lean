import RetroCloudSync.Projection.Expand

/-!
# Zoned series as series of instants

`ProjectTimezone` of `RCCalendarProjection.c`, with `RCCalendarSourceZone`, `RCSourceZoneIsFixed`
and `RCCalendarNeedsUTCProjection`. A series whose zone the native store has other rules for is
written as a daily series in UTC (the envelope): each day of the source series that is off the
envelope becomes a detached event, each day without an occurrence an `EXDATE`.

`needs_exact`: what the decision samples. `project_exact`: the instants of the envelope are those of
the source series.
-/

set_option autoImplicit false

namespace Projection

open Library Journal CalendarStore

/-! ## Zones -/

/-- What is read of a `STANDARD` or `DAYLIGHT` part of a time zone. -/
structure ZonePart where
  offsetFrom : Option Int
  offsetTo : Option Int
  start : IcalTime

/-- The time zones of a calendar and of libical: `icalcomponent_get_timezone` or
`icaltimezone_get_builtin_timezone`, the parts of a definition, `icaltimezone_get_utc_offset` and
`icaltimezone_convert_time`; `add` is `icaltime_add` of a duration of so many seconds. -/
structure ZoneFunctions (R Z : Type) extends RecurFunctions R where
  add : IcalTime → Int → IcalTime
  zone : Bytes → Option Z
  utcZone : Z
  parts : Z → List ZonePart
  offset : Z → IcalTime → Int
  convert : IcalTime → Z → Z → IcalTime

section
variable {R Z : Type} [DecidableEq Z] (lib : ZoneFunctions R Z)

/-- A part that says what it changes from and to, and since when. -/
def ZonePart.usable (p : ZonePart) : Bool :=
  p.offsetFrom.isSome && p.offsetTo.isSome && !lib.isNull p.start && lib.isValidTime p.start

/-- `RCCalendarSourceZone`. -/
def sourceZone (tz : Option Bytes) : Option Z :=
  match tz.bind lib.zone with
  | none => none
  | some z =>
    if z = lib.utcZone then some z
    else if (lib.parts z).all (ZonePart.usable lib) && !(lib.parts z).isEmpty then some z
    else none

/-- `RCSourceZoneIsFixed`. -/
def sourceZoneIsFixed (z : Z) (offset : Int) : Bool :=
  (lib.parts z).all (fun p => p.offsetFrom = some offset && p.offsetTo = some offset) &&
    !(lib.parts z).isEmpty

/-- `UTC`. -/
def utc (wall : IcalTime) (offset : Int) : IcalTime :=
  { lib.addSeconds wall (-offset) with isUTC := true }

/-! ## The decision -/

/-- `RCCalendarNativeOffset`, or no callback. -/
abbrev NativeOffset : Type := Option (Bytes → IcalTime → Option Int)

/-- The native store has the offset of the zone at a time. -/
def agrees (native : NativeOffset) (tz : Bytes) (z : Z) (t : IcalTime) : Bool :=
  native.any fun f => f tz (utc lib t (lib.offset z t)) = some (lib.offset z t)

/-- The loop over the days up to the year `limit`; six years have fewer days than `fuel`. -/
def daysAgree (native : NativeOffset) (tz : Bytes) (z : Z) (limit : Int) : Nat → IcalTime → Bool
  | 0, _ => true
  | fuel + 1, t =>
    if t.year ≤ limit then
      agrees lib native tz z t && daysAgree native tz z limit fuel (lib.addDays t 1)
    else true

/-- Noon of a day, with the minutes and seconds of the start. -/
def noon (start : IcalTime) (d : Date) : IcalTime :=
  { start with year := d.year, month := d.month, day := d.day, hour := 12 }

/-- What the projection reads of a `VEVENT`; `rules` and `exdates` in the order of the event. -/
structure Series (R : Type) where
  start : Stamp
  dtend : IcalTime
  /-- `icalcomponent_get_duration`, in seconds. -/
  duration : Int
  hasDuration : Bool
  rules : List R
  exdates : List Stamp
  /-- A `VALARM` with a trigger at a time. -/
  absoluteAlarm : Bool

/-- `RCCalendarNeedsUTCProjection`. -/
def needsUTCProjection (native : NativeOffset) (e : Series R) : Bool :=
  match e.start.tzid with
  | none => false
  | some tz =>
    if e.start.time.isDate || e.rules.isEmpty then false
    else match sourceZone lib (some tz) with
      | none => false
      | some z =>
        if sourceZoneIsFixed lib z (lib.offset z e.start.time) then false
        else !daysAgree lib native tz z (e.start.time.year + 5) 2197
          (noon e.start.time ⟨e.start.time.year, 1, 1⟩)

/-! ## The projection -/

/-- A detached event. -/
structure Detached where
  recurrenceID : IcalTime
  start : IcalTime
  dtend : IcalTime
deriving DecidableEq, Repr

/-- The rewritten event, with the events that are added beside it. -/
structure Envelope where
  start : IcalTime
  dtend : IcalTime
  count : Nat
  exdates : List IcalTime
  detached : List Detached
deriving DecidableEq, Repr

/-- The cell of an occurrence, and its instant. -/
def instantEntry (e : Series R) (z : Z) (t : IcalTime) : Option (Int × IcalTime) :=
  if 2037 < t.year ∨ 2037 < (lib.add t e.duration).year then none
  else (recurrenceDay lib.toTimeFunctions e.start.time t).map fun day =>
    (day, utc lib t (lib.offset z t))

/-- One `EXDATE`: the day on which the zone of the series shows its time is cleared. -/
def clearDate (start : IcalTime) (z : Z) (s : Slots IcalTime) (x : Stamp) :
    Except Refused (Slots IcalTime) :=
  match if x.time.isUTC then some lib.utcZone else sourceZone lib x.tzid with
  | none => .error .unsupported
  | some from' =>
    if x.time.isDate then .error .unsupported
    else match recurrenceDay lib.toTimeFunctions start (lib.convert x.time from' z) with
      | none => .ok s
      | some day => enter false s day lib.nullTime

/-- What `calloc` leaves. -/
def zeroTime : IcalTime := ⟨0, 0, 0, 0, 0, 0, false, false⟩

/-- `occurrences`, with `last`. -/
def instants (e : Series R) (z : Z) (r : R) : Except Refused (Slots IcalTime) := do
  match lib.iterator r e.start.time with
  | none => .error .unsupported
  | some it =>
    let first := utc lib e.start.time (lib.offset z e.start.time)
    let s ← walk lib.isNull (instantEntry lib e z) true it 10000 0
      ⟨first :: List.replicate 3660 zeroTime, 0⟩
    e.exdates.foldlM (clearDate lib e.start.time z) s.1

/-- The envelope of a table: a day without an instant is excluded, an instant off the envelope is
detached. -/
def envelope (first : IcalTime) (duration : Int) (s : Slots IcalTime) : Envelope :=
  let days := List.range (s.last + 1)
  let actual (day : Nat) : IcalTime := s.cells.getD day zeroTime
  { start := first
    dtend := lib.addSeconds first duration
    count := s.last + 1
    exdates := (days.filter fun day => lib.isNull (actual day)).map (lib.addDays first)
    detached := (days.filter fun day => !lib.isNull (actual day) &&
        lib.compare (actual day) (lib.addDays first day) ≠ 0).map fun day =>
      ⟨lib.addDays first day, actual day, lib.addSeconds (actual day) duration⟩ }

/-- `ProjectTimezone`; `overridden` is whether some event of the calendar has a `RECURRENCE-ID`. No
envelope means that the event stays as it is. -/
def projectTimezone (native : NativeOffset) (overridden : Bool) (e : Series R) :
    Except Refused (Option Envelope) :=
  if !needsUTCProjection lib native e then .ok none
  else if overridden || e.absoluteAlarm then .error .unsupported
  else match sourceZone lib e.start.tzid, e.rules with
    | some z, [r] =>
      if !lib.isFinite r || 2037 < e.start.time.year || 2037 < e.dtend.year ||
          e.duration < 0 || 86400 < e.duration || e.hasDuration then .error .unsupported
      else do
        let s ← instants lib e z r
        .ok (some (envelope lib (utc lib e.start.time (lib.offset z e.start.time)) e.duration s))
    | _, _ => .error .unsupported

/-! ## What the decision samples -/

omit [DecidableEq Z] in
/-- A day later the loop is at the noon of the next date. -/
theorem noon_next (hlib : lib.toRecurFunctions.Documented) {start : IcalTime}
    (hminute : 0 ≤ start.minute ∧ start.minute < 60)
    (hsecond : 0 ≤ start.second ∧ start.second < 60) {d : Date} (hd : d.Proper)
    (hy : 1752 < d.year) : lib.addDays (noon start d) 1 = noon start d.next := by
  have hhour : 0 ≤ (noon start d).hour ∧ (noon start d).hour < 24 := by simp [noon]
  have hmodern : Modern (noon start d) := ⟨⟨hd, hhour, hminute, hsecond⟩, hy⟩
  exact eq_of_wall (wall_addDays hlib hmodern 1) (hlib.adjust_kind (noon start d) 1 0 0 0).2

omit [DecidableEq Z] in
theorem daysAgree_iff (hlib : lib.toRecurFunctions.Documented) {native : NativeOffset} {tz : Bytes}
    {z : Z} {limit : Int} {start : IcalTime} (hminute : 0 ≤ start.minute ∧ start.minute < 60)
    (hsecond : 0 ≤ start.second ∧ start.second < 60) :
    ∀ {fuel : Nat} {d : Date}, d.Proper → 1752 < d.year →
      (daysAgree lib native tz z limit fuel (noon start d) = true ↔
        ∀ k < fuel, (Date.next^[k] d).year ≤ limit →
          agrees lib native tz z (noon start (Date.next^[k] d)) = true) := by
  intro fuel
  induction fuel with
  | zero => simp [daysAgree]
  | succ fuel ih =>
    intro d hd hy
    have hstep := noon_next lib hlib hminute hsecond hd hy
    have hnext := Int.lt_of_lt_of_le hy d.year_le_next
    have hyear : (noon start d).year = d.year := rfl
    unfold daysAgree
    rw [hyear]
    split
    · rename_i hle
      rw [Bool.and_eq_true, hstep, ih hd.next hnext]
      constructor
      · rintro ⟨hfirst, hrest⟩ k hk hyear
        cases k with
        | zero => exact hfirst
        | succ k => exact hrest k (by omega) hyear
      · intro h
        exact ⟨h 0 (by omega) hle, fun k hk => h (k + 1) (by omega)⟩
    · rename_i hgt
      simp only [true_iff]
      intro k _ hyear
      have hle := Date.year_le_iterate d k
      omega

theorem days_lt {d : Date} (hd : d.Proper) {y : Int} (hy : y ≤ d.year) (hy' : d.year ≤ y + 5) :
    ∃ k < 2197, d = Date.next^[k] ⟨y, 1, 1⟩ := by
  have hfirst : (⟨y, 1, 1⟩ : Date).Proper := by
    constructor <;> simp [Date.daysInMonth]
  have hone : (⟨y, 1, 1⟩ : Date).number = Date.yearsBefore y + 1 := rfl
  have hle := hd.ordinal_le_year
  have hpos := hd.ordinal_pos
  have hyear : Date.daysInYear d.year ≤ 366 := by
    unfold Date.daysInYear
    split <;> omega
  have hbefore := Date.yearsBefore_le hy
  have htop := Date.yearsBefore_le hy'
  have hsix : Date.yearsBefore (y + 5) ≤ Date.yearsBefore y + 1830 := by
    unfold Date.yearsBefore
    omega
  have hnum : d.number = Date.yearsBefore d.year + d.ordinal := rfl
  refine ⟨(d.number - (Date.yearsBefore y + 1)).toNat, by omega, ?_⟩
  rw [Date.eq_iterate_next hfirst hd, hone]
  omega

/-- **What the decision samples.** Of a timed series with rules in a usable zone that is not fixed,
it says "no" exactly when the native store has the offsets of the zone at noon of every day of six
years from the year of the start on; the series starts in 1753 or later. -/
theorem needs_exact (hlib : lib.toRecurFunctions.Documented) {native : NativeOffset} {e : Series R}
    {tz : Bytes} {z : Z} (htz : e.start.tzid = some tz) (htimed : e.start.time.isDate = false)
    (hy : 1752 < e.start.time.year) (hminute : 0 ≤ e.start.time.minute ∧ e.start.time.minute < 60)
    (hsecond : 0 ≤ e.start.time.second ∧ e.start.time.second < 60) (hrules : e.rules ≠ [])
    (hz : sourceZone lib e.start.tzid = some z)
    (hfixed : sourceZoneIsFixed lib z (lib.offset z e.start.time) = false) :
    needsUTCProjection lib native e = false ↔
      ∀ d : Date, d.Proper → e.start.time.year ≤ d.year → d.year ≤ e.start.time.year + 5 →
        agrees lib native tz z (noon e.start.time d) = true := by
  have hsome : e.rules.isEmpty = false := by simpa using hrules
  have hfirst : (⟨e.start.time.year, 1, 1⟩ : Date).Proper := by
    constructor <;> simp [Date.daysInMonth]
  rw [htz] at hz
  unfold needsUTCProjection
  rw [htz]
  simp only [htimed, hsome, Bool.or_self, Bool.false_eq_true, if_false, hz, hfixed,
    Bool.not_eq_false', daysAgree_iff lib hlib hminute hsecond hfirst hy]
  constructor
  · intro h d hd hfrom hto
    obtain ⟨k, hk, rfl⟩ := days_lt hd hfrom hto
    exact h k hk hto
  · intro h k _ hyear
    exact h _ (hfirst.iterate k) (Date.year_le_iterate _ k) hyear

theorem needs_timed {native : NativeOffset} {e : Series R}
    (h : needsUTCProjection lib native e = true) : e.start.time.isDate = false := by
  unfold needsUTCProjection at h
  split at h
  · cases h
  · split at h
    · cases h
    · rename_i hc
      simp only [Bool.or_eq_true, not_or, Bool.not_eq_true] at hc
      exact hc.1

end

/-! ## Instants -/

/-- The spans of a series and its detached events: where they start and end, in seconds of UTC. -/
def Envelope.spans (e : Envelope) : Set (Int × Int) :=
  {p | (∃ k < e.count, p = (seconds e.start + k * 86400, seconds e.dtend + k * 86400) ∧
      (∀ x ∈ e.exdates, seconds x ≠ p.1) ∧ ∀ d ∈ e.detached, seconds d.recurrenceID ≠ p.1) ∨
    ∃ d ∈ e.detached, p = (seconds d.start, seconds d.dtend)}

section
variable {R Z : Type} [DecidableEq Z] (lib : ZoneFunctions R Z)

/-- Offsets are those of what the clock shows, within five days; times of UTC compare as instants; a
date that is converted is one of the calendar. -/
structure ZoneFunctions.Documented : Prop extends toRules : lib.toRecurFunctions.Documented where
  zero : lib.isNull zeroTime = true
  offset_wall : ∀ z t u, wall t = wall u → lib.offset z t = lib.offset z u
  offset_bound : ∀ z t, -432000 ≤ lib.offset z t ∧ lib.offset z t ≤ 432000
  compare_utc : ∀ t u, t.isUTC = true → u.isUTC = true → t.isDate = false → u.isDate = false →
    Proper t → Proper u → (lib.compare t u = 0 ↔ seconds t = seconds u)
  convert_date : ∀ t f z, (date t).Proper → 1753 < t.year → (date (lib.convert t f z)).Proper

/-- The zone an `EXDATE` is read in. -/
def exdateZone (x : Stamp) : Option Z :=
  if x.time.isUTC then some lib.utcZone else sourceZone lib x.tzid

/-- Some `EXDATE` shows this in the zone of the series. -/
def Series.Cancels (e : Series R) (z : Z) (w : Wall) : Prop :=
  ∃ x ∈ e.exdates, ∃ from', exdateZone lib x = some from' ∧
    lib.isValidTime (lib.convert x.time from' z) = true ∧ wall (lib.convert x.time from' z) = w

/-- The times of the series: its start and those of its rule. -/
def Series.Occurs (e : Series R) (r : R) (t : IcalTime) : Prop :=
  t = e.start.time ∨ lib.Occurs r e.start.time t

/-- The instant that a time of the zone is. -/
def instant (z : Z) (t : IcalTime) : Int := seconds t - lib.offset z t

end

section
variable {R Z : Type} [DecidableEq Z] {lib : ZoneFunctions R Z} {P : Nat → Prop} {z : Z}
  {start : IcalTime}

/-- The instant of the day `k`. -/
structure Instant (lib : ZoneFunctions R Z) (z : Z) (start : IcalTime) (k : Nat) (c : IcalTime) :
    Prop where
  shown : lib.isNull c = false
  isUTC : c.isUTC = true
  timed : c.isDate = false
  modern : Modern c
  seconds : seconds c = instant lib z (moved start k)

/-- A start that series are projected from: the year before is 1753 or later. -/
structure Timed (lib : ZoneFunctions R Z) (start : IcalTime) : Prop where
  valid : lib.isValidTime start = true
  proper : Proper start
  year : 1753 < start.year
  timed : start.isDate = false

omit [DecidableEq Z] in
theorem Timed.modern (h : Timed lib start) : Modern start :=
  ⟨h.proper, Int.lt_trans (by decide) h.year⟩

omit [DecidableEq Z] in
theorem Timed.seconds_le (h : Timed lib start) : eraStart + 365 * 86400 ≤ seconds start := by
  have hnum := h.proper.date.le_year_iff.1 (show 1754 ≤ (date start).year from h.year)
  have hyear : Date.yearsBefore 1754 = Date.yearsBefore 1753 + 365 := by decide
  have hhour := h.proper.hour
  have hminute := h.proper.minute
  have hsecond := h.proper.second
  unfold eraStart seconds
  omega

omit [DecidableEq Z] in
theorem addSeconds_timed (hlib : lib.Documented) {t : IcalTime} (ht : Modern t)
    (hd : t.isDate = false) {n : Int} (hn : eraStart ≤ seconds t + n) :
    Modern (lib.addSeconds t n) ∧ seconds (lib.addSeconds t n) = seconds t + n ∧
      (lib.addSeconds t n).isDate = false := by
  obtain ⟨hp, hsec⟩ := hlib.adjust_time t 0 0 0 n ht hd (by omega)
  have hsum : seconds (lib.addSeconds t n) = seconds t + n := by
    rw [RecurFunctions.addSeconds, hsec]
    omega
  exact ⟨(modern_iff hp).2 (hsum ▸ hn), hsum, (hlib.adjust_kind t 0 0 0 n).1.trans hd⟩

omit [DecidableEq Z] in
/-- What is entered for a time on the day `k`. -/
theorem instant_utc (hlib : lib.Documented) (hs : Timed lib start) {t : IcalTime} {k : Nat}
    (hw : wall t = later start k) : Instant lib z start k (utc lib t (lib.offset z t)) := by
  have hws : wall t = wall (moved start k) := hw.trans (wall_moved start k).symm
  have hmt := hs.modern.later hw
  have htimed : t.isDate = false := by
    have hclock : clock t = clock start := congrArg Prod.snd hw
    simp only [clock, Prod.mk.injEq] at hclock
    exact hclock.1.trans hs.timed
  -- the year before it is still one of the calendar
  have hera : eraStart ≤ seconds t + -lib.offset z t := by
    have hstart := hs.seconds_le
    have hhigh := (hlib.offset_bound z t).2
    rw [seconds_wall hws, seconds_moved hs.proper.date]
    omega
  obtain ⟨hm, hsec, hd⟩ := addSeconds_timed hlib hmt htimed hera
  have hproper : Proper (utc lib t (lib.offset z t)) :=
    ⟨hm.proper.date, hm.proper.hour, hm.proper.minute, hm.proper.second⟩
  have hyear : 1752 < (utc lib t (lib.offset z t)).year := hm.year
  refine ⟨hlib.shown _ hproper (by omega), rfl, hd, ⟨hproper, hyear⟩, ?_⟩
  show Projection.seconds (lib.addSeconds t (-lib.offset z t)) = _
  rw [hsec, seconds_wall hws, hlib.offset_wall z t _ hws, instant]
  omega

/-- The table of the instants of the days `P`. -/
structure Filled (lib : ZoneFunctions R Z) (z : Z) (start : IcalTime) (P : Nat → Prop)
    (s : Slots IcalTime) : Prop where
  length : s.cells.length = 3661
  cell : ∀ k c, s.cells[k]? = some c →
    P k ∧ Instant lib z start k c ∨ ¬ P k ∧ lib.isNull c = true
  bounded : ∀ k, P k → k ≤ s.last
  inside : s.last < 3661

omit [DecidableEq Z] in
theorem instantEntry_some {e : Series R} {t c : IcalTime} {day : Int}
    (h : instantEntry lib e z t = some (day, c)) :
    recurrenceDay lib.toTimeFunctions e.start.time t = some day ∧
      c = utc lib t (lib.offset z t) := by
  unfold instantEntry at h
  split at h
  · cases h
  · simp only [Option.map_eq_some_iff, Prod.mk.injEq] at h
    obtain ⟨d, hd, rfl, rfl⟩ := h
    exact ⟨hd, rfl⟩

omit [DecidableEq Z] in
/-- The walk of the rule fills the table. -/
theorem walk_filled (hlib : lib.Documented) {e : Series R} {r : R} {it : Nat → IcalTime}
    (hs : Timed lib e.start.time) (hit : lib.iterator r e.start.time = some it)
    {q : Slots IcalTime × Nat}
    (h : walk lib.isNull (instantEntry lib e z) true it 10000 0
      ⟨utc lib e.start.time (lib.offset z e.start.time) :: List.replicate 3660 zeroTime, 0⟩ =
        .ok q) :
    (∀ t, lib.Occurs r e.start.time t → ∃ k ≤ 3660, wall t = later e.start.time k) ∧
    Filled lib z e.start.time
      (fun k => ∃ t, e.Occurs lib r t ∧ wall t = later e.start.time k) q.1 := by
  obtain ⟨n, -, hw⟩ := walk_spec h
  have hocc : ∀ t, lib.Occurs r e.start.time t ↔ ∃ j < n, it j = t := by
    intro t
    rw [occurs_iff hit]
    constructor
    · rintro ⟨m, rfl, hm⟩
      refine ⟨m, ?_, rfl⟩
      by_contra hge
      have hend := hm n (by omega)
      rw [hw.ends] at hend
      cases hend
    · rintro ⟨j, hj, rfl⟩
      exact ⟨j, rfl, fun i hi => (hw.entered i (by omega) (by omega)).1⟩
  have hday : ∀ {t : IcalTime} {k : Nat}, lib.Occurs r e.start.time t →
      recurrenceDay lib.toTimeFunctions e.start.time t = some (k : Int) →
        k ≤ 3660 ∧ wall t = later e.start.time k := by
    intro t k ht hk
    have hrange := recurrenceDay_range hk
    exact ⟨by omega, recurrenceDay_later hlib.toRules hs.modern
      (hlib.occurs_date r _ t hs.modern ht) hk⟩
  have hstart : wall e.start.time = later e.start.time 0 := rfl
  have hentered : ∀ t, lib.Occurs r e.start.time t → ∃ k : Nat, ∃ j < n, it j = t ∧
      recurrenceDay lib.toTimeFunctions e.start.time t = some (k : Int) ∧ k ≤ q.1.last := by
    intro t ht
    obtain ⟨j, hj, rfl⟩ := (hocc t).1 ht
    obtain ⟨-, k, v, hv, -, hle⟩ := hw.entered j (by omega) hj
    exact ⟨k, j, hj, rfl, (instantEntry_some hv).1, hle rfl⟩
  refine ⟨fun t ht => ?_, ?_, fun k c hc => ?_, fun k hk => ?_, ?_⟩
  · obtain ⟨k, -, -, -, hk, -⟩ := hentered t ht
    exact ⟨k, hday ht hk⟩
  · rw [hw.length, List.length_cons, List.length_replicate]
  · obtain ⟨j, v, -, hj, hv, hk⟩ | ⟨hnone, hk⟩ := hw.cell k
    · obtain ⟨hd, rfl⟩ := instantEntry_some hv
      rw [hk] at hc
      cases hc
      have hj' := (hocc _).2 ⟨j, hj, rfl⟩
      have hwall := (hday hj' hd).2
      exact .inl ⟨⟨it j, .inr hj', hwall⟩, instant_utc hlib hs hwall⟩
    · rw [hk] at hc
      cases k with
      | zero =>
        rw [List.getElem?_cons_zero] at hc
        cases hc
        exact .inl ⟨⟨_, .inl rfl, hstart⟩, instant_utc hlib hs hstart⟩
      | succ k =>
        simp only [List.getElem?_cons_succ, List.getElem?_replicate] at hc
        split at hc
        · cases hc
          refine .inr ⟨?_, hlib.zero⟩
          rintro ⟨t, rfl | ht, hwall⟩
          · have := later_inj hs.proper.date (hstart.symm.trans hwall)
            omega
          · obtain ⟨k', j, hj, rfl, hk', -⟩ := hentered t ht
            have hsame := later_inj hs.proper.date ((hday ht hk').2.symm.trans hwall)
            subst hsame
            obtain ⟨-, d, v, hv, -⟩ := hw.entered j (by omega) hj
            have hd := (instantEntry_some hv).1
            rw [hk', Option.some.injEq] at hd
            exact hnone j v (by omega) hj (hd ▸ hv)
        · cases hc
  · obtain ⟨t, rfl | ht, hwall⟩ := hk
    · have hzero := later_inj hs.proper.date (hstart.symm.trans hwall)
      omega
    · obtain ⟨k', -, -, -, hk', hle⟩ := hentered t ht
      have hsame := later_inj hs.proper.date ((hday ht hk').2.symm.trans hwall)
      omega
  · obtain hsame | ⟨-, j, v, -, -, hv⟩ := hw.last
    · rw [hsame]
      exact Nat.zero_lt_succ _
    · have hrange := recurrenceDay_range (instantEntry_some hv).1
      omega

/-- One `EXDATE` clears its day. -/
theorem clearDate_filled (hlib : lib.Documented) {s s' : Slots IcalTime} {x : Stamp}
    (hs : Timed lib start) (hdate : (date x.time).Proper) (hy : 1753 < x.time.year)
    (h : Filled lib z start P s)
    (hx : clearDate lib start z s x = .ok s') :
    Filled lib z start (fun k => P k ∧ ¬ ∃ from', exdateZone lib x = some from' ∧
      lib.isValidTime (lib.convert x.time from' z) = true ∧
      wall (lib.convert x.time from' z) = later start k) s' := by
  unfold clearDate at hx
  split at hx
  · cases hx
  · rename_i from' hfrom
    have hzone : exdateZone lib x = some from' := hfrom
    have hin := h.inside
    split at hx
    · cases hx
    · split at hx
      · rename_i hnone
        cases hx
        -- no day of the table is shown
        have hmiss : ∀ k ≤ 3660, ¬ ∃ f, exdateZone lib x = some f ∧
            lib.isValidTime (lib.convert x.time f z) = true ∧
            wall (lib.convert x.time f z) = later start k := by
          rintro k hk ⟨f, hf, hv, hwall⟩
          rw [hzone, Option.some.injEq] at hf
          subst hf
          have hday := recurrenceDay_of_later hlib.toRules hs.valid hs.modern hv hk hwall
          rw [hnone] at hday
          cases hday
        refine ⟨h.length, fun k c hc => ?_, fun k hk => h.bounded k hk.1, h.inside⟩
        have hk : k < s.cells.length := (List.getElem?_eq_some_iff.1 hc).1
        have hlen := h.length
        obtain ⟨hP, hi⟩ | ⟨hP, hn⟩ := h.cell k c hc
        · exact .inl ⟨⟨hP, hmiss k (by omega)⟩, hi⟩
        · exact .inr ⟨fun hand => hP hand.1, hn⟩
      · rename_i day hday
        obtain ⟨h0, hlt, hcells, hlast⟩ := enter_ok hx
        obtain ⟨d, rfl⟩ := Int.eq_ofNat_of_zero_le h0
        rw [Int.toNat_natCast] at hcells
        have hlen := h.length
        have hv := (recurrenceDay_some.1 hday).1.1.1
        have hwall := recurrenceDay_later hlib.toRules hs.modern
          (hlib.convert_date x.time from' z hdate hy) hday
        refine ⟨?_, fun k c hc => ?_, fun k hk => ?_, ?_⟩
        · rw [hcells, List.length_set, h.length]
        · rw [hcells, List.getElem?_set] at hc
          split at hc
          · rename_i hdk
            subst hdk
            split at hc
            · cases hc
              exact .inr ⟨fun hand => hand.2 ⟨from', hzone, hv, hwall⟩, hlib.null⟩
            · cases hc
          · rename_i hdk
            obtain ⟨hP, hi⟩ | ⟨hP, hn⟩ := h.cell k c hc
            · refine .inl ⟨⟨hP, ?_⟩, hi⟩
              rintro ⟨f, hf, -, hw⟩
              rw [hzone, Option.some.injEq] at hf
              subst hf
              exact hdk (later_inj hs.proper.date (hwall.symm.trans hw))
            · exact .inr ⟨fun hand => hP hand.1, hn⟩
        · rw [hlast]
          exact h.bounded k hk.1
        · rw [hlast]
          exact h.inside

omit [DecidableEq Z] in
theorem Filled.congr {Q : Nat → Prop} {s : Slots IcalTime} (h : Filled lib z start P s)
    (hPQ : ∀ k, P k ↔ Q k) : Filled lib z start Q s where
  length := h.length
  cell k c hc := by
    rw [← hPQ k]
    exact h.cell k c hc
  bounded k hk := h.bounded k ((hPQ k).2 hk)
  inside := h.inside

/-- **The table of the instants**: those of the days with an occurrence that no `EXDATE` shows. -/
theorem instants_filled (hlib : lib.Documented) {e : Series R} {r : R} {s : Slots IcalTime}
    (hs : Timed lib e.start.time)
    (hdates : ∀ x ∈ e.exdates, (date x.time).Proper ∧ 1753 < x.time.year)
    (h : instants lib e z r = .ok s) :
    (∀ t, lib.Occurs r e.start.time t → ∃ k ≤ 3660, wall t = later e.start.time k) ∧
    Filled lib z e.start.time (fun k => (∃ t, e.Occurs lib r t ∧ wall t = later e.start.time k) ∧
      ¬ e.Cancels lib z (later e.start.time k)) s := by
  unfold instants at h
  cases hit : lib.iterator r e.start.time with
  | none =>
    rw [hit] at h
    cases h
  | some it =>
    cases hw : walk lib.isNull (instantEntry lib e z) true it 10000 0
        ⟨utc lib e.start.time (lib.offset z e.start.time) :: List.replicate 3660 zeroTime, 0⟩ with
    | error _ =>
      simp only [hit, hw, bind, Except.bind] at h
      cases h
    | ok q =>
      simp only [hit, hw, bind, Except.bind] at h
      obtain ⟨hday, hfilled⟩ := walk_filled hlib hs hit hw
      refine ⟨hday, ?_⟩
      have hall := foldlM_all (fun xs s => (∀ x ∈ xs, (date x.time).Proper ∧ 1753 < x.time.year) →
        Filled lib z e.start.time (fun k =>
          (∃ t, e.Occurs lib r t ∧ wall t = later e.start.time k) ∧
          ¬ ∃ x ∈ xs, ∃ from', exdateZone lib x = some from' ∧
            lib.isValidTime (lib.convert x.time from' z) = true ∧
            wall (lib.convert x.time from' z) = later e.start.time k) s)
        (fun _ => hfilled.congr fun k => by simp) h fun xs x s s' hI hx hproper => ?_
      · exact (hall hdates).congr fun k => Iff.rfl
      · have hbefore := hI fun y hy => hproper y (List.mem_append_left _ hy)
        obtain ⟨hdate, hy⟩ := hproper x (List.mem_append_right _ List.mem_cons_self)
        refine (clearDate_filled hlib hs hdate hy hbefore hx).congr fun k => ?_
        simp only [List.mem_append, List.mem_singleton, or_and_right, exists_or, exists_eq_left,
          not_or, and_assoc]

/-! ## The envelope -/

omit [DecidableEq Z] in
theorem spans_envelope (hlib : lib.Documented)
    {s : Slots IcalTime} {duration : Int} {first : IcalTime} (hfirst : Modern first)
    (hutc : first.isUTC = true) (htimed : first.isDate = false) (hduration : 0 ≤ duration)
    (h : Filled lib z start P s) :
    (envelope lib first duration s).spans =
      {p | ∃ k, P k ∧ p = (instant lib z (moved start k),
        instant lib z (moved start k) + duration)} := by
  have hlen := h.length
  have hin := h.inside
  have hcell : ∀ k ≤ s.last, s.cells[k]? = some (s.cells.getD k zeroTime) := by
    intro k hk
    rw [List.getD_eq_getElem?_getD, List.getElem?_eq_getElem (by omega)]
    rfl
  have hera : ∀ {t : IcalTime}, Modern t → eraStart ≤ seconds t + duration := fun ht =>
    Int.le_trans ht.seconds_le (by omega)
  have hend := (addSeconds_timed hlib hfirst htimed (hera hfirst)).2.1
  have hday : ∀ k : Nat, seconds (lib.addDays first k) = seconds first + k * 86400 :=
    fun k => seconds_addDays hlib.toRules hfirst k
  have hlast : ∀ {k c}, Instant lib z start k c →
      seconds (lib.addSeconds c duration) = seconds c + duration :=
    fun hc => (addSeconds_timed hlib hc.modern hc.timed (hera hc.modern)).2.1
  -- on the envelope or off it
  have hcompare : ∀ k c, Instant lib z start k c →
      (lib.compare c (lib.addDays first k) = 0 ↔ seconds c = seconds (lib.addDays first k)) :=
    fun k c hc => hlib.compare_utc c _ hc.isUTC ((hlib.adjust_kind first k 0 0 0).2.trans hutc)
      hc.timed ((hlib.adjust_kind first k 0 0 0).1.trans htimed) hc.modern.proper
      (addDays_modern hlib.toRules hfirst k).proper
  ext p
  simp only [Envelope.spans, envelope, Set.mem_ofPred_eq, List.mem_map, List.mem_filter,
    List.mem_range, Bool.and_eq_true, Bool.not_eq_true', decide_eq_true_iff]
  constructor
  · rintro (⟨k, hk, rfl, hexdates, hdetached⟩ | ⟨d, ⟨k, ⟨hk, hnull, hoff⟩, rfl⟩, rfl⟩)
    · have hc := hcell k (by omega)
      have hshown : lib.isNull (s.cells.getD k zeroTime) = false := by
        by_contra hnull
        rw [Bool.not_eq_false] at hnull
        exact hexdates _ ⟨k, ⟨hk, hnull⟩, rfl⟩ (hday k)
      obtain ⟨hP, hi⟩ | ⟨-, hn⟩ := h.cell k _ hc
      · have hon : lib.compare (s.cells.getD k zeroTime) (lib.addDays first k) = 0 := by
          by_contra hoff
          exact hdetached _ ⟨k, ⟨hk, hshown, hoff⟩, rfl⟩ (hday k)
        have hsec := (hcompare k _ hi).1 hon
        have hinst := hi.seconds
        refine ⟨k, hP, ?_⟩
        rw [← hinst, hsec, hday, hend, Prod.mk.injEq]
        omega
      · rw [hn] at hshown
        cases hshown
    · obtain ⟨hP, hi⟩ | ⟨-, hn⟩ := h.cell k _ (hcell k (by omega))
      · exact ⟨k, hP, by rw [hlast hi, hi.seconds]⟩
      · rw [hn] at hnull
        cases hnull
  · rintro ⟨k, hP, rfl⟩
    have hk := h.bounded k hP
    obtain ⟨-, hi⟩ | ⟨hnot, -⟩ := h.cell k _ (hcell k hk)
    · by_cases hon : lib.compare (s.cells.getD k zeroTime) (lib.addDays first k) = 0
      · left
        have hsec := (hcompare k _ hi).1 hon
        have hinst := hi.seconds
        refine ⟨k, by omega, ?_, ?_, ?_⟩
        · rw [← hinst, hsec, hday, hend, Prod.mk.injEq]
          omega
        · rintro x ⟨j, ⟨-, hnull⟩, rfl⟩ hx
          rw [← hinst, hsec, hday, hday] at hx
          obtain rfl : j = k := by omega
          rw [hi.shown] at hnull
          cases hnull
        · rintro d ⟨j, ⟨-, -, hoff⟩, rfl⟩ hd
          rw [← hinst, hsec, hday, hday] at hd
          obtain rfl : j = k := by omega
          exact hoff hon
      · right
        exact ⟨_, ⟨k, ⟨by omega, hi.shown, hon⟩, rfl⟩, by rw [hlast hi, hi.seconds]⟩
    · exact absurd hP hnot

/-- **The spans of the envelope are those of the series**: its occurrences that no `EXDATE` shows in
the zone of the series, as instants under the rules of that zone, each with the duration. -/
theorem project_exact (hlib : lib.Documented) {native : NativeOffset} {overridden : Bool}
    {e : Series R} {env : Envelope} (hs : lib.isValidTime e.start.time = true)
    (hproper : Proper e.start.time) (hy : 1753 < e.start.time.year)
    (hdates : ∀ x ∈ e.exdates, (date x.time).Proper ∧ 1753 < x.time.year)
    (h : projectTimezone lib native overridden e = .ok (some env)) :
    ∃ z r, sourceZone lib e.start.tzid = some z ∧ e.rules = [r] ∧
      env.spans = {p | ∃ t, e.Occurs lib r t ∧ ¬ e.Cancels lib z (wall t) ∧
        p = (instant lib z t, instant lib z t + e.duration)} := by
  unfold projectTimezone at h
  split at h
  · cases h
  · rename_i hneeds
    rw [Bool.not_eq_true', Bool.not_eq_false] at hneeds
    have hstart : Timed lib e.start.time := ⟨hs, hproper, hy, needs_timed lib hneeds⟩
    split at h
    · cases h
    · split at h
      · rename_i z r hz hrules
        split at h
        · cases h
        · rename_i hchecked
          simp only [Bool.or_eq_true, decide_eq_true_iff, not_or, Int.not_lt] at hchecked
          cases hi : instants lib e z r with
          | error _ =>
            rw [hi] at h
            cases h
          | ok s =>
            rw [hi] at h
            simp only [bind, Except.bind, Except.ok.injEq, Option.some.injEq] at h
            subst h
            have hduration : 0 ≤ e.duration := by omega
            refine ⟨z, r, hz, hrules, ?_⟩
            obtain ⟨hday, hfilled⟩ := instants_filled hlib hstart hdates hi
            have hfirst := instant_utc (z := z) hlib hstart (show wall _ = later _ 0 from rfl)
            rw [spans_envelope hlib hfirst.modern rfl hfirst.timed hduration hfilled]
            have hinst : ∀ {t k}, wall t = later e.start.time k →
                instant lib z (moved e.start.time k) = instant lib z t := by
              intro t k hw
              have hsame := (wall_moved e.start.time k).trans hw.symm
              rw [instant, instant, seconds_wall hsame, hlib.offset_wall z _ t hsame]
            ext p
            simp only [Set.mem_ofPred_eq]
            constructor
            · rintro ⟨k, ⟨⟨t, ht, hw⟩, hnot⟩, rfl⟩
              exact ⟨t, ht, hw ▸ hnot, by rw [hinst hw]⟩
            · rintro ⟨t, ht, hnot, rfl⟩
              obtain ⟨k, hw⟩ : ∃ k, wall t = later e.start.time k := by
                obtain rfl | hocc := ht
                · exact ⟨0, rfl⟩
                · obtain ⟨k, -, hw⟩ := hday t hocc
                  exact ⟨k, hw⟩
              exact ⟨k, ⟨⟨t, ht, hw⟩, hw ▸ hnot⟩, by rw [hinst hw]⟩
      · cases h

end

/-! ## The bounds of the tables -/

section
variable {R Z : Type} [DecidableEq Z] {lib : ZoneFunctions R Z} {z : Z}

omit [DecidableEq Z] in
theorem instantEntry_range {e : Series R} {t c : IcalTime} {day : Int} {s : Slots IcalTime}
    (h : s.cells.length = 3661) (hv : instantEntry lib e z t = some (day, c)) :
    0 ≤ day ∧ day < s.cells.length := by
  have hrange := recurrenceDay_range (instantEntry_some hv).1
  omega

theorem inside_clearDate {start : IcalTime} (x : Stamp) {s : Slots IcalTime}
    (h : s.cells.length = 3661) :
    Inside (fun s' => s'.cells.length = 3661) (clearDate lib start z s x) := by
  unfold clearDate
  split
  · exact inside_unsupported
  · split
    · exact inside_unsupported
    · split
      · exact inside_ok h
      · rename_i day hday
        have hrange := recurrenceDay_range hday
        have hlt : 0 ≤ day ∧ day < s.cells.length := by omega
        refine ⟨by simp [enter, Slots.put, hlt], fun s' hs => ?_⟩
        have hcells := (enter_ok hs).2.2.1
        simp [hcells, h]

theorem inside_instants {e : Series R} {r : R} :
    Inside (fun s => s.cells.length = 3661) (instants lib e z r) := by
  have hfull : ∀ first : IcalTime,
      (⟨first :: List.replicate 3660 zeroTime, 0⟩ : Slots IcalTime).cells.length = 3661 := by
    intro first
    rw [List.length_cons, List.length_replicate]
  unfold instants
  split
  · exact inside_unsupported
  · exact inside_bind (inside_walk (hfull _) fun _ _ _ hv => instantEntry_range (hfull _) hv)
      fun q hq => inside_foldlM (fun x s h => inside_clearDate x h) hq

/-- **Neither rewriting writes past its table**, whatever libical answers. -/
theorem tables_inside (lib : ZoneFunctions R Z) :
    (∀ e : Event R, expandFiniteRecurrence lib.toRecurFunctions e ≠ .error .overrun) ∧
      ∀ native overridden, ∀ e : Series R,
        projectTimezone lib native overridden e ≠ .error .overrun := by
  refine ⟨expand_inside, fun native overridden e => ?_⟩
  unfold projectTimezone
  split
  · simp
  · split
    · simp
    · split
      · split
        · simp
        · exact (inside_bind inside_instants fun s _ => inside_ok (I := fun _ => True) trivial).1
      · simp

end

/-! ## A zone that changes -/

/-- UTC, and a zone of its own that is an hour ahead from April to October. -/
def customZone : ZoneFunctions Steps Bool where
  toRecurFunctions := gregorianRecur
  zone tz := if tz = ascii "Custom" then some true else none
  utcZone := false
  parts z := if z then
      [⟨some 0, some 3600, ⟨1970, 4, 1, 0, 0, 0, false, false⟩⟩,
        ⟨some 3600, some 0, ⟨1970, 11, 1, 0, 0, 0, false, false⟩⟩]
    else []
  offset z t := if z && 4 ≤ (date t).month && (date t).month ≤ 10 then 3600 else 0
  add t n := gregorianAdjust t 0 0 0 n
  convert t f z := if f = z || t.isDate then t
    else gregorianAdjust t 0 0 0 (if z then 3600 else -3600)

theorem customZone_documented : customZone.Documented where
  toRules := gregorianRecur_documented
  zero := rfl
  offset_wall z t u h := by
    have hdate : date t = date u := congrArg Prod.fst h
    simp only [customZone, hdate]
  offset_bound z t := by
    simp only [customZone]
    split <;> decide
  compare_utc t u _ _ _ _ _ _ := by
    show seconds t - seconds u = 0 ↔ _
    omega
  convert_date t f z ht _ := by
    simp only [customZone]
    split
    · exact ht
    · rename_i hdate
      simp only [Bool.or_eq_true, not_or, Bool.not_eq_true] at hdate
      simp only [gregorianAdjust, hdate.2, Bool.false_eq_true, if_false]
      exact ht.shift _

/-- Five days over a change of the zone, one of them cancelled. -/
def shifted : Series Steps where
  start := ⟨⟨2026, 3, 30, 9, 0, 0, false, false⟩, some (ascii "Custom")⟩
  dtend := ⟨2026, 3, 30, 10, 0, 0, false, false⟩
  duration := 3600
  hasDuration := false
  rules := [⟨1, 5⟩]
  exdates := [⟨⟨2026, 4, 2, 9, 0, 0, false, false⟩, some (ascii "Custom")⟩]
  absoluteAlarm := false

theorem needs_exact_shifted :
    needsUTCProjection customZone (some fun _ _ => some 0) shifted = false ↔
      ∀ d : Date, d.Proper → 2026 ≤ d.year → d.year ≤ 2031 →
        agrees customZone (some fun _ _ => some 0) (ascii "Custom") true
          (noon shifted.start.time d) = true :=
  needs_exact customZone gregorianRecur_documented rfl rfl (by decide) (by decide) (by decide)
    (by simp [shifted]) (by decide +kernel) (by decide +kernel)

theorem project_exact_shifted : ∃ env,
    projectTimezone customZone (some fun _ _ => some 0) false shifted = .ok (some env) ∧
    ∃ z r, sourceZone customZone shifted.start.tzid = some z ∧ shifted.rules = [r] ∧
      env.spans = {p | ∃ t, shifted.Occurs customZone r t ∧
        ¬ shifted.Cancels customZone z (wall t) ∧
        p = (instant customZone z t, instant customZone z t + shifted.duration)} := by
  have hsome : (projectTimezone customZone (some fun _ _ => some 0) false
      shifted).toOption.join.isSome = true := by decide +kernel
  cases he : projectTimezone customZone (some fun _ _ => some 0) false shifted with
  | error _ =>
    rw [he] at hsome
    cases hsome
  | ok o =>
    cases o with
    | none =>
      rw [he] at hsome
      cases hsome
    | some env =>
      exact ⟨env, rfl, project_exact customZone_documented (by decide) (by decide) (by decide)
        (by decide) he⟩

end Projection
