import RetroCloudSync.Projection.Days
import RetroCloudSync.Library.Fallible
import Mathlib.Data.Set.Basic

/-!
# Recurrence dates as one daily rule

`RCExpandFiniteRecurrence` of `RCCalendarProjection.c`: the dates and rules of an event with `RDATE`
or `EXRULE` are entered into the table of days, and the event gets one daily rule with an `EXDATE`
for every day that is not in the table.

An occurrence is what a clock shows and the zone it is in (`Moment`). Which moments an `EXDATE`
takes away is a matter of the zones (`same`); within one zone it is the moment it names.

`expand_exact`: the rewritten event has the occurrences of the event. `expand_inside`: whatever the
event says, nothing is written past the table.
-/

set_option autoImplicit false

namespace Projection

open Library Journal CalendarStore

/-! ## Events -/

/-- The time of a date property, and its `TZID`. -/
structure Stamp where
  time : IcalTime
  tzid : Option Bytes
deriving DecidableEq, Repr

/-- What the expansion reads of a `VEVENT`. -/
structure Event (R : Type) where
  start : Stamp
  rdates : List Stamp
  rrules : List R
  exrules : List R
  exdates : List Stamp

/-! ## The expansion -/

section
variable {R : Type} (lib : RecurFunctions R)

/-- The cell of a time, and what is written there. -/
def dayEntry (start : IcalTime) (v : Bool) (t : IcalTime) : Option (Int × Bool) :=
  (recurrenceDay lib.toTimeFunctions start t).map fun day => (day, v)

/-- One `RDATE`; it has to be in the zone of the start. -/
def enterDate (start : Stamp) (s : Slots Bool) (r : Stamp) : Except Refused (Slots Bool) :=
  if start.tzid ≠ r.tzid ∨ start.time.isUTC ≠ r.time.isUTC then .error .unsupported
  else match dayEntry lib start.time true r.time with
    | none => .error .unsupported
    | some (day, v) => enter true s day v

/-- One `RRULE`, with what is left of the budget. -/
def enterRule (start : IcalTime) (s : Slots Bool × Nat) (r : R) :
    Except Refused (Slots Bool × Nat) :=
  if lib.isFinite r then
    match lib.iterator r start with
    | none => .error .unsupported
    | some it => walk lib.isNull (dayEntry lib start true) true it s.2 0 s.1
  else .error .unsupported

/-- One `EXRULE`, up to the last day. -/
def enterExclusion (start : IcalTime) (s : Slots Bool × Nat) (r : R) :
    Except Refused (Slots Bool × Nat) :=
  match lib.iterator r start with
  | none => .error .unsupported
  | some it =>
    let limit := lib.addDays start s.1.last
    walk (fun t => lib.isNull t || 0 < lib.compare t limit) (dayEntry lib start false) false it
      s.2 0 s.1

/-- `days`, with `last`. -/
def table (e : Event R) : Except Refused (Slots Bool) := do
  let s ← e.rdates.foldlM (enterDate lib e.start) ⟨true :: List.replicate 3660 false, 0⟩
  let s ← e.rrules.foldlM (enterRule lib e.start.time) (s, 10000)
  let s ← e.exrules.foldlM (enterExclusion lib e.start.time) s
  pure s.1

/-- The `EXDATE`s of the days that are not in the table. -/
def missing (e : Event R) (s : Slots Bool) : List Stamp :=
  ((List.range (s.last + 1)).filter fun day => !s.cells.getD day false).map fun day =>
    ⟨lib.addDays e.start.time day, e.start.tzid⟩

def Event.rewritten (e : Event R) (s : Slots Bool) : Event R :=
  { e with rdates := [], rrules := [lib.daily (s.last + 1)], exrules := []
           exdates := e.exdates ++ missing lib e s }

/-- `RCExpandFiniteRecurrence`. -/
def expandFiniteRecurrence (e : Event R) : Except Refused (Event R) :=
  if e.rdates.isEmpty && e.exrules.isEmpty then .ok e
  else do
    let s ← table lib e
    .ok (e.rewritten lib s)

end

/-! ## Occurrences -/

/-- What is shown where. -/
abbrev Moment : Type := Wall × Bool × Option Bytes

def Stamp.zone (x : Stamp) : Bool × Option Bytes := (x.time.isUTC, x.tzid)

def Stamp.moment (x : Stamp) : Moment := (wall x.time, x.zone)

section
variable {R : Type} (lib : RecurFunctions R) (e : Event R)

/-- The start, the times of the rules, and the dates. -/
def Event.Included (m : Moment) : Prop :=
  m = e.start.moment ∨
    (∃ r ∈ e.rrules, ∃ t, lib.Occurs r e.start.time t ∧ m = (wall t, e.start.zone)) ∨
    ∃ x ∈ e.rdates, m = x.moment

/-- The times of the exclusion rules. -/
def Event.Excluded (m : Moment) : Prop :=
  ∃ r ∈ e.exrules, ∃ t, lib.Occurs r e.start.time t ∧ m = (wall t, e.start.zone)

def Event.occurrences (same : Stamp → Moment → Prop) : Set Moment :=
  {m | e.Included lib m ∧ ¬ e.Excluded lib m ∧ ∀ x ∈ e.exdates, ¬ same x m}

end

/-! ## The table -/

/-- The table of the days `P`. -/
structure Entered (P : Nat → Prop) (s : Slots Bool) : Prop where
  length : s.cells.length = 3661
  marked : ∀ k : Nat, s.cells[k]? = some true ↔ P k
  bounded : ∀ k : Nat, P k → k ≤ s.last
  inside : s.last < 3661

section
variable {R : Type} {lib : RecurFunctions R} {P : Nat → Prop} {s : Slots Bool}

theorem dayEntry_some {start t : IcalTime} {v v' : Bool} {day : Int} :
    dayEntry lib start v t = some (day, v') ↔
      recurrenceDay lib.toTimeFunctions start t = some day ∧ v' = v := by
  simp only [dayEntry, Option.map_eq_some_iff, Prod.mk.injEq]
  constructor
  · rintro ⟨d, hd, rfl, rfl⟩
    exact ⟨hd, rfl⟩
  · rintro ⟨hd, rfl⟩
    exact ⟨day, hd, rfl, rfl⟩

/-- An index is a day of the table. -/
theorem recurrenceDay_range {lib : TimeFunctions} {start t : IcalTime} {day : Int}
    (h : recurrenceDay lib start t = some day) : 0 ≤ day ∧ day ≤ 3660 := by
  unfold recurrenceDay at h
  split at h
  · cases h
  · dsimp only at h
    split at h
    · cases h
    · cases h
      omega

theorem entered_first : Entered (· = 0) ⟨true :: List.replicate 3660 false, 0⟩ where
  length := by rw [List.length_cons, List.length_replicate]
  marked k := by
    cases k with
    | zero => simp only [List.getElem?_cons_zero]
    | succ k =>
      simp only [List.getElem?_cons_succ, List.getElem?_replicate, Nat.add_eq_zero_iff]
      split <;> simp
  bounded k h := Nat.le_of_eq h
  inside := by decide

theorem enterDate_ok {start r : Stamp} {s' : Slots Bool} (h : Entered P s)
    (hr : enterDate lib start s r = .ok s') :
    r.zone = start.zone ∧
      (∃ d : Nat, recurrenceDay lib.toTimeFunctions start.time r.time = some (d : Int)) ∧
      Entered (fun k => P k ∨
        recurrenceDay lib.toTimeFunctions start.time r.time = some (k : Int)) s' := by
  unfold enterDate at hr
  split at hr
  · cases hr
  · rename_i hzone
    simp only [ne_eq, not_or, not_not] at hzone
    refine ⟨by simp [Stamp.zone, hzone.1, hzone.2], ?_⟩
    split at hr
    · cases hr
    · rename_i day v hentry
      obtain ⟨hday, rfl⟩ := dayEntry_some.1 hentry
      obtain ⟨h0, hlt, hcells, hlast⟩ := enter_ok hr
      obtain ⟨d, rfl⟩ := Int.eq_ofNat_of_zero_le h0
      rw [if_pos rfl, Int.toNat_natCast] at hlast
      rw [Int.toNat_natCast] at hcells
      have hlen := h.length
      have hin := h.inside
      refine ⟨⟨d, hday⟩, ?_, fun k => ?_, fun k hk => ?_, by omega⟩
      · rw [hcells, List.length_set, hlen]
      · rw [hcells, hday, List.getElem?_set]
        split
        · rename_i hk
          subst hk
          simp [show d < s.cells.length by omega]
        · rename_i hk
          rw [h.marked]
          simp only [Option.some.injEq, Int.natCast_inj]
          tauto
      · rw [hday, Option.some.injEq, Int.natCast_inj] at hk
        have hb := h.bounded k
        rcases hk with hk | hk
        · have := hb hk
          omega
        · omega

theorem occurs_iff {r : R} {start t : IcalTime} {it : Nat → IcalTime}
    (h : lib.iterator r start = some it) : lib.Occurs r start t ↔ Yields lib.isNull it t := by
  simp [RecurFunctions.Occurs, h]

theorem enterRule_ok {start : IcalTime} {r : R} {q q' : Slots Bool × Nat}
    (h : Entered P q.1) (hr : enterRule lib start q r = .ok q') :
    (∀ t, lib.Occurs r start t →
      ∃ d : Nat, recurrenceDay lib.toTimeFunctions start t = some (d : Int)) ∧
      Entered (fun k => P k ∨ ∃ t, lib.Occurs r start t ∧
        recurrenceDay lib.toTimeFunctions start t = some (k : Int)) q'.1 := by
  obtain ⟨s', left'⟩ := q'
  unfold enterRule at hr
  split at hr
  · split at hr
    · cases hr
    · rename_i it hit
      obtain ⟨n, -, hw⟩ := walk_spec hr
      -- what occurs is what was walked
      have hocc : ∀ t, lib.Occurs r start t ↔ ∃ j < n, it j = t := by
        intro t
        rw [occurs_iff hit]
        constructor
        · rintro ⟨m, rfl, hm⟩
          refine ⟨m, ?_, rfl⟩
          by_contra hge
          have hend := hm n (by omega)
          rw [hw.ends] at hend
          cases hend
        · rintro ⟨j, hj, rfl⟩
          exact ⟨j, rfl, fun i hi => (hw.entered i (by omega) (by omega)).1⟩
      have hlen := h.length
      have hin := h.inside
      refine ⟨fun t ht => ?_, hw.length.trans hlen, fun k => ?_, fun k hk => ?_, ?_⟩
      · obtain ⟨j, hj, rfl⟩ := (hocc t).1 ht
        obtain ⟨-, d, v, hv, -⟩ := hw.entered j (by omega) hj
        exact ⟨d, (dayEntry_some.1 hv).1⟩
      · obtain ⟨j, v, -, hj, hv, hk⟩ | ⟨hnone, hk⟩ := hw.cell k
        · obtain ⟨hday, rfl⟩ := dayEntry_some.1 hv
          rw [hk]
          simp only [true_iff]
          exact .inr ⟨it j, (hocc _).2 ⟨j, hj, rfl⟩, hday⟩
        · rw [hk, h.marked]
          refine ⟨.inl, fun hor => hor.resolve_right ?_⟩
          rintro ⟨t, ht, hday⟩
          obtain ⟨j, hj, rfl⟩ := (hocc t).1 ht
          exact hnone j true (by omega) hj (dayEntry_some.2 ⟨hday, rfl⟩)
      · rcases hk with hk | ⟨t, ht, hday⟩
        · exact (h.bounded k hk).trans hw.last_le
        · obtain ⟨j, hj, rfl⟩ := (hocc t).1 ht
          obtain ⟨-, d, v, hv, -, hle⟩ := hw.entered j (by omega) hj
          rw [(dayEntry_some.1 hv).1, Option.some.injEq, Int.natCast_inj] at hday
          rw [← hday]
          exact hle rfl
      · obtain hsame | ⟨-, j, v, -, -, hv⟩ := hw.last
        · exact hsame ▸ hin
        · have hrange := recurrenceDay_range (dayEntry_some.1 hv).1
          show s'.last < 3661
          omega
  · cases hr

/-- An `EXRULE` takes its times out of the table, those behind the last day aside: they are not in
it. -/
theorem enterExclusion_ok (hlib : lib.Documented) {start : IcalTime} {r : R}
    {q q' : Slots Bool × Nat} (hs : Modern start) (hasc : lib.Ascends r start)
    (h : Entered P q.1) (hr : enterExclusion lib start q r = .ok q') :
    Entered (fun k => P k ∧ ¬ ∃ t, lib.Occurs r start t ∧ wall t = later start k) q'.1 := by
  obtain ⟨s, left⟩ := q
  obtain ⟨s', left'⟩ := q'
  unfold enterExclusion at hr
  split at hr
  · cases hr
  · rename_i it hit
    obtain ⟨n, -, hw⟩ := walk_spec hr
    have hin := h.inside
    have hlast : s'.last = s.last := by
      obtain hsame | ⟨hgrow, -⟩ := hw.last
      · exact hsame
      · cases hgrow
    -- a time on a day of the table was walked: the walk ends behind all of these
    have hwalked : ∀ t k, lib.Occurs r start t → wall t = later start k → k ≤ s.last →
        ∃ j < n, it j = t := by
      intro t k ht hk hle
      obtain ⟨m, rfl, hm⟩ := (occurs_iff hit).1 ht
      refine ⟨m, ?_, rfl⟩
      by_contra hge
      have hend := hw.ends
      simp only [Bool.or_eq_true, decide_eq_true_iff] at hend
      obtain hnull | hpast := hend
      · rw [hm n (by omega)] at hnull
        cases hnull
      · have hlater := hasc it hit n m (by omega) (hm m (Nat.le_refl m)) k s.last hk hpast
        omega
    have hday : ∀ t (k : Nat), lib.Occurs r start t →
        recurrenceDay lib.toTimeFunctions start t = some (k : Int) → wall t = later start k :=
      fun t k ht => recurrenceDay_later hlib hs (hlib.occurs_date r start t hs ht)
    have hocc : ∀ j < n, lib.Occurs r start (it j) := by
      intro j hj
      refine (occurs_iff hit).2 ⟨j, rfl, fun i hi => ?_⟩
      have hgo := (hw.entered i (by omega) (by omega)).1
      simp only [Bool.or_eq_false_iff] at hgo
      exact hgo.1
    refine ⟨hw.length.trans h.length, fun k => ?_, fun k hk => hlast ▸ h.bounded k hk.1,
      hlast ▸ hin⟩
    obtain ⟨j, v, -, hj, hv, hk⟩ | ⟨hnone, hk⟩ := hw.cell k
    · obtain ⟨hdj, rfl⟩ := dayEntry_some.1 hv
      rw [hk]
      simp only [Option.some.injEq, Bool.false_eq_true, false_iff, not_and, not_not]
      exact fun _ => ⟨it j, hocc j hj, hday _ k (hocc j hj) hdj⟩
    · rw [hk, h.marked]
      refine ⟨fun hP => ⟨hP, ?_⟩, And.left⟩
      rintro ⟨t, ht, hwall⟩
      obtain ⟨j, hj, rfl⟩ := hwalked t k ht hwall (h.bounded k hP)
      -- it was entered, on the only day that shows it
      obtain ⟨-, d, v, hv, -⟩ := hw.entered j (by omega) hj
      obtain ⟨hd, rfl⟩ := dayEntry_some.1 hv
      have hsame := later_inj hs.proper.date ((hday _ d ht hd).symm.trans hwall)
      exact hnone j false (by omega) hj (hsame ▸ hv)

/-! ## The whole table -/

/-- The days that dates and rules name. -/
def Names (lib : RecurFunctions R) (e : Event R) (ds : List Stamp) (rs : List R) (k : Nat) :
    Prop :=
  k = 0 ∨ (∃ x ∈ ds, recurrenceDay lib.toTimeFunctions e.start.time x.time = some (k : Int)) ∨
    ∃ r ∈ rs, ∃ t, lib.Occurs r e.start.time t ∧
      recurrenceDay lib.toTimeFunctions e.start.time t = some (k : Int)

/-- Dates and rules that were entered are days of the table, the dates in the zone of the start. -/
structure Admitted (lib : RecurFunctions R) (e : Event R) (ds : List Stamp) (rs : List R) :
    Prop where
  dates : ∀ x ∈ ds, x.zone = e.start.zone ∧
    ∃ d : Nat, recurrenceDay lib.toTimeFunctions e.start.time x.time = some (d : Int)
  rules : ∀ r ∈ rs, ∀ t, lib.Occurs r e.start.time t →
    ∃ d : Nat, recurrenceDay lib.toTimeFunctions e.start.time t = some (d : Int)

theorem Entered.congr {Q : Nat → Prop} (h : Entered P s) (hPQ : ∀ k, P k ↔ Q k) : Entered Q s where
  length := h.length
  marked k := (h.marked k).trans (hPQ k)
  bounded k hk := h.bounded k ((hPQ k).2 hk)
  inside := h.inside

theorem enterDates_ok {e : Event R} {s' : Slots Bool}
    (h : e.rdates.foldlM (enterDate lib e.start) ⟨true :: List.replicate 3660 false, 0⟩ = .ok s') :
    Admitted lib e e.rdates [] ∧ Entered (Names lib e e.rdates []) s' := by
  refine foldlM_all (fun ds s => Admitted lib e ds [] ∧ Entered (Names lib e ds []) s)
    ⟨⟨fun x hx => absurd hx List.not_mem_nil, fun r hr => absurd hr List.not_mem_nil⟩,
      entered_first.congr fun k => by simp [Names]⟩ h fun ds x s s' hI hx => ?_
  obtain ⟨hzone, hday, hent⟩ := enterDate_ok hI.2 hx
  refine ⟨⟨fun y hy => ?_, fun r hr => absurd hr List.not_mem_nil⟩, hent.congr fun k => ?_⟩
  · obtain hy | hy := List.mem_append.1 hy
    · exact hI.1.dates y hy
    · rw [List.mem_singleton.1 hy]
      exact ⟨hzone, hday⟩
  · simp only [Names, List.not_mem_nil, false_and, exists_false, or_false, List.mem_append,
      List.mem_singleton, or_and_right, exists_or, exists_eq_left, or_assoc]

theorem enterRules_ok {e : Event R} {q q' : Slots Bool × Nat}
    (hq : Admitted lib e e.rdates [] ∧ Entered (Names lib e e.rdates []) q.1)
    (h : e.rrules.foldlM (enterRule lib e.start.time) q = .ok q') :
    Admitted lib e e.rdates e.rrules ∧ Entered (Names lib e e.rdates e.rrules) q'.1 := by
  refine foldlM_all
    (fun rs s => Admitted lib e e.rdates rs ∧ Entered (Names lib e e.rdates rs) s.1) hq h
    fun rs x s s' hI hx => ?_
  obtain ⟨hday, hent⟩ := enterRule_ok hI.2 hx
  refine ⟨⟨hI.1.dates, fun r hr => ?_⟩, hent.congr fun k => ?_⟩
  · obtain hr | hr := List.mem_append.1 hr
    · exact hI.1.rules r hr
    · rw [List.mem_singleton.1 hr]
      exact hday
  · simp only [Names, List.mem_append, List.mem_singleton, or_and_right, exists_or,
      exists_eq_left, or_assoc]

theorem enterExclusions_ok (hlib : lib.Documented) {start : IcalTime} {rs : List R}
    {q q' : Slots Bool × Nat} (hs : Modern start) (hasc : ∀ r ∈ rs, lib.Ascends r start)
    (h : Entered P q.1) (hr : rs.foldlM (enterExclusion lib start) q = .ok q') :
    Entered (fun k => P k ∧
      ¬ ∃ r ∈ rs, ∃ t, lib.Occurs r start t ∧ wall t = later start k) q'.1 := by
  refine foldlM_all (fun rs s => (∀ r ∈ rs, lib.Ascends r start) → Entered (fun k => P k ∧
    ¬ ∃ r ∈ rs, ∃ t, lib.Occurs r start t ∧ wall t = later start k) s.1)
    (fun _ => h.congr fun k => by simp) hr (fun rs x s s' hI hx hasc => ?_) hasc
  have hbefore := hI fun r hr => hasc r (List.mem_append_left _ hr)
  have hlast := hasc x (List.mem_append_right _ List.mem_cons_self)
  refine (enterExclusion_ok hlib hs hlast hbefore hx).congr fun k => ?_
  simp only [List.mem_append, List.mem_singleton, or_and_right, exists_or, exists_eq_left, not_or,
    and_assoc]

/-- **The table** holds the days that are named and not excluded. -/
theorem table_ok (hlib : lib.Documented) {e : Event R} (hs : Modern e.start.time)
    (hasc : ∀ r ∈ e.exrules, lib.Ascends r e.start.time) (h : table lib e = .ok s) :
    Admitted lib e e.rdates e.rrules ∧
      Entered (fun k => Names lib e e.rdates e.rrules k ∧ ¬ ∃ r ∈ e.exrules, ∃ t,
        lib.Occurs r e.start.time t ∧ wall t = later e.start.time k) s := by
  unfold table at h
  cases h₁ : e.rdates.foldlM (enterDate lib e.start) ⟨true :: List.replicate 3660 false, 0⟩ with
  | error _ =>
    rw [h₁] at h
    cases h
  | ok s₁ =>
    cases h₂ : e.rrules.foldlM (enterRule lib e.start.time) (s₁, 10000) with
    | error _ =>
      simp only [h₁, h₂, bind, Except.bind] at h
      cases h
    | ok s₂ =>
      cases h₃ : e.exrules.foldlM (enterExclusion lib e.start.time) s₂ with
      | error _ =>
        simp only [h₁, h₂, h₃, bind, Except.bind] at h
        cases h
      | ok s₃ =>
        simp only [h₁, h₂, h₃, bind, Except.bind, pure, Except.pure, Except.ok.injEq] at h
        have hrules := enterRules_ok (enterDates_ok h₁) h₂
        exact ⟨hrules.1, h ▸ enterExclusions_ok hlib hs hasc hrules.2 h₃⟩

end

/-! ## The rewritten event -/

section
variable {R : Type} {lib : RecurFunctions R} {e e' : Event R} {s : Slots Bool}
  {same : Stamp → Moment → Prop}

/-- The moments of the days from the start on. -/
def dayMoment (e : Event R) (k : Nat) : Moment := (later e.start.time k, e.start.zone)

theorem dayMoment_inj (hs : (date e.start.time).Proper) {m n : Nat} :
    dayMoment e m = dayMoment e n ↔ m = n :=
  ⟨fun h => later_inj hs (congrArg Prod.fst h), fun h => h ▸ rfl⟩

theorem moment_start (e : Event R) : e.start.moment = dayMoment e 0 := rfl

theorem mem_missing {x : Stamp} : x ∈ missing lib e s ↔ ∃ d ≤ s.last, s.cells[d]? ≠ some true ∧
    x = ⟨lib.addDays e.start.time d, e.start.tzid⟩ := by
  simp only [missing, List.mem_map, List.mem_filter, List.mem_range, Bool.not_eq_true',
    List.getD_eq_getElem?_getD]
  constructor
  · rintro ⟨d, ⟨hd, hv⟩, rfl⟩
    refine ⟨d, by omega, fun htrue => ?_, rfl⟩
    simp [htrue] at hv
  · rintro ⟨d, hd, hv, rfl⟩
    refine ⟨d, ⟨by omega, ?_⟩, rfl⟩
    cases hc : s.cells[d]? with
    | none => rfl
    | some v =>
      cases v
      · rfl
      · exact absurd hc hv

theorem occurs_daily (hlib : lib.Documented) {start : IcalTime} (hv : lib.isValidTime start = true)
    (hs : Modern start) {count : Nat} (hcount : 0 < count)
    (hlast : (Date.next^[count] (date start)).year ≤ lib.lastYear) (w : Wall) :
    (∃ t, lib.Occurs (lib.daily count) start t ∧ wall t = w) ↔
      ∃ k < count, w = later start k := by
  obtain ⟨it, hit, hdays, hend⟩ := hlib.daily_iterator start count hv hs hcount hlast
  constructor
  · rintro ⟨t, ht, rfl⟩
    obtain ⟨n, rfl, hn⟩ := (occurs_iff hit).1 ht
    have hlt : n < count := by
      by_contra hge
      have hnull := hn count (by omega)
      rw [hend] at hnull
      cases hnull
    exact ⟨n, hlt, (hdays n hlt).1⟩
  · rintro ⟨k, hk, rfl⟩
    exact ⟨it k, (occurs_iff hit).2 ⟨k, rfl, fun i hi => (hdays i (by omega)).2⟩, (hdays k hk).1⟩

/-- The start is valid, and no iterator ends in the ten years from it on. -/
structure Startable (lib : RecurFunctions R) (start : IcalTime) : Prop where
  valid : lib.isValidTime start = true
  modern : Modern start
  last : start.year + 11 ≤ lib.lastYear

theorem Startable.year_le {start : IcalTime} (h : Startable lib start) {n : Nat} (hn : n ≤ 3661) :
    (Date.next^[n] (date start)).year ≤ lib.lastYear :=
  (h.modern.proper.date.year_iterate_le (k := 11) (by omega)).trans h.last

/-- What the rewritten event includes: the days up to the last. -/
theorem included_rewritten (hlib : lib.Documented) (hs : Startable lib e.start.time)
    (hin : s.last < 3661) {m : Moment} :
    (e.rewritten lib s).Included lib m ↔ ∃ k ≤ s.last, m = dayMoment e k := by
  have hdaily := occurs_daily hlib hs.valid hs.modern (Nat.succ_pos s.last) (hs.year_le hin)
  simp only [Event.Included, Event.rewritten, List.mem_singleton, exists_eq_left, List.not_mem_nil,
    false_and, exists_false, or_false]
  constructor
  · rintro (rfl | ⟨t, ht, rfl⟩)
    · exact ⟨0, Nat.zero_le _, moment_start e⟩
    · obtain ⟨k, hk, hwall⟩ := (hdaily (wall t)).1 ⟨t, ht, rfl⟩
      exact ⟨k, by omega, by rw [hwall]; rfl⟩
  · rintro ⟨k, hk, rfl⟩
    obtain ⟨t, ht, hwall⟩ := (hdaily (later e.start.time k)).2 ⟨k, by omega, rfl⟩
    exact .inr ⟨t, ht, by rw [hwall]; rfl⟩

/-- Its added dates take away the days that are not in the table. -/
theorem missing_same (hlib : lib.Documented) (hs : Modern e.start.time)
    (hsame : ∀ x m, x.zone = m.2 → (same x m ↔ x.moment = m)) {k : Nat} (hk : k ≤ s.last) :
    (∀ x ∈ missing lib e s, ¬ same x (dayMoment e k)) ↔ s.cells[k]? = some true := by
  have hadjust : ∀ d : Nat,
      same ⟨lib.addDays e.start.time d, e.start.tzid⟩ (dayMoment e k) ↔ d = k := by
    intro d
    have hzone : (Stamp.mk (lib.addDays e.start.time d) e.start.tzid).zone = e.start.zone := by
      simp only [Stamp.zone, RecurFunctions.addDays, (hlib.adjust_kind e.start.time d 0 0 0).2]
    have hwall := wall_addDays hlib hs d
    rw [hsame _ _ hzone, ← dayMoment_inj hs.proper.date]
    simp only [Stamp.moment, hzone, hwall, dayMoment]
  constructor
  · intro h
    by_contra hv
    exact h _ (mem_missing.2 ⟨k, hk, hv, rfl⟩) ((hadjust k).2 rfl)
  · intro hv x hx
    obtain ⟨d, -, hd, rfl⟩ := mem_missing.1 hx
    rw [hadjust]
    rintro rfl
    exact hd hv

/-- What the event includes: the days that are named. -/
theorem included_iff (hlib : lib.Documented) (hs : Startable lib e.start.time)
    (hadm : Admitted lib e e.rdates e.rrules) (hdates : ∀ x ∈ e.rdates, (date x.time).Proper)
    {m : Moment} :
    e.Included lib m ↔ ∃ k ≤ 3660, m = dayMoment e k ∧ Names lib e e.rdates e.rrules k := by
  have hlater : ∀ {t : IcalTime} {k : Nat}, (date t).Proper →
      recurrenceDay lib.toTimeFunctions e.start.time t = some (k : Int) →
        k ≤ 3660 ∧ wall t = later e.start.time k := by
    intro t k ht hk
    have hrange := recurrenceDay_range hk
    exact ⟨by omega, recurrenceDay_later hlib hs.modern ht hk⟩
  have hocc := fun r t (ht : lib.Occurs r e.start.time t) => hlib.occurs_date r _ t hs.modern ht
  constructor
  · rintro (rfl | ⟨r, hr, t, ht, rfl⟩ | ⟨x, hx, rfl⟩)
    · exact ⟨0, Nat.zero_le _, moment_start e, .inl rfl⟩
    · obtain ⟨d, hd⟩ := hadm.rules r hr t ht
      obtain ⟨hle, hw⟩ := hlater (hocc r t ht) hd
      exact ⟨d, hle, by rw [hw]; rfl, .inr (.inr ⟨r, hr, t, ht, hd⟩)⟩
    · obtain ⟨hzone, d, hd⟩ := hadm.dates x hx
      obtain ⟨hle, hw⟩ := hlater (hdates x hx) hd
      exact ⟨d, hle, by simp only [Stamp.moment, hw, hzone, dayMoment], .inr (.inl ⟨x, hx, hd⟩)⟩
  · rintro ⟨k, -, rfl, rfl | ⟨x, hx, hd⟩ | ⟨r, hr, t, ht, hd⟩⟩
    · exact .inl (moment_start e).symm
    · have hw := (hlater (hdates x hx) hd).2
      refine .inr (.inr ⟨x, hx, ?_⟩)
      simp only [Stamp.moment, hw, (hadm.dates x hx).1, dayMoment]
    · have hw := (hlater (hocc r t ht) hd).2
      exact .inr (.inl ⟨r, hr, t, ht, by rw [hw]; rfl⟩)

/-- **The rewritten event has the occurrences of the event**, where the exclusion rules ascend, and
the last of its days is one of the table. -/
theorem expand_exact (hlib : lib.Documented)
    (hsame : ∀ x m, x.zone = m.2 → (same x m ↔ x.moment = m)) (hs : Startable lib e.start.time)
    (hvalid : ∀ x ∈ e.rdates, (date x.time).Proper)
    (hasc : ∀ r ∈ e.exrules, lib.Ascends r e.start.time)
    (h : expandFiniteRecurrence lib e = .ok e') :
    e'.occurrences lib same = e.occurrences lib same ∧ (e'.rdates = [] ∧ e'.exrules = []) ∧
      (e' = e ∨ ∃ last ≤ 3660, e'.rrules = [lib.daily (last + 1)] ∧ e.exdates <+: e'.exdates) := by
  unfold expandFiniteRecurrence at h
  split at h
  · rename_i hempty
    cases h
    simp only [Bool.and_eq_true, List.isEmpty_iff] at hempty
    exact ⟨rfl, hempty, .inl rfl⟩
  · cases ht : table lib e with
    | error _ =>
      rw [ht] at h
      cases h
    | ok s =>
      rw [ht] at h
      simp only [bind, Except.bind, Except.ok.injEq] at h
      subst h
      obtain ⟨hadm, hent⟩ := table_ok hlib hs.modern hasc ht
      have hin := hent.inside
      refine ⟨Set.ext fun m => ?_, ⟨rfl, rfl⟩, .inr ⟨s.last, by omega, rfl, List.prefix_append _ _⟩⟩
      simp only [Event.occurrences, Set.mem_ofPred_eq, included_rewritten hlib hs hin,
        included_iff hlib hs hadm hvalid]
      have hnone : ¬ (e.rewritten lib s).Excluded lib m := by
        rintro ⟨r, hr, -⟩
        cases hr
      have hdates : (∀ x ∈ (e.rewritten lib s).exdates, ¬ same x m) ↔
          (∀ x ∈ e.exdates, ¬ same x m) ∧ ∀ x ∈ missing lib e s, ¬ same x m := by
        simp only [Event.rewritten, List.mem_append, or_imp, forall_and]
      have hexcluded : ∀ k, e.Excluded lib (dayMoment e k) ↔ ∃ r ∈ e.exrules, ∃ t,
          lib.Occurs r e.start.time t ∧ wall t = later e.start.time k := by
        intro k
        simp only [Event.Excluded, dayMoment, Prod.mk.injEq, and_true, eq_comm]
      rw [hdates]
      constructor
      · rintro ⟨⟨k, hk, rfl⟩, -, hex, hmissing⟩
        have hmarked := (missing_same hlib hs.modern hsame hk).1 hmissing
        obtain ⟨hnames, hnot⟩ := (hent.marked k).1 hmarked
        exact ⟨⟨k, by omega, rfl, hnames⟩, fun hx => hnot ((hexcluded k).1 hx), hex⟩
      · rintro ⟨⟨k, -, rfl, hnames⟩, hx, hex⟩
        have hP := And.intro hnames fun hr => hx ((hexcluded k).2 hr)
        have hk := hent.bounded k hP
        exact ⟨⟨k, hk, rfl⟩, hnone, hex,
          (missing_same hlib hs.modern hsame hk).2 ((hent.marked k).2 hP)⟩

end

/-- The finite event of the tests of the projection. -/
def lunch : Event Steps where
  start := ⟨⟨2026, 3, 1, 9, 0, 0, false, true⟩, none⟩
  rdates := []
  rrules := [⟨1, 5⟩]
  exrules := [⟨2, 3⟩]
  exdates := []

theorem expand_exact_lunch : ∃ e', expandFiniteRecurrence gregorianRecur lunch = .ok e' ∧
    e'.occurrences gregorianRecur (fun x m => x.moment = m) =
      lunch.occurrences gregorianRecur (fun x m => x.moment = m) := by
  have hsome : (expandFiniteRecurrence gregorianRecur lunch).toOption.isSome = true := by
    decide +kernel
  cases he : expandFiniteRecurrence gregorianRecur lunch with
  | error _ =>
    rw [he] at hsome
    cases hsome
  | ok e' =>
    exact ⟨e', rfl, (expand_exact gregorianRecur_documented (fun _ _ _ => Iff.rfl)
      ⟨by decide, by decide, by decide⟩ (fun x hx => absurd hx List.not_mem_nil)
      (fun r _ => gregorianRecur_ascends (by decide)) he).1⟩

/-! ## The bounds of the table -/

section
variable {R : Type} {lib : RecurFunctions R}

theorem dayEntry_range {start t : IcalTime} {v v' : Bool} {day : Int} {s : Slots Bool}
    (h : s.cells.length = 3661) (hv : dayEntry lib start v t = some (day, v')) :
    0 ≤ day ∧ day < s.cells.length := by
  have hrange := recurrenceDay_range (dayEntry_some.1 hv).1
  omega

theorem inside_enterDate {start : Stamp} (x : Stamp) {s : Slots Bool} (h : s.cells.length = 3661) :
    Inside (fun s' => s'.cells.length = 3661) (enterDate lib start s x) := by
  unfold enterDate
  split
  · exact inside_unsupported
  · split
    · exact inside_unsupported
    · rename_i day v hv
      refine ⟨by simp [enter, Slots.put, dayEntry_range h hv], fun s' hs => ?_⟩
      have hcells := (enter_ok hs).2.2.1
      simp [hcells, h]

theorem inside_walk {α : Type} {stop : IcalTime → Bool} {entry : IcalTime → Option (Int × α)}
    {grow : Bool} {it : Nat → IcalTime} {left i n : Nat} {s : Slots α} (h : s.cells.length = n)
    (hentry : ∀ t day v, entry t = some (day, v) → 0 ≤ day ∧ day < s.cells.length) :
    Inside (fun q => q.1.cells.length = n) (walk stop entry grow it left i s) := by
  refine ⟨walk_inside hentry, fun q hq => ?_⟩
  obtain ⟨m, -, hw⟩ := walk_spec hq
  exact hw.length.trans h

theorem inside_enterRule {start : IcalTime} (r : R) {q : Slots Bool × Nat}
    (h : q.1.cells.length = 3661) :
    Inside (fun q' => q'.1.cells.length = 3661) (enterRule lib start q r) := by
  unfold enterRule
  split
  · split
    · exact inside_unsupported
    · exact inside_walk h fun _ _ _ hv => dayEntry_range h hv
  · exact inside_unsupported

theorem inside_enterExclusion {start : IcalTime} (r : R) {q : Slots Bool × Nat}
    (h : q.1.cells.length = 3661) :
    Inside (fun q' => q'.1.cells.length = 3661) (enterExclusion lib start q r) := by
  unfold enterExclusion
  split
  · exact inside_unsupported
  · exact inside_walk h fun _ _ _ hv => dayEntry_range h hv

/-- **Nothing is written past the table**, whatever libical answers. -/
theorem expand_inside (e : Event R) : expandFiniteRecurrence lib e ≠ .error .overrun := by
  have hempty : (⟨true :: List.replicate 3660 false, 0⟩ : Slots Bool).cells.length = 3661 := by
    rw [List.length_cons, List.length_replicate]
  have htable : Inside (fun s => s.cells.length = 3661) (table lib e) :=
    inside_bind (inside_foldlM (fun x s h => inside_enterDate x h) hempty) fun s hs =>
      inside_bind (inside_foldlM (fun r q h => inside_enterRule r h) (s := (s, 10000)) hs)
        fun q hq =>
          inside_bind (inside_foldlM (fun r q h => inside_enterExclusion r h) hq) fun _ h =>
            inside_ok h
  unfold expandFiniteRecurrence
  split
  · simp
  · exact (inside_bind htable fun s _ => inside_ok (I := fun _ => True) trivial).1

end

end Projection
