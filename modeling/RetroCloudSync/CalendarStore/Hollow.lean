import RetroCloudSync.CalendarStore.Pairs
import RetroCloudSync.CalendarStore.Reparse

/-!
# Rows without a body

A row is hollow when it has no body, is hidden, and has not been seen by the run that is open.
`Hollows`: the rows with the ids in `gone` are there and hollow. Every pass keeps that but a download
of such a row, by its href or by its UID (`Call.Downloads`): the tests for a current resource want a
body, a calendar that is kept carries only what is not hidden, a run hides what it has not seen, and
an opening retries only what is available (`Step.hollows`).
-/

set_option autoImplicit false

namespace CalendarStore

open Library Library.Tx Journal

variable {gone : Int → Prop} {run : Option Int} {account : Int} {t t' : Tables} {s : Store}

def Tables.Named (t : Tables) (calendar account : Int) (url : Bytes) : Prop :=
  ∃ c ∈ t.calendars, c.id = calendar ∧ c.account = account ∧ c.url = url

/-- A pass that downloads the resource of a row: under its href, or with its UID. -/
def Call.Downloads (account : Int) (t : Tables) (r : ResourceRow) : Call → Prop
  | fetch reader _ fetches => ∃ f ∈ fetches, t.Named r.calendar account f.1.collection.url ∧
      ∃ href etag body, Staged.downloaded href etag body ∈ f.1.staged ∧
        Claimed r.calendar href (Parsed.uid (reader.accept body)) r
  | _ => False

structure ResourceRow.Hollow (run : Option Int) (r : ResourceRow) : Prop where
  empty : r.rawICal = []
  hidden : r.hidden = true
  unseen : ∀ n, run = some n → r.seenRun ≠ some n

/-- The rows with the ids in `gone` are hollow, each in a calendar that is there. -/
structure Hollows (gone : Int → Prop) (run : Option Int) (t : Tables) : Prop where
  row : ∀ r ∈ t.resources, gone r.id → r.Hollow run ∧ ∃ c ∈ t.calendars, c.id = r.calendar
  present : ∀ id, gone id → ∃ r ∈ t.resources, r.id = id
  seen : ∀ r ∈ t.resources, ∀ n, r.seenRun = some n → n < t.runs.nextRowid SyncRun.id
  opened : ∀ n, run = some n → n < t.runs.nextRowid SyncRun.id

/-! ## One statement -/

theorem Tables.mem_updateCalendars {p : Calendar → Bool} {f : Calendar → Calendar}
    {hf : ∀ c, (f c).id = c.id} {hf' : ∀ c, (f c).place = c.place} {c : Calendar} :
    c ∈ (t.updateCalendars p f hf hf').calendars ↔
      ∃ x ∈ t.calendars, c = if p x then f x else x := by
  unfold updateCalendars
  rw [Table.mem_update]

namespace Hollows

theorem empty : Hollows (fun _ => False) none Tables.empty where
  row _ h := absurd h (Table.not_mem_empty _)
  present _ h := h.elim
  seen _ h := absurd h (Table.not_mem_empty _)
  opened _ h := by cases h

/-- A statement on other tables. -/
theorem beside (h : Hollows gone run t) (hr : t'.resources = t.resources)
    (hc : ∀ c ∈ t.calendars, ∃ c' ∈ t'.calendars, c'.id = c.id)
    (hn : t'.runs.nextRowid SyncRun.id = t.runs.nextRowid SyncRun.id) : Hollows gone run t' where
  row r hm hg := by
    obtain ⟨hrow, c, hcm, hcal⟩ := h.row r (hr ▸ hm) hg
    obtain ⟨c', hcm', hid⟩ := hc c hcm
    exact ⟨hrow, c', hcm', hid.trans hcal⟩
  present id hg := by
    rw [hr]
    exact h.present id hg
  seen r hm n hs := by
    have := h.seen r (hr ▸ hm) n hs
    omega
  opened n ho := by
    have := h.opened n ho
    omega

/-- Rows rewritten one by one. -/
theorem rewritten (h : Hollows gone run t) {f : ResourceRow → ResourceRow} {run' : Option Int}
    (hrows : ∀ r', r' ∈ t'.resources ↔ ∃ r ∈ t.resources, r' = f r)
    (hc : t'.calendars = t.calendars) (hn : t'.runs = t.runs) (hid : ∀ r, (f r).id = r.id)
    (hrow : ∀ r ∈ t.resources, gone r.id →
      (f r).Hollow run' ∧ ∃ c ∈ t.calendars, c.id = (f r).calendar)
    (hseen : ∀ r ∈ t.resources, ∀ n, (f r).seenRun = some n → n < t.runs.nextRowid SyncRun.id)
    (hopened : ∀ n, run' = some n → n < t.runs.nextRowid SyncRun.id) : Hollows gone run' t' where
  row r' hm hg := by
    obtain ⟨r, hr, rfl⟩ := (hrows r').1 hm
    rw [hc]
    exact hrow r hr (hid r ▸ hg)
  present id hg := by
    obtain ⟨r, hr, rfl⟩ := h.present id hg
    exact ⟨f r, (hrows _).2 ⟨r, hr, rfl⟩, hid r⟩
  seen r' hm := by
    obtain ⟨r, hr, rfl⟩ := (hrows r').1 hm
    rw [hn]
    exact hseen r hr
  opened := hn ▸ hopened

/-- An `UPDATE` that leaves the calendars of the rows alone. -/
theorem updateResources (h : Hollows gone run t) {p : ResourceRow → Bool}
    {f : ResourceRow → ResourceRow} {hf : ∀ r, (f r).id = r.id} {hf' : ∀ r, (f r).place = r.place}
    (hrow : ∀ r ∈ t.resources, p r = true → gone r.id → r.Hollow run → (f r).Hollow run)
    (hseen : ∀ r ∈ t.resources, p r = true → ∀ n, (f r).seenRun = some n →
      n < t.runs.nextRowid SyncRun.id) : Hollows gone run (t.updateResources p f hf hf') := by
  refine h.rewritten (f := fun r => if p r then f r else r) (fun r' => Tables.mem_updateResources)
    rfl rfl (fun r => ?_) (fun r hr hg => ?_) (fun r hr => ?_) h.opened
  · split
    · exact hf r
    · rfl
  · obtain ⟨hhollow, c, hc, hcal⟩ := h.row r hr hg
    split
    · have hplace : (f r).calendar = r.calendar := congrArg Prod.fst (hf' r)
      exact ⟨hrow r hr ‹_› hg hhollow, c, hc, hcal.trans hplace.symm⟩
    · exact ⟨hhollow, c, hc, hcal⟩
  · split
    · exact hseen r hr ‹_›
    · exact h.seen r hr

/-- An `UPDATE` of columns that no hollow row is known by. -/
theorem relabelled (h : Hollows gone run t) {p : ResourceRow → Bool}
    {f : ResourceRow → ResourceRow} {hf : ∀ r, (f r).id = r.id} {hf' : ∀ r, (f r).place = r.place}
    (hraw : ∀ r : ResourceRow, r.rawICal = [] → (f r).rawICal = [])
    (hflags : ∀ r, (f r).hidden = r.hidden ∧ (f r).seenRun = r.seenRun) :
    Hollows gone run (t.updateResources p f hf hf') := by
  refine h.updateResources (fun r _ _ _ hr => ⟨hraw r hr.empty, ?_, ?_⟩) fun r hr _ => ?_
  · exact (hflags r).1.trans hr.hidden
  · rw [(hflags r).2]
    exact hr.unseen
  · rw [(hflags r).2]
    exact h.seen r hr

/-- A save of other rows. -/
theorem saved (h : Hollows gone run t) {number calendar : Int} {href raw : Bytes}
    {etag : Option Bytes} {parsed : Parsed} {r : ResourceRow}
    (hs : Saves number calendar href etag raw parsed t t' r) (hr : ¬ gone r.id)
    (hnumber : number < t.runs.nextRowid SyncRun.id) : Hollows gone run t' := by
  have hruns : t'.runs = t.runs := by rw [hs.frame]
  have hcalendars : t'.calendars = t.calendars := by rw [hs.frame]
  refine ⟨fun x hx hg => ?_, fun id hg => ?_, fun x hx n hn => ?_, hruns ▸ h.opened⟩
  · rw [hcalendars]
    rcases (hs.rows x).1 hx with rfl | ⟨hx, -⟩
    · exact absurd hg hr
    · exact h.row x hx hg
  · obtain ⟨x, hx, rfl⟩ := h.present id hg
    exact ⟨x, (hs.rows x).2 (.inr ⟨hx, fun hid => hr (hid ▸ hg)⟩), rfl⟩
  · rw [hruns]
    rcases (hs.rows x).1 hx with rfl | ⟨hx, -⟩
    · cases hn
      exact hnumber
    · exact h.seen x hx n hn

/-- The row a save writes is one that it claims, or a new one. -/
theorem not_gone (h : Hollows gone run t) {calendar : Int} {href : Bytes} {uid : Option Bytes}
    {r : ResourceRow} (hb : Based calendar href uid t r)
    (hclaimed : ∀ x ∈ t.resources, gone x.id → ¬ Claimed calendar href uid x) : ¬ gone r.id := by
  intro hg
  rcases hb with ⟨hr, hc⟩ | ⟨-, hfresh⟩
  · exact hclaimed r hr hg hc
  · obtain ⟨x, hx, hid⟩ := h.present r.id hg
    exact (hfresh x hx).1 hid

end Hollows

/-! ## A download of other resources -/

/-- The rows are hollow, and `q` downloads none of them. -/
structure Spared (gone : Int → Prop) (account : Int) (q : Call) (run : Option Int) (t : Tables) :
    Prop extends Hollows gone run t where
  spared : ∀ r ∈ t.resources, gone r.id → ¬ q.Downloads account t r

section
variable {q : Call}

/-- What is downloaded depends on the calendars by their names, and on the rows by their names and
whether they are missing. -/
theorem Call.Downloads.mono {r r' : ResourceRow} (h : q.Downloads account t' r')
    (hplace : r'.place = r.place) (huid : r'.uid = r.uid)
    (hmissing : r'.remoteMissing = false → r.remoteMissing = false)
    (hnamed : ∀ url, t'.Named r.calendar account url → t.Named r.calendar account url) :
    q.Downloads account t r := by
  have hcalendar : r'.calendar = r.calendar := congrArg Prod.fst hplace
  have hhref : r'.href = r.href := congrArg Prod.snd hplace
  cases q with
  | fetch reader start fetches =>
    obtain ⟨f, hf, hn, href, etag, body, hm, -, hc⟩ := h
    rw [hcalendar] at hn
    refine ⟨f, hf, hnamed _ hn, href, etag, body, hm, rfl, ?_⟩
    rw [hhref, huid] at hc
    exact hc.imp_right fun hc => ⟨hc.1, hmissing hc.2⟩
  | _ => exact h.elim

namespace Spared

/-- A statement that leaves the hollow rows and the names of their calendars alone. -/
theorem of (h : Spared gone account q run t) {run' : Option Int} (hh : Hollows gone run' t')
    (hrows : ∀ r ∈ t'.resources, gone r.id → r ∈ t.resources)
    (hnamed : ∀ r ∈ t.resources, gone r.id → ∀ url, t'.Named r.calendar account url →
      t.Named r.calendar account url) : Spared gone account q run' t' where
  toHollows := hh
  spared r hr hg hd := by
    have hr := hrows r hr hg
    exact h.spared r hr hg (hd.mono rfl rfl id (hnamed r hr hg))

/-- An `UPDATE` of other rows. -/
theorem others (h : Spared gone account q run t) {p : ResourceRow → Bool}
    {f : ResourceRow → ResourceRow} {hf : ∀ r, (f r).id = r.id} {hf' : ∀ r, (f r).place = r.place}
    (hp : ∀ r ∈ t.resources, gone r.id → p r = false)
    (hseen : ∀ r ∈ t.resources, p r = true → ∀ n, (f r).seenRun = some n →
      n < t.runs.nextRowid SyncRun.id) :
    Spared gone account q run (t.updateResources p f hf hf') := by
  refine h.of (h.toHollows.updateResources (fun r hr hpr hg _ => ?_) hseen) (fun r hr hg => ?_)
    fun _ _ _ _ hn => hn
  · rw [hp r hr hg] at hpr
    cases hpr
  · obtain ⟨x, hx, rfl⟩ := Tables.mem_updateResources.1 hr
    split at hg
    · rename_i hpx
      rw [hp x hx (hf x ▸ hg)] at hpx
      cases hpx
    · rename_i hpx
      rw [if_neg hpx]
      exact hx

/-- A new calendar gets an identifier that no row has. -/
theorem addCalendar {url random : Bytes} {title notes : Option Bytes} {account' : Int}
    (h : Spared gone account q run t) :
    Spared gone account q run (CalendarStore.addCalendar account' url random title notes t) := by
  refine h.of (h.toHollows.beside rfl (fun c hc => ?_) rfl) (fun _ hr _ => hr)
    fun r hr hg url' hn => ?_
  · exact ⟨c, Table.mem_insertOrIgnore_of_mem hc, rfl⟩
  · obtain ⟨c, hc, hid, hplace⟩ := hn
    rcases Table.mem_insertOrIgnore hc with hc | rfl
    · exact ⟨c, hc, hid, hplace⟩
    · obtain ⟨-, c₀, hc₀, hid₀⟩ := h.row r hr hg
      have hlt := Table.lt_nextRowid Calendar.id hc₀
      have hid : t.calendars.nextRowid Calendar.id = r.calendar := hid
      omega

/-- An `UPDATE` of calendars. -/
theorem updateCalendars (h : Spared gone account q run t) {p : Calendar → Bool}
    {f : Calendar → Calendar} {hf : ∀ c, (f c).id = c.id} {hf' : ∀ c, (f c).place = c.place} :
    Spared gone account q run (t.updateCalendars p f hf hf') := by
  refine h.of (h.toHollows.beside rfl (fun c hc => ?_) rfl) (fun _ hr _ => hr)
    fun r hr hg url hn => ?_
  · refine ⟨if p c then f c else c, Tables.mem_updateCalendars.2 ⟨c, hc, rfl⟩, ?_⟩
    split
    · exact hf c
    · rfl
  · obtain ⟨c', hc', hid, haccount, hurl⟩ := hn
    obtain ⟨c, hc, rfl⟩ := Tables.mem_updateCalendars.1 hc'
    split at hid
    · rename_i hp
      rw [if_pos hp] at haccount hurl
      refine ⟨c, hc, (hf c).symm.trans hid, ?_, ?_⟩
      · exact (congrArg Prod.fst (hf' c)).symm.trans haccount
      · exact (congrArg Prod.snd (hf' c)).symm.trans hurl
    · rename_i hp
      rw [if_neg hp] at haccount hurl
      exact ⟨c, hc, hid, haccount, hurl⟩

end Spared

/-- The calendar of a collection is the one with its URL. -/
theorem turns_collection {c : DAVCollection} {random : Bytes} :
    turns (Spared gone account q run) (collection s c random) fun calendar t =>
      Spared gone account q run t ∧ t.Named calendar s.account c.url := by
  intro c₀ h
  refine wp_bind (wp_change (wp_bind (wp_change (wp_bind (wp_findValue fun v hv => ?_))
    fun _ => rfl)) fun _ => rfl)
  split
  · rename_i hpos
    refine wp_pure ⟨⟨h.addCalendar.updateCalendars, ?_⟩, rfl⟩
    obtain ⟨x, hx, hid⟩ := Option.map_eq_some_iff.1 (hv.resolve_left fun hv => by omega)
    obtain ⟨hm, hp⟩ := Table.find?_some hx
    simp only [Bool.and_eq_true, decide_eq_true_iff] at hp
    exact ⟨x, hm, hid, hp⟩
  · exact wp_throw rfl

/-- A calendar that is kept carries no hollow row. -/
theorem keeps_keepSpared {calendar : Int} {N : Tables → Prop}
    (hN : ∀ t t' : Tables, t'.calendars = t.calendars → N t → N t') :
    keeps (fun t => Spared gone account q (some s.run) t ∧ N t) (keepCalendar s calendar) := by
  refine keeps_change fun t h => ⟨h.1.others (fun r hr hg => ?_) fun r _ _ n hn => ?_, hN t _ rfl h.2⟩
  · have hhidden := (h.1.row r hr hg).1.hidden
    rw [ResourceRow.hidden, Bool.or_eq_true] at hhidden
    rcases hhidden with hm | hm <;> simp [hm]
  · cases hn
    exact h.1.opened _ rfl

/-- No hollow row is found current. -/
theorem keeps_seenSpared {calendar : Int} {href etag : Bytes} {N : Tables → Prop}
    (hN : ∀ t t' : Tables, t'.calendars = t.calendars → N t → N t') :
    keeps (fun t => Spared gone account q (some s.run) t ∧ N t) (seen s calendar href etag) := by
  intro c h
  refine wp_bind (wp_findValue fun count hcount => ?_)
  split
  · rename_i hone
    refine wp_bind (wp_change (wp_pure ⟨⟨?_, hN c.now _ rfl h.2⟩, rfl⟩) fun _ => rfl)
    have hcount : c.now.resources.count (ResourceRow.current calendar href etag) = 1 := by
      rcases hcount with hcount | hcount
      · omega
      · have := Option.some.inj hcount
        omega
    obtain ⟨x, hx, hp⟩ := Table.count_pos (hcount ▸ Nat.one_pos)
    simp only [ResourceRow.current, Bool.and_eq_true, decide_eq_true_iff] at hp
    refine h.1.others (fun r hr hg => ?_) fun r _ _ n hn => ?_
    · -- the row of that place has a body
      by_contra hpr
      simp only [Bool.not_eq_false, Bool.and_eq_true, decide_eq_true_iff] at hpr
      obtain rfl : r = x := by
        refine Table.eq_of_uniq hr hx ?_
        rw [ResourceRow.place, ResourceRow.place, hpr.1, hpr.2, hp.1.1.1, hp.1.1.2]
      have hlen := hp.2
      rw [(h.1.row r hr hg).1.empty] at hlen
      cases hlen
    · cases hn
      exact h.1.opened _ rfl
  · exact wp_pure ⟨h, rfl⟩

/-- A save of what a fetch has staged is one of another row. -/
theorem keeps_saveSpared {reader : Reader} {start : Option Bytes} {fetches : List (Fetch × Bytes)}
    {f : Fetch × Bytes} (hf : f ∈ fetches) {href etag : Bytes} {body : Buf}
    (hm : Staged.downloaded href etag body ∈ f.1.staged) (calendar : Int) :
    keeps (fun t => Spared gone s.account (.fetch reader start fetches) (some s.run) t ∧
      t.Named calendar s.account f.1.collection.url)
      (save reader s calendar href (some etag) body) := by
  intro c h
  refine wp_mono save_saves (fun _ c' hs => ?_) fun _ _ hu => hu
  obtain ⟨hu, raw, r, -, hsaves⟩ := hs
  have hr : ¬ gone r.id := by
    refine h.1.not_gone hsaves.based fun x hx hg hc => h.1.spared x hx hg ?_
    rw [← hc.1] at h
    exact ⟨f, hf, h.2, href, etag, body, hm, rfl, hc.2⟩
  have hcalendars : c'.now.calendars = c.now.calendars := by rw [hsaves.frame]
  refine ⟨⟨h.1.of (h.1.saved hsaves hr (h.1.opened _ rfl)) (fun x hx hg => ?_) ?_, ?_⟩, hu⟩
  · rcases (hsaves.rows x).1 hx with rfl | ⟨hx, -⟩
    · exact absurd hg hr
    · exact hx
  · intro x _ _ url hn
    unfold Tables.Named at hn
    rwa [hcalendars] at hn
  · have hn := h.2
    unfold Tables.Named at hn ⊢
    rwa [hcalendars]

/-- The end of a run hides what the run has not seen. -/
theorem Spared.settled (h : Spared gone s.account q (some s.run) t) :
    Spared gone s.account q none (t.updateResources (fun r => t.owns s.account r.calendar)
      (ResourceRow.settled s.scopedRun s.run) (ResourceRow.settled_id _ _)
      (ResourceRow.settled_place _ _)) := by
  let f (r : ResourceRow) : ResourceRow :=
    if t.owns s.account r.calendar then r.settled s.scopedRun s.run else r
  have hsame (r : ResourceRow) : (f r).id = r.id ∧ (f r).place = r.place ∧ (f r).uid = r.uid ∧
      (f r).seenRun = r.seenRun ∧ (f r).rawICal = r.rawICal := by
    dsimp only [f]
    split
    · cases s.scopedRun <;> exact ⟨rfl, rfl, rfl, rfl, rfl⟩
    · exact ⟨rfl, rfl, rfl, rfl, rfl⟩
  have hmissed (r : ResourceRow) (hr : r.Hollow (some s.run)) : missed s.run r.seenRun = true :=
    decide_eq_true (hr.unseen _ rfl)
  refine ⟨h.rewritten (f := f) (fun r' => Tables.mem_updateResources) rfl rfl
    (fun r => (hsame r).1) (fun r hr hg => ?_) (fun r hr => ?_) fun n hn => ?_, fun r' hr' hg hd => ?_⟩
  · obtain ⟨hhollow, c, hc, hcal⟩ := h.row r hr hg
    have hcalendar : (f r).calendar = r.calendar := congrArg Prod.fst (hsame r).2.1
    refine ⟨⟨(hsame r).2.2.2.2.trans hhollow.empty, ?_, fun n hn => ?_⟩, c, hc,
      hcal.trans hcalendar.symm⟩
    · dsimp only [f]
      split
      · cases s.scopedRun <;> simp [ResourceRow.settled, ResourceRow.hidden, hmissed r hhollow]
      · exact hhollow.hidden
    · cases hn
  · rw [(hsame r).2.2.2.1]
    exact h.seen r hr
  · cases hn
  · obtain ⟨r, hr, rfl⟩ := Tables.mem_updateResources.1 hr'
    have hg : gone r.id := (hsame r).1 ▸ hg
    refine h.spared r hr hg (hd.mono (hsame r).2.1 (hsame r).2.2.1 (fun hm => ?_) fun _ hn => hn)
    split at hm
    · have hmiss := hmissed r (h.row r hr hg).1
      cases hw : s.scopedRun with
      | true =>
        rw [hw] at hm
        exact hm
      | false =>
        rw [hw] at hm
        exact absurd (hmiss.symm.trans hm) (by decide)
    · exact hm

theorem wp_concludeSpared {c : Conn Tables} (h : Spared gone s.account q (some s.run) c.now) :
    wp (conclude s) (fun _ c' => Spared gone s.account q none c'.now ∧ c'.undo = c.undo)
      (fun _ c' => c'.undo = c.undo) c := by
  refine wp_bind (wp_change (wp_bind (wp_change (wp_change ⟨?_, rfl⟩ fun _ => rfl) fun _ => rfl))
    fun _ => rfl)
  have hcalendars := @Spared.updateCalendars _ _ _ _ _ h.settled (fun c => c.account = s.account)
    (Calendar.settled s.run) (fun _ => rfl) fun _ => rfl
  exact hcalendars.of (hcalendars.toHollows.beside rfl (fun c hc => ⟨c, hc, rfl⟩) rfl)
    (fun _ hr _ => hr) fun _ _ _ _ hn => hn

theorem insertRun_spared {number : Int} (h : Spared gone account q none t)
    (hi : insertRun account t = .ok (number, t')) :
    Spared gone account q none t' ∧ Spared gone account q (some number) t' := by
  unfold insertRun at hi
  split at hi
  · rename_i runs hr
    cases hi
    have hn : runs.nextRowid SyncRun.id = t.runs.nextRowid SyncRun.id + 1 :=
      Table.nextRowid_insert hr rfl
    have hseen : ∀ r ∈ t.resources, ∀ n, r.seenRun = some n → n < runs.nextRowid SyncRun.id := by
      intro r hm n hs
      have := h.seen r hm n hs
      omega
    refine ⟨⟨⟨h.row, h.present, hseen, fun n hn => by cases hn⟩, h.spared⟩,
      ⟨⟨fun r hm hg => ?_, h.present, hseen, fun n ho => ?_⟩, h.spared⟩⟩
    · obtain ⟨hrow, hcalendar⟩ := h.row r hm hg
      refine ⟨⟨hrow.empty, hrow.hidden, fun n ho hs => ?_⟩, hcalendar⟩
      cases ho
      have := h.seen r hm _ hs
      omega
    · cases ho
      show t.runs.nextRowid SyncRun.id < runs.nextRowid SyncRun.id
      omega
  · cases hi

theorem closeRun_hollows {number : Int} {succeeded : Bool} {m : Option String}
    (h : Hollows gone none t) : Hollows gone none (closeRun number succeeded m t) := by
  have hid : ∀ r : SyncRun, (r.finished succeeded m).id = r.id := fun _ => rfl
  exact h.beside rfl (fun c hc => ⟨c, hc, rfl⟩) (t.runs.nextRowid_update hid hid hid)

theorem Spared.synced (h : Spared gone account q run t) (y : Dav.SyncTable) :
    Spared gone account q run { t with sync := y } :=
  h.of (h.toHollows.beside rfl (fun c hc => ⟨c, hc, rfl⟩) rfl) (fun _ hr _ => hr)
    fun _ _ _ _ hn => hn

/-- The commit of the collections spares them. -/
theorem keeps_fetchSpared {reader : Reader} {start : Option Bytes}
    {fetches : List (Fetch × Bytes)} :
    keeps (Spared gone s.account (.fetch reader start fetches) (some s.run))
      (fetches.forM fun f => commitFetch reader s start f.2 f.1) := by
  refine keeps_eachFetch (N := fun f calendar t => t.Named calendar s.account f.collection.url)
    (fun f _ => turns_collection) (fun f calendar => keeps_keepSpared fun t t' hc hn => ?_)
    (fun f calendar href etag => keeps_seenSpared fun t t' hc hn => ?_)
    (fun f hf href etag body hm calendar => keeps_saveSpared hf hm calendar)
    fun t y h => h.synced y
  · unfold Tables.Named
    rwa [hc]
  · unfold Tables.Named
    rwa [hc]

/-- **A download of other resources** keeps the hollow rows. -/
theorem stays_fetchSpared {reader : Reader} {start : Option Bytes}
    {fetches : List (Fetch × Bytes)} :
    stays (Spared gone account (.fetch reader start fetches) none)
      (fetchSince reader account start fetches) := by
  refine stays_fetchSince (R := fun s => Spared gone s.account (.fetch reader start fetches)
      (some s.run)) (fun t number t' h hi => insertRun_spared h hi) (fun number => ?_)
    (fun number c h => wp_concludeSpared h) fun t number succeeded m h => ?_
  · exact keeps_allFetches (keeps_fetchSpared (s := ⟨account, number, start.isSome⟩))
      fun t y h => h.synced y
  · exact h.of (closeRun_hollows h.toHollows) (fun _ hr _ => hr) fun _ _ _ _ hn => hn

end

/-! ## The other passes -/

/-- An opening retries a row that is available, and its save writes that row. -/
theorem stays_openHollows {reader : Reader} {username random : Bytes} :
    stays (Hollows gone none) (openAccount reader username random) := by
  refine stays_openAccount (fun t h => h.beside rfl (fun c hc => ⟨c, hc, rfl⟩) rfl)
    fun account last row c hc hn => ?_
  obtain ⟨hm, -, hmissing, hexcluded⟩ := nextCached_some hn
  have hrow : ¬ gone row.id := by
    intro hg
    have hhidden := (hc.now.row row hm hg).1.hidden
    rw [ResourceRow.hidden, hmissing, hexcluded] at hhidden
    cases hhidden
  let R (t : Tables) : Prop := Hollows gone none t ∧
    (∀ n, row.seenRun = some n → n < t.runs.nextRowid SyncRun.id) ∧
    ∃ x ∈ t.resources, x.place = row.place ∧ ¬ gone x.id
  refine wp_reparseResource (R := R) hc ⟨hc.now, hc.now.seen row hm, row, hm, rfl, hrow⟩
    (fun c' hc' => ?_) fun t ht => ?_
  · obtain ⟨hh, hseen, x, hx, hplace, hnot⟩ := hc'
    refine wp_mono save_saves (fun _ c₁ hs => ?_) fun _ _ hu => hu
    obtain ⟨hu, raw, r, -, hsaves⟩ := hs
    have hr : ¬ gone r.id := (hsaves.place_id hx hplace) ▸ hnot
    refine ⟨⟨hh.saved hsaves hr (Table.nextRowid_pos _ _), ?_, ?_⟩, hu⟩
    · rw [hsaves.frame]
      exact hseen
    · refine ⟨_, (hsaves.rows _).2 (.inl rfl), ?_, hr⟩
      have hcalendar : r.calendar = row.calendar := by
        rcases hsaves.based with ⟨-, hcalendar, -⟩ | ⟨rfl, -⟩
        · exact hcalendar
        · rfl
      exact congrArg (·, row.href) hcalendar
  · refine ht.1.updateResources (fun r hr hp hg _ => ?_) fun r _ _ => ht.2.1
    exact absurd (of_decide_eq_true hp ▸ hg) hrow

theorem clearBases_hollows (t : Tables) (h : Hollows gone none t) :
    Hollows gone none (clearBases account t) :=
  h.beside rfl (fun c hc => ⟨c, hc, rfl⟩) rfl

theorem insertBases_hollows {generation : Int} (t : Tables) (u : Unit) (t' : Tables)
    (h : Hollows gone none t) (hi : insertBases account generation t = .ok (u, t')) :
    Hollows gone none t' := by
  unfold insertBases at hi
  split at hi
  · cases hi
    exact h.beside rfl (fun c hc => ⟨c, hc, rfl⟩) rfl
  · cases hi

theorem stays_markHollows {id : Int} {message : String} :
    stays (Hollows gone none) (markUnsupported id message) :=
  stays_change fun _ h => h.relabelled (fun _ hr => hr) fun _ => ⟨rfl, rfl⟩

theorem stays_journalHollows {q : Journal.Call} :
    stays (Hollows gone none) (onJournal (q.run account)) :=
  stays_onJournal fun _ _ h => h.beside rfl (fun c hc => ⟨c, hc, rfl⟩) rfl

theorem keeps_checkpointHollows {generation : Int} {l : List Published} :
    keeps (Hollows gone none) (do
      l.forM (checkpointResource s.account)
      snapshotWriteBases s generation
      change twoWayError fun t => t.updateAccounts (fun a => a.id = s.account)
        (Account.published generation) (fun _ => rfl) fun _ => rfl) := by
  refine keeps_bind (keeps_forM l fun p _ => ?_) fun _ =>
    keeps_bind (keeps_snapshotWriteBases clearBases_hollows insertBases_hollows) fun _ =>
      keeps_change fun t h => h.beside rfl (fun c hc => ⟨c, hc, rfl⟩) rfl
  exact keeps_bind keeps_gate fun _ =>
    keeps_change fun _ h => h.relabelled (fun _ hr => hr) fun _ => ⟨rfl, rfl⟩

theorem stays_exchangeHollows {native : Native} :
    stays (Hollows gone none) (exchangeCalendars account native) := by
  refine stays_bind stays_gate fun _ => stays_bind stays_gate fun _ =>
    stays_bind stays_select fun generation => ?_
  cases generation with
  | none => exact stays_throw _
  | some generation =>
    dsimp only
    split
    · exact stays_throw _
    refine stays_bind stays_gate fun _ => stays_bind stays_gate fun _ =>
      stays_bind stays_select fun rows => ?_
    refine stays_bind (stays_foldlM rows _ fun g r => stays_gather fun _ _ => stays_markHollows)
      fun g => stays_bind (stays_exchangeCalls _ fun q _ => stays_journalHollows) fun _ => ?_
    split
    · exact stays_throw _
    · split
      · exact stays_transaction_keeps keeps_checkpointHollows
      · exact stays_pure _

/-- Another prune leaves them hollow. -/
theorem keeps_emptyHollows {ids : List Int} :
    keeps (Hollows gone none) (emptyRows account ids) := by
  intro c h
  refine wp_bind (wp_change (wp_bind (wp_change (wp_bind (wp_change (wp_note ⟨?_, rfl⟩)
    fun _ => rfl)) fun _ => rfl)) fun _ => rfl)
  have hrows : Hollows gone none (c.now.updateResources (fun r => r.id ∈ ids) ResourceRow.pruned
      (fun _ => rfl) fun _ => rfl) := h.relabelled (fun _ _ => rfl) fun _ => ⟨rfl, rfl⟩
  exact hrows.beside rfl (fun c hc => ⟨c, hc, rfl⟩) rfl

theorem stays_pruneHollows : stays (Hollows gone none) (pruneHistory s) :=
  stays_pruneHistory fun c h => keeps_emptyHollows c h

/-- A move gives the row a calendar that is there. -/
theorem stays_moveHollows {source target etag : Bytes} :
    stays (Hollows gone none) (commitVerifiedMove account source target etag) := by
  refine fun c hc => wp_mono (move_spec hc) (fun _ c' h => ?_) fun _ _ h => h
  obtain ⟨⟨r, cal, hm, hframe, hrows⟩, hu⟩ := h
  refine Conn.all_single (hc.now.rewritten hrows (by rw [hframe]) (by rw [hframe]) (fun x => ?_)
    (fun x hx hg => ?_) (fun x hx => ?_) fun n hn => by cases hn) hu
  · split
    · rename_i hxr
      rw [hxr]
      rfl
    · rfl
  · obtain ⟨hhollow, c₀, hc₀, hcal⟩ := hc.now.row x hx hg
    split
    · rename_i hxr
      subst hxr
      exact ⟨⟨hhollow.empty, hhollow.hidden, fun n hn => by cases hn⟩, cal, hm.listed.1, rfl⟩
    · exact ⟨hhollow, c₀, hc₀, hcal⟩
  · split
    · exact hc.now.seen r hm.row.1
    · exact hc.now.seen x hx

/-- **Every pass keeps the hollow rows**, unless it downloads one of them. -/
theorem call_hollows {q : Call} {c : Conn Tables} (hc : c.All (Hollows gone none))
    (hd : ∀ r ∈ c.now.resources, gone r.id → ¬ q.Downloads account c.now r) :
    wp (q.run account) (fun _ c' => c'.All (Hollows gone none))
      (fun _ c' => c'.All (Hollows gone none)) c := by
  cases q with
  | fetch reader start fetches =>
    by_cases hu : c.undo = []
    · have hspared : c.All (Spared gone account (.fetch reader start fetches) none) :=
        Conn.all_single ⟨hc.now, hd⟩ hu
      exact wp_mono (stays_fetchSpared c hspared)
        (fun _ _ h => h.mono fun _ h => h.toHollows) fun _ _ h => h.mono fun _ h => h.toHollows
    · -- a download wants no transaction
      refine wp_bind (wp_autocommit ?_)
      rw [if_neg fun hidle => hu (Conn.autocommit_iff.1 hidle)]
      exact wp_throw hc
  | exchange native => exact stays_exchangeHollows c hc
  | snapshot generation =>
    exact stays_snapshotWriteBases clearBases_hollows insertBases_hollows c hc
  | prune => exact stays_pruneHollows c hc
  | move source target etag body => exact stays_moveHollows c hc
  | create target marker title notes =>
    refine stays_transaction_keeps (keeps_bind (keeps_change fun t h => ?_) fun _ =>
      keeps_bind keeps_gate fun _ => keeps_gate) c hc
    exact h.beside rfl (fun c hc => ⟨c, Table.mem_insertOrIgnore_of_mem hc, rfl⟩) rfl
  | journal q => exact stays_bind stays_journalHollows (fun _ => stays_pure _) c hc
  | loadSync url =>
    refine stays_bind (stays_onSyncState Dav.SyncState.keeps_load fun t y h => ?_)
      (fun _ => stays_pure _) c hc
    exact h.beside rfl (fun c hc => ⟨c, hc, rfl⟩) rfl

/-- The steps that download none of the rows with the ids in `gone`. -/
def Without (gone : Int → Prop) (w w' : Site) : Prop :=
  Step w w' ∧ ∀ account q, w'.log = (account, q) :: w.log →
    ∀ r ∈ w.conn.now.resources, gone r.id → ¬ q.Downloads account w.conn.now r

theorem Without.hollows {w w' : Site} (hs : Without gone w w')
    (hw : w.conn.All (Hollows gone none)) : w'.conn.All (Hollows gone none) :=
  hs.1.images hw (fun _ _ h => h) (fun _ _ _ => stays_openHollows)
    fun account q hl => call_hollows hw (hs.2 account q hl)

/-- Runs are numbered in the order they begin. -/
theorem Reached.hollows {w : Site} {past : List Site} (h : Reached w past) :
    w.conn.All (Hollows (fun _ => False) none) := by
  refine Run.invariant (P := fun w => w.conn.All (Hollows (fun _ => False) none)) ?_
    (fun w w' hw hs => ?_) h
  · intro w hw
    subst hw
    exact Conn.all_single .empty rfl
  · exact Without.hollows ⟨hs, fun _ _ _ _ _ hg => hg.elim⟩ hw

end CalendarStore
