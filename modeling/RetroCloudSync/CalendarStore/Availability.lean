import RetroCloudSync.CalendarStore.Outcome
import RetroCloudSync.CalendarStore.Prune

/-!
# What a download makes available

`Along`: inside a run, a row that the run has not seen is as it was before, and one that it has seen
was `Spoken` for, by an href that was staged or by a calendar that is kept. Every statement keeps
it, whatever the engine refuses (`keeps_fetchesAlong`), so that a download that returns leaves
available only what it spoke for. `Covers`: what a collection speaks for the run has seen. That
holds when nothing is refused (`smooth_commitFetches`), for then no row is renamed that the run has
seen. `availability` puts the two together.
-/

set_option autoImplicit false

namespace CalendarStore

open Library Library.Tx Journal

def Staged.href : Staged → Bytes
  | seen href _ => href
  | downloaded href _ _ => href

/-- The download names the row: its href was staged for its calendar, or the calendar is kept and
the row was not hidden before. -/
def Spoken (t₀ : Tables) (account : Int) (fetches : List (Fetch × Bytes)) (t : Tables)
    (r : ResourceRow) : Prop :=
  ∃ f ∈ fetches, t.Named r.calendar account f.1.collection.url ∧
    ((∃ x ∈ f.1.staged, x.href = r.href) ∨
      f.1.keep = true ∧ ∃ r₀ ∈ t₀.resources, r₀.id = r.id ∧ r₀.hidden = false)

/-- The contents of a run of `s` that began with `t₀`. -/
structure Along (t₀ : Tables) (fetches : List (Fetch × Bytes)) (s : Store) (t : Tables) :
    Prop where
  unseen : ∀ r ∈ t.resources, r.seenRun ≠ some s.run → r ∈ t₀.resources
  seen : ∀ r ∈ t.resources, r.seenRun = some s.run →
    r.hidden = false ∧ Spoken t₀ s.account fetches t r
  kept : ∀ r₀ ∈ t₀.resources, r₀ ∈ t.resources ∨
    ∃ r ∈ t.resources, r.id = r₀.id ∧ r.calendar = r₀.calendar ∧ r.seenRun = some s.run
  calendars : ∀ c₀ ∈ t₀.calendars, ∃ c ∈ t.calendars, c.id = c₀.id ∧ c.place = c₀.place
  others : ∀ c : Calendar, c.account ≠ s.account → (c ∈ t.calendars ↔ c ∈ t₀.calendars)

variable {t₀ t t' : Tables} {fetches : List (Fetch × Bytes)} {s : Store} {account : Int}

theorem Spoken.mono {r r' : ResourceRow} (h : Spoken t₀ account fetches t r)
    (hid : r'.id = r.id) (hplace : r'.place = r.place)
    (hnamed : ∀ url, t.Named r.calendar account url → t'.Named r.calendar account url) :
    Spoken t₀ account fetches t' r' := by
  obtain ⟨f, hf, hn, hwhy⟩ := h
  obtain ⟨hcal, hhref⟩ := Prod.mk.inj hplace
  refine ⟨f, hf, ?_, ?_⟩
  · rw [hcal]
    exact hnamed _ hn
  · rw [hhref, hid]
    exact hwhy

/-- Calendars that keep their ids and places keep their names. -/
theorem Tables.Named.mono {calendar : Int} {url : Bytes} (h : t.Named calendar account url)
    (hc : ∀ c ∈ t.calendars, ∃ c' ∈ t'.calendars, c'.id = c.id ∧ c'.place = c.place) :
    t'.Named calendar account url := by
  obtain ⟨c, hm, hid, haccount, hurl⟩ := h
  obtain ⟨c', hm', hid', hplace⟩ := hc c hm
  obtain ⟨ha, hu⟩ := Prod.mk.inj hplace
  exact ⟨c', hm', hid'.trans hid, ha.trans haccount, hu.trans hurl⟩

namespace Along

/-- A run begins with the rows there were, none of which it has seen. -/
theorem start (hr : t.resources = t₀.resources) (hc : t.calendars = t₀.calendars)
    (hnew : ∀ r ∈ t₀.resources, r.seenRun ≠ some s.run) : Along t₀ fetches s t where
  unseen r hm _ := hr ▸ hm
  seen r hm hs := absurd hs (hnew r (hr ▸ hm))
  kept r₀ hm := .inl (hr ▸ hm)
  calendars c₀ hm := ⟨c₀, hc ▸ hm, rfl, rfl⟩
  others c _ := by rw [hc]

/-- A statement on other tables. -/
theorem beside (h : Along t₀ fetches s t) (hr : t'.resources = t.resources)
    (hc : t'.calendars = t.calendars) : Along t₀ fetches s t' where
  unseen r hm := h.unseen r (hr ▸ hm)
  seen r hm hs := by
    obtain ⟨hv, hspoken⟩ := h.seen r (hr ▸ hm) hs
    refine ⟨hv, hspoken.mono rfl rfl fun url hn => ?_⟩
    unfold Tables.Named
    rwa [hc]
  kept := hr ▸ h.kept
  calendars := hc ▸ h.calendars
  others := hc ▸ h.others

/-- A statement on calendars of the account. -/
theorem recalendared (h : Along t₀ fetches s t) (hr : t'.resources = t.resources)
    (hc : ∀ c ∈ t.calendars, ∃ c' ∈ t'.calendars, c'.id = c.id ∧ c'.place = c.place)
    (ho : ∀ c : Calendar, c.account ≠ s.account → (c ∈ t'.calendars ↔ c ∈ t.calendars)) :
    Along t₀ fetches s t' where
  unseen r hm := h.unseen r (hr ▸ hm)
  seen r hm hs := by
    obtain ⟨hv, hspoken⟩ := h.seen r (hr ▸ hm) hs
    exact ⟨hv, hspoken.mono rfl rfl fun url hn => hn.mono hc⟩
  kept := hr ▸ h.kept
  calendars c₀ hm := by
    obtain ⟨c, hcm, hid, hplace⟩ := h.calendars c₀ hm
    obtain ⟨c', hcm', hid', hplace'⟩ := hc c hcm
    exact ⟨c', hcm', hid'.trans hid, hplace'.trans hplace⟩
  others c hne := (ho c hne).trans (h.others c hne)

/-- Rows that the run speaks for are marked as seen. -/
theorem marked (h : Along t₀ fetches s t) {p : ResourceRow → Bool}
    {f : ResourceRow → ResourceRow} {hf : ∀ r, (f r).id = r.id} {hf' : ∀ r, (f r).place = r.place}
    (hmark : ∀ r ∈ t.resources, p r = true → (f r).seenRun = some s.run ∧ (f r).hidden = false ∧
      Spoken t₀ s.account fetches t r) : Along t₀ fetches s (t.updateResources p f hf hf') where
  unseen r' hm hs := by
    obtain ⟨r, hr, rfl⟩ := Tables.mem_updateResources.1 hm
    split at hs
    · exact absurd (hmark r hr ‹_›).1 hs
    · rename_i hp
      rw [if_neg hp]
      exact h.unseen r hr hs
  seen r' hm hs := by
    obtain ⟨r, hr, rfl⟩ := Tables.mem_updateResources.1 hm
    split
    · obtain ⟨-, hv, hspoken⟩ := hmark r hr ‹_›
      exact ⟨hv, hspoken.mono (hf r) (hf' r) fun _ hn => hn⟩
    · rename_i hp
      rw [if_neg hp] at hs
      exact h.seen r hr hs
  kept r₀ hm := by
    rcases h.kept r₀ hm with hr | ⟨r, hr, hid, hcal, hs⟩
    · by_cases hp : p r₀ = true
      · refine .inr ⟨f r₀, Tables.mem_updateResources.2 ⟨r₀, hr, (if_pos hp).symm⟩, hf r₀, ?_,
          (hmark r₀ hr hp).1⟩
        exact congrArg Prod.fst (hf' r₀)
      · exact .inl (Tables.mem_updateResources.2 ⟨r₀, hr, (if_neg hp).symm⟩)
    · refine .inr ⟨if p r then f r else r, Tables.mem_updateResources.2 ⟨r, hr, rfl⟩, ?_⟩
      split
      · exact ⟨(hf r).trans hid, (congrArg Prod.fst (hf' r)).trans hcal, (hmark r hr ‹_›).1⟩
      · exact ⟨hid, hcal, hs⟩
  calendars := h.calendars
  others := h.others

/-- A save of an href that was staged. -/
theorem saved (h : Along t₀ fetches s t) {calendar : Int} {href raw : Bytes} {etag : Option Bytes}
    {parsed : Parsed} {r : ResourceRow} (hs : Saves s.run calendar href etag raw parsed t t' r)
    {f : Fetch × Bytes} (hf : f ∈ fetches)
    (hn : t.Named calendar s.account f.1.collection.url) (hx : ∃ x ∈ f.1.staged, x.href = href) :
    Along t₀ fetches s t' := by
  have hcalendars : t'.calendars = t.calendars := by rw [hs.frame]
  have hnamed : ∀ c url, t.Named c s.account url → t'.Named c s.account url := by
    intro c url hn
    unfold Tables.Named
    rwa [hcalendars]
  have hcal : r.calendar = calendar := by
    rcases hs.based with ⟨-, hcal, -⟩ | ⟨rfl, -⟩
    · exact hcal
    · rfl
  refine ⟨fun x hx hne => ?_, fun x hx' hseen => ?_, fun r₀ hr₀ => ?_, ?_, ?_⟩
  · rcases (hs.rows x).1 hx with rfl | ⟨hx, -⟩
    · exact absurd rfl hne
    · exact h.unseen x hx hne
  · rcases (hs.rows x).1 hx' with rfl | ⟨hx', -⟩
    · refine ⟨rfl, f, hf, ?_, .inl hx⟩
      show t'.Named r.calendar s.account f.1.collection.url
      rw [hcal]
      exact hnamed _ _ hn
    · obtain ⟨hv, hspoken⟩ := h.seen x hx' hseen
      exact ⟨hv, hspoken.mono rfl rfl fun url => hnamed _ url⟩
  · -- a row that was there is the one written, or stays
    have hwritten (x : ResourceRow) (hx : x ∈ t.resources) (hid : x.id = r.id) : x = r := by
      rcases hs.based with ⟨hr, -⟩ | ⟨-, hfresh⟩
      · exact Table.eq_of_key hx hr hid
      · exact absurd hid (hfresh x hx).1
    have hnow : r.saved s.run href etag raw parsed.message parsed.uid ∈ t'.resources :=
      (hs.rows _).2 (.inl rfl)
    rcases h.kept r₀ hr₀ with hx | ⟨x, hx, hid, hxc, hseen⟩
    · by_cases hid : r₀.id = r.id
      · obtain rfl := hwritten r₀ hx hid
        exact .inr ⟨_, hnow, rfl, rfl, rfl⟩
      · exact .inl ((hs.rows r₀).2 (.inr ⟨hx, hid⟩))
    · by_cases hxid : x.id = r.id
      · obtain rfl := hwritten x hx hxid
        exact .inr ⟨_, hnow, hid, hxc, rfl⟩
      · exact .inr ⟨x, (hs.rows x).2 (.inr ⟨hx, hxid⟩), hid, hxc, hseen⟩
  · rw [hcalendars]
    exact h.calendars
  · rw [hcalendars]
    exact h.others

theorem addCalendar (h : Along t₀ fetches s t) {url random : Bytes} {title notes : Option Bytes} :
    Along t₀ fetches s (CalendarStore.addCalendar s.account url random title notes t) := by
  refine h.recalendared rfl (fun c hc => ⟨c, Table.mem_insertOrIgnore_of_mem hc, rfl, rfl⟩)
    fun c hne => ⟨fun hc => ?_, Table.mem_insertOrIgnore_of_mem⟩
  rcases Table.mem_insertOrIgnore hc with hc | rfl
  · exact hc
  · exact absurd rfl hne

/-- An `UPDATE` of calendars of the account. -/
theorem updateCalendars (h : Along t₀ fetches s t) {p : Calendar → Bool} {f : Calendar → Calendar}
    {hf : ∀ c, (f c).id = c.id} {hf' : ∀ c, (f c).place = c.place}
    (hp : ∀ c, p c = true → c.account = s.account) :
    Along t₀ fetches s (t.updateCalendars p f hf hf') := by
  refine h.recalendared rfl (fun c hc => ?_) fun c hne => ⟨fun hc => ?_, fun hc => ?_⟩
  · refine ⟨if p c then f c else c, Tables.mem_updateCalendars.2 ⟨c, hc, rfl⟩, ?_⟩
    split
    · exact ⟨hf c, hf' c⟩
    · exact ⟨rfl, rfl⟩
  · obtain ⟨x, hx, rfl⟩ := Tables.mem_updateCalendars.1 hc
    by_cases hpx : p x = true
    · rw [if_pos hpx] at hne
      exact absurd ((congrArg Prod.fst (hf' x)).trans (hp x hpx)) hne
    · rwa [if_neg hpx]
  · exact Tables.mem_updateCalendars.2 ⟨c, hc, (if_neg fun hpc => hne (hp c hpc)).symm⟩

end Along

/-! ## The body of a download -/

/-- The calendar of a collection, listed by the run. -/
def Tables.Listed (t : Tables) (s : Store) (url : Bytes) (calendar : Int) : Prop :=
  ∃ c ∈ t.calendars, c.id = calendar ∧ c.account = s.account ∧ c.url = url ∧
    c.seenRun = some s.run

theorem Tables.Listed.named {url : Bytes} {calendar : Int} (h : t.Listed s url calendar) :
    t.Named calendar s.account url := by
  obtain ⟨c, hc, hid, ha, hu, -⟩ := h
  exact ⟨c, hc, hid, ha, hu⟩

theorem turns_collectionAlong {c : DAVCollection} {random : Bytes} :
    turns (Along t₀ fetches s) (collection s c random) fun calendar t =>
      Along t₀ fetches s t ∧ t.Named calendar s.account c.url := by
  intro c₀ h
  refine wp_bind (wp_change (wp_bind (wp_change (wp_bind (wp_findValue fun v hv => ?_))
    fun _ => rfl)) fun _ => rfl)
  split
  · rename_i hpos
    refine wp_pure ⟨⟨h.addCalendar.updateCalendars fun x hx => ?_, ?_⟩, rfl⟩
    · simp only [Bool.and_eq_true, decide_eq_true_iff] at hx
      exact hx.1
    · obtain ⟨x, hx, hid⟩ := Option.map_eq_some_iff.1 (hv.resolve_left fun hv => by omega)
      obtain ⟨hm, hp⟩ := Table.find?_some hx
      simp only [Bool.and_eq_true, decide_eq_true_iff] at hp
      exact ⟨x, hm, hid, hp⟩
  · exact wp_throw rfl

section
variable {f : Fetch × Bytes} {calendar : Int}

theorem keeps_keepAlong (hf : f ∈ fetches) (hk : f.1.keep = true) :
    keeps (fun t => Along t₀ fetches s t ∧ t.Named calendar s.account f.1.collection.url)
      (keepCalendar s calendar) := by
  refine keeps_change fun t h => ⟨h.1.marked fun r hr hp => ⟨rfl, ?_, ?_⟩, h.2⟩
  · simp only [Bool.and_eq_true, Bool.not_eq_true'] at hp
    simp [ResourceRow.hidden, ResourceRow.kept, hp.1.2, hp.2]
  · simp only [Bool.and_eq_true, Bool.not_eq_true', decide_eq_true_iff] at hp
    by_cases hs : r.seenRun = some s.run
    · exact (h.1.seen r hr hs).2
    · -- a row that the run has not seen is as it was
      refine ⟨f, hf, hp.1.1 ▸ h.2, .inr ⟨hk, r, h.1.unseen r hr hs, rfl, ?_⟩⟩
      simp [ResourceRow.hidden, hp.1.2, hp.2]

theorem keeps_seenAlong (hf : f ∈ fetches) {href etag : Bytes}
    (hx : Staged.seen href etag ∈ f.1.staged) :
    keeps (fun t => Along t₀ fetches s t ∧ t.Named calendar s.account f.1.collection.url)
      (seen s calendar href etag) := by
  refine keeps_bind keeps_findValue fun count => ?_
  split
  · refine keeps_bind (keeps_change fun t h => ⟨h.1.marked fun r hr hp => ⟨rfl, rfl, ?_⟩, h.2⟩)
      fun _ => keeps_pure _
    simp only [Bool.and_eq_true, decide_eq_true_iff] at hp
    exact ⟨f, hf, hp.1 ▸ h.2, .inl ⟨_, hx, hp.2.symm⟩⟩
  · exact keeps_pure _

theorem keeps_saveAlong {reader : Reader} (hf : f ∈ fetches) {href etag : Bytes} {body : Buf}
    (hx : Staged.downloaded href etag body ∈ f.1.staged) :
    keeps (fun t => Along t₀ fetches s t ∧ t.Named calendar s.account f.1.collection.url)
      (save reader s calendar href (some etag) body) := by
  intro c h
  refine wp_mono save_saves (fun _ c' hs => ?_) fun _ _ hu => hu
  obtain ⟨hu, raw, r, -, hsaves⟩ := hs
  refine ⟨⟨h.1.saved hsaves hf h.2 ⟨_, hx, rfl⟩, ?_⟩, hu⟩
  unfold Tables.Named
  rw [show c'.now.calendars = c.now.calendars by rw [hsaves.frame]]
  exact h.2

theorem keeps_commitAlong {reader : Reader} (hf : f ∈ fetches) {x : Staged}
    (hx : x ∈ f.1.staged) :
    keeps (fun t => Along t₀ fetches s t ∧ t.Named calendar s.account f.1.collection.url)
      (commitCalendar reader s calendar x) := by
  cases x with
  | seen href etag =>
    refine keeps_bind (keeps_seenAlong hf hx) fun current => ?_
    cases current
    · exact keeps_throw _
    · exact keeps_pure _
  | downloaded href etag body => exact keeps_saveAlong hf hx

end

/-- What the commit of each staged resource keeps, their sequence keeps. -/
theorem keeps_eachStaged {P : Tables → Prop} {reader : Reader} {calendar : Int} (l : List Staged)
    (h : ∀ x ∈ l, keeps P (commitCalendar reader s calendar x)) :
    keeps P (applyStaged reader s calendar l) := by
  induction l with
  | nil => exact keeps_gate
  | cons x l ih =>
    refine keeps_bind keeps_gate fun _ => keeps_bind keeps_gate fun _ => ?_
    exact keeps_bind (h x List.mem_cons_self) fun _ => ih fun y hy =>
      h y (List.mem_cons_of_mem x hy)

theorem keeps_fetchAlong {reader : Reader} {start : Option Bytes} {f : Fetch × Bytes}
    (hf : f ∈ fetches) :
    keeps (Along t₀ fetches s) (commitFetch reader s start f.2 f.1) := by
  refine keeps_bind keeps_gate fun _ => turns_bind turns_collectionAlong fun calendar => ?_
  have hrest : turns (fun t => Along t₀ fetches s t ∧
      t.Named calendar s.account f.1.collection.url) (do
        gate stageFailed
        applyStaged reader s calendar f.1.staged
        onSyncState (Dav.SyncState.save s.account f.1.collection.url f.1.token start s.run))
      fun _ => Along t₀ fetches s := by
    refine turns_bind keeps_gate.turns fun _ => turns_bind
      (keeps_eachStaged _ fun x hx => keeps_commitAlong hf hx).turns fun _ => ?_
    exact turns_mono (keeps_onSyncState Dav.SyncState.keeps_save fun t y h => h.beside rfl rfl).turns
      (fun _ h => h.1) fun _ _ h => h
  split
  · rename_i hk
    exact turns_bind (keeps_keepAlong hf hk).turns fun _ => hrest
  · exact hrest

/-- **The run marks only what it speaks for**, whatever the engine refuses. -/
theorem keeps_fetchesAlong {reader : Reader} {start : Option Bytes} :
    keeps (Along t₀ fetches s) (commitFetches reader s start fetches) :=
  keeps_allFetches (keeps_forM fetches fun _ hf => keeps_fetchAlong hf)
    fun _ _ h => h.beside rfl rfl

/-! ## The end of a run -/

section
variable (s : Store)

theorem Store.settled_id (r : ResourceRow) : (r.settled s.scopedRun s.run).id = r.id :=
  ResourceRow.settled_id ..

theorem Store.settled_place (r : ResourceRow) : (r.settled s.scopedRun s.run).place = r.place :=
  ResourceRow.settled_place ..

theorem Store.calendar_id (c : Calendar) : (c.settled s.run).id = c.id := rfl

theorem Store.calendar_place (c : Calendar) : (c.settled s.run).place = c.place := rfl

theorem Store.generated_id (a : Account) : (a.generated s.run).id = a.id := rfl

theorem Store.generated_username (a : Account) : (a.generated s.run).username = a.username := rfl

end

/-- The contents that a run leaves behind when it succeeds. -/
def Tables.concluded (s : Store) (t : Tables) : Tables :=
  closeRun s.run true none
    (((t.updateResources (fun r => t.owns s.account r.calendar)
        (ResourceRow.settled s.scopedRun s.run) s.settled_id
        s.settled_place).updateCalendars (fun c => c.account = s.account)
      (Calendar.settled s.run) s.calendar_id s.calendar_place).updateAccounts
        (fun a => a.id = s.account) (Account.generated s.run) s.generated_id
        s.generated_username)

theorem mem_concluded {r' : ResourceRow} : r' ∈ (t.concluded s).resources ↔
    ∃ r ∈ t.resources,
      r' = if t.owns s.account r.calendar then r.settled s.scopedRun s.run else r := by
  show r' ∈ t.resources.update (fun r => t.owns s.account r.calendar)
    (ResourceRow.settled s.scopedRun s.run) (ResourceRow.settled_id _ _)
    (ResourceRow.settled_place _ _) ↔ _
  rw [Table.mem_update]

theorem concluded_calendars {c' : Calendar} : c' ∈ (t.concluded s).calendars ↔
    ∃ c ∈ t.calendars, c' = if c.account = s.account then c.settled s.run else c := by
  have h := @Tables.mem_updateCalendars t (fun c => c.account = s.account) (Calendar.settled s.run)
    (fun _ => rfl) (fun _ => rfl) c'
  simp only [decide_eq_true_iff] at h
  exact h

theorem concluded_named {calendar : Int} {url : Bytes} :
    (t.concluded s).Named calendar account url ↔ t.Named calendar account url := by
  constructor
  · intro ⟨c', hc', hid, ha, hu⟩
    obtain ⟨c, hc, rfl⟩ := concluded_calendars.1 hc'
    refine ⟨c, hc, ?_⟩
    split at hid <;> rename_i hacc
    · rw [if_pos hacc] at ha hu
      exact ⟨hid, ha, hu⟩
    · rw [if_neg hacc] at ha hu
      exact ⟨hid, ha, hu⟩
  · intro h
    refine h.mono fun c hc => ⟨_, concluded_calendars.2 ⟨c, hc, rfl⟩, ?_⟩
    split <;> exact ⟨rfl, rfl⟩

/-- What is available after a run is what it has seen, in calendars that it has listed. -/
theorem concluded_available (r : ResourceRow) :
    (t.concluded s).available s.account
        (if t.owns s.account r.calendar then r.settled s.scopedRun s.run else r) = true ↔
      (∃ c ∈ t.calendars, c.id = r.calendar ∧ c.account = s.account ∧ c.seenRun = some s.run) ∧
        r.seenRun = some s.run ∧ (s.scopedRun = true → r.remoteMissing = false) := by
  have hlists : (t.concluded s).lists s.account r.calendar = true ↔
      ∃ c ∈ t.calendars, c.id = r.calendar ∧ c.account = s.account ∧ c.seenRun = some s.run := by
    unfold Tables.lists
    rw [Table.any_iff]
    simp only [Bool.and_eq_true, decide_eq_true_iff, Bool.not_eq_true']
    constructor
    · intro ⟨c', hc', ⟨hid, ha⟩, hm⟩
      obtain ⟨c, hc, rfl⟩ := concluded_calendars.1 hc'
      split at hm
      · rename_i hacc
        rw [if_pos hacc] at hid
        exact ⟨c, hc, hid, hacc, by simpa [Calendar.settled, missed] using hm⟩
      · rename_i hacc
        rw [if_neg hacc] at ha
        exact absurd ha hacc
    · intro ⟨c, hc, hid, hacc, hseen⟩
      refine ⟨_, concluded_calendars.2 ⟨c, hc, rfl⟩, ?_⟩
      rw [if_pos hacc]
      exact ⟨⟨hid, hacc⟩, by simp [Calendar.settled, missed, hseen]⟩
  have hcal : (if t.owns s.account r.calendar then r.settled s.scopedRun s.run else r).calendar =
      r.calendar := by
    split
    · exact congrArg Prod.fst (ResourceRow.settled_place _ _ r)
    · rfl
  unfold Tables.available
  rw [Bool.and_eq_true, Bool.and_eq_true, hcal, hlists]
  rw [and_assoc]
  refine and_congr_right fun ⟨c, hc, hid, hacc, _⟩ => ?_
  have howns : t.owns s.account r.calendar = true :=
    Table.any_iff.2 ⟨c, hc, by simp [hid, hacc]⟩
  rw [if_pos howns]
  cases hw : s.scopedRun <;> simp [ResourceRow.settled, missed, and_comm]

/-- **A download that returns has concluded its run**, with contents that its body led to. -/
theorem wp_fetchSince {reader : Reader} {start : Option Bytes} {c : Conn Tables}
    {Q : Tables → Prop}
    (h : ∀ run t, insertRun account c.now = .ok (run, t) →
      wp (commitFetches reader ⟨account, run, start.isSome⟩ start fetches)
        (fun _ c' => Q (c'.now.concluded ⟨account, run, start.isSome⟩)) (fun _ _ => True)
        { c with now := t }.push) :
    wp (fetchSince reader account start fetches) (fun _ c' => Q c'.now) (fun _ _ => True) c := by
  refine wp_bind (wp_autocommit ?_)
  split
  · refine wp_bind (wp_gate (wp_bind ?_) fun _ => trivial)
    refine wp_bind (wp_stmt (fun run t ht => ?_) fun _ => trivial)
    refine wp_bind (wp_begin (fun _ => wp_pure ?_) fun _ => trivial)
    refine wp_bind (wp_attempt (wp_mono (h run t ht) (fun _ c₁ hq => ?_) fun e c₁ _ => ?_))
    · -- the run is concluded, committed and closed
      refine wp_bind (wp_attempt (wp_orRollback (wp_bind ?_)))
      refine wp_bind (wp_change (wp_bind (wp_change (wp_change (wp_commit ?_ fun m => ?_)
        fun m => ?_) fun m => ?_)) fun m => ?_)
      · exact wp_bind (wp_change (wp_pure hq) fun _ => trivial)
      all_goals exact wp_bind (wp_change (wp_throw trivial) fun _ => trivial)
    · exact wp_bind (wp_mono (wp_any _) (fun _ _ _ => wp_throw trivial) fun _ _ _ => trivial)
  · exact wp_throw trivial

theorem smooth_change {fail : String → RCError} {g : Tables → Tables} {c : Conn Tables}
    {Q : Unit → Conn Tables → Prop} {E : RCError → Conn Tables → Prop}
    (h : Q () { c with now := g c.now }) : smooth (change fail g) Q E c := by
  refine smooth_stmt (fun u t ht => ?_) fun m hm => by cases hm
  cases ht
  exact h

/-! ## Ids are counted -/

namespace Tables.Counted

theorem of (h : t.Counted) (hr : ∀ r' ∈ t'.resources, ∃ r ∈ t.resources, r'.id = r.id) :
    t'.Counted := by
  intro r' hr'
  obtain ⟨r, hm, hid⟩ := hr r' hr'
  rw [hid]
  exact h r hm

theorem updateResources (h : t.Counted) {p : ResourceRow → Bool} {f : ResourceRow → ResourceRow}
    {hf : ∀ r, (f r).id = r.id} {hf' : ∀ r, (f r).place = r.place} :
    (t.updateResources p f hf hf').Counted := by
  refine h.of fun r' hr' => ?_
  obtain ⟨r, hr, rfl⟩ := Tables.mem_updateResources.1 hr'
  refine ⟨r, hr, ?_⟩
  split
  · exact hf r
  · rfl

end Tables.Counted

section
variable {P : Tables → Prop} {c : Conn Tables}

theorem keeps_saveCounted {reader : Reader} {calendar : Int} {href : Bytes} {etag : Option Bytes}
    {body : Buf} : keeps Tables.Counted (save reader s calendar href etag body) := by
  refine fun c h => wp_mono save_saves (fun _ c' hs => ⟨fun x hx => ?_, hs.1⟩) fun _ _ hu => hu
  obtain ⟨-, raw, r, -, hsaves⟩ := hs
  rcases (hsaves.rows x).1 hx with rfl | ⟨hx, -⟩
  · rcases hsaves.based with ⟨hr, -⟩ | ⟨rfl, -⟩
    · exact h r hr
    · exact Table.nextRowid_pos _ _
  · exact h x hx

theorem keeps_seenCounted {calendar : Int} {href etag : Bytes} :
    keeps Tables.Counted (seen s calendar href etag) := by
  refine keeps_bind keeps_findValue fun count => ?_
  split
  · exact keeps_bind (keeps_change fun _ h => h.updateResources) fun _ => keeps_pure _
  · exact keeps_pure _

theorem keeps_collectionCounted {col : DAVCollection} {random : Bytes} :
    keeps Tables.Counted (collection s col random) := by
  refine keeps_bind (keeps_change fun _ h => h) fun _ => keeps_bind (keeps_change fun _ h => h)
    fun _ => keeps_bind keeps_findValue fun identifier => ?_
  split
  · exact keeps_pure _
  · exact keeps_throw _

theorem keeps_concludeCounted : keeps Tables.Counted (conclude s) :=
  keeps_bind (keeps_change fun _ h => h.updateResources) fun _ =>
    keeps_bind (keeps_change fun _ h => h) fun _ => keeps_change fun _ h => h

theorem stays_fetchCounted {reader : Reader} {start : Option Bytes} :
    stays Tables.Counted (fetchSince reader account start fetches) := by
  refine stays_fetchSince (R := fun _ => Tables.Counted) (fun t run t' h hi => ?_) (fun run => ?_)
    (fun run c h => keeps_concludeCounted c h) fun _ _ _ _ h => h
  · unfold insertRun at hi
    split at hi <;> cases hi
    exact ⟨h, h⟩
  · exact keeps_commitFetches (fun _ _ => keeps_collectionCounted)
      (fun _ => keeps_change fun _ h => h.updateResources) (fun _ _ _ => keeps_seenCounted)
      (fun _ _ _ _ _ _ _ => keeps_saveCounted) fun _ _ h => h

theorem stays_exchangeCounted {native : Native} :
    stays Tables.Counted (exchangeCalendars account native) := by
  refine stays_bind stays_gate fun _ => stays_bind stays_gate fun _ =>
    stays_bind stays_select fun generation => ?_
  cases generation with
  | none => exact stays_throw _
  | some generation =>
    dsimp only
    split
    · exact stays_throw _
    refine stays_bind stays_gate fun _ => stays_bind stays_gate fun _ =>
      stays_bind stays_select fun rows => ?_
    refine stays_bind (stays_foldlM rows _ fun g r => stays_gather fun _ _ =>
      stays_change fun _ h => h.updateResources) fun g => ?_
    refine stays_bind (stays_exchangeCalls _ fun q _ => stays_onJournal fun _ _ h => h) fun _ => ?_
    split
    · exact stays_throw _
    · split
      · refine stays_transaction_keeps (keeps_bind (keeps_forM g.resources fun p _ => ?_) fun _ =>
          keeps_bind (keeps_snapshotWriteBases (fun _ h => h) fun _ _ _ h hi => ?_) fun _ =>
            keeps_change fun _ h => h)
        · exact keeps_bind keeps_gate fun _ => keeps_change fun _ h => h.updateResources
        · unfold insertBases at hi
          split at hi <;> cases hi
          exact h
      · exact stays_pure _

theorem stays_pruneCounted : stays Tables.Counted (pruneHistory s) := by
  have hempty (ids : List Int) : keeps Tables.Counted (emptyRows s.account ids) := by
    refine keeps_bind (keeps_change fun _ h => h) fun _ => ?_
    refine keeps_bind (keeps_change fun _ h => h) fun _ =>
      keeps_bind (keeps_change fun _ h => h.updateResources) fun _ => fun c h => ?_
    exact wp_note ⟨h, rfl⟩
  exact stays_pruneHistory fun c => hempty _ c

theorem call_counted (q : Call) : stays Tables.Counted (q.run account) := by
  cases q with
  | fetch reader start fetches => exact stays_fetchCounted
  | exchange native => exact stays_exchangeCounted
  | snapshot generation =>
    refine stays_snapshotWriteBases (fun _ h => h) fun _ _ _ h hi => ?_
    unfold insertBases at hi
    split at hi <;> cases hi
    exact h
  | prune => exact stays_pruneCounted
  | move source target etag body =>
    refine fun c hc => wp_mono (move_spec hc) (fun _ c' h => ?_) fun _ _ h => h
    obtain ⟨⟨r, cal, -, -, hrows⟩, hu⟩ := h
    refine Conn.all_single (hc.now.of fun x hx => ?_) hu
    obtain ⟨y, hy, rfl⟩ := (hrows x).1 hx
    refine ⟨y, hy, ?_⟩
    split
    · rename_i hyr
      rw [hyr]
      rfl
    · rfl
  | create target marker title notes =>
    exact stays_transaction_keeps (keeps_bind (keeps_change fun _ h => h) fun _ =>
      keeps_bind keeps_gate fun _ => keeps_gate)
  | journal q =>
    exact stays_bind (stays_onJournal fun _ _ h => h) fun _ => stays_pure _
  | loadSync url =>
    exact stays_bind (stays_onSyncState Dav.SyncState.keeps_load fun _ _ h => h) fun _ => stays_pure _

theorem Reached.counted {w : Site} {past : List Site} (h : Reached w past) :
    w.conn.All Tables.Counted := by
  refine h.images (fun _ hr => absurd hr (Table.not_mem_empty _)) (fun _ _ _ => ?_)
    fun _ q => call_counted q
  refine stays_openAccount (fun _ h => h) fun account last row c hc _ => ?_
  exact wp_reparseResource hc hc.now keeps_saveCounted fun _ h => h.updateResources

end

/-! ## What a run covers, when nothing is refused -/

/-- What the run has seen it goes on seeing, and its calendars stay. -/
structure Onward (s : Store) (t t' : Tables) : Prop where
  rows : ∀ r ∈ t.resources, r.seenRun = some s.run →
    ∃ r' ∈ t'.resources, r'.id = r.id ∧ r'.place = r.place ∧ r'.seenRun = some s.run
  calendars : ∀ c ∈ t.calendars, ∃ c' ∈ t'.calendars, c'.id = c.id ∧ c'.place = c.place ∧
    (c.seenRun = some s.run → c'.seenRun = some s.run)

/-- The run has seen what one collection speaks for. -/
def Covers (t₀ : Tables) (s : Store) (f : Fetch) (t : Tables) : Prop :=
  ∃ calendar, t.Listed s f.collection.url calendar ∧
    (∀ x ∈ f.staged, ∃ r ∈ t.resources, r.place = (calendar, x.href) ∧
      r.seenRun = some s.run) ∧
    (f.keep = true → ∀ r₀ ∈ t₀.resources, r₀.calendar = calendar → r₀.hidden = false →
      ∃ r ∈ t.resources, r.id = r₀.id ∧ r.calendar = calendar ∧ r.seenRun = some s.run)

namespace Onward

variable {t₁ t₂ : Tables}

theorem beside (hr : t'.resources = t.resources) (hc : t'.calendars = t.calendars) :
    Onward s t t' where
  rows r hm hs := ⟨r, hr ▸ hm, rfl, rfl, hs⟩
  calendars c hm := ⟨c, hc ▸ hm, rfl, rfl, id⟩

theorem trans (h : Onward s t t₁) (h' : Onward s t₁ t₂) : Onward s t t₂ where
  rows r hm hs := by
    obtain ⟨r₁, hm₁, hid₁, hp₁, hs₁⟩ := h.rows r hm hs
    obtain ⟨r₂, hm₂, hid₂, hp₂, hs₂⟩ := h'.rows r₁ hm₁ hs₁
    exact ⟨r₂, hm₂, hid₂.trans hid₁, hp₂.trans hp₁, hs₂⟩
  calendars c hm := by
    obtain ⟨c₁, hm₁, hid₁, hp₁, hs₁⟩ := h.calendars c hm
    obtain ⟨c₂, hm₂, hid₂, hp₂, hs₂⟩ := h'.calendars c₁ hm₁
    exact ⟨c₂, hm₂, hid₂.trans hid₁, hp₂.trans hp₁, hs₂ ∘ hs₁⟩

/-- Rows are marked as seen. -/
theorem marked {p : ResourceRow → Bool} {f : ResourceRow → ResourceRow}
    {hf : ∀ r, (f r).id = r.id} {hf' : ∀ r, (f r).place = r.place}
    (hs : ∀ r, (f r).seenRun = some s.run) : Onward s t (t.updateResources p f hf hf') where
  rows r hm hr := by
    refine ⟨_, Tables.mem_updateResources.2 ⟨r, hm, rfl⟩, ?_⟩
    split
    · exact ⟨hf r, hf' r, hs r⟩
    · exact ⟨rfl, rfl, hr⟩
  calendars c hm := ⟨c, hm, rfl, rfl, id⟩

theorem listed {url : Bytes} {calendar : Int} (h : Onward s t t')
    (hl : t.Listed s url calendar) : t'.Listed s url calendar := by
  obtain ⟨c, hc, hid, ha, hu, hs⟩ := hl
  obtain ⟨c', hc', hid', hplace, hs'⟩ := h.calendars c hc
  obtain ⟨ha', hu'⟩ := Prod.mk.inj hplace
  exact ⟨c', hc', hid'.trans hid, ha'.trans ha, hu'.trans hu, hs' hs⟩

/-- What is covered stays covered. -/
theorem covers {f : Fetch} (h : Onward s t t') (hc : Covers t₀ s f t) : Covers t₀ s f t' := by
  obtain ⟨calendar, hl, hstaged, hkept⟩ := hc
  refine ⟨calendar, h.listed hl, fun x hx => ?_, fun hk r₀ hr₀ hcal hv => ?_⟩
  · obtain ⟨r, hr, hp, hs⟩ := hstaged x hx
    obtain ⟨r', hr', -, hp', hs'⟩ := h.rows r hr hs
    exact ⟨r', hr', hp'.trans hp, hs'⟩
  · obtain ⟨r, hr, hid, hcal', hs⟩ := hkept hk r₀ hr₀ hcal hv
    obtain ⟨r', hr', hid', hp', hs'⟩ := h.rows r hr hs
    exact ⟨r', hr', hid'.trans hid, (congrArg Prod.fst hp').trans hcal', hs'⟩

end Onward

section
variable {c : Conn Tables} {reader : Reader} {calendar : Int} {f : Fetch × Bytes}

/-- A save does not rename what the run has seen. -/
theorem Done.onward {href raw : Bytes} {etag : Option Bytes} {parsed : Parsed} {r : ResourceRow}
    (h : Done s.run calendar href etag raw parsed t t' r) : Onward s t t' where
  rows x hx hs := by
    by_cases hid : x.id = r.id
    · refine ⟨_, (h.rows _).2 (.inl rfl), hid.symm, ?_, rfl⟩
      rcases h.placed with hr | ⟨-, rfl⟩
      · obtain rfl := Table.eq_of_key hx hr.mem hid
        rcases hr.own with ho | ⟨-, hne⟩
        · exact congrArg (Prod.mk x.calendar) ho.symm
        · exact absurd hs hne
      · have hlt := Table.lt_nextRowid ResourceRow.id hx
        simp only [newResource] at hid
        omega
    · exact ⟨x, (h.rows x).2 (.inr ⟨hx, hid⟩), rfl, rfl, hs⟩
  calendars c hc := ⟨c, by rw [h.frame]; exact hc, rfl, rfl, id⟩

/-- The calendar found for a collection has just been listed. -/
theorem findCalendar_listed {col : DAVCollection} {x : Calendar}
    (h : (t.updateCalendars (fun r => r.account = s.account && r.url = col.url)
      (Calendar.listed s.run col) (fun _ => rfl) fun _ => rfl).findCalendar s.account col.url =
        some x) :
    (t.updateCalendars (fun r => r.account = s.account && r.url = col.url)
      (Calendar.listed s.run col) (fun _ => rfl) fun _ => rfl).Listed s col.url x.id := by
  obtain ⟨hm, hp⟩ := Table.find?_some h
  simp only [Bool.and_eq_true, decide_eq_true_iff] at hp
  refine ⟨x, hm, rfl, hp.1, hp.2, ?_⟩
  obtain ⟨y, hy, rfl⟩ := Tables.mem_updateCalendars.1 hm
  split
  · rfl
  · rename_i hn
    rw [if_neg hn] at hp
    exact absurd (by simp [hp]) hn

theorem smooth_collection {col : DAVCollection} {random : Bytes} :
    smooth (collection s col random) (fun calendar c' => Onward s c.now c'.now ∧
      c'.now.Listed s col.url calendar) (fun _ _ => True) c := by
  refine smooth_bind (smooth_change (smooth_bind (smooth_change (smooth_bind
    (smooth_findValue rfl ?_)))))
  split
  · rename_i hpos
    refine smooth_pure ⟨⟨fun r hr hs => ⟨r, hr, rfl, rfl, hs⟩, fun c' hc' => ?_⟩, ?_⟩
    · refine ⟨_, Tables.mem_updateCalendars.2
        ⟨c', Table.mem_insertOrIgnore_of_mem hc', rfl⟩, ?_⟩
      split
      · exact ⟨rfl, rfl, fun _ => rfl⟩
      · exact ⟨rfl, rfl, id⟩
    · cases hx : Tables.findCalendar _ s.account col.url with
      | none =>
        rw [hx] at hpos
        cases hpos
      | some x =>
        exact findCalendar_listed hx
  · exact smooth_throw trivial

/-! ### Staged resources -/

theorem smooth_seen {href etag : Bytes} :
    smooth (seen s calendar href etag) (fun current c' => Onward s c.now c'.now ∧
      (current = true → ∃ r ∈ c'.now.resources, r.place = (calendar, href) ∧
        r.seenRun = some s.run)) (fun _ _ => True) c := by
  refine smooth_bind (smooth_findValue rfl ?_)
  split
  · rename_i hone
    refine smooth_bind (smooth_change (smooth_pure ⟨.marked fun _ => rfl, fun _ => ?_⟩))
    have hcount : c.now.resources.count (ResourceRow.current calendar href etag) = 1 := by
      simp only [Option.getD_some] at hone
      omega
    obtain ⟨x, hx, hp⟩ := Table.count_pos (hcount ▸ Nat.one_pos)
    simp only [ResourceRow.current, Bool.and_eq_true, decide_eq_true_iff] at hp
    refine ⟨_, Tables.mem_updateResources.2 ⟨x, hx, rfl⟩, ?_⟩
    rw [if_pos (by simp [hp])]
    exact ⟨congrArg₂ Prod.mk hp.1.1.1 hp.1.1.2, rfl⟩
  · exact smooth_pure ⟨.beside rfl rfl, fun h => by cases h⟩

theorem smooth_saveCovers {href : Bytes} {etag : Option Bytes} {body : Buf}
    (hcount : c.now.Counted) (hclosed : c.now.Closed) :
    smooth (save reader s calendar href etag body) (fun _ c' => Onward s c.now c'.now ∧
      ∃ r ∈ c'.now.resources, r.place = (calendar, href) ∧ r.seenRun = some s.run)
      (fun _ _ => True) c := by
  cases body with
  | null n => exact smooth_mono (smooth_saveNull hcount) (fun _ _ h => h.elim) fun _ _ h => h
  | data raw =>
    refine smooth_mono (smooth_save hcount hclosed rfl) (fun _ c' h => ?_) fun _ _ _ => trivial
    obtain ⟨-, -, -, r, hdone⟩ := h
    refine ⟨hdone.onward, _, (hdone.rows _).2 (.inl rfl), ?_, rfl⟩
    exact congrArg (·, href) hdone.placed.inside

/-- What holds inside the run, whatever is refused. -/
structure Inside (t₀ : Tables) (fetches : List (Fetch × Bytes)) (s : Store) (t : Tables) : Prop
    extends Along t₀ fetches s t where
  mirrors : Mirrors t
  counted : t.Counted

theorem Inside.beside (h : Inside t₀ fetches s t) (hr : t'.resources = t.resources)
    (hc : t'.calendars = t.calendars) (hb : t.Beside t') : Inside t₀ fetches s t' :=
  ⟨h.toAlong.beside hr hc, h.mirrors.elsewhere hb hr, fun r hm => h.counted r (hr ▸ hm)⟩

theorem smooth_commitCalendar (hf : f ∈ fetches) {x : Staged} (hx : x ∈ f.1.staged)
    (h : Inside t₀ fetches s c.now) (hl : c.now.Listed s f.1.collection.url calendar) :
    smooth (commitCalendar reader s calendar x) (fun _ c' => Inside t₀ fetches s c'.now ∧
      Onward s c.now c'.now ∧
      ∃ r ∈ c'.now.resources, r.place = (calendar, x.href) ∧ r.seenRun = some s.run)
      (fun _ _ => True) c := by
  have halong := @keeps_commitAlong t₀ fetches s f calendar reader hf x hx c ⟨h.toAlong, hl.named⟩
  have hmirrors : keeps Mirrors (commitCalendar reader s calendar x) := by
    cases x with
    | seen href etag =>
      refine keeps_bind keeps_seen fun current => ?_
      cases current
      · exact keeps_throw _
      · exact keeps_pure _
    | downloaded href etag body => exact save_keeps
  have hcounted : keeps Tables.Counted (commitCalendar reader s calendar x) := by
    cases x with
    | seen href etag =>
      refine keeps_bind keeps_seenCounted fun current => ?_
      cases current
      · exact keeps_throw _
      · exact keeps_pure _
    | downloaded href etag body => exact keeps_saveCounted
  have hcovers : smooth (commitCalendar reader s calendar x) (fun _ c' => Onward s c.now c'.now ∧
      ∃ r ∈ c'.now.resources, r.place = (calendar, x.href) ∧ r.seenRun = some s.run)
      (fun _ _ => True) c := by
    cases x with
    | seen href etag =>
      refine smooth_bind (smooth_mono smooth_seen (fun current c' hs => ?_) fun _ _ _ => trivial)
      cases current
      · exact smooth_throw trivial
      · exact smooth_pure ⟨hs.1, hs.2 rfl⟩
    | downloaded href etag body => exact smooth_saveCovers h.counted h.mirrors.closed
  refine smooth_mono (smooth_and_wp hcovers (wp_and halong
    (keeps_and hmirrors hcounted c ⟨h.mirrors, h.counted⟩))) (fun _ c' hq => ?_)
    fun _ _ _ => trivial
  exact ⟨⟨hq.2.1.1.1, hq.2.2.1.1, hq.2.2.1.2⟩, hq.1⟩

/-- The resources that are staged are seen, one after the other. -/
theorem smooth_applyStaged (hf : f ∈ fetches) (l : List Staged) (hl : ∀ x ∈ l, x ∈ f.1.staged)
    {c : Conn Tables} (h : Inside t₀ fetches s c.now)
    (hlisted : c.now.Listed s f.1.collection.url calendar) :
    smooth (applyStaged reader s calendar l) (fun _ c' => Inside t₀ fetches s c'.now ∧
      Onward s c.now c'.now ∧ ∀ x ∈ l, ∃ r ∈ c'.now.resources, r.place = (calendar, x.href) ∧
        r.seenRun = some s.run) (fun _ _ => True) c := by
  induction l generalizing c with
  | nil => exact smooth_gate ⟨h, .beside rfl rfl, fun x hx => by cases hx⟩
  | cons x l ih =>
    refine smooth_bind (smooth_gate (smooth_bind (smooth_gate (smooth_bind (smooth_mono
      (smooth_commitCalendar hf (hl x List.mem_cons_self) h hlisted) (fun _ c₁ h₁ => ?_)
      fun _ _ he => he)))))
    obtain ⟨hin, hon, r, hr, hp, hs⟩ := h₁
    refine smooth_mono (ih (fun y hy => hl y (List.mem_cons_of_mem x hy)) hin
      (hon.listed hlisted)) (fun _ c₂ h₂ => ?_) fun _ _ he => he
    obtain ⟨hin', hon', hrest⟩ := h₂
    refine ⟨hin', hon.trans hon', fun y hy => ?_⟩
    rcases List.mem_cons.1 hy with rfl | hy
    · obtain ⟨r', hr', -, hp', hs'⟩ := hon'.rows r hr hs
      exact ⟨r', hr', hp'.trans hp, hs'⟩
    · exact hrest y hy

/-! ### Collections -/

theorem smooth_onSyncState {α : Type} {x : Dav.SyncM α} {Q : α → Conn Tables → Prop}
    (hk : keeps (fun _ => True) x) (hx : ∀ c, smooth x (fun _ _ => True) (fun _ _ => True) c)
    (h : ∀ a y, Q a { c with now := { c.now with sync := y } }) :
    smooth (onSyncState x) Q (fun _ _ => True) c :=
  smooth_within hk (smooth_mono (hx _) (fun a c' _ => h a c'.now) fun _ _ _ => trivial)

theorem smooth_prepare {c : Conn Dav.SyncTable} {Q : Unit → Conn Dav.SyncTable → Prop}
    (h : Q () c) : smooth Dav.SyncState.prepare Q (fun _ _ => True) c := by
  refine smooth_bind (smooth_autocommit ?_)
  split
  · exact smooth_throw trivial
  · exact smooth_bind (smooth_gate (smooth_gate h))

theorem smooth_commitFetch {start : Option Bytes} (hf : f ∈ fetches)
    (h : Inside t₀ fetches s c.now) :
    smooth (commitFetch reader s start f.2 f.1) (fun _ c' => Inside t₀ fetches s c'.now ∧
      Onward s c.now c'.now ∧ Covers t₀ s f.1 c'.now) (fun _ _ => True) c := by
  have hcollection := smooth_and_wp (@smooth_collection s c f.1.collection f.2)
    (wp_and (turns_collectionAlong c h.toAlong)
      (keeps_and keeps_collection keeps_collectionCounted c ⟨h.mirrors, h.counted⟩))
  refine smooth_bind (smooth_gate (smooth_bind (smooth_mono hcollection (fun calendar c₁ h₁ => ?_)
    fun _ _ _ => trivial)))
  obtain ⟨⟨hon, hlisted⟩, ⟨⟨halong, -⟩, -⟩, ⟨hmirrors, hcounted⟩, -⟩ := h₁
  have hin : Inside t₀ fetches s c₁.now := ⟨halong, hmirrors, hcounted⟩
  -- the staged resources and the token follow in either case
  have hrest {c₂ : Conn Tables} (hin₂ : Inside t₀ fetches s c₂.now)
      (hon₂ : Onward s c.now c₂.now) (hlisted₂ : c₂.now.Listed s f.1.collection.url calendar)
      (hkept : f.1.keep = true → ∀ r₀ ∈ t₀.resources, r₀.calendar = calendar →
        r₀.hidden = false → ∃ r ∈ c₂.now.resources, r.id = r₀.id ∧ r.calendar = calendar ∧
          r.seenRun = some s.run) :
      smooth (do
        gate stageFailed
        applyStaged reader s calendar f.1.staged
        onSyncState (Dav.SyncState.save s.account f.1.collection.url f.1.token start s.run))
        (fun _ c' => Inside t₀ fetches s c'.now ∧ Onward s c.now c'.now ∧ Covers t₀ s f.1 c'.now)
        (fun _ _ => True) c₂ := by
    refine smooth_bind (smooth_gate (smooth_bind (smooth_mono (smooth_applyStaged hf f.1.staged
      (fun _ hx => hx) hin₂ hlisted₂) (fun _ c₃ h₃ => ?_) fun _ _ he => he)))
    obtain ⟨hin₃, hon₃, hstaged⟩ := h₃
    have hcovers : Covers t₀ s f.1 c₃.now := by
      refine ⟨calendar, hon₃.listed hlisted₂, hstaged, fun hk r₀ hr₀ hcal hv => ?_⟩
      obtain ⟨r, hr, hid, hcal', hs⟩ := hkept hk r₀ hr₀ hcal hv
      obtain ⟨r', hr', hid', hp', hs'⟩ := hon₃.rows r hr hs
      exact ⟨r', hr', hid'.trans hid, (congrArg Prod.fst hp').trans hcal', hs'⟩
    refine smooth_onSyncState Dav.SyncState.keeps_save (fun c => smooth_bind (smooth_prepare
      (smooth_stmt (fun _ _ _ => trivial) fun _ _ => trivial))) fun _ y => ?_
    exact ⟨hin₃.beside rfl rfl ⟨⟨rfl, rfl, rfl, rfl⟩, rfl⟩,
      hon₂.trans (hon₃.trans (.beside rfl rfl)),
      Onward.covers (.beside rfl rfl) hcovers⟩
  split
  · rename_i hk
    have hkeep : keeps (fun t => Mirrors t ∧ t.Counted) (keepCalendar s calendar) :=
      keeps_and (keeps_updateResources fun _ => ⟨rfl, rfl⟩)
        (keeps_change fun _ h => h.updateResources)
    refine smooth_bind (smooth_mono (smooth_and_wp (smooth_change
      (Q := fun _ c' => c'.now = c₁.now.updateResources
        (fun r => r.calendar = calendar && !r.remoteMissing && !r.scopeExcluded)
        (ResourceRow.kept s.run) (fun _ => rfl) fun _ => rfl) (E := fun _ _ => True) rfl)
      (wp_and (keeps_keepAlong hf hk c₁ ⟨halong, hlisted.named⟩) (hkeep c₁ ⟨hmirrors, hcounted⟩)))
      (fun _ c₂ h₂ => ?_) fun _ _ _ => trivial)
    obtain ⟨hnow, ⟨⟨halong₂, -⟩, -⟩, ⟨hmirrors₂, hcounted₂⟩, -⟩ := h₂
    have hon₂ : Onward s c₁.now c₂.now := by
      rw [hnow]
      exact .marked fun _ => rfl
    refine hrest ⟨halong₂, hmirrors₂, hcounted₂⟩ (hon.trans hon₂) (hon₂.listed hlisted)
      fun _ r₀ hr₀ hcal hv => ?_
    -- a row that was not hidden is still there, or the run has seen it
    rcases halong.kept r₀ hr₀ with hr | ⟨r, hr, hid, hcal', hs⟩
    · refine ⟨r₀.kept s.run, ?_, rfl, hcal, rfl⟩
      rw [hnow]
      refine Tables.mem_updateResources.2 ⟨r₀, hr, (if_pos ?_).symm⟩
      simpa [ResourceRow.hidden, hcal] using hv
    · obtain ⟨r', hr', hid', hp', hs'⟩ := hon₂.rows r hr hs
      exact ⟨r', hr', hid'.trans hid, (congrArg Prod.fst hp').trans (hcal'.trans hcal), hs'⟩
  · rename_i hk
    exact hrest hin hon hlisted fun hk' => absurd hk' hk

/-- **The run sees all that it speaks for**, when nothing is refused. -/
theorem smooth_commitFetches {start : Option Bytes} (h : Inside t₀ fetches s c.now) :
    smooth (commitFetches reader s start fetches)
      (fun _ c' => Inside t₀ fetches s c'.now ∧ ∀ f ∈ fetches, Covers t₀ s f.1 c'.now)
      (fun _ _ => True) c := by
  have hall : smooth (fetches.forM fun f => commitFetch reader s start f.2 f.1)
      (fun _ c' => Inside t₀ fetches s c'.now ∧ ∀ f ∈ [] ++ fetches, Covers t₀ s f.1 c'.now)
      (fun _ _ => True) c := by
    have hstart : Inside t₀ fetches s c.now ∧
        ∀ f ∈ ([] : List (Fetch × Bytes)), Covers t₀ s f.1 c.now := ⟨h, by simp⟩
    refine smooth_forM (P := fun done c => Inside t₀ fetches s c.now ∧
      ∀ f ∈ done, Covers t₀ s f.1 c.now) fetches (fun done f c hf hdone => ?_) hstart
    refine smooth_mono (smooth_commitFetch hf hdone.1) (fun _ c' hq => ?_) fun _ _ he => he
    obtain ⟨hin, hon, hcovers⟩ := hq
    refine ⟨hin, fun g hg => ?_⟩
    rcases List.mem_append.1 hg with hg | hg
    · exact hon.covers (hdone.2 g hg)
    · obtain rfl := List.mem_singleton.1 hg
      exact hcovers
  refine smooth_bind (smooth_mono hall (fun _ c₁ h₁ => ?_) fun _ _ he => he)
  refine smooth_bind (smooth_onSyncState Dav.SyncState.keeps_finish (fun c => smooth_bind
    (smooth_prepare (smooth_stmt (fun _ _ _ => trivial) fun _ _ => trivial)))
    fun _ y => smooth_gate ?_)
  exact ⟨h₁.1.beside rfl rfl ⟨⟨rfl, rfl, rfl, rfl⟩, rfl⟩,
    fun f hf => Onward.covers (.beside rfl rfl) (h₁.2 f hf)⟩

/-- The run of a download that nothing is refused to. -/
theorem smooth_fetchSince {start : Option Bytes} {Q : Tables → Prop}
    (h : ∀ run t, insertRun account c.now = .ok (run, t) →
      smooth (commitFetches reader ⟨account, run, start.isSome⟩ start fetches)
        (fun _ c' => Q (c'.now.concluded ⟨account, run, start.isSome⟩)) (fun _ _ => True)
        { c with now := t }.push) :
    smooth (fetchSince reader account start fetches) (fun _ c' => Q c'.now)
      (fun _ _ => True) c := by
  refine smooth_bind (smooth_autocommit ?_)
  split
  · refine smooth_bind (smooth_gate (smooth_bind ?_))
    refine smooth_bind (smooth_stmt (fun run t ht => ?_) fun _ _ => trivial)
    refine smooth_bind (smooth_begin (fun _ => smooth_pure ?_) fun _ => trivial)
    refine smooth_bind (smooth_attempt (smooth_mono (h run t ht) (fun _ c₁ hq => ?_)
      fun e c₁ _ => ?_))
    · refine smooth_bind (smooth_attempt (smooth_orRollback (smooth_bind ?_)))
      refine smooth_bind (smooth_change (smooth_bind (smooth_change (smooth_change
        (smooth_commit ?_ fun m => ?_)))))
      · exact smooth_bind (smooth_change (smooth_pure hq))
      · exact smooth_bind (smooth_change (smooth_throw trivial))
    · refine smooth_bind (smooth_attempt (smooth_bind (smooth_attempt (smooth_orRollback
        (smooth_throw ?_)))))
      exact smooth_bind (smooth_change (smooth_throw (smooth_throw trivial)))
  · exact smooth_throw trivial

end

/-! ## The main theorem -/

theorem insertRun_same {run : Int} (h : insertRun account t = .ok (run, t')) :
    run = t.runs.nextRowid SyncRun.id ∧ t'.resources = t.resources ∧
      t'.calendars = t.calendars ∧ t.Beside t' := by
  unfold insertRun at h
  split at h <;> cases h
  exact ⟨rfl, rfl, rfl, ⟨rfl, rfl, rfl, rfl⟩, rfl⟩

theorem owns_iff {calendar : Int} :
    t.owns account calendar = true ↔ ∃ url, t.Named calendar account url := by
  unfold Tables.owns
  rw [Table.any_iff]
  simp only [Bool.and_eq_true, decide_eq_true_iff]
  exact ⟨fun ⟨c, hc, hid, ha⟩ => ⟨c.url, c, hc, hid, ha, rfl⟩,
    fun ⟨url, c, hc, hid, ha, _⟩ => ⟨c, hc, hid, ha⟩⟩

theorem concluded_owns {calendar : Int} :
    (t.concluded s).owns account calendar = t.owns account calendar := by
  rw [Bool.eq_iff_iff, owns_iff, owns_iff]
  simp only [concluded_named]

/-- The row that a row of the concluded contents comes from. -/
theorem concluded_from {r' : ResourceRow} (h : r' ∈ (t.concluded s).resources) :
    ∃ r ∈ t.resources, r'.id = r.id ∧ r'.place = r.place ∧
      r' = if t.owns s.account r.calendar then r.settled s.scopedRun s.run else r := by
  obtain ⟨r, hr, rfl⟩ := mem_concluded.1 h
  refine ⟨r, hr, ?_, ?_, rfl⟩ <;> split
  · exact ResourceRow.settled_id _ _ _
  · rfl
  · exact ResourceRow.settled_place _ _ _
  · rfl

namespace Along

/-- A row of the account that the run has seen is the account's. -/
theorem seen_owned (h : Along t₀ fetches s t) {r : ResourceRow} (hr : r ∈ t.resources)
    (hs : r.seenRun = some s.run) : t.owns s.account r.calendar = true := by
  obtain ⟨-, f, -, hn, -⟩ := h.seen r hr hs
  exact owns_iff.2 ⟨_, hn⟩

/-- What is available in the end was spoken for. -/
theorem spoken (h : Along t₀ fetches s t) {r' : ResourceRow}
    (hr : r' ∈ (t.concluded s).resources) (ha : (t.concluded s).available s.account r' = true) :
    Spoken t₀ s.account fetches (t.concluded s) r' := by
  obtain ⟨r, hm, hid, hplace, rfl⟩ := concluded_from hr
  obtain ⟨-, hs, -⟩ := (concluded_available r).1 ha
  exact (h.seen r hm hs).2.mono hid hplace fun url hn => concluded_named.2 hn

/-- What was spoken for and covered is available in the end. -/
theorem available (h : Along t₀ fetches s t) (hc : ∀ f ∈ fetches, Covers t₀ s f.1 t)
    {r' : ResourceRow} (hr : r' ∈ (t.concluded s).resources)
    (hspoken : Spoken t₀ s.account fetches (t.concluded s) r') :
    (t.concluded s).available s.account r' = true := by
  obtain ⟨r, hr, hid, hplace, hr'⟩ := concluded_from hr
  obtain ⟨f, hf, hn, hwhy⟩ := hspoken
  obtain ⟨calendar, hlisted, hstaged, hkept⟩ := hc f hf
  rw [show r'.calendar = r.calendar from congrArg Prod.fst hplace] at hn
  obtain rfl : calendar = r.calendar := hlisted.named.unique (concluded_named.1 hn)
  have hseen : r.seenRun = some s.run := by
    rcases hwhy with ⟨x, hx, hhref⟩ | ⟨hk, r₀, hr₀, hid₀, hv⟩
    · obtain ⟨y, hy, hp, hs⟩ := hstaged x hx
      have hpr : y.place = r.place := by
        rw [hp, hhref]
        exact congrArg (Prod.mk r.calendar) (congrArg Prod.snd hplace)
      exact Table.eq_of_uniq hy hr hpr ▸ hs
    · -- a row keeps its calendar along the run
      have hcal : r₀.calendar = r.calendar := by
        rcases h.kept r₀ hr₀ with hm | ⟨y, hy, hyid, hycal, -⟩
        · rw [Table.eq_of_key hm hr (hid₀.trans hid)]
        · rw [← hycal, Table.eq_of_key hy hr (hyid.trans (hid₀.trans hid))]
      obtain ⟨y, hy, hyid, -, hs⟩ := hkept hk r₀ hr₀ hcal hv
      exact Table.eq_of_key hy hr (hyid.trans (hid₀.trans hid)) ▸ hs
  obtain ⟨c, hcm, hcid, hca, -, hcs⟩ := hlisted
  rw [hr', concluded_available]
  refine ⟨⟨c, hcm, hcid, hca, hcs⟩, hseen, fun _ => ?_⟩
  have hv := (h.seen r hr hseen).1
  rw [ResourceRow.hidden, Bool.or_eq_false_iff] at hv
  exact hv.1

/-- A run with a limited history does not say that something is missing. -/
theorem unmissed (h : Along t₀ fetches s t) (hw : s.scopedRun = true) {r₀ r' : ResourceRow}
    (hr₀ : r₀ ∈ t₀.resources) (hr : r' ∈ (t.concluded s).resources) (hid : r'.id = r₀.id)
    (hm : r₀.remoteMissing = false) : r'.remoteMissing = false := by
  obtain ⟨r, hr, hid', -, hr'⟩ := concluded_from hr
  have hsame : r'.remoteMissing = r.remoteMissing := by
    rw [hr', hw]
    split <;> rfl
  rw [hsame]
  rcases h.kept r₀ hr₀ with hx | ⟨x, hx, hxid, -, hs⟩
  · rwa [Table.eq_of_key hr hx (hid'.symm.trans hid)]
  · obtain rfl := Table.eq_of_key hr hx (hid'.symm.trans (hid.trans hxid.symm))
    have hv := (h.seen r hr hs).1
    rw [ResourceRow.hidden, Bool.or_eq_false_iff] at hv
    exact hv.1

/-- Rows of other accounts stay. -/
theorem elsewhere (h : Along t₀ fetches s t) {r : ResourceRow}
    (ho : (t.concluded s).owns s.account r.calendar = false) :
    r ∈ (t.concluded s).resources ↔ r ∈ t₀.resources := by
  rw [concluded_owns] at ho
  constructor
  · intro hr
    obtain ⟨x, hx, -, hplace, hr'⟩ := concluded_from hr
    rw [← show r.calendar = x.calendar from congrArg Prod.fst hplace, ho] at hr'
    obtain rfl : r = x := by simpa using hr'
    refine h.unseen r hx fun hs => ?_
    rw [h.seen_owned hx hs] at ho
    cases ho
  · intro hr
    rcases h.kept r hr with hx | ⟨x, hx, -, hcal, hs⟩
    · exact mem_concluded.2 ⟨r, hx, by rw [if_neg (by simp [ho])]⟩
    · have howned := h.seen_owned hx hs
      rw [hcal, ho] at howned
      cases howned

theorem other_calendars (h : Along t₀ fetches s t) {c : Calendar} (hne : c.account ≠ s.account) :
    c ∈ (t.concluded s).calendars ↔ c ∈ t₀.calendars := by
  rw [← h.others c hne, concluded_calendars]
  constructor
  · intro ⟨x, hx, hc⟩
    split at hc <;> rename_i hacc
    · rw [hc] at hne
      exact absurd hacc hne
    · exact hc ▸ hx
  · exact fun hc => ⟨c, hc, (if_neg hne).symm⟩

end Along

/-- **What is available after a download**, from every reachable store and whatever the collections,
their tokens and the window are. A download that returns leaves available only what it speaks for,
hides but never drops what a limited history leaves out, and leaves the rows of other accounts
alone, whatever the engine refuses; and when it refuses nothing, all that the download speaks for
is there and available. -/
theorem availability {w : Site} {past : List Site} (h : Reached w past) {reader : Reader}
    {start : Option Bytes} {faults : List (Option String)} {s' : Session Tables}
    (hok : fetchSince reader account start fetches ⟨w.conn, faults⟩ = .ok () s') :
    (∀ r ∈ s'.conn.now.resources, s'.conn.now.available account r = true →
      Spoken w.conn.now account fetches s'.conn.now r) ∧
    (faults = [] →
      (∀ r ∈ s'.conn.now.resources, Spoken w.conn.now account fetches s'.conn.now r →
        s'.conn.now.available account r = true) ∧
      ∀ f ∈ fetches, ∀ x ∈ f.1.staged, ∃ r ∈ s'.conn.now.resources, r.href = x.href ∧
        s'.conn.now.Named r.calendar account f.1.collection.url) ∧
    (start.isSome = true → ∀ r ∈ w.conn.now.resources, ∀ r' ∈ s'.conn.now.resources,
      r'.id = r.id → r.remoteMissing = false → r'.remoteMissing = false) ∧
    (∀ r, s'.conn.now.owns account r.calendar = false →
      (r ∈ s'.conn.now.resources ↔ r ∈ w.conn.now.resources)) ∧
    ∀ c : Calendar, c.account ≠ account →
      (c ∈ s'.conn.now.calendars ↔ c ∈ w.conn.now.calendars) := by
  have hnow := Conn.now_mem_images w.conn
  have hstart : ∀ run t, insertRun account w.conn.now = .ok (run, t) →
      Inside w.conn.now fetches ⟨account, run, start.isSome⟩ t := by
    intro run t hi
    obtain ⟨rfl, hr, hc, hb⟩ := insertRun_same hi
    refine ⟨.start hr hc fun r hm hs => ?_, (h.mirrors _ hnow).elsewhere hb hr,
      fun r hm => h.counted _ hnow r (hr ▸ hm)⟩
    exact absurd ((h.hollows _ hnow).seen r hm _ hs) (Int.lt_irrefl _)
  obtain ⟨run, t, hat, halong⟩ := wp_ok (wp_fetchSince (Q := fun t' => ∃ run t,
    t' = t.concluded ⟨account, run, start.isSome⟩ ∧
      Along w.conn.now fetches ⟨account, run, start.isSome⟩ t) fun run t hi =>
    wp_mono (keeps_fetchesAlong _ (hstart run t hi).toAlong)
      (fun _ c' hq => ⟨run, c'.now, rfl, hq.1⟩) fun _ _ _ => trivial) hok
  have hsmooth (hf : faults = []) : ∃ run t,
      s'.conn.now = t.concluded ⟨account, run, start.isSome⟩ ∧
        Along w.conn.now fetches ⟨account, run, start.isSome⟩ t ∧
        ∀ f ∈ fetches, Covers w.conn.now ⟨account, run, start.isSome⟩ f.1 t := by
    subst hf
    refine smooth_ok (smooth_fetchSince (Q := fun t' => ∃ run t,
      t' = t.concluded ⟨account, run, start.isSome⟩ ∧
        Along w.conn.now fetches ⟨account, run, start.isSome⟩ t ∧
        ∀ f ∈ fetches, Covers w.conn.now ⟨account, run, start.isSome⟩ f.1 t) fun run t hi =>
      smooth_mono (smooth_commitFetches (hstart run t hi))
        (fun _ c' hq => ⟨run, c'.now, rfl, hq.1.toAlong, hq.2⟩) fun _ _ _ => trivial) hok
  refine ⟨fun r hr ha => ?_, fun hf => ?_, fun hw r hr r' hr' => ?_, fun r ho => ?_,
    fun c hne => ?_⟩
  · rw [hat] at hr ha ⊢
    exact halong.spoken hr ha
  · obtain ⟨run', t', hat', halong', hcovers⟩ := hsmooth hf
    rw [hat']
    refine ⟨fun r hr hs => halong'.available hcovers hr hs, fun f hf x hx => ?_⟩
    obtain ⟨calendar, hlisted, hstaged, -⟩ := hcovers f hf
    obtain ⟨r, hr, hp, -⟩ := hstaged x hx
    obtain ⟨hcal, hhref⟩ := Prod.mk.inj hp
    refine ⟨_, mem_concluded.2 ⟨r, hr, rfl⟩, ?_, ?_⟩
    · split
      · exact (congrArg Prod.snd (ResourceRow.settled_place _ _ r)).trans hhref
      · exact hhref
    · refine concluded_named.2 ?_
      split
      · rw [show (r.settled _ _).calendar = r.calendar from
          congrArg Prod.fst (ResourceRow.settled_place _ _ r), hcal]
        exact hlisted.named
      · rw [hcal]
        exact hlisted.named
  · rw [hat] at hr'
    exact fun hid hm => halong.unmissed hw hr hr' hid hm
  · rw [hat] at ho ⊢
    exact halong.elsewhere ho
  · rw [hat]
    exact halong.other_calendars hne

/-! ### The lunch is kept -/

/-- The calendar of the lunch did not change, and the other one is not listed any more. -/
def keptFetches (keep : Bool) : List (Fetch × Bytes) :=
  [(⟨⟨ascii "https://dav/home/", none, none, none⟩, keep, none, []⟩, ascii "home")]

def lunchDownload (keep : Bool) : EStateM.Result RCError (Session Tables) Unit :=
  fetchSince lunchReader 1 none (keptFetches keep) ⟨publishedSite.conn, []⟩

/-- The lunch stays available when its calendar is kept, and not when the inventory is empty. -/
theorem availability_lunch :
    (match lunchDownload true, lunchDownload false with
      | .ok _ s, .ok _ s' => some (s.conn.now.resources.rows.map (s.conn.now.available 1),
          s'.conn.now.resources.rows.map (s'.conn.now.available 1))
      | _, _ => none) = some ([true], [false]) ∧
    ∀ keep s', lunchDownload keep = .ok () s' → ∀ r ∈ s'.conn.now.resources,
      (s'.conn.now.available 1 r = true ↔
        Spoken publishedSite.conn.now 1 (keptFetches keep) s'.conn.now r) := by
  refine ⟨by decide +kernel, fun keep s' hs r hr => ?_⟩
  have hlunch : Reached Site.lunch [Site.init] :=
    .next (.start rfl) (.opened _ lunchReader (ascii "account") [] [] rfl)
  obtain ⟨past, h⟩ : ∃ past, Reached publishedSite past := hlunch.perform _ (by decide +kernel)
  unfold lunchDownload at hs
  obtain ⟨hspoken, hcovered, -⟩ := availability h hs
  exact ⟨hspoken r hr, (hcovered rfl).1 r hr⟩

end CalendarStore
