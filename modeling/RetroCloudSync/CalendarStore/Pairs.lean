import RetroCloudSync.Journal.Pairs
import RetroCloudSync.CalendarStore.Mirrors

/-!
# Entity tag and body of a calendar resource

A resource has the body downloaded last and the one published last, each with its entity tag, and
publication copies the second pair into the write bases. `Together`: each of these pairs was handed
over whole, by one download or as what was read at the target of one move. Every statement keeps it
but one: a verified move writes the new entity tag beside whatever bodies the row has
(`Tables.Carries` says when these are the bytes that were moved).
-/

set_option autoImplicit false

namespace CalendarStore

open Library Library.Tx Journal

/-! ## Where a pair comes from -/

section
variable (log : List (Int × Call))

/-- One download staged the pair for the href, and so handed it to one save. -/
def Downloaded (href : Bytes) (etag : Option Bytes) (body : Bytes) : Prop :=
  ∃ account reader start fetches f e, (account, Call.fetch reader start fetches) ∈ log ∧
    f ∈ fetches ∧ Staged.downloaded href e (.data body) ∈ f.1.staged ∧ etag = some e

/-- The pair was read at the target of one move. -/
def ReadAtTarget (target : Bytes) (etag : Option Bytes) (body : Bytes) : Prop :=
  ∃ account source e, (account, Call.move source target e body) ∈ log ∧ etag = some e

def Delivered (href : Bytes) (etag : Option Bytes) (body : Bytes) : Prop :=
  Downloaded log href etag body ∨ ReadAtTarget log href etag body

/-- A call on the journal, alone or in an exchange. -/
def Asked (q : Journal.Call) : Prop :=
  (∃ account, (account, Call.journal q) ∈ log) ∨
    ∃ account native, (account, Call.exchange native) ∈ log ∧ q ∈ native.calls

/-- One `SetBase` call of the journal handed the pair over. -/
def SetAsBase (etag : Option Bytes) (body : Bytes) : Prop :=
  ∃ key href revision, Asked log (.setBase key href etag (.data body) revision)

/-- The pair was recorded as the remote version that one attempt found. -/
def Recorded (etag : Option Bytes) (body : Bytes) : Prop :=
  ∃ id state, Asked log (.recordResult id state 200 etag (.data body))

/-- What a write base may hold. -/
def Backed (etag : Option Bytes) (body : Bytes) : Prop :=
  (∃ href, Delivered log href etag body) ∨ SetAsBase log etag body

/-- The pairs of the available rows and of the bases were handed over whole, the current one for
the href of the row; what is exported may come from before a rename. -/
structure Matched (t : Tables) : Prop where
  current : ∀ account, ∀ r ∈ t.resources, t.available account r = true →
    Delivered log r.href r.etag r.rawICal
  exported : ∀ account, ∀ r ∈ t.resources, t.available account r = true →
    ∀ body, r.exportICal = some body → ∃ href, Delivered log href r.exportETag body
  bases : ∀ b ∈ t.journal.bases, Backed log b.etag b.body

/-- A row that no account makes available, whatever its calendar. -/
def ResourceRow.hidden (r : ResourceRow) : Bool := r.remoteMissing || r.scopeExcluded

/-- The current pair of a row, in the run that is open. A row without one is hidden, and stays so
at the end of the run. -/
def ResourceRow.Whole (run : Option Int) (r : ResourceRow) : Prop :=
  Delivered log r.href r.etag r.rawICal ∨
    (r.rawICal = [] ∧ r.hidden = true ∧ ∀ n, run = some n → r.seenRun ≠ some n)

/-- The exported pair of a row. -/
def ResourceRow.ExportedWhole (r : ResourceRow) : Prop :=
  ∀ body, r.exportICal = some body → ∃ href, Delivered log href r.exportETag body

/-- The invariant; a run that is open is younger than what the rows have seen. -/
structure Together (run : Option Int) (t : Tables) : Prop where
  current : ∀ r ∈ t.resources, r.Whole log run
  exported : ∀ r ∈ t.resources, r.ExportedWhole log
  journal : Paired (Backed log) (Recorded log) t.journal
  seen : ∀ r ∈ t.resources, ∀ n, r.seenRun = some n → n < t.runs.nextRowid SyncRun.id
  opened : ∀ n, run = some n → n < t.runs.nextRowid SyncRun.id

end

variable {log : List (Int × Call)} {run : Option Int} {t t' : Tables} {s : Store} {account : Int}

/-! ### A longer log -/

theorem Delivered.cons {href : Bytes} {etag : Option Bytes} {body : Bytes} (e : Int × Call)
    (h : Delivered log href etag body) : Delivered (e :: log) href etag body := by
  rcases h with ⟨account, reader, start, fetches, f, tag, hm, hf⟩ | ⟨account, source, tag, hm, he⟩
  · exact .inl ⟨account, reader, start, fetches, f, tag, List.mem_cons_of_mem e hm, hf⟩
  · exact .inr ⟨account, source, tag, List.mem_cons_of_mem e hm, he⟩

theorem Asked.cons {q : Journal.Call} (e : Int × Call) (h : Asked log q) : Asked (e :: log) q := by
  rcases h with ⟨account, hm⟩ | ⟨account, native, hm, hq⟩
  · exact .inl ⟨account, List.mem_cons_of_mem e hm⟩
  · exact .inr ⟨account, native, List.mem_cons_of_mem e hm, hq⟩

/-- A pair that was handed over has an entity tag. -/
theorem Delivered.etag_some {href : Bytes} {etag : Option Bytes} {body : Bytes}
    (h : Delivered log href etag body) : Delivered log href (some (etag.getD [])) body := by
  rcases h with ⟨_, _, _, _, _, _, hm, hf, hs, rfl⟩ | ⟨_, _, _, hm, rfl⟩
  · exact .inl ⟨_, _, _, _, _, _, hm, hf, hs, rfl⟩
  · exact .inr ⟨_, _, _, hm, rfl⟩

theorem ResourceRow.Whole.delivered {r : ResourceRow} (h : r.Whole log run)
    (hr : r.hidden = false) : Delivered log r.href r.etag r.rawICal := by
  rcases h with h | ⟨-, hh, -⟩
  · exact h
  · rw [hr] at hh
    cases hh

/-! ## One statement -/

namespace Together

theorem empty : Together [] none Tables.empty where
  current _ h := absurd h (Table.not_mem_empty _)
  exported _ h := absurd h (Table.not_mem_empty _)
  journal := .empty
  seen _ h := absurd h (Table.not_mem_empty _)
  opened _ h := by cases h

theorem cons (e : Int × Call) (h : Together log run t) : Together (e :: log) run t where
  current r hr := (h.current r hr).imp_left (Delivered.cons e)
  exported r hr body hb := (h.exported r hr body hb).imp fun _ hd => hd.cons e
  journal := by
    refine h.journal.mono ?_ ?_
    · rintro etag body (⟨href, hd⟩ | ⟨key, href, revision, hq⟩)
      · exact .inl ⟨href, hd.cons e⟩
      · exact .inr ⟨key, href, revision, hq.cons e⟩
    · intro etag body ⟨id, state, hq⟩
      exact ⟨id, state, hq.cons e⟩
  seen := h.seen
  opened := h.opened

/-- A statement on other tables. -/
theorem beside (h : Together log run t) (hr : t'.resources = t.resources)
    (hj : t'.journal = t.journal) (hn : t'.runs.nextRowid SyncRun.id = t.runs.nextRowid SyncRun.id) :
    Together log run t' where
  current r hm := h.current r (hr ▸ hm)
  exported r hm := h.exported r (hr ▸ hm)
  journal := hj ▸ h.journal
  seen r hm n hs := by
    have := h.seen r (hr ▸ hm) n hs
    omega
  opened n ho := by
    have := h.opened n ho
    omega

/-- Rows rewritten one by one. -/
theorem rewritten (h : Together log run t) {f : ResourceRow → ResourceRow} {run' : Option Int}
    (hrows : ∀ r', r' ∈ t'.resources ↔ ∃ r ∈ t.resources, r' = f r)
    (hj : t'.journal = t.journal) (hn : t'.runs = t.runs)
    (hcurrent : ∀ r ∈ t.resources, (f r).Whole log run')
    (hexported : ∀ r ∈ t.resources, (f r).ExportedWhole log)
    (hseen : ∀ r ∈ t.resources, ∀ n, (f r).seenRun = some n → n < t.runs.nextRowid SyncRun.id)
    (hopened : ∀ n, run' = some n → n < t.runs.nextRowid SyncRun.id) : Together log run' t' where
  current r' hm := by
    obtain ⟨r, hr, rfl⟩ := (hrows r').1 hm
    exact hcurrent r hr
  exported r' hm := by
    obtain ⟨r, hr, rfl⟩ := (hrows r').1 hm
    exact hexported r hr
  journal := hj ▸ h.journal
  seen r' hm := by
    obtain ⟨r, hr, rfl⟩ := (hrows r').1 hm
    rw [hn]
    exact hseen r hr
  opened := hn ▸ hopened

/-- An `UPDATE` that leaves the exported pair alone. -/
theorem updateResources (h : Together log run t) {p : ResourceRow → Bool}
    {f : ResourceRow → ResourceRow} {hf : ∀ r, (f r).id = r.id} {hf' : ∀ r, (f r).place = r.place}
    (hcurrent : ∀ r ∈ t.resources, p r = true → (f r).Whole log run)
    (hexported : ∀ r ∈ t.resources, p r = true → (f r).ExportedWhole log)
    (hseen : ∀ r ∈ t.resources, p r = true → ∀ n, (f r).seenRun = some n →
      n < t.runs.nextRowid SyncRun.id) : Together log run (t.updateResources p f hf hf') := by
  refine h.rewritten (f := fun r => if p r then f r else r) (fun r' => Tables.mem_updateResources)
    rfl rfl (fun r hr => ?_) (fun r hr => ?_) (fun r hr => ?_) h.opened
  · split
    · exact hcurrent r hr ‹_›
    · exact h.current r hr
  · split
    · exact hexported r hr ‹_›
    · exact h.exported r hr
  · split
    · exact hseen r hr ‹_›
    · exact h.seen r hr

/-- A save puts the two columns together. -/
theorem saved (h : Together log run t) {number calendar : Int} {href raw : Bytes}
    {etag : Option Bytes} {parsed : Parsed} {r : ResourceRow}
    (hs : Saves number calendar href etag raw parsed t t' r) (hd : Delivered log href etag raw)
    (hnumber : number < t.runs.nextRowid SyncRun.id) : Together log run t' := by
  have hruns : t'.runs = t.runs := by rw [hs.frame]
  have hjournal : t'.journal = t.journal := by rw [hs.frame]
  refine ⟨fun x hx => ?_, fun x hx => ?_, hjournal ▸ h.journal, fun x hx n hn => ?_, hruns ▸ h.opened⟩
  · rcases (hs.rows x).1 hx with rfl | ⟨hx, -⟩
    · exact .inl hd
    · exact h.current x hx
  · rcases (hs.rows x).1 hx with rfl | ⟨hx, -⟩
    · rcases hs.based with ⟨hr, -⟩ | ⟨rfl, -⟩
      · exact h.exported r hr
      · intro body hb
        cases hb
    · exact h.exported x hx
  · rw [hruns]
    rcases (hs.rows x).1 hx with rfl | ⟨hx, -⟩
    · cases hn
      exact hnumber
    · exact h.seen x hx n hn

end Together

/-! ## A download -/

theorem keeps_saveTogether {reader : Reader} {calendar : Int} {href : Bytes} {etag : Option Bytes}
    {body : Buf} (hd : ∀ raw, body = .data raw → Delivered log href etag raw)
    (hs : run = some s.run ∨ s.run = 0) :
    keeps (Together log run) (save reader s calendar href etag body) := by
  intro c hc
  refine wp_mono save_saves ?_ fun _ _ hu => hu
  intro _ c' ⟨hu, raw, r, hbody, hsaves⟩
  refine ⟨hc.saved hsaves (hd raw hbody) ?_, hu⟩
  rcases hs with hs | hs
  · exact hc.opened _ hs
  · rw [hs]
    exact Table.nextRowid_pos _ _

/-- Only a row with a body is found current. -/
theorem keeps_seenTogether {calendar : Int} {href etag : Bytes} :
    keeps (Together log (some s.run)) (seen s calendar href etag) := by
  intro c hc
  refine wp_bind (wp_findValue fun count hcount => ?_)
  split
  · rename_i hone
    refine wp_bind (wp_change (wp_pure ⟨?_, rfl⟩) fun _ => rfl)
    have hcount : c.now.resources.count (ResourceRow.current calendar href etag) = 1 := by
      rcases hcount with hcount | hcount
      · omega
      · have := Option.some.inj hcount
        omega
    obtain ⟨x, hx, hp⟩ := Table.count_pos (hcount ▸ Nat.one_pos)
    simp only [ResourceRow.current, Bool.and_eq_true, decide_eq_true_iff] at hp
    refine hc.updateResources (fun r hr hpr => ?_) (fun r hr _ => hc.exported r hr) ?_
    · -- the row found is the one that is marked
      simp only [Bool.and_eq_true, decide_eq_true_iff] at hpr
      obtain rfl : r = x := by
        refine Table.eq_of_uniq hr hx ?_
        rw [ResourceRow.place, ResourceRow.place, hpr.1, hpr.2, hp.1.1.1, hp.1.1.2]
      rcases hc.current r hr with hd | ⟨hraw, -⟩
      · exact .inl hd
      · have hlen := hp.2
        rw [hraw] at hlen
        cases hlen
    · intro r _ _ n hn
      cases hn
      exact hc.opened _ rfl
  · exact wp_pure ⟨hc, rfl⟩

theorem keeps_keepTogether {calendar : Int} :
    keeps (Together log (some s.run)) (keepCalendar s calendar) := by
  refine keeps_change fun t h => h.updateResources (fun r hr hp => ?_)
    (fun r hr _ => h.exported r hr) fun r _ _ n hn => ?_
  · simp only [Bool.and_eq_true, Bool.not_eq_true'] at hp
    refine .inl ((h.current r hr).delivered ?_)
    simp [ResourceRow.hidden, hp.1.2, hp.2]
  · cases hn
    exact h.opened _ rfl

theorem keeps_collectionTogether {c : DAVCollection} {random : Bytes} :
    keeps (Together log run) (collection s c random) := by
  refine keeps_bind (keeps_change fun _ h => h.beside rfl rfl rfl) fun _ => ?_
  refine keeps_bind (keeps_change fun _ h => h.beside rfl rfl rfl) fun _ => ?_
  refine keeps_bind keeps_findValue fun identifier => ?_
  split
  · exact keeps_pure _
  · exact keeps_throw _

/-- The end of a run leaves a row without a body hidden: the run has not seen it. -/
theorem Together.settled (h : Together log (some s.run) t) :
    Together log none (t.updateResources (fun r => t.owns s.account r.calendar)
      (ResourceRow.settled s.scopedRun s.run) (ResourceRow.settled_id _ _)
      (ResourceRow.settled_place _ _)) := by
  refine h.rewritten (f := fun r => if t.owns s.account r.calendar then
      ResourceRow.settled s.scopedRun s.run r else r) (fun r' => Tables.mem_updateResources) rfl rfl
    (fun r hr => ?_) (fun r hr => ?_) (fun r hr => ?_) fun n hn => ?_
  · have hw := h.current r hr
    rcases hw with hd | ⟨hraw, hhidden, hunseen⟩
    · refine .inl ?_
      split
      · cases s.scopedRun <;> exact hd
      · exact hd
    · have hmissed : missed s.run r.seenRun = true := decide_eq_true (hunseen _ rfl)
      refine .inr ⟨?_, ?_, fun n hn => by cases hn⟩
      · split
        · cases s.scopedRun <;> exact hraw
        · exact hraw
      · split
        · cases s.scopedRun <;> simp [ResourceRow.settled, ResourceRow.hidden, hmissed]
        · exact hhidden
  · have he := h.exported r hr
    split
    · cases s.scopedRun <;> exact he
    · exact he
  · have hs := h.seen r hr
    split
    · cases s.scopedRun <;> exact hs
    · exact hs
  · cases hn

theorem wp_concludeTogether {c : Conn Tables} (h : Together log (some s.run) c.now) :
    wp (conclude s) (fun _ c' => Together log none c'.now ∧ c'.undo = c.undo)
      (fun _ c' => c'.undo = c.undo) c := by
  refine wp_bind (wp_change (wp_bind (wp_change (wp_change ⟨?_, rfl⟩ fun _ => rfl) fun _ => rfl))
    fun _ => rfl)
  exact (h.settled.beside rfl rfl rfl).beside rfl rfl rfl

theorem closeRun_together {number : Int} {succeeded : Bool} {m : Option String}
    (h : Together log none t) : Together log none (closeRun number succeeded m t) := by
  have hid : ∀ r : SyncRun, (r.finished succeeded m).id = r.id := fun _ => rfl
  exact h.beside rfl rfl (t.runs.nextRowid_update hid hid hid)

theorem insertRun_together {number : Int} (h : Together log none t)
    (hi : insertRun account t = .ok (number, t')) :
    Together log none t' ∧ Together log (some number) t' := by
  unfold insertRun at hi
  split at hi
  · rename_i runs hr
    cases hi
    have hn : runs.nextRowid SyncRun.id = t.runs.nextRowid SyncRun.id + 1 :=
      Table.nextRowid_insert hr rfl
    have hseen : ∀ r ∈ t.resources, ∀ n, r.seenRun = some n → n < runs.nextRowid SyncRun.id := by
      intro r hm n hs
      have := h.seen r hm n hs
      omega
    refine ⟨⟨h.current, h.exported, h.journal, hseen, fun n hn => by cases hn⟩,
      ⟨fun r hm => ?_, h.exported, h.journal, hseen, fun n ho => ?_⟩⟩
    · refine (h.current r hm).imp_right fun ⟨hraw, hhidden, _⟩ => ⟨hraw, hhidden, fun n ho hs => ?_⟩
      cases ho
      have := h.seen r hm _ hs
      omega
    · cases ho
      show t.runs.nextRowid SyncRun.id < runs.nextRowid SyncRun.id
      omega
  · cases hi

theorem stays_fetchTogether {reader : Reader} {start : Option Bytes}
    {fetches : List (Fetch × Bytes)}
    (hd : ∀ f ∈ fetches, ∀ href etag raw, Staged.downloaded href etag (.data raw) ∈ f.1.staged →
      Delivered log href (some etag) raw) :
    stays (Together log none) (fetchSince reader account start fetches) := by
  refine stays_fetchSince (R := fun s => Together log (some s.run))
    (fun t number t' h hi => insertRun_together h hi) (fun number => ?_)
    (fun number c h => wp_concludeTogether h) fun t number succeeded m h => closeRun_together h
  refine keeps_commitFetches (fun _ _ => keeps_collectionTogether) (fun _ => keeps_keepTogether)
    (fun _ _ _ => keeps_seenTogether) (fun f hf href etag body hm calendar => ?_)
    fun t y h => h.beside rfl rfl rfl
  refine keeps_saveTogether (fun raw hraw => ?_) (.inl rfl)
  subst hraw
  exact hd f hf href etag raw hm

/-! ## An opening -/

theorem stays_openTogether {reader : Reader} {username random : Bytes} :
    stays (Together log none) (openAccount reader username random) := by
  refine stays_openAccount (fun t h => h.beside rfl rfl rfl) fun account last row c hc hn => ?_
  obtain ⟨hm, -, hmissing, hexcluded⟩ := nextCached_some hn
  have hd : Delivered log row.href row.etag row.rawICal :=
    (hc.now.current row hm).delivered (by simp [ResourceRow.hidden, hmissing, hexcluded])
  let R (t : Tables) : Prop := Together log none t ∧
    ∀ n, row.seenRun = some n → n < t.runs.nextRowid SyncRun.id
  refine wp_reparseResource (R := R) hc ⟨hc.now, hc.now.seen row hm⟩ (fun c' hc' => ?_)
    fun t ht => ?_
  · refine wp_mono save_saves ?_ fun _ _ hu => hu
    intro _ c'' ⟨hu, raw, r, hbody, hsaves⟩
    cases hbody
    refine ⟨⟨hc'.1.saved hsaves hd (Table.nextRowid_pos _ _), ?_⟩, hu⟩
    rw [hsaves.frame]
    exact hc'.2
  · refine ht.1.updateResources (fun r hr _ => ?_) (fun r hr _ => ht.1.exported r hr) ?_
    · refine (ht.1.current r hr).imp_right fun ⟨hraw, hhidden, _⟩ => ⟨hraw, hhidden, ?_⟩
      intro n hn
      cases hn
    · exact fun r _ _ => ht.2

/-! ## A publication -/

theorem clearBases_together (t : Tables) (h : Together log run t) :
    Together log run (clearBases account t) where
  current := h.current
  exported := h.exported
  journal := h.journal.beside rfl (fun b hb => h.journal.bases b ((Table.mem_delete b).1 hb).1)
    fun r hr => ⟨r, hr, rfl⟩
  seen := h.seen
  opened := h.opened

/-- The bases of a publication are exported pairs. -/
theorem insertBases_together {generation : Int} (t : Tables) (u : Unit) (t' : Tables)
    (h : Together log run t) (hi : insertBases account generation t = .ok (u, t')) :
    Together log run t' := by
  unfold insertBases at hi
  split at hi
  · rename_i bases hb
    cases hi
    refine ⟨h.current, h.exported, ?_, h.seen, h.opened⟩
    refine h.journal.beside rfl (fun b hm => ?_) fun r hr => ⟨r, hr, rfl⟩
    rcases (Table.mem_insertAll hb b).1 hm with hm | hm
    · exact h.journal.bases b hm
    · obtain ⟨r, hr, hrow⟩ := List.mem_filterMap.1 hm
      split at hrow
      · obtain ⟨body, hbody, rfl⟩ := Option.map_eq_some_iff.1 hrow
        exact .inl (h.exported r hr body hbody)
      · cases hrow
  · cases hi

/-- What the loop over the resources has gathered was handed over whole. -/
def Gathered.Whole (log : List (Int × Call)) (g : Gathered) : Prop :=
  ∀ p ∈ g.resources, ∃ href, Delivered log href (some p.etag) p.body

theorem wp_gatherMapped {native : Native} {r : ResourceRow} {etag : Option Bytes} {body : Bytes}
    {g : Gathered} {c : Conn Tables} (hc : c.All (Together log none)) (hg : g.Whole log)
    (hd : ∃ href, Delivered log href etag body) :
    wp (gatherMapped native r (etag.getD []) body g)
      (fun g' c' => c'.All (Together log none) ∧ g'.Whole log)
      (fun _ c' => c'.All (Together log none)) c := by
  refine wp_bind (wp_gate ?_ fun _ => hc)
  split
  · refine wp_pure ⟨hc, fun p hp => ?_⟩
    rcases List.mem_append.1 hp with hp | hp
    · exact hg p hp
    · obtain rfl := List.mem_singleton.1 hp
      exact hd.imp fun _ hd => hd.etag_some
  · exact wp_throw hc

theorem stays_markTogether {id : Int} {message : String} :
    stays (Together log run) (markUnsupported id message) :=
  stays_change fun _ h => h.updateResources (fun r hr _ => h.current r hr)
    (fun r hr _ => h.exported r hr) fun r hr _ => h.seen r hr

theorem wp_gather {native : Native} {r : ResourceRow} {g : Gathered} {c : Conn Tables}
    (hc : c.All (Together log none)) (hg : g.Whole log) (hr : r.ExportedWhole log)
    (hd : Delivered log r.href r.etag r.rawICal) :
    wp (gather native g r) (fun g' c' => c'.All (Together log none) ∧ g'.Whole log)
      (fun _ c' => c'.All (Together log none)) c := by
  refine wp_bind (wp_gate ?_ fun _ => hc)
  split
  · exact wp_gatherMapped hc hg ⟨r.href, hd⟩
  · refine wp_bind (wp_gate ?_ fun _ => hc)
    refine wp_bind (wp_mono (stays_markTogether c hc) (fun _ c' hc' => ?_) fun _ _ h => h)
    split
    · exact wp_pure ⟨hc', hg⟩
    · split
      · exact wp_throw hc'
      · exact wp_pure ⟨hc', hg⟩
  · unfold gatherExported
    split
    · exact wp_pure ⟨hc, hg⟩
    · rename_i body hb
      split
      · exact wp_gatherMapped (g := { g with currentMapping := false }) hc hg (hr body hb)
      · exact wp_throw hc

theorem wp_gatherAll {native : Native} (rows : List ResourceRow) {g : Gathered} {c : Conn Tables}
    (hc : c.All (Together log none)) (hg : g.Whole log)
    (hrows : ∀ r ∈ rows, r.ExportedWhole log ∧ Delivered log r.href r.etag r.rawICal) :
    wp (rows.foldlM (gather native) g) (fun g' c' => c'.All (Together log none) ∧ g'.Whole log)
      (fun _ c' => c'.All (Together log none)) c := by
  induction rows generalizing g c with
  | nil => exact wp_pure ⟨hc, hg⟩
  | cons r rows ih =>
    obtain ⟨he, hd⟩ := hrows r List.mem_cons_self
    refine wp_bind (wp_mono (wp_gather hc hg he hd) (fun g' c' h => ?_) fun _ _ h => h)
    exact ih h.1 h.2 fun r' hr' => hrows r' (List.mem_cons_of_mem r hr')

/-- The pairs a journal call hands over are in the log with it. -/
theorem delivers_asked {q : Journal.Call} (h : Asked log q) :
    q.Delivers (Backed log) (Recorded log) := by
  cases q with
  | setBase key href etag body revision =>
    intro b hb
    subst hb
    exact .inr ⟨key, href, revision, h⟩
  | recordResult id state status etag body =>
    intro hs b hb
    subst hs hb
    exact ⟨id, state, h⟩
  | _ => trivial

theorem stays_journalTogether {q : Journal.Call} (h : Asked log q) :
    stays (Together log run) (onJournal (q.run account)) := by
  refine stays_within (call_keeps q) fun c hc => ?_
  refine wp_mono (call_paired q (delivers_asked h) hc.now.journal) ?_ ?_
  · intro _ c' hp
    exact ⟨hc.now.current, hc.now.exported, hp, hc.now.seen, hc.now.opened⟩
  · intro _ c' he
    subst he
    exact hc.now

theorem keeps_checkpointTogether {generation : Int} {l : List Published}
    (hl : ∀ p ∈ l, ∃ href, Delivered log href (some p.etag) p.body) :
    keeps (Together log none) (do
      l.forM (checkpointResource s.account)
      snapshotWriteBases s generation
      change twoWayError fun t => t.updateAccounts (fun a => a.id = s.account)
        (Account.published generation) (fun _ => rfl) fun _ => rfl) := by
  refine keeps_bind (keeps_forM l fun p hp => ?_) fun _ =>
    keeps_bind (keeps_snapshotWriteBases clearBases_together insertBases_together) fun _ =>
      keeps_change fun t h => h.beside rfl rfl rfl
  refine keeps_bind keeps_gate fun _ => keeps_change fun t h => ?_
  refine h.updateResources (fun r hr _ => h.current r hr) (fun r _ _ body hb => ?_)
    fun r hr _ => h.seen r hr
  cases hb
  exact hl p hp

theorem stays_exchangeTogether {native : Native} (hq : ∀ q ∈ native.calls, Asked log q) :
    stays (Together log none) (exchangeCalendars account native) := by
  refine stays_bind stays_gate fun _ => stays_bind stays_gate fun _ =>
    stays_bind stays_select fun generation => ?_
  cases generation with
  | none => exact stays_throw _
  | some generation =>
    dsimp only
    split
    · exact stays_throw _
    refine stays_bind stays_gate fun _ => stays_bind stays_gate fun _ => fun c hc => ?_
    refine wp_bind (wp_select ?_ fun _ => hc)
    refine wp_bind (wp_mono (wp_gatherAll _ hc (fun p hp => by cases hp) fun r hr => ?_)
      (fun g c' hg => ?_) fun _ _ h => h)
    · obtain ⟨hm, ha⟩ := List.mem_filter.1 hr
      refine ⟨hc.now.exported r hm, (hc.now.current r hm).delivered ?_⟩
      simp only [Tables.available, Bool.and_eq_true, Bool.not_eq_true'] at ha
      simp [ResourceRow.hidden, ha.1.2, ha.2]
    · refine wp_bind (wp_mono (stays_exchangeCalls native.calls
        (fun q hm => stays_journalTogether (hq q hm)) c' hg.1) (fun _ c₂ hc₂ => ?_) fun _ _ h => h)
      split
      · exact wp_throw hc₂
      · split
        · exact stays_transaction_keeps (keeps_checkpointTogether hg.2) c₂ hc₂
        · exact wp_pure hc₂

/-! ## A prune -/

/-- Only hidden rows are emptied, and they stay hidden. -/
theorem wp_emptyRows {ids : List Int} {c : Conn Tables} (h : Together log none c.now)
    (hids : ∀ r ∈ c.now.resources, r.id ∈ ids → r.scopeExcluded = true) :
    wp (emptyRows account ids) (fun _ c' => Together log none c'.now ∧ c'.undo = c.undo)
      (fun _ c' => c'.undo = c.undo) c := by
  refine wp_bind (wp_change (wp_bind (wp_change (wp_bind (wp_change (wp_note ⟨?_, rfl⟩)
    fun _ => rfl)) fun _ => rfl)) fun _ => rfl)
  have hrows (r' : ResourceRow) := @Tables.mem_updateResources c.now (fun r => r.id ∈ ids)
    ResourceRow.pruned (fun _ => rfl) (fun _ => rfl) r'
  have hbases : Paired (Backed log) (Recorded log) { c.now.journal with
      bases := c.now.journal.bases.delete fun b =>
        b.account = account && (ids.map resourceKey).contains b.resourceKey } :=
    h.journal.beside rfl (fun b hb => h.journal.bases b ((Table.mem_delete b).1 hb).1)
      fun r hr => ⟨r, hr, rfl⟩
  refine ⟨fun r' hm => ?_, fun r' hm => ?_, hbases, fun r' hm => ?_, h.opened⟩ <;>
    obtain ⟨r, hr, rfl⟩ := (hrows r').1 hm <;> split
  · rename_i hi
    have he := hids r hr (of_decide_eq_true hi)
    refine .inr ⟨rfl, ?_, fun n hn => by cases hn⟩
    simp [ResourceRow.hidden, ResourceRow.pruned, he]
  · exact h.current r hr
  · intro body hb
    cases hb
  · exact h.exported r hr
  · exact h.seen r hr
  · exact h.seen r hr

theorem stays_pruneTogether : stays (Together log none) (pruneHistory s) := by
  refine stays_pruneHistory fun c hc => wp_emptyRows hc fun r hr hid => ?_
  obtain ⟨x, hx, he⟩ := List.mem_map.1 hid
  obtain ⟨hm, hp⟩ := List.mem_filter.1 hx
  obtain rfl := Table.eq_of_key hm hr he
  simp only [Tables.prunable, Bool.and_eq_true] at hp
  exact hp.1.1.2

/-! ## A verified move -/

/-- The `UPDATE` of the move changes the row `r`, and no other, and leads into the calendar `c`. -/
structure Tables.Movable (t : Tables) (account : Int) (source target etag : Bytes)
    (r : ResourceRow) (c : Calendar) : Prop where
  strong : etagIsStrong (some etag) = true
  listed : c ∈ t.calendars ∧ c.account = account ∧ c.remoteMissing = false
  into : collectionOf target = some c.url
  row : r ∈ t.resources ∧ r.href = source ∧ t.owns account r.calendar = true
  only : ∀ x ∈ t.resources, x.href = source → t.owns account x.calendar = true → x = r
  free : ∀ x ∈ t.resources, x.place = (c.id, target) → x = r

/-- The row that a move changes has the bytes that were moved, and has published no others. -/
def Tables.Carries (t : Tables) (account : Int) (source target etag body : Bytes) : Prop :=
  ∀ r c, t.Movable account source target etag r c →
    r.rawICal = body ∧ ∀ b, r.exportICal = some b → b = body

/-- What a move that changes one row has done. -/
theorem moveRows_one {source target etag url : Bytes}
    (hs : etagIsStrong (some etag) = true) (hurl : collectionOf target = some url)
    (h : moveRows account source target etag url t = .ok (1, t')) :
    ∃ r c, t.Movable account source target etag r c ∧ t' = { t with resources := t'.resources } ∧
      ∀ r', r' ∈ t'.resources ↔
        ∃ x ∈ t.resources, r' = if x = r then r.moved c.id target etag else x := by
  unfold moveRows at h
  dsimp only at h
  split at h
  · split at h <;> cases h
  · rename_i c hc
    obtain ⟨hcm, hcp⟩ := Table.find?_some hc
    simp only [Bool.and_eq_true, decide_eq_true_iff, Bool.not_eq_true'] at hcp
    split at h
    · rename_i resources hr
      simp only [Except.ok.injEq, Prod.mk.injEq] at h
      obtain ⟨hcount, rfl⟩ := h
      obtain ⟨r, hrm, hrp⟩ := Table.count_pos (hcount ▸ Nat.one_pos)
      have honly : ∀ x ∈ t.resources, (x.href = source && t.owns account x.calendar) = true →
          x = r := fun x hx hxp => Table.eq_of_count hcount hx hrm hxp hrp
      have hp := hrp
      simp only [Bool.and_eq_true, decide_eq_true_iff] at hp
      refine ⟨r, c, ⟨hs, ⟨hcm, hcp.1.1, hcp.2⟩, by rw [hurl, hcp.1.2], ⟨hrm, hp⟩, ?_, ?_⟩, rfl, ?_⟩
      · intro x hx hsource hown
        exact honly x hx (by simp [hsource, hown])
      · intro x hx hplace
        by_contra hne
        have hpx : (x.href = source && t.owns account x.calendar) = false := by
          by_contra hpx
          exact hne (honly x hx (by simpa using hpx))
        exact Table.reassign_free hr hrm hrp hx hpx hplace
      · intro r'
        rw [Table.mem_reassign hr]
        refine exists_congr fun x => and_congr_right fun hx => ?_
        by_cases hxr : x = r
        · rw [if_pos hxr, hxr, if_pos hrp]
        · rw [if_neg hxr, if_neg fun hxp => hxr (honly x hx hxp)]
    · cases h

theorem Together.moved {source target etag body : Bytes} {r : ResourceRow} {c : Calendar}
    (h : Together log none t) (hm : t.Movable account source target etag r c)
    (hcarries : r.rawICal = body ∧ ∀ b, r.exportICal = some b → b = body)
    (hlog : (account, Call.move source target etag body) ∈ log)
    (hframe : t' = { t with resources := t'.resources })
    (hrows : ∀ r', r' ∈ t'.resources ↔
      ∃ x ∈ t.resources, r' = if x = r then r.moved c.id target etag else x) :
    Together log none t' := by
  have hd : Delivered log target (some etag) body := .inr ⟨account, source, etag, hlog, rfl⟩
  refine h.rewritten hrows (by rw [hframe]) (by rw [hframe]) (fun x hx => ?_) (fun x hx => ?_)
    (fun x hx => ?_) fun n hn => by cases hn
  · split
    · exact .inl (hcarries.1 ▸ hd)
    · exact h.current x hx
  · split
    · intro b hb
      exact ⟨target, hcarries.2 b hb ▸ hd⟩
    · exact h.exported x hx
  · split
    · exact h.seen r hm.row.1
    · exact h.seen x hx

/-- **What a verified move that returns has done.** -/
theorem move_spec {P : Tables → Prop} {source target etag : Bytes} {c : Conn Tables}
    (hc : c.All P) : wp (commitVerifiedMove account source target etag)
      (fun _ c' => (∃ r cal, c.now.Movable account source target etag r cal ∧
        c'.now = { c.now with resources := c'.now.resources } ∧
        ∀ r', r' ∈ c'.now.resources ↔
          ∃ x ∈ c.now.resources, r' = if x = r then r.moved cal.id target etag else x) ∧
        c'.undo = [])
      (fun _ c' => c'.All P) c := by
  refine wp_bind (wp_autocommit ?_)
  split
  · exact wp_throw hc
  · rename_i url hurl
    split
    · exact wp_throw hc
    · rename_i hstrong
      simp only [not_or, Bool.not_eq_false] at hstrong
      refine wp_transaction (Q := fun t' => ∃ r cal,
        c.now.Movable account source target etag r cal ∧
        t' = { c.now with resources := t'.resources } ∧
          ∀ r', r' ∈ t'.resources ↔
            ∃ x ∈ c.now.resources, r' = if x = r then r.moved cal.id target etag else x)
        hc (wp_bind (wp_gate ?_ fun _ => rfl))
      refine wp_bind (wp_stmt (fun changes t ht => ?_) fun _ => rfl)
      split
      · exact wp_throw rfl
      · rename_i hone
        obtain rfl : changes = 1 := by omega
        refine wp_bind (wp_gate (wp_gate ⟨?_, rfl⟩ fun _ => rfl) fun _ => rfl)
        exact moveRows_one hstrong.1 hurl ht

theorem wp_moveTogether {source target etag body : Bytes} {c : Conn Tables}
    (hc : c.All (Together log none)) (hcarries : c.now.Carries account source target etag body)
    (hlog : (account, Call.move source target etag body) ∈ log) :
    wp (commitVerifiedMove account source target etag) (fun _ c' => c'.All (Together log none))
      (fun _ c' => c'.All (Together log none)) c := by
  refine wp_mono (move_spec hc) (fun _ c' h => ?_) fun _ _ h => h
  obtain ⟨⟨r, cal, hm, hframe, hrows⟩, hu⟩ := h
  exact Conn.all_single (hc.now.moved hm (hcarries r cal hm) hlog hframe hrows) hu

/-! ## Every pass -/

/-- **Every pass keeps the pairs together**, once it is in the log, a move when it carries its bytes
along. -/
theorem call_together {q : Call} {c : Conn Tables} (hc : c.All (Together log none))
    (hmove : ∀ source target etag body, q = .move source target etag body →
      c.now.Carries account source target etag body) :
    wp (q.run account) (fun _ c' => c'.All (Together ((account, q) :: log) none))
      (fun _ c' => c'.All (Together ((account, q) :: log) none)) c := by
  have hc : c.All (Together ((account, q) :: log) none) := hc.mono fun t h => h.cons _
  cases q with
  | fetch reader start fetches =>
    refine stays_fetchTogether (fun f hf href etag raw hs => .inl ?_) c hc
    exact ⟨account, reader, start, fetches, f, etag, List.mem_cons_self, hf, hs, rfl⟩
  | exchange native =>
    exact stays_exchangeTogether (fun q hq => .inr ⟨account, native, List.mem_cons_self, hq⟩) c hc
  | snapshot generation =>
    exact stays_snapshotWriteBases clearBases_together insertBases_together c hc
  | prune => exact stays_pruneTogether c hc
  | move source target etag body =>
    exact wp_moveTogether hc (hmove source target etag body rfl) List.mem_cons_self
  | create target marker title notes =>
    refine stays_transaction_keeps (keeps_bind (keeps_change fun t h => ?_) fun _ =>
      keeps_bind keeps_gate fun _ => keeps_gate) c hc
    exact h.beside rfl rfl rfl
  | journal q =>
    refine stays_bind (stays_journalTogether ?_) (fun _ => stays_pure _) c hc
    exact .inl ⟨account, List.mem_cons_self⟩
  | loadSync url =>
    refine stays_bind (stays_onSyncState Dav.SyncState.keeps_load fun t y h => ?_)
      (fun _ => stays_pure _) c hc
    exact h.beside rfl rfl rfl

/-- A move that returns carries its bytes along. -/
def Fits (w w' : Site) : Prop :=
  ∀ account source target etag body faults s,
    w' = w.call account (.move source target etag body) faults →
      commitVerifiedMove account source target etag ⟨w.conn, faults⟩ = .ok () s →
        w.conn.now.Carries account source target etag body

/-- A run all of whose moves that return carry their bytes along. -/
def ReachedFit (w : Site) (past : List Site) : Prop :=
  Run (· = Site.init) (fun w w' => Step w w' ∧ Fits w w') (w :: past)

/-- A step that is no move, or one that carries its bytes along. -/
theorem fits_call {w : Site} {q : Call} {faults : List (Option String)}
    (h : ∀ source target etag body, q = .move source target etag body →
      w.conn.now.Carries account source target etag body) : Fits w (w.call account q faults) := by
  intro account' source target etag body faults' s hw _
  have hl := congrArg Site.log hw
  rw [call_log, call_log] at hl
  simp only [List.cons.injEq, Prod.mk.injEq, and_true] at hl
  exact hl.1 ▸ h source target etag body hl.2

/-- A pass that fits keeps the pairs together. -/
theorem Together.call {w : Site} {q : Call} {faults : List (Option String)}
    (hw : w.conn.All (Together w.log none)) (hfit : Fits w (w.call account q faults)) :
    (w.call account q faults).conn.All (Together ((account, q) :: w.log) none) := by
  by_cases hq : ∃ source target etag body, q = .move source target etag body
  · obtain ⟨source, target, etag, body, rfl⟩ := hq
    have hc : w.conn.All (Together ((account, .move source target etag body) :: w.log) none) :=
      hw.mono fun t h => h.cons _
    have hfits := hfit account source target etag body faults
    unfold Site.call at hfits ⊢
    cases hx : Call.run account (.move source target etag body) ⟨w.conn, faults⟩ with
    | ok u s =>
      have hcarries := hfits s rfl hx
      exact wp_ok (wp_moveTogether hc hcarries List.mem_cons_self) hx
    | error e s => exact wp_error (move_spec hc) hx
  · refine call_spec (P := fun c => c.All (Together ((account, q) :: w.log) none)) ?_ faults
    exact call_together hw fun source target etag body he => absurd ⟨_, _, _, _, he⟩ hq

theorem ReachedFit.together {w : Site} {past : List Site} (h : ReachedFit w past) :
    w.conn.All (Together w.log none) := by
  refine Run.invariant (P := fun w => w.conn.All (Together w.log none)) ?_
    (fun w w' hw hs => ?_) h
  · intro w hw
    subst hw
    exact Conn.all_single Together.empty rfl
  · obtain ⟨hstep, hfit⟩ := hs
    by_cases hl : w'.log = w.log
    · refine hstep.images hw (fun hl t ht => hl ▸ ht) (fun _ _ _ => stays_openTogether)
        fun account q hq => ?_
      rw [hl] at hq
      exact absurd hq.symm (List.cons_ne_self _ _)
    · obtain ⟨account, q, faults, rfl⟩ := hstep.of_log hl
      rw [call_log]
      exact Together.call hw hfit

theorem Together.matched (h : Together log none t) : Matched log t where
  current account r hr ha := by
    refine (h.current r hr).delivered ?_
    simp only [Tables.available, Bool.and_eq_true, Bool.not_eq_true'] at ha
    simp [ResourceRow.hidden, ha.1.2, ha.2]
  exported account r hr _ := h.exported r hr
  bases := h.journal.bases

/-! ## The main theorem -/

def lunchHref : Bytes := ascii "https://dav/home/lunch.ics"

/-- Two collections; the first has one resource. -/
def lunchFetch (etag : String) (body : Bytes) : Call :=
  .fetch lunchReader none
    [(⟨⟨ascii "https://dav/home/", none, none, none⟩, false, none,
      [.downloaded lunchHref (ascii etag) (.data body)]⟩, ascii "home"),
     (⟨⟨ascii "https://dav/work/", none, none, none⟩, false, none, []⟩, ascii "work")]

/-- Every body is mapped, and all are published or not. -/
def lunchNative (all : Bool) : Native := ⟨false, fun _ _ => .mapped, fun _ _ => true, [], .ok all⟩

/-- The passes of account 1, without a refusal. -/
def Site.perform (w : Site) (l : List Call) : Site := l.foldl (fun w q => w.call 1 q []) w

def Site.lunch : Site := Site.init.open' lunchReader (ascii "account") [] []

theorem call_account (w : Site) (account : Int) (q : Call) (faults : List (Option String)) :
    (w.call account q faults).account = w.account := by
  unfold Site.call
  cases q.run account ⟨w.conn, faults⟩ <;> rfl

theorem perform_account (l : List Call) (w : Site) : (w.perform l).account = w.account := by
  induction l generalizing w with
  | nil => rfl
  | cons q l ih => exact (ih _).trans (call_account w 1 q [])

theorem Reached.perform {w : Site} {past : List Site} (h : Reached w past) (l : List Call)
    (hw : w.account = some 1) : ∃ past', Reached (w.perform l) past' := by
  induction l generalizing w past with
  | nil => exact ⟨past, h⟩
  | cons q l ih =>
    exact ih (h.next (.call w 1 q [] hw)) ((call_account w 1 q []).trans hw)

/-- Passes that move nothing always fit. -/
theorem ReachedFit.perform {w : Site} {past : List Site} (h : ReachedFit w past) (l : List Call)
    (hw : w.account = some 1) (hl : ∀ q ∈ l, ∀ source target etag body,
      q ≠ .move source target etag body) : ∃ past', ReachedFit (w.perform l) past' := by
  induction l generalizing w past with
  | nil => exact ⟨past, h⟩
  | cons q l ih =>
    have hfit : Fits w (w.call 1 q []) := fits_call fun source target etag body hq =>
      absurd hq (hl q List.mem_cons_self source target etag body)
    exact ih (h.next ⟨.call w 1 q [] hw, hfit⟩) ((call_account w 1 q []).trans hw)
      fun q' hq' => hl q' (List.mem_cons_of_mem q hq')

/-- The lunch, published. -/
def publishedSite : Site :=
  Site.lunch.perform [lunchFetch "\"v0\"" lunchBody, .exchange (lunchNative true)]

end CalendarStore
