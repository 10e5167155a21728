import RetroCloudSync.Library.Run
import RetroCloudSync.CalendarStore.Passes

/-!
# Reachable calendar stores

`Site`: a database, the account that is open on it, and what was done so far. A step opens or closes
the store, makes any pass with any arguments while the engine refuses whatever it likes, or is a
statement on the enclosing transaction. A crash in a pass is a refusal of all that is left of it, and
a `close`.

Each opening and each download has a parser of its own: what libical accepts may change between two
of them.
-/

set_option autoImplicit false

namespace CalendarStore

open Library Library.Tx Journal

/-! ## Passes as data -/

inductive Call
  | fetch (reader : Reader) (start : Option Bytes) (fetches : List (Fetch × Bytes))
  | exchange (native : Native)
  | snapshot (generation : Int)
  | prune
  | move (source target etag body : Bytes)
  | create (target marker : Bytes) (title notes : Option Bytes)
  | journal (q : Journal.Call)
  | loadSync (url : Bytes)

def Call.run {ρ : Type} [Engine ρ] (account : Int) : Call → StoreOf ρ Unit
  | fetch reader start fetches => fetchSince reader account start fetches
  | exchange native => exchangeCalendars account native
  | snapshot generation => snapshotWriteBases ⟨account, 0, false⟩ generation
  | prune => pruneHistory ⟨account, 0, false⟩
  | move source target etag _ => commitVerifiedMove account source target etag
  | create target marker title notes => commitCreatedCalendar account target marker title notes
  | journal q => do let _ ← onJournal (q.run account)
  | loadSync url => do let _ ← onSyncState (Dav.SyncState.load account url)

/-! ## Steps -/

/-- A database, the account open on it, and the passes made so far with their accounts, newest
first. -/
structure Site where
  conn : Conn Tables
  account : Option Int
  log : List (Int × Call)

namespace Site

def init : Site := ⟨⟨Tables.empty, []⟩, none, []⟩

section
variable {ρ : Type} [Engine ρ]

/-- `RCCalendarStoreOpen`. -/
def open' (w : Site) (reader : Reader) (username random : Bytes) (faults : List (Option ρ)) :
    Site :=
  match openAccount reader username random ⟨w.conn, faults⟩ with
  | .ok account s => { w with conn := s.conn, account := some account }
  | .error _ s => { w with conn := s.conn }

/-- `RCCalendarStoreClose`, or the end of the process. -/
def close (w : Site) : Site := { w with conn := w.conn.rollback, account := none }

/-- The pass `q` for `account`. -/
def call (w : Site) (account : Int) (q : Call) (faults : List (Option ρ)) : Site :=
  match q.run account ⟨w.conn, faults⟩ with
  | .ok _ t => { w with conn := t.conn, log := (account, q) :: w.log }
  | .error _ t => { w with conn := t.conn, log := (account, q) :: w.log }

end

/-- A statement on the enclosing transaction. -/
def control (w : Site) (f : Conn Tables → Conn Tables) : Site := { w with conn := f w.conn }

end Site

/-- A step under the refusals `ρ` of an engine. -/
inductive StepOf (ρ : Type) [Engine ρ] : Site → Site → Prop
  | opened (w : Site) (reader : Reader) (username random : Bytes) (faults : List (Option ρ))
      (closed : w.account = none) : StepOf ρ w (w.open' reader username random faults)
  | closed (w : Site) : StepOf ρ w w.close
  | call (w : Site) (account : Int) (q : Call) (faults : List (Option ρ))
      (here : w.account = some account) : StepOf ρ w (w.call account q faults)
  | push (w : Site) : StepOf ρ w (w.control Conn.push)
  | release (w : Site) : StepOf ρ w (w.control Conn.release)
  | restore (w : Site) : StepOf ρ w (w.control Conn.restore)
  | commit (w : Site) : StepOf ρ w (w.control Conn.commit)
  | rollback (w : Site) : StepOf ρ w (w.control Conn.rollback)

abbrev Step := StepOf String

/-- A run from the empty database that is at `w` and has been through `past`. -/
def ReachedOf (ρ : Type) [Engine ρ] (w : Site) (past : List Site) : Prop :=
  Run (· = Site.init) (StepOf ρ) (w :: past)

def Reached (w : Site) (past : List Site) : Prop := Run (· = Site.init) Step (w :: past)

/-! ## Induction -/

section
variable {w w' : Site} {past : List Site}

theorem call_spec {account : Int} {q : Call} {P : Conn Tables → Prop}
    (h : wp (q.run account) (fun _ => P) (fun _ => P) w.conn) (faults : List (Option String)) :
    P (w.call account q faults).conn := by
  have hf := h faults
  unfold Site.call
  cases hx : q.run account ⟨w.conn, faults⟩ <;> rw [hx] at hf <;> exact hf

theorem call_log (account : Int) (q : Call) (faults : List (Option String)) :
    (w.call account q faults).log = (account, q) :: w.log := by
  unfold Site.call
  cases q.run account ⟨w.conn, faults⟩ <;> rfl

theorem open_spec {reader : Reader} {username random : Bytes} {P : Tables → Prop}
    (h : stays P (openAccount reader username random)) (hw : w.conn.All P)
    (faults : List (Option String)) :
    (w.open' reader username random faults).conn.All P ∧
      (w.open' reader username random faults).log = w.log := by
  have hf := h w.conn hw faults
  unfold Site.open'
  cases hx : openAccount reader username random ⟨w.conn, faults⟩ <;> rw [hx] at hf <;>
    exact ⟨hf, rfl⟩

/-- One step keeps what opening and the pass of that step keep. -/
theorem Step.images {P P' : Tables → Prop} (hs : Step w w') (hw : w.conn.All P)
    (hsame : w'.log = w.log → ∀ t, P t → P' t)
    (hopen : ∀ reader username random, stays P (openAccount reader username random))
    (hcall : ∀ account q, w'.log = (account, q) :: w.log →
      wp (q.run account) (fun _ c' => c'.All P') (fun _ c' => c'.All P') w.conn) :
    w'.conn.All P' := by
  cases hs with
  | opened reader username random faults closed =>
    obtain ⟨hc, hl⟩ := open_spec (hopen reader username random) hw faults
    exact hc.mono (hsame hl)
  | closed => exact fun t ht => hsame rfl t (hw t (Conn.images_rollback ht))
  | call account q faults here =>
    exact call_spec (P := fun c => c.All P') (hcall account q (call_log ..)) faults
  | push => exact fun t ht => hsame rfl t (hw t (Conn.images_push ht))
  | release => exact fun t ht => hsame rfl t (hw t (Conn.images_release ht))
  | restore => exact fun t ht => hsame rfl t (hw t (Conn.images_restore ht))
  | commit => exact fun t ht => hsame rfl t (hw t (Conn.images_commit ht))
  | rollback => exact fun t ht => hsame rfl t (hw t (Conn.images_rollback ht))

/-- Only a pass adds to the log. -/
theorem Step.of_log (hs : Step w w') (hl : w'.log ≠ w.log) :
    ∃ account q faults, w' = w.call account q faults := by
  cases hs with
  | call account q faults => exact ⟨account, q, faults, rfl⟩
  | opened reader username random faults =>
    refine absurd ?_ hl
    unfold Site.open'
    cases openAccount reader username random ⟨w.conn, faults⟩ <;> rfl
  | _ => exact absurd rfl hl

/-- **Induction over reachable stores**, image by image: a property of the tables that opening and
every pass keep. -/
theorem Reached.images {P : Tables → Prop} (h0 : P Tables.empty)
    (hopen : ∀ reader username random, stays P (openAccount reader username random))
    (hcall : ∀ account q, stays P (Call.run account q)) (h : Reached w past) : w.conn.All P := by
  refine Run.invariant (P := fun w => w.conn.All P) ?_ (fun w w' hw hs => ?_) h
  · rintro _ rfl t ht
    rw [show t = Tables.empty by simpa [Conn.images, Site.init] using ht]
    exact h0
  · exact hs.images hw (fun _ _ h => h) hopen fun account q _ => hcall account q w.conn hw

end

/-! ## Single statements -/

section
variable {c : Conn Tables} {P : Tables → Prop}

theorem wp_change {fail : String → RCError} {f : Tables → Tables} {Q : Unit → Conn Tables → Prop}
    {E : RCError → Conn Tables → Prop} (h : Q () { c with now := f c.now })
    (hE : ∀ m, E (fail m) c) : wp (change fail f) Q E c := by
  refine wp_stmt (fun a t ht => ?_) hE
  cases ht
  exact h

theorem wp_note {l : List Entry} {Q : Unit → Conn Tables → Prop} {E : RCError → Conn Tables → Prop}
    (h : Q () { c with now := { c.now with history := l ++ c.now.history } }) :
    wp (note l) Q E c := fun _ => h

theorem wp_findValue {f : Tables → Option Int} {Q : Int → Conn Tables → Prop}
    {E : RCError → Conn Tables → Prop} (h : ∀ v, v = -1 ∨ f c.now = some v → Q v c) :
    wp (findValue f) Q E c := by
  refine wp_bind (wp_find fun found hfound => wp_pure (h _ ?_))
  cases found with
  | none => exact .inl rfl
  | some v => exact .inr (hfound.resolve_left nofun).symm

theorem keeps_findValue {f : Tables → Option Int} : keeps P (findValue f) :=
  fun _ h => wp_findValue fun _ _ => ⟨h, rfl⟩

theorem stays_findValue {f : Tables → Option Int} : stays P (findValue f) :=
  fun _ h => wp_findValue fun _ _ => h

theorem keeps_change {fail : String → RCError} {f : Tables → Tables} (hf : ∀ t, P t → P (f t)) :
    keeps P (change fail f) :=
  fun _ h => wp_change ⟨hf _ h, rfl⟩ fun _ => rfl

theorem stays_change {fail : String → RCError} {f : Tables → Tables} (hf : ∀ t, P t → P (f t)) :
    stays P (change fail f) :=
  fun _ h => wp_change (h.set (hf _ h.now)) fun _ => h

theorem keeps_onSyncState {α : Type} {x : Dav.SyncM α} (hk : keeps (fun _ => True) x)
    (hP : ∀ t y, P t → P { t with sync := y }) : keeps P (onSyncState x) := by
  refine fun c hc => wp_within hk fun fs => ?_
  cases x ⟨⟨c.now.sync, c.undo.map Tables.sync⟩, fs⟩ with
  | ok a t => exact ⟨hP _ _ hc, rfl⟩
  | error e t => exact rfl

theorem stays_onSyncState {α : Type} {x : Dav.SyncM α} (hk : keeps (fun _ => True) x)
    (hP : ∀ t y, P t → P { t with sync := y }) : stays P (onSyncState x) := by
  refine stays_within hk fun c hc fs => ?_
  cases x ⟨⟨c.now.sync, c.undo.map Tables.sync⟩, fs⟩ with
  | ok a t => exact hP _ _ hc.now
  | error e t => exact hP _ _ hc.now

end

/-! ## The body of a download -/

section
variable {P : Tables → Prop} {reader : Reader} {s : Store}

theorem keeps_applyStaged {calendar : Int} (l : List Staged)
    (hseen : ∀ href etag, keeps P (seen s calendar href etag))
    (hsave : ∀ href etag body, Staged.downloaded href etag body ∈ l →
      keeps P (save reader s calendar href (some etag) body)) :
    keeps P (applyStaged reader s calendar l) := by
  induction l with
  | nil => exact keeps_gate
  | cons x l ih =>
    refine keeps_bind keeps_gate fun _ => keeps_bind keeps_gate fun _ => ?_
    refine keeps_bind ?_ fun _ => ih fun href etag body hm =>
      hsave href etag body (List.mem_cons_of_mem x hm)
    cases x with
    | seen href etag =>
      refine keeps_bind (hseen href etag) fun current => ?_
      cases current
      · exact keeps_throw _
      · exact keeps_pure _
    | downloaded href etag body => exact hsave href etag body List.mem_cons_self

/-- What the commit of the collections keeps, from what its statements keep; `N` is what is known of
the calendar while its collection is committed. -/
theorem keeps_eachFetch {start : Option Bytes} {fetches : List (Fetch × Bytes)}
    {N : Fetch → Int → Tables → Prop}
    (hcollection : ∀ f ∈ fetches,
      turns P (collection s f.1.collection f.2) fun calendar t => P t ∧ N f.1 calendar t)
    (hkeep : ∀ f calendar, keeps (fun t => P t ∧ N f calendar t) (keepCalendar s calendar))
    (hseen : ∀ f calendar href etag,
      keeps (fun t => P t ∧ N f calendar t) (seen s calendar href etag))
    (hsave : ∀ f ∈ fetches, ∀ href etag body, Staged.downloaded href etag body ∈ f.1.staged →
      ∀ calendar, keeps (fun t => P t ∧ N f.1 calendar t)
        (save reader s calendar href (some etag) body))
    (hsync : ∀ t y, P t → P { t with sync := y }) :
    keeps P (fetches.forM fun f => commitFetch reader s start f.2 f.1) := by
  refine keeps_forM fetches fun f hf => ?_
  refine keeps_bind keeps_gate fun _ => turns_bind (hcollection f hf) fun calendar => ?_
  have hstaged := keeps_applyStaged f.1.staged (hseen f.1 calendar) fun href etag body hm =>
    hsave f hf href etag body hm calendar
  have hrest : turns (fun t => P t ∧ N f.1 calendar t) (do
      gate stageFailed
      applyStaged reader s calendar f.1.staged
      onSyncState (Dav.SyncState.save s.account f.1.collection.url f.1.token start s.run))
      fun _ => P :=
    turns_bind keeps_gate.turns fun _ => turns_bind hstaged.turns fun _ =>
      turns_mono (keeps_onSyncState Dav.SyncState.keeps_save hsync).turns (fun _ h => h.1)
        fun _ _ h => h
  split
  · exact turns_bind (hkeep f.1 calendar).turns fun _ => hrest
  · exact hrest

theorem keeps_allFetches {start : Option Bytes} {fetches : List (Fetch × Bytes)}
    (h : keeps P (fetches.forM fun f => commitFetch reader s start f.2 f.1))
    (hsync : ∀ t y, P t → P { t with sync := y }) :
    keeps P (commitFetches reader s start fetches) :=
  keeps_bind h fun _ => keeps_bind (keeps_onSyncState Dav.SyncState.keeps_finish hsync)
    fun _ => keeps_gate

/-- What a download keeps, whatever its calendars are. -/
theorem keeps_commitFetches {start : Option Bytes} {fetches : List (Fetch × Bytes)}
    (hcollection : ∀ c random, keeps P (collection s c random))
    (hkeep : ∀ calendar, keeps P (keepCalendar s calendar))
    (hseen : ∀ calendar href etag, keeps P (seen s calendar href etag))
    (hsave : ∀ f ∈ fetches, ∀ href etag body, Staged.downloaded href etag body ∈ f.1.staged →
      ∀ calendar, keeps P (save reader s calendar href (some etag) body))
    (hsync : ∀ t y, P t → P { t with sync := y }) :
    keeps P (commitFetches reader s start fetches) := by
  have hand : ∀ {x : StoreM Unit}, keeps P x → keeps (fun t => P t ∧ True) x :=
    fun h => keeps_of_turns (turns_mono h.turns (fun _ h => h.1) fun _ _ h => ⟨h, trivial⟩)
  refine keeps_allFetches (keeps_eachFetch (N := fun _ _ _ => True) (fun f _ => ?_)
    (fun _ calendar => hand (hkeep calendar)) (fun _ calendar href etag => ?_)
    (fun f hf href etag body hm calendar => hand (hsave f hf href etag body hm calendar)) hsync)
    hsync
  · exact turns_mono (hcollection _ _).turns (fun _ h => h) fun _ _ h => ⟨h, trivial⟩
  · exact keeps_of_turns (turns_mono (hseen calendar href etag).turns (fun _ h => h.1)
      fun _ _ h => ⟨h, trivial⟩)

end

/-! ## The transaction of a download -/

section
variable {P : Tables → Prop} {s : Store}

/-- The row of a run is closed, whatever is reported after it. -/
theorem wp_closing {ok : Bool} {message : Option String} {report : StoreM Unit} {c : Conn Tables}
    (hclose : ∀ t run succeeded m, P t → P (closeRun run succeeded m t))
    (hreport : report = pure () ∨ ∃ e, report = throw e) (hc : c.All P) :
    wp (do change sqlError (closeRun s.run ok message); report) (fun _ c' => c'.All P)
      (fun _ c' => c'.All P) c := by
  refine wp_bind (wp_change ?_ fun _ => hc)
  have hset := hc.set (hclose c.now s.run ok message hc.now)
  obtain rfl | ⟨e, rfl⟩ := hreport
  · exact wp_pure hset
  · exact wp_throw hset

/-- A run that is finished has its contents, or those from before it. -/
theorem wp_finishRun {success : Bool} {message : Option String} {c₀ c : Conn Tables}
    (h₀ : c₀.All P) (hu : c.undo = c₀.now :: c₀.undo)
    (hconclude : success = true → wp (conclude s) (fun _ c' => P c'.now ∧ c'.undo = c.undo)
      (fun _ c' => c'.undo = c.undo) c)
    (hclose : ∀ t run succeeded m, P t → P (closeRun run succeeded m t)) :
    wp (finishRun s success message) (fun _ c' => c'.All P) (fun _ c' => c'.All P) c := by
  refine wp_bind (wp_attempt (wp_orRollback ?_))
  split
  · rename_i hs
    refine wp_bind (wp_mono (hconclude hs) (fun _ c' hc' => ?_) fun e c' hu' => ?_)
    · refine wp_commit (wp_closing hclose (.inl rfl) fun t ht => ?_) fun m => ?_
      · rcases Conn.mem_images.1 ht with rfl | ht
        · exact hc'.1
        · cases ht
      · exact wp_closing hclose (.inr ⟨_, rfl⟩) (all_rollback h₀ (hc'.2.trans hu))
    · exact wp_closing hclose (.inr ⟨_, rfl⟩) (all_rollback h₀ (hu'.trans hu))
  · exact wp_throw (wp_closing hclose (.inr ⟨_, rfl⟩) (all_rollback h₀ hu))

/-- **The images along a download**, from what holds inside its run: `R`, which the run begins
with, which its body keeps, and which gives `P` back at its end. -/
theorem stays_fetchSince {R : Store → Tables → Prop} {reader : Reader} {account : Int}
    {start : Option Bytes} {fetches : List (Fetch × Bytes)}
    (hrun : ∀ t run t', P t → insertRun account t = .ok (run, t') →
      P t' ∧ R ⟨account, run, start.isSome⟩ t')
    (hbody : ∀ run, keeps (R ⟨account, run, start.isSome⟩)
      (commitFetches reader ⟨account, run, start.isSome⟩ start fetches))
    (hconclude : ∀ run, ∀ c : Conn Tables, R ⟨account, run, start.isSome⟩ c.now →
      wp (conclude ⟨account, run, start.isSome⟩) (fun _ c' => P c'.now ∧ c'.undo = c.undo)
        (fun _ c' => c'.undo = c.undo) c)
    (hclose : ∀ t run succeeded m, P t → P (closeRun run succeeded m t)) :
    stays P (fetchSince reader account start fetches) := by
  refine fun c hc => wp_bind (wp_autocommit ?_)
  split
  · refine wp_bind (wp_gate (wp_bind ?_) fun _ => hc)
    refine wp_bind (wp_stmt (fun run t ht => ?_) fun _ => hc)
    obtain ⟨hp, hp'⟩ := hrun _ _ _ hc.now ht
    refine wp_bind (wp_begin (fun _ => wp_pure ?_) fun _ => hc.set hp)
    have h₀ := hc.set hp
    refine wp_bind (wp_attempt (wp_mono (hbody run _ hp') (fun _ c' h => ?_) fun e c' hu => ?_))
    · exact wp_finishRun h₀ h.2 (fun _ => hconclude run _ h.1) hclose
    · refine wp_bind (wp_attempt (wp_mono (wp_finishRun h₀ hu
        (fun hs : false = true => by cases hs) hclose) (fun _ c' h => wp_throw h)
        fun _ c' h => wp_throw h))
  · exact wp_throw hc

end

/-! ## The retries of an opening -/

section
variable {P : Tables → Prop} {reader : Reader} {s : Store}

/-- A retry is kept whole or undone; `R` holds while it lasts. -/
theorem wp_reparseResource {R : Tables → Prop} {row : ResourceRow} {c : Conn Tables}
    (hc : c.All P) (hR : R c.now)
    (hsave : keeps R (save reader s row.calendar row.href row.etag (.data row.rawICal)))
    (hretry : ∀ t, R t → P (t.updateResources (fun r => r.id = row.id)
      (ResourceRow.retried row.seenRun) (fun _ => rfl) fun _ => rfl)) :
    wp (reparseResource reader s row) (fun _ c' => c'.All P) (fun _ c' => c'.rollback.All P) c := by
  have undone : ∀ c' : Conn Tables, c'.undo = c.now :: c.undo → c'.rollback.All P :=
    fun c' hu => all_rollback hc hu
  refine wp_bind (wp_control ?_ fun _ s hs => hc s (Conn.images_rollback hs))
  refine wp_bind (wp_attempt (wp_mono (hsave c.push hR) (fun _ c₁ h₁ => ?_) fun e c₁ hu => ?_))
  · refine wp_bind (wp_findValue fun accepted _ => ?_)
    split
    · exact wp_inside (fun _ => all_restore hc h₁.2) fun _ => undone c₁ h₁.2
    · refine wp_bind (wp_change ?_ fun _ => undone c₁ h₁.2)
      exact wp_inside (fun _ => all_release hc (hretry _ h₁.1) h₁.2) fun _ => undone _ h₁.2
  · refine wp_bind (wp_inside (fun _ => wp_throw ?_) fun _ => undone c₁ hu)
    exact fun t ht => all_restore hc hu t (Conn.images_rollback ht)

theorem nextCached_some {account last : Int} {t : Tables} {row : ResourceRow}
    (h : nextCached account last t = some row) : row ∈ t.resources ∧
      (t.lists account row.calendar = true ∧ row.parseError.isSome = true) ∧
      row.remoteMissing = false ∧ row.scopeExcluded = false := by
  have hm := List.mem_filter.1 (List.minOn?_mem h)
  simp only [Bool.and_eq_true, decide_eq_true_iff, Bool.not_eq_true'] at hm
  exact ⟨hm.1, ⟨hm.2.1.1.1.1, hm.2.1.1.2⟩, hm.2.1.2, hm.2.2⟩

theorem nextCached_later {account last : Int} {t : Tables} {row : ResourceRow}
    (h : nextCached account last t = some row) : last < row.id := by
  have hm := List.mem_filter.1 (List.minOn?_mem h)
  simp only [Bool.and_eq_true, decide_eq_true_iff] at hm
  exact hm.2.1.1.1.2

theorem secures_reparse {fuel : Nat} {last : Int}
    (hrow : ∀ last (row : ResourceRow) (c : Conn Tables), c.All P →
      nextCached s.account last c.now = some row →
      wp (reparseResource reader s row) (fun _ c' => c'.All P) (fun _ c' => c'.rollback.All P) c) :
    secures P (reparseCachedResources reader s fuel last) := by
  induction fuel generalizing last with
  | zero => exact fun c hc => wp_pure hc
  | succ fuel ih =>
    refine secures_bind (secures_of_stays stays_gate) fun _ => fun c hc => ?_
    refine wp_bind (wp_select ?_ fun _ s hs => hc s (Conn.images_rollback hs))
    cases hn : nextCached s.account last c.now with
    | none => exact wp_pure hc
    | some row =>
      refine wp_bind (wp_mono (Q := fun _ c' => c'.All P) ?_ (fun _ c' hc' => ih c' hc')
        fun _ _ h => h)
      unfold reparseRow
      split
      · exact wp_pure hc
      · exact hrow last row c hc hn

/-- **The images along an opening.** -/
theorem stays_openAccount {username random : Bytes}
    (hadd : ∀ t, P t → P (addAccount username random t))
    (hrow : ∀ account last (row : ResourceRow) (c : Conn Tables), c.All P →
      nextCached account last c.now = some row →
      wp (reparseResource reader ⟨account, 0, false⟩ row) (fun _ c' => c'.All P)
        (fun _ c' => c'.rollback.All P) c) : stays P (openAccount reader username random) := by
  refine stays_orRollback_secures ?_
  refine secures_bind (secures_of_stays (stays_change hadd)) fun _ => ?_
  refine secures_bind (secures_of_stays stays_findValue) fun account => ?_
  split
  · exact secures_of_stays (stays_throw _)
  · refine secures_bind (fun c hc => fun _ => hc) fun n => ?_
    refine secures_bind (secures_reparse (hrow account)) fun _ => secures_of_stays (stays_pure _)

end

/-! ## Publication -/

section
variable {P : Tables → Prop} {account : Int}

theorem stays_onJournal {q : Journal.Call} (hP : ∀ t j, P t → P { t with journal := j }) :
    stays P (onJournal (q.run account)) := by
  refine stays_within (call_keeps q) fun c hc fs => ?_
  cases q.run account ⟨⟨c.now.journal, c.undo.map Tables.journal⟩, fs⟩ with
  | ok a t => exact hP _ _ hc.now
  | error e t => exact hP _ _ hc.now

theorem stays_exchangeCalls (qs : List Journal.Call)
    (hq : ∀ q ∈ qs, stays P (onJournal (q.run account))) : stays P (exchangeCalls account qs) := by
  induction qs with
  | nil => exact stays_pure _
  | cons q qs ih =>
    refine stays_bind (stays_attempt (hq q List.mem_cons_self)) fun _ => ih fun q' hq' => ?_
    exact hq q' (List.mem_cons_of_mem q hq')

theorem stays_gatherMapped {native : Native} {r : ResourceRow} {etag body : Bytes} {g : Gathered} :
    stays P (gatherMapped native r etag body g) := by
  refine stays_bind stays_gate fun _ => ?_
  split
  · exact stays_pure _
  · exact stays_throw _

theorem stays_gather {native : Native} {g : Gathered} {r : ResourceRow}
    (hmark : ∀ id message, stays P (markUnsupported id message)) :
    stays P (gather native g r) := by
  refine stays_bind stays_gate fun _ => ?_
  split
  · exact stays_gatherMapped
  · refine stays_bind stays_gate fun _ => stays_bind (hmark _ _) fun _ => ?_
    split
    · exact stays_pure _
    · split
      · exact stays_throw _
      · exact stays_pure _
  · unfold gatherExported
    split
    · exact stays_pure _
    · split
      · exact stays_gatherMapped
      · exact stays_throw _

theorem stays_foldlM {β γ : Type} {f : β → γ → StoreM β} (l : List γ) (b : β)
    (hf : ∀ b g, stays P (f b g)) : stays P (l.foldlM f b) := by
  induction l generalizing b with
  | nil => exact stays_pure _
  | cons g l ih => exact stays_bind (hf b g) fun b' => ih b'

theorem keeps_snapshotWriteBases {s : Store} {generation : Int}
    (hclear : ∀ t, P t → P (clearBases s.account t))
    (hinsert : ∀ t u t', P t → insertBases s.account generation t = .ok (u, t') → P t') :
    keeps P (snapshotWriteBases s generation) := by
  refine keeps_bind keeps_autocommit fun idle => ?_
  split
  · exact keeps_throw _
  · refine keeps_bind keeps_findValue fun current => ?_
    split
    · exact keeps_throw _
    · exact keeps_bind (keeps_change hclear) fun _ => keeps_stmt hinsert

theorem stays_snapshotWriteBases {s : Store} {generation : Int}
    (hclear : ∀ t, P t → P (clearBases s.account t))
    (hinsert : ∀ t u t', P t → insertBases s.account generation t = .ok (u, t') → P t') :
    stays P (snapshotWriteBases s generation) := by
  refine stays_bind (fun c hc _ => hc) fun idle => ?_
  split
  · exact stays_throw _
  · refine stays_bind stays_findValue fun current => ?_
    split
    · exact stays_throw _
    · exact stays_bind (stays_change hclear) fun _ => stays_stmt hinsert

/-- A prune is what it does to the rows it has collected. -/
theorem stays_pruneHistory {s : Store} (h : ∀ c : Conn Tables, P c.now →
    wp (emptyRows s.account (c.now.pruneIds s.account)) (fun _ c' => P c'.now ∧ c'.undo = c.undo)
      (fun _ c' => c'.undo = c.undo) c) : stays P (pruneHistory s) := by
  refine stays_bind (fun c hc _ => hc) fun idle => ?_
  split
  · exact stays_throw _
  · refine stays_bind stays_findValue fun published => ?_
    split
    · exact stays_throw _
    · refine stays_bind (stays_transaction_keeps (keeps_bind keeps_gate fun _ =>
        keeps_bind keeps_gate fun _ => fun c hc => ?_)) fun _ => stays_gate
      refine wp_bind (wp_select (wp_bind (wp_mono (h c hc) (fun _ c' hc' => ?_) fun _ _ h => h))
        fun _ => rfl)
      exact wp_gate hc' fun _ => hc'.2

end

end CalendarStore
