import RetroCloudSync.Library.Run
import RetroCloudSync.ContactStore.Calls

/-!
# Reachable contact stores

`Site`: a database, the store that is open on it, and the calls made so far. A step opens or closes
a store, makes any call with any arguments while the engine refuses whatever it likes, or is a
statement on the enclosing transaction (a crash is a `close`).
-/

set_option autoImplicit false

namespace ContactStore

open Library Library.Tx Journal

/-! ## The calls as data -/

inductive Call
  | getPublicationState
  | markPublished (generation : Int)
  | beginRun
  | getCollection (url : Bytes) (displayName : Option Bytes)
  | resourceIsCurrent (collection : Int) (href : Bytes) (etag : Option Bytes)
  | keepCollection (collection run : Int)
  | syncDelete (collection : Int) (href : Bytes) (run : Int)
  | markSeen (collection : Int) (href : Bytes) (run : Int)
  | saveResource (collection run : Int) (href : Bytes) (etag : Option Bytes) (body : Buf)
      (random : Nat → Bytes)
  | finishCollection (collection run : Int)
  | finishRun (run : Int) (succeeded : Bool) (message : Option Bytes)
  | journal (q : Journal.Call)
  | loadSync (url : Bytes)
  | saveSync (url : Bytes) (token scope : Option Bytes) (run : Int)
  | finishSync (run : Int)

/-- What a call answers when it succeeds. -/
def Call.Answer : Call → Type
  | getPublicationState => Int × Int
  | beginRun | getCollection .. => Int
  | resourceIsCurrent .. | saveResource .. => Bool
  | journal q => q.Answer
  | loadSync _ => Option Bytes × Option Bytes
  | _ => Unit

def Call.run (reader : Reader) (s : Store) : (q : Call) → StoreM q.Answer
  | getPublicationState => ContactStore.getPublicationState s
  | markPublished generation => ContactStore.markPublished s generation
  | beginRun => ContactStore.beginRun s
  | getCollection url displayName => ContactStore.getCollection s url displayName
  | resourceIsCurrent collection href etag =>
    ContactStore.resourceIsCurrent s collection href etag
  | keepCollection collection run => ContactStore.keepCollection s collection run
  | syncDelete collection href run => ContactStore.syncDelete s collection href run
  | markSeen collection href run => ContactStore.markSeen s collection href run
  | saveResource collection run href etag body random =>
    ContactStore.saveResource reader s collection run href etag body random
  | finishCollection collection run => ContactStore.finishCollection s collection run
  | finishRun run succeeded message => ContactStore.finishRun s run succeeded message
  | journal q => onJournal (q.run s.account)
  | loadSync url => onSyncState (Dav.SyncState.load s.account url)
  | saveSync url token scope run => onSyncState (Dav.SyncState.save s.account url token scope run)
  | finishSync run => onSyncState (Dav.SyncState.finish s.account run)

/-- The store after a call: the run a `BeginRun` opened, none after a `FinishRun` of it. -/
def Call.next (s : Store) : (q : Call) → Except RCError q.Answer → Store
  | beginRun, .ok (run : Int) => { s with activeRun := run }
  | finishRun run _ _, _ => if 0 < run ∧ s.activeRun = run then { s with activeRun := 0 } else s
  | _, _ => s

/-! ## Steps -/

/-- A database, the store open on it, and the calls made so far with their accounts, newest
first. -/
structure Site where
  conn : Conn Tables
  store : Option Store
  log : List (Int × Call)

namespace Site

def init : Site := ⟨⟨Tables.empty, []⟩, none, []⟩

/-- `RCContactStoreOpen`. -/
def open' (w : Site) (username random : Bytes) (faults : List (Option String)) : Site :=
  match openAccount username random ⟨w.conn, faults⟩ with
  | .ok account s => { w with conn := s.conn, store := some ⟨account, 0⟩ }
  | .error _ s => { w with conn := s.conn }

/-- `RCContactStoreClose`, or the end of the process. -/
def close (w : Site) : Site := { w with conn := w.conn.rollback, store := none }

/-- The call `q` of store `s`. -/
def call (reader : Reader) (w : Site) (s : Store) (q : Call) (faults : List (Option String)) :
    Site :=
  match q.run reader s ⟨w.conn, faults⟩ with
  | .ok a t => ⟨t.conn, some (q.next s (.ok a)), (s.account, q) :: w.log⟩
  | .error e t => ⟨t.conn, some (q.next s (.error e)), (s.account, q) :: w.log⟩

/-- A statement on the enclosing transaction. -/
def control (w : Site) (f : Conn Tables → Conn Tables) : Site := { w with conn := f w.conn }

end Site

inductive Step (reader : Reader) : Site → Site → Prop
  | opened (w : Site) (username random : Bytes) (faults : List (Option String))
      (closed : w.store = none) : Step reader w (w.open' username random faults)
  | closed (w : Site) : Step reader w w.close
  | call (w : Site) (s : Store) (q : Call) (faults : List (Option String))
      (here : w.store = some s) : Step reader w (w.call reader s q faults)
  | push (w : Site) : Step reader w (w.control Conn.push)
  | release (w : Site) : Step reader w (w.control Conn.release)
  | restore (w : Site) : Step reader w (w.control Conn.restore)
  | commit (w : Site) : Step reader w (w.control Conn.commit)
  | rollback (w : Site) : Step reader w (w.control Conn.rollback)

/-- A run from the empty database that is at `w` and has been through `past`. -/
def Reached (reader : Reader) (w : Site) (past : List Site) : Prop :=
  Run (· = Site.init) (Step reader) (w :: past)

/-! ## Induction -/

section
variable {reader : Reader} {w w' : Site} {past : List Site}

theorem call_spec {s : Store} {q : Call} {P : Conn Tables → Prop}
    (h : wp (q.run reader s) (fun _ => P) (fun _ => P) w.conn) (faults : List (Option String)) :
    P (w.call reader s q faults).conn := by
  have hf := h faults
  unfold Site.call
  cases hx : q.run reader s ⟨w.conn, faults⟩ <;> rw [hx] at hf <;> exact hf

theorem call_log (s : Store) (q : Call) (faults : List (Option String)) :
    (w.call reader s q faults).log = (s.account, q) :: w.log := by
  unfold Site.call
  cases q.run reader s ⟨w.conn, faults⟩ <;> rfl

theorem open_spec {username random : Bytes} {P : Tables → Prop}
    (h : stays P (openAccount username random)) (hw : w.conn.All P)
    (faults : List (Option String)) :
    (w.open' username random faults).conn.All P ∧
      (w.open' username random faults).log = w.log := by
  have hf := h w.conn hw faults
  unfold Site.open'
  cases hx : openAccount username random ⟨w.conn, faults⟩ <;> rw [hx] at hf <;> exact ⟨hf, rfl⟩

/-- **Induction over reachable stores**, image by image: a property of the tables and the calls made
so far that grows with the calls, that opening keeps and that every call keeps. -/
theorem Reached.images {P : List (Int × Call) → Tables → Prop} (h0 : P [] Tables.empty)
    (hmono : ∀ log e t, P log t → P (e :: log) t)
    (hopen : ∀ log username random, stays (P log) (openAccount username random))
    (hcall : ∀ log s q, stays (P ((s.account, q) :: log)) (Call.run reader s q))
    (h : Reached reader w past) : w.conn.All (P w.log) := by
  refine Run.invariant (P := fun w => w.conn.All (P w.log)) ?_ (fun w w' hw hs => ?_) h
  · rintro _ rfl t ht
    rw [show t = Tables.empty by simpa [Conn.images, Site.init] using ht]
    exact h0
  · cases hs with
    | opened username random faults closed =>
      obtain ⟨hc, hl⟩ := open_spec (hopen w.log username random) hw faults
      rwa [hl]
    | closed => exact fun t ht => hw t (Conn.images_rollback ht)
    | call s q faults here =>
      rw [call_log]
      exact call_spec (P := fun c => c.All (P ((s.account, q) :: w.log)))
        (hcall w.log s q w.conn (hw.mono (hmono w.log _))) faults
    | push => exact fun t ht => hw t (Conn.images_push ht)
    | release => exact fun t ht => hw t (Conn.images_release ht)
    | restore => exact fun t ht => hw t (Conn.images_restore ht)
    | commit => exact fun t ht => hw t (Conn.images_commit ht)
    | rollback => exact fun t ht => hw t (Conn.images_rollback ht)

end

/-! ## Runs along a list of calls -/

/-- Make the calls one after the other, with no refusal. -/
def Site.perform (reader : Reader) : List Call → Site → Site
  | [], w => w
  | q :: qs, w => match w.store with
    | some s => perform reader qs (w.call reader s q [])
    | none => w

theorem Reached.perform {reader : Reader} (qs : List Call) {w : Site} {past : List Site}
    (h : Reached reader w past) : ∃ past', Reached reader (w.perform reader qs) past' := by
  induction qs generalizing w past with
  | nil => exact ⟨past, h⟩
  | cons q qs ih =>
    unfold Site.perform
    cases hs : w.store with
    | none => exact ⟨past, h⟩
    | some s => exact ih (h.next (.call w s q [] hs))

/-- The store of a new account. -/
def Site.start : Site := Site.init.open' (ascii "account") (List.replicate 32 0x61) []

theorem reached_start (reader : Reader) : ∃ past, Reached reader Site.start past :=
  ⟨_, .next (.start rfl) (.opened _ _ _ _ rfl)⟩

/-! ## The checks and single statements -/

section
variable {s : Store} {c : Conn Tables}

theorem wp_change {operation : String} {f : Tables → Tables} {Q : Unit → Conn Tables → Prop}
    {E : RCError → Conn Tables → Prop} (h : Q () { c with now := f c.now }) (hE : ∀ e, E e c) :
    wp (change operation f) Q E c := by
  refine wp_bind (wp_gate (wp_stmt (fun a t ht => ?_) fun _ => hE _) fun _ => hE _)
  cases ht
  exact h

theorem wp_checkRun {run : Int} {Q : Unit → Conn Tables → Prop}
    {E : RCError → Conn Tables → Prop} (h : 0 < run ∧ s.activeRun = run → Q () c)
    (hE : ∀ e, E e c) : wp (checkRun s run) Q E c := by
  unfold checkRun
  split
  · rename_i hr
    exact wp_pure (h hr)
  · exact wp_throw (hE _)

theorem wp_checkCollection {id : Int} {Q : Unit → Conn Tables → Prop}
    {E : RCError → Conn Tables → Prop}
    (h : (∃ b ∈ c.now.collections, b.id = id ∧ b.account = s.account) → Q () c)
    (hE : ∀ e, E e c) : wp (checkCollection s id) Q E c := by
  refine wp_bind (wp_gate (wp_bind (wp_select ?_ fun _ => hE _)) fun _ => hE _)
  split
  · rename_i hb
    obtain ⟨b, hm, hb⟩ := Table.any_iff.1 hb
    simp only [Bool.and_eq_true, decide_eq_true_iff] at hb
    exact wp_pure (h ⟨b, hm, hb⟩)
  · exact wp_throw (hE _)

/-- A body guarded by the two checks. -/
theorem wp_checked {α : Type} {run id : Int} {x : StoreM α} {Q : α → Conn Tables → Prop}
    {E : RCError → Conn Tables → Prop} (h : wp x Q E c) (hE : ∀ e, E e c) :
    wp (do checkRun s run; checkCollection s id; x) Q E c :=
  wp_bind (wp_checkRun (fun _ => wp_bind (wp_checkCollection (fun _ => h) hE)) hE)

end

section
variable {P : Tables → Prop} {s : Store} {operation : String} {f : Tables → Tables}

theorem stays_change (hf : ∀ t, P t → P (f t)) : stays P (change operation f) := by
  refine stays_bind stays_gate fun _ => stays_stmt fun t a t' ht he => ?_
  cases he
  exact hf t ht

theorem stays_checkRun (run : Int) : stays P (checkRun s run) := by
  unfold checkRun
  split
  · exact stays_pure _
  · exact stays_throw _

theorem stays_checkCollection (id : Int) : stays P (checkCollection s id) := by
  refine stays_bind stays_gate fun _ => stays_bind stays_select fun here => ?_
  cases here
  · exact stays_throw _
  · exact stays_pure _

/-- A body guarded by the two checks. -/
theorem stays_checked {α : Type} {run id : Int} {x : StoreM α} (hx : stays P x) :
    stays P (do checkRun s run; checkCollection s id; x) :=
  stays_bind (stays_checkRun run) fun _ => stays_bind (stays_checkCollection id) fun _ => hx

theorem stays_onSyncState {α : Type} {x : Dav.SyncM α} (hk : keeps (fun _ => True) x)
    (hP : ∀ t y, P t → P { t with sync := y }) : stays P (onSyncState x) := by
  refine stays_within hk fun c hc => ?_
  intro fs
  cases x ⟨⟨c.now.sync, c.undo.map Tables.sync⟩, fs⟩ with
  | ok a t => exact hP _ _ hc.now
  | error e t => exact hP _ _ hc.now

end

end ContactStore
