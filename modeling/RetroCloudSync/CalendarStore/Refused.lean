import RetroCloudSync.Library.Refusals
import RetroCloudSync.Journal.Refused
import RetroCloudSync.CalendarStore.Mirrors

/-!
# Passes that lose the transaction

SQLite may answer a statement it refuses (an I/O error, a want of memory, a full disk) by rolling
back everything that is open. A statement that reports its failure ends its pass then, and the pass
does what it does when refusals undo their statement only, up to that rollback (`pass_follows`,
`open_trails`). An exchange goes on behind a call on the journal that failed; it keeps what each of
its statements keeps (`remains_exchange`).

`RCFind` reports nothing: it answers -1, and a save goes on outside of the transaction that its run
began. What it writes then is durable, statement by statement, and the next failure leaves half a
projection behind (`projection_mirrors_torn`). Where no refusal ends a transaction unseen, every
reachable store mirrors one body (`projection_mirrors`).
-/

set_option autoImplicit false

namespace CalendarStore

open Library Library.Tx Journal

/-! ## Statements -/

section
variable {ρ : Type} [Engine ρ] {α : Type}

theorem follows_change {fail : String → RCError} {f : Tables → Tables} :
    follows (change fail f : StoreOf ρ Unit) (change fail f) :=
  follows_stmt

theorem follows_note {l : List Entry} : follows (note l : StoreOf ρ Unit) (note l) :=
  fun _ _ => ⟨rfl, List.suffix_rfl⟩

theorem follows_peek {f : Tables → α} : follows (peek f : StoreOf ρ α) (peek f) :=
  fun _ _ => ⟨rfl, List.suffix_rfl⟩

theorem follows_checkCancellation :
    follows (checkCancellation : StoreOf ρ Unit) checkCancellation :=
  follows_gate

theorem follows_prepare :
    follows (Dav.SyncState.prepare : Dav.SyncOf ρ Unit) Dav.SyncState.prepare := by
  refine follows_bind follows_autocommit fun idle => ?_
  split
  · exact follows_throw _
  · exact follows_bind follows_gate fun _ => follows_gate

theorem follows_onSyncState {x : Dav.SyncOf ρ α} {y : Dav.SyncM α} (hk : keeps (fun _ => True) y)
    (h : follows x y) : follows (onSyncState x) (onSyncState y) :=
  follows_within (fun _ => rfl) hk h

theorem follows_onJournal {account : Int} (q : Journal.Call) :
    follows (onJournal (q.run account) : StoreOf ρ q.Answer) (onJournal (q.run account)) :=
  follows_within (fun _ => rfl) (call_keeps q) (call_follows q)

theorem follows_storeParameters (property : Int) (position : Nat) (ps : List IcalParameter) :
    follows (storeParameters property position ps : StoreOf ρ Unit)
      (storeParameters property position ps) := by
  induction ps generalizing position with
  | nil => exact follows_pure _
  | cons p ps ih =>
    unfold storeParameters
    split
    · exact follows_throw _
    · exact follows_bind follows_stmt fun _ => ih (position + 1)

theorem follows_storeProperties (component : Int) (position : Nat) (ps : List IcalProperty) :
    follows (storeProperties component position ps : StoreOf ρ Unit)
      (storeProperties component position ps) := by
  induction ps generalizing position with
  | nil => exact follows_pure _
  | cons p ps ih =>
    unfold storeProperties
    refine follows_bind follows_stmt fun _ => ?_
    exact follows_bind (follows_storeParameters _ 0 _) fun _ => ih (position + 1)

theorem follows_storeEvent (resource component : Int) (x : Component) :
    follows (storeEvent resource component x : StoreOf ρ Unit)
      (storeEvent resource component x) := by
  unfold storeEvent
  split
  · split
    · exact follows_throw _
    · exact follows_stmt
  · exact follows_pure _

mutual

theorem follows_storeComponent (resource parent : Int) (position : Nat) : ∀ x : Component,
    follows (storeComponent resource parent position x : StoreOf ρ Unit)
      (storeComponent resource parent position x)
  | ⟨kind, kindName, properties, sequence, dtstart, dtend, children⟩ => by
    unfold storeComponent
    refine follows_bind follows_stmt fun id => ?_
    refine follows_bind (follows_storeProperties id 0 properties) fun _ => ?_
    exact follows_bind (follows_storeEvent resource id _) fun _ =>
      follows_storeChildren resource id 0 children

theorem follows_storeChildren (resource id : Int) (position : Nat) : ∀ xs : List Component,
    follows (storeChildren resource id position xs : StoreOf ρ Unit)
      (storeChildren resource id position xs)
  | [] => by
    unfold storeChildren
    exact follows_pure _
  | x :: xs => by
    unfold storeChildren
    exact follows_bind (follows_storeComponent resource id position x) fun _ =>
      follows_storeChildren resource id (position + 1) xs

end

end

/-! ## Passes

A refusal of these engines is reported wherever it ends a transaction. -/

section
variable {reader : Reader} {s : Store} {account : Int}

theorem follows_findValue {f : Tables → Option Int} :
    follows (findValue f : StoreOf Reported Int) (findValue f) :=
  follows_bind follows_find fun _ => follows_pure _

theorem follows_claimUID {calendar : Int} {uid : Bytes} {resource : Int} :
    follows (claimUID s calendar uid resource : StoreOf Reported Int)
      (claimUID s calendar uid resource) := by
  refine follows_bind follows_findValue fun other => ?_
  split
  · split
    · exact follows_throw _
    · refine follows_bind follows_findValue fun seenRun => ?_
      split
      · exact follows_throw _
      · exact follows_pure _
  · exact follows_pure _

theorem follows_save {calendar : Int} {href : Bytes} {etag : Option Bytes} {body : Buf} :
    follows (save reader s calendar href etag body : StoreOf Reported Unit)
      (save reader s calendar href etag body) := by
  refine follows_bind (follows_bind follows_findValue fun found => ?_) fun found => ?_
  · split
    · exact follows_claimUID
    · exact follows_pure _
  · refine follows_bind ?_ fun resource => ?_
    · unfold ensureRow
      split
      · exact follows_stmt
      · exact follows_pure _
    · refine follows_bind follows_gate fun _ => follows_bind follows_stmt fun _ => ?_
      refine follows_bind follows_note fun _ => ?_
      unfold replaceRows
      split
      · exact follows_bind follows_change fun _ => follows_storeComponent _ _ _ _
      · exact follows_pure _

theorem follows_collection {c : DAVCollection} {random : Bytes} :
    follows (collection s c random : StoreOf Reported Int) (collection s c random) := by
  refine follows_bind follows_change fun _ => follows_bind follows_change fun _ => ?_
  refine follows_bind follows_findValue fun identifier => ?_
  split
  · exact follows_pure _
  · exact follows_throw _

theorem follows_seen {calendar : Int} {href etag : Bytes} :
    follows (seen s calendar href etag : StoreOf Reported Bool) (seen s calendar href etag) := by
  refine follows_bind follows_findValue fun count => ?_
  split
  · exact follows_bind follows_change fun _ => follows_pure _
  · exact follows_pure _

theorem follows_applyStaged {calendar : Int} (l : List Staged) :
    follows (applyStaged reader s calendar l : StoreOf Reported Unit)
      (applyStaged reader s calendar l) := by
  induction l with
  | nil => exact follows_gate
  | cons x l ih =>
    refine follows_bind follows_gate fun _ => follows_bind follows_checkCancellation fun _ => ?_
    refine follows_bind ?_ fun _ => ih
    cases x with
    | seen href etag =>
      refine follows_bind follows_seen fun current => ?_
      split
      · exact follows_pure _
      · exact follows_throw _
    | downloaded href etag body => exact follows_save

theorem follows_commitFetch {start : Option Bytes} {random : Bytes} {f : Fetch} :
    follows (commitFetch reader s start random f : StoreOf Reported Unit)
      (commitFetch reader s start random f) := by
  refine follows_bind follows_checkCancellation fun _ => follows_bind follows_collection
    fun calendar => ?_
  have hrest : follows (do
      gate stageFailed
      applyStaged reader s calendar f.staged
      onSyncState (Dav.SyncState.save s.account f.collection.url f.token start s.run) :
        StoreOf Reported Unit) (do
      gate stageFailed
      applyStaged reader s calendar f.staged
      onSyncState (Dav.SyncState.save s.account f.collection.url f.token start s.run)) :=
    follows_bind follows_gate fun _ => follows_bind (follows_applyStaged _) fun _ =>
      follows_onSyncState Dav.SyncState.keeps_save
        (follows_bind follows_prepare fun _ => follows_stmt)
  split
  · exact follows_bind follows_change fun _ => hrest
  · exact hrest

theorem follows_commitFetches {start : Option Bytes} {fetches : List (Fetch × Bytes)} :
    follows (commitFetches reader s start fetches : StoreOf Reported Unit)
      (commitFetches reader s start fetches) := by
  refine follows_bind (follows_forM fetches fun f => follows_commitFetch) fun _ => ?_
  refine follows_bind (follows_onSyncState Dav.SyncState.keeps_finish ?_) fun _ =>
    follows_checkCancellation
  exact follows_bind follows_prepare fun _ => follows_stmt

theorem follows_conclude : follows (conclude s : StoreOf Reported Unit) (conclude s) :=
  follows_bind follows_change fun _ => follows_bind follows_change fun _ => follows_change

/-- The end of a run, once its outcome is known. -/
theorem follows_closeRun {message : Option String} (outcome : Except RCError Unit) :
    follows (do
      change sqlError (closeRun s.run outcome.isOk message)
      match outcome with
      | .ok () => pure ()
      | .error e => throw e : StoreOf Reported Unit) (do
      change sqlError (closeRun s.run outcome.isOk message)
      match outcome with
      | .ok () => pure ()
      | .error e => throw e) := by
  refine follows_bind follows_change fun _ => ?_
  cases outcome with
  | ok u => exact follows_pure _
  | error e => exact follows_throw _

theorem follows_finishRun {success : Bool} {message : Option String} :
    follows (finishRun s success message : StoreOf Reported Unit)
      (finishRun s success message) := by
  refine follows_bind (follows_attempt ?_) follows_closeRun
  split
  · exact follows_bind follows_conclude fun _ => follows_inside
  · exact follows_throw _

/-- A run that failed is rolled back, if it was not already. -/
theorem recovers_finishRun {message : Option String} :
    recovers Eq (finishRun s false message : StoreOf Reported Unit) (finishRun s false message) :=
  recovers_bind (recovers_rollback unset) follows_closeRun

theorem follows_fetchSince {start : Option Bytes} {fetches : List (Fetch × Bytes)} :
    follows (fetchSince reader account start fetches : StoreOf Reported Unit)
      (fetchSince reader account start fetches) := by
  refine follows_bind follows_autocommit fun idle => ?_
  split
  · refine follows_bind follows_checkCancellation fun _ => follows_bind ?_ fun s => ?_
    · exact follows_bind follows_stmt fun _ => follows_bind follows_begin fun _ => follows_pure _
    refine follows_rescue follows_commitFetches (fun outcome => ?_) fun e => ?_
    · cases outcome with
      | ok u => exact follows_finishRun
      | error e =>
        exact follows_rescue follows_finishRun (fun _ => follows_throw e) fun _ =>
          recovers_throw e rfl
    · -- the run is rolled back in either case, and its row is closed with the same message
      exact recovers_rescue recovers_finishRun (fun _ => follows_throw e) fun _ =>
        recovers_throw e rfl
  · exact follows_throw _

theorem trails_reparse {fuel : Nat} {last : Int} :
    trails (reparseCachedResources reader s fuel last : StoreOf Reported Unit)
      (reparseCachedResources reader s fuel last) := by
  induction fuel generalizing last with
  | zero => exact (follows_pure _).trails
  | succ fuel ih =>
    refine follows_bind follows_gate.trails fun _ =>
      follows_bind follows_select.trails fun row => ?_
    cases row with
    | none => exact (follows_pure _).trails
    | some row =>
      refine follows_bind ?_ fun _ => ih
      unfold reparseRow
      split
      · exact (follows_pure _).trails
      · refine follows_bind follows_control.trails fun _ => ?_
        refine follows_rescue follows_save (fun saved => ?_) fun e => recovers_restore e
        cases saved with
        | error e => exact follows_bind follows_inside.trails fun _ => (follows_throw e).trails
        | ok u =>
          refine follows_bind follows_findValue.trails fun accepted => ?_
          split
          · exact follows_inside.trails
          · exact follows_bind follows_change.trails fun _ => follows_inside.trails

/-- An opening, which a failure rolls back. -/
theorem trails_openAccount {username random : Bytes} :
    trails (openAccount reader username random : StoreOf Reported Int)
      (openAccount reader username random) := by
  refine follows_orRollback (follows_bind follows_change.trails fun _ => ?_)
  refine follows_bind follows_findValue.trails fun account => ?_
  split
  · exact (follows_throw _).trails
  · refine follows_bind follows_peek.trails fun n => ?_
    exact follows_bind trails_reparse fun _ => (follows_pure _).trails

theorem follows_snapshotWriteBases {generation : Int} :
    follows (snapshotWriteBases s generation : StoreOf Reported Unit)
      (snapshotWriteBases s generation) := by
  refine follows_bind follows_autocommit fun idle => ?_
  split
  · exact follows_throw _
  · refine follows_bind follows_findValue fun current => ?_
    split
    · exact follows_throw _
    · exact follows_bind follows_change fun _ => follows_stmt

theorem follows_pruneHistory :
    follows (pruneHistory s : StoreOf Reported Unit) (pruneHistory s) := by
  refine follows_bind follows_autocommit fun idle => ?_
  split
  · exact follows_throw _
  · refine follows_bind follows_findValue fun published => ?_
    split
    · exact follows_throw _
    · refine follows_bind (follows_transaction ?_) fun _ => follows_gate
      refine follows_bind follows_gate fun _ => follows_bind follows_gate fun _ => ?_
      refine follows_bind follows_select fun ids => follows_bind ?_ fun _ => follows_gate
      exact follows_bind follows_change fun _ => follows_bind follows_change fun _ =>
        follows_bind follows_change fun _ => follows_note

theorem follows_commitVerifiedMove {source target etag : Bytes} :
    follows (commitVerifiedMove account source target etag : StoreOf Reported Unit)
      (commitVerifiedMove account source target etag) := by
  refine follows_bind follows_autocommit fun idle => ?_
  split
  · exact follows_throw _
  · split
    · exact follows_throw _
    · refine follows_transaction (follows_bind follows_gate fun _ => ?_)
      refine follows_bind follows_stmt fun changes => ?_
      split
      · exact follows_throw _
      · exact follows_bind follows_gate fun _ => follows_gate

theorem follows_checkpoint {generation : Int} {resources : List Published} :
    follows (checkpoint s generation resources : StoreOf Reported Unit)
      (checkpoint s generation resources) := by
  refine follows_transaction (follows_bind (follows_forM _ fun p => ?_) fun _ => ?_)
  · exact follows_bind follows_gate fun _ => follows_change
  · exact follows_bind follows_snapshotWriteBases fun _ => follows_change

theorem follows_gatherMapped {native : Native} {r : ResourceRow} {etag body : Bytes}
    {g : Gathered} :
    follows (gatherMapped native r etag body g : StoreOf Reported Gathered)
      (gatherMapped native r etag body g) := by
  refine follows_bind follows_gate fun _ => ?_
  split
  · exact follows_pure _
  · exact follows_throw _

theorem follows_gather {native : Native} {g : Gathered} {r : ResourceRow} :
    follows (gather native g r : StoreOf Reported Gathered) (gather native g r) := by
  refine follows_bind follows_checkCancellation fun _ => ?_
  split
  · exact follows_gatherMapped
  · refine follows_bind follows_gate fun _ => follows_bind follows_change fun _ => ?_
    split
    · exact follows_pure _
    · split
      · exact follows_throw _
      · exact follows_pure _
  · unfold gatherExported
    split
    · exact follows_pure _
    · split
      · exact follows_gatherMapped
      · exact follows_throw _

/-- **Every pass but an exchange** does what it does when refusals undo their statement only, up to
a rollback. -/
theorem pass_follows (q : Call) (hq : ∀ native, q ≠ .exchange native) :
    follows (q.run account : StoreOf Reported Unit) (q.run account) := by
  cases q with
  | fetch reader start fetches => exact follows_fetchSince
  | exchange native => exact absurd rfl (hq native)
  | snapshot generation => exact follows_snapshotWriteBases
  | prune => exact follows_pruneHistory
  | move source target etag body => exact follows_commitVerifiedMove
  | create target marker title notes =>
    exact follows_transaction (follows_bind follows_change fun _ =>
      follows_bind follows_gate fun _ => follows_gate)
  | journal q => exact follows_bind (follows_onJournal q) fun _ => follows_pure _
  | loadSync url =>
    refine follows_bind (follows_onSyncState Dav.SyncState.keeps_load ?_) fun _ => follows_pure _
    refine follows_bind follows_gate fun _ => follows_bind follows_gate fun _ =>
      follows_bind follows_select fun r => ?_
    cases r with
    | none => exact follows_pure _
    | some r => exact follows_bind follows_gate fun _ => follows_pure _

/-! ## The main theorem -/

theorem remains_exchangeCalls (qs : List Journal.Call) :
    remains Mirrors (exchangeCalls account qs : StoreOf Reported Unit) := by
  induction qs with
  | nil => exact remains_of_trails (follows_pure _).trails (stays_pure _)
  | cons q qs ih =>
    refine remains_bind (remains_attempt (remains_of_trails (follows_onJournal q).trails ?_))
      fun _ => ih
    exact stays_onJournal fun t j h => h.elsewhere ⟨⟨rfl, rfl, rfl, rfl⟩, rfl⟩ rfl

/-- An exchange goes on where a call on the journal failed. -/
theorem remains_exchange {native : Native} :
    remains Mirrors (exchangeCalendars account native : StoreOf Reported Unit) := by
  have hgate : remains Mirrors (gate graphFailed : StoreOf Reported Unit) :=
    remains_of_trails follows_gate.trails stays_gate
  have hthrow : ∀ e, remains Mirrors (throw e : StoreOf Reported Unit) :=
    fun e => remains_of_trails (follows_throw e).trails (stays_throw e)
  refine remains_bind (remains_of_trails follows_gate.trails stays_gate) fun _ => ?_
  refine remains_bind hgate fun _ => ?_
  refine remains_bind (remains_of_trails follows_select.trails stays_select) fun generation => ?_
  cases generation with
  | none => exact hthrow _
  | some generation =>
    dsimp only
    split
    · exact hthrow _
    · refine remains_bind hgate fun _ => remains_bind hgate fun _ => ?_
      refine remains_bind (remains_of_trails follows_select.trails stays_select) fun rows => ?_
      refine remains_bind (remains_of_trails (follows_foldlM rows _ fun _ _ =>
        follows_gather).trails (stays_foldlM rows _ fun _ _ => stays_gatherMirrors)) fun g => ?_
      refine remains_bind (remains_exchangeCalls _) fun _ => ?_
      split
      · exact hthrow _
      · split
        · exact remains_of_trails follows_checkpoint.trails stays_checkpointMirrors
        · exact remains_of_trails (follows_pure _).trails (stays_pure _)

theorem remains_call (q : Call) : remains Mirrors (q.run account : StoreOf Reported Unit) := by
  by_cases hq : ∃ native, q = .exchange native
  · obtain ⟨native, rfl⟩ := hq
    exact remains_exchange
  · refine remains_of_trails (pass_follows q fun native h => hq ⟨native, h⟩).trails ?_
    exact call_mirrors q

end

theorem ReachedOf.mirrors {w : Site} {past : List Site} (h : ReachedOf Reported w past) :
    w.conn.All Mirrors := by
  refine Run.invariant (P := fun w => w.conn.All Mirrors) ?_ (fun w w' hw hs => ?_) h
  · rintro _ rfl t ht
    rw [show t = Tables.empty by simpa [Conn.images, Site.init] using ht]
    exact .empty
  · cases hs with
    | opened reader username random faults closed =>
      have hremains : remains Mirrors (openAccount reader username random : StoreOf Reported Int) :=
        remains_of_trails trails_openAccount stays_openMirrors
      have h := hremains w.conn faults hw
      unfold Site.open'
      cases hx : openAccount reader username random ⟨w.conn, faults⟩ <;> rw [hx] at h <;> exact h
    | call account q faults here =>
      have hremains : remains Mirrors (q.run account : StoreOf Reported Unit) := remains_call q
      have h := hremains w.conn faults hw
      unfold Site.call
      cases hx : q.run account ⟨w.conn, faults⟩ <;> rw [hx] at h <;> exact h
    | closed => exact fun t ht => hw t (Conn.images_rollback ht)
    | push => exact fun t ht => hw t (Conn.images_push ht)
    | release => exact fun t ht => hw t (Conn.images_release ht)
    | restore => exact fun t ht => hw t (Conn.images_restore ht)
    | commit => exact fun t ht => hw t (Conn.images_commit ht)
    | rollback => exact fun t ht => hw t (Conn.images_rollback ht)

section
variable {ρ : Type} [Engine ρ]

end

/-- A decomposition has a row for the root. -/
theorem Decomposes.ne_nil {resource : Int} {root : Component} {p : Projection}
    (h : Decomposes resource root p) : p.components ≠ [] := by
  obtain ⟨i, hi⟩ := h
  obtain ⟨kind, kindName, properties, sequence, dtstart, dtend, children⟩ := root
  unfold Component.emit at hi
  obtain ⟨q, r, hq, -, rfl⟩ := Emit.andThen_some.1 hi
  obtain ⟨name, -, rfl⟩ := Option.map_eq_some_iff.1 hq
  exact List.cons_ne_nil _ _

end CalendarStore
