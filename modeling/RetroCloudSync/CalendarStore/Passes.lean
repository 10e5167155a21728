import RetroCloudSync.Journal.Reach
import RetroCloudSync.CalendarStore.Calls

/-!
# What the daemon does with the calendar store

The commit of a download (`RCCalDAVMirrorFetchSince` from `RCCalendarStoreBeginScopedRun` on), one
publication (`RCExchangeCalendars`), and the commits of a verified move and of a created calendar
(`RCCalendarOperations.m`). The server, the mapping of bodies to native records and the exchange
with the native store are outside the repository's database; what they answer are arguments here.
The tables that two-way synchronisation keeps beside the store are not modelled: a statement on them
is a point where the engine may refuse.
-/

set_option autoImplicit false

namespace CalendarStore

open Library Library.Tx Journal

variable {ρ : Type} [Engine ρ]

/-! ## Download -/

/-- `RCCheckCancellation`. -/
def checkCancellation : StoreOf ρ Unit := gate fun _ => ⟨-9999, "Shutdown requested"⟩

/-- A row of the staging database; a resource that was listed has an entity tag. -/
inductive Staged
  | seen (href etag : Bytes)
  | downloaded (href etag : Bytes) (body : Buf)
deriving DecidableEq, Repr

/-- `RCCalendarFetch`, with the collection it is about and what was staged for it, in sequence. -/
structure Fetch where
  collection : DAVCollection
  keep : Bool
  token : Option Bytes
  staged : List Staged
deriving DecidableEq, Repr

/-- `commitCalendar`. -/
def commitCalendar (reader : Reader) (s : Store) (calendar : Int) : Staged → StoreOf ρ Unit
  | .seen href etag => do
    if ← seen s calendar href etag then pure ()
    else throw ⟨1, "Calendar mirror changed during download"⟩
  | .downloaded href etag body => save reader s calendar href (some etag) body

def stageFailed (_ : String) : RCError := ⟨1, "Could not stage DAV inventory"⟩

/-- `RCDAVStageApply`. -/
def applyStaged (reader : Reader) (s : Store) (calendar : Int) : List Staged → StoreOf ρ Unit
  | [] => gate stageFailed
  | x :: rest => do
    gate stageFailed
    checkCancellation
    commitCalendar reader s calendar x
    applyStaged reader s calendar rest

def ResourceRow.kept (run : Int) (r : ResourceRow) : ResourceRow := { r with seenRun := some run }

/-- The `UPDATE` for a calendar whose token did not change. -/
def keepCalendar (s : Store) (calendar : Int) : StoreOf ρ Unit :=
  change sqlError fun t =>
    t.updateResources (fun r => r.calendar = calendar && !r.remoteMissing && !r.scopeExcluded)
      (ResourceRow.kept s.run) (fun _ => rfl) fun _ => rfl

/-- A call on `RCDAVSyncState`. -/
def onSyncState {α : Type} (x : Dav.SyncOf ρ α) : StoreOf ρ α :=
  within Tables.sync (fun y t => { t with sync := y }) x

/-- The commit of one collection; `start` is where the history begins, if it is limited. -/
def commitFetch (reader : Reader) (s : Store) (start : Option Bytes) (random : Bytes) (f : Fetch) :
    StoreOf ρ Unit := do
  checkCancellation
  let calendar ← collection s f.collection random
  (if f.keep then keepCalendar s calendar else pure ())
  gate stageFailed
  applyStaged reader s calendar f.staged
  onSyncState (Dav.SyncState.save s.account f.collection.url f.token start s.run)

/-- All collections, and what is to be done once. -/
def commitFetches (reader : Reader) (s : Store) (start : Option Bytes)
    (fetches : List (Fetch × Bytes)) : StoreOf ρ Unit := do
  fetches.forM fun f => commitFetch reader s start f.2 f.1
  onSyncState (Dav.SyncState.finish s.account s.run)
  checkCancellation

/-- The commit of `RCCalDAVMirrorFetchSince`, each collection with the value of `randomblob` that
its calendar would get. -/
def fetchSince (reader : Reader) (account : Int) (start : Option Bytes)
    (fetches : List (Fetch × Bytes)) : StoreOf ρ Unit := do
  if ← autocommit then
    checkCancellation
    let s ← beginScopedRun ⟨account, 0, false⟩ start.isSome
    let outcome ← attempt (commitFetches reader s start fetches)
    match outcome with
    | .ok () => finishRun s true none
    | .error e => do
      let _ ← attempt (finishRun s false (some e.message))
      throw e
  else throw ⟨1, "Calendar download requires an idle mirror transaction"⟩

/-! ## Publication -/

/-- What `RCCalendarNativeGraph` makes of a body. -/
inductive Mapping
  | mapped
  | dateRange (message : String)
  | failed
deriving DecidableEq, Repr

/-- What the native side answers: the mapping of a body of a resource, whether the paths of its
records are found, the calls that the exchange makes on the journal, and its outcome
(`didPublishAll`, or a failure). -/
structure Native where
  requireCurrentMapping : Bool
  map : Int → Bytes → Mapping
  paths : Int → Bytes → Bool
  calls : List Journal.Call
  exchange : Except RCError Bool

/-- An entry of `resources`. -/
structure Published where
  href : Bytes
  etag : Bytes
  body : Bytes
deriving DecidableEq, Repr

def graphFailed (_ : String) : RCError := ⟨1, "Could not build two-way calendar graph"⟩

def twoWayError (_ : String) : RCError := ⟨1, "Two-way state database failed"⟩

/-- What the loop over the resources has gathered. -/
structure Gathered where
  currentMapping : Bool
  dateRangeSkipped : Bool
  resources : List Published

/-- `UPDATE … SET export_status='unsupported'`. -/
def ResourceRow.unsupported (message : String) (r : ResourceRow) : ResourceRow :=
  { r with exportStatus := .unsupported, exportError := some message }

def markUnsupported (id : Int) (message : String) : StoreOf ρ Unit :=
  change twoWayError fun t => t.updateResources (fun r => r.id = id)
    (ResourceRow.unsupported message) (fun _ => rfl) fun _ => rfl

/-- A resource that is mapped, with the body and the entity tag it is published with. -/
def gatherMapped (native : Native) (r : ResourceRow) (etag body : Bytes) (g : Gathered) :
    StoreOf ρ Gathered := do
  gate twoWayError
  if native.paths r.id body then
    pure { g with resources := g.resources ++ [⟨r.href, etag, body⟩] }
  else throw (graphFailed "")

/-- A resource whose current body is not mapped: the body exported before, if there is one. -/
def gatherExported (native : Native) (r : ResourceRow) (g : Gathered) : StoreOf ρ Gathered :=
  match r.exportICal with
  | none => pure g
  | some body =>
    match native.map r.id body with
    | .mapped => gatherMapped native r (r.exportETag.getD []) body g
    | _ => throw ⟨1, "Could not reconstruct retained calendar graph"⟩

/-- One round of the loop over the resources. -/
def gather (native : Native) (g : Gathered) (r : ResourceRow) : StoreOf ρ Gathered := do
  checkCancellation
  let current := { g with currentMapping := false }
  match if r.parseError.isNone then native.map r.id r.rawICal else .failed with
  | .mapped => gatherMapped native r (r.etag.getD []) r.rawICal g
  | .dateRange message => do
    gate twoWayError
    markUnsupported r.id message
    let current := { current with dateRangeSkipped := true }
    if native.requireCurrentMapping then pure current
    else if r.exportICal.isSome then
      throw ⟨1, "Calendar import paused to preserve a previously published event: " ++ message⟩
    else pure current
  | .failed => gatherExported native r current

def ResourceRow.exported (p : Published) (r : ResourceRow) : ResourceRow :=
  { r with exportICal := some p.body, exportETag := some p.etag, exportStatus := .exported
           exportError := none }

def checkpointFailed (_ : String) : RCError :=
  ⟨1, "Could not checkpoint two-way calendar publication"⟩

/-- The checkpoint of one published resource. -/
def checkpointResource (account : Int) (p : Published) : StoreOf ρ Unit := do
  gate checkpointFailed
  change checkpointFailed fun t =>
    t.updateResources (fun r => r.href = p.href && t.owns account r.calendar)
      (ResourceRow.exported p) (fun _ => rfl) fun _ => rfl

def Account.published (generation : Int) (a : Account) : Account :=
  { a with publishedGeneration := generation }

/-- The checkpoint of a full publication. -/
def checkpoint (s : Store) (generation : Int) (resources : List Published) : StoreOf ρ Unit :=
  transaction twoWayError do
    resources.forM (checkpointResource s.account)
    snapshotWriteBases s generation
    change twoWayError fun t => t.updateAccounts (fun a => a.id = s.account)
      (Account.published generation) (fun _ => rfl) fun _ => rfl

/-- A call on `RCCalendarStoreWriteJournal`. -/
def onJournal {α : Type} (x : JournalOf ρ α) : StoreOf ρ α :=
  within Tables.journal (fun j t => { t with journal := j }) x

/-- What the exchange does to the journal: each call may fail. -/
def exchangeCalls (account : Int) : List Journal.Call → StoreOf ρ Unit
  | [] => pure ()
  | q :: qs => do
    let _ ← attempt (onJournal (q.run account))
    exchangeCalls account qs

/-- `RCExchangeCalendars`. -/
def exchangeCalendars (account : Int) (native : Native) : StoreOf ρ Unit := do
  gate twoWayError
  gate graphFailed
  match ← select graphFailed fun t => (t.findAccount account).map Account.generation with
  | none => throw (graphFailed "")
  | some generation =>
    if generation = 0 then throw (graphFailed "")
    else do
      gate graphFailed
      gate graphFailed
      let rows ← select graphFailed fun t => t.resources.rows.filter (t.available account)
      let g ← rows.foldlM (gather native) ⟨true, false, []⟩
      exchangeCalls account native.calls
      match native.exchange with
      | .error e => throw e
      | .ok all =>
        if all && !g.dateRangeSkipped && !(native.requireCurrentMapping && !g.currentMapping) then
          checkpoint ⟨account, 0, false⟩ generation g.resources
        else pure ()

/-! ## Moves and new calendars -/

/-- `[target substringToIndex:slash.location+1]`, the last `/` included. -/
def collectionOf (target : Bytes) : Option Bytes :=
  if 0x2f ∈ target then some (target.reverse.dropWhile (· ≠ 0x2f)).reverse else none

def ResourceRow.moved (calendar : Int) (target etag : Bytes) (r : ResourceRow) : ResourceRow :=
  { r with href := target, calendar := calendar, etag := some etag, exportETag := some etag }

/-- The `UPDATE` of a verified move, and how many rows it changed. -/
def moveRows (account : Int) (source target etag url : Bytes) (t : Tables) :
    Except String (Nat × Tables) :=
  let p : ResourceRow → Bool := fun r => r.href = source && t.owns account r.calendar
  match t.calendars.find? fun c => c.account = account && c.url = url && !c.remoteMissing with
  | none =>
    if t.resources.count p = 0 then .ok (0, t)
    else .error "NOT NULL constraint failed: calendar_resources.calendar_id"
  | some c =>
    match t.resources.reassign p (ResourceRow.moved c.id target etag) (fun _ => rfl) with
    | some resources => .ok (t.resources.count p, { t with resources := resources })
    | none => .error "UNIQUE constraint failed: calendar_resources.calendar_id, href"

def recoveryError : RCError := ⟨1, "Moved calendar resource requires mirror recovery"⟩

/-- `RCCalendarCommitVerifiedMove`: the receipt of the native store, the row of the mirror, the
action and its attention. -/
def commitVerifiedMove (account : Int) (source target etag : Bytes) : StoreOf ρ Unit := do
  let idle ← autocommit
  match collectionOf target with
  | none => throw unset
  | some url =>
    if etagIsStrong (some etag) = false ∨ idle = false then throw unset
    else transaction twoWayError do
      gate fun _ => recoveryError
      let changes ← stmt twoWayError (moveRows account source target etag url)
      if changes ≠ 1 then throw recoveryError
      else do
        gate twoWayError
        gate twoWayError

/-- The commit of a created calendar. -/
def commitCreatedCalendar (account : Int) (target marker : Bytes) (title notes : Option Bytes) :
    StoreOf ρ Unit :=
  transaction twoWayError do
    change twoWayError (addCalendar account target marker title notes)
    gate twoWayError
    gate twoWayError

end CalendarStore
