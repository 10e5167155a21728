import RetroCloudSync.CalendarStore.Project

/-!
# The calls of the calendar store

`RCCalendarStore.c`, one definition a function. `Store` is what an open `RCCalendarStore` remembers
outside the database. Every statement is a point where the engine may refuse. `RCFind` does not tell
a refusal from an answer without rows (`findValue`).

How many pages are free is not in the tables: after a prune there may be a `VACUUM` or not, which
changes no row, and a refusal there is one of the `VACUUM`.
-/

set_option autoImplicit false

namespace CalendarStore

open Library Library.Tx Journal

variable {ρ : Type} [Engine ρ]

/-- `RCCalendarStore`; no run is 0. -/
structure Store where
  account : Int
  run : Int
  scopedRun : Bool
deriving DecidableEq, Repr

/-- A failure that leaves the error as it was. -/
def unset : RCError := ⟨0, ""⟩

/-- A statement that changes the tables. -/
def change (fail : String → RCError) (f : Tables → Tables) : StoreOf ρ Unit :=
  stmt fail fun t => .ok ((), f t)

/-- `RCFind`: -1 when there is no row, and when the engine refuses, with a rollback or without. -/
def findValue (f : Tables → Option Int) : StoreOf ρ Int := do
  let found ← find f
  pure (found.getD (-1))

/-- What the tables hold; no statement. -/
def peek {α : Type} (f : Tables → α) : StoreOf ρ α := fun s => .ok (f s.conn.now) s

/-- A word on what happened; no statement. -/
def note (l : List Entry) : StoreOf ρ Unit := fun s =>
  .ok () { s with conn.now.history := l ++ s.conn.now.history }

/-! ## Updates of one table -/

namespace Tables

def updateCalendars (t : Tables) (p : Calendar → Bool) (f : Calendar → Calendar)
    (hf : ∀ c, (f c).id = c.id) (hf' : ∀ c, (f c).place = c.place) : Tables :=
  { t with calendars := t.calendars.update p f hf hf' }

def updateResources (t : Tables) (p : ResourceRow → Bool) (f : ResourceRow → ResourceRow)
    (hf : ∀ r, (f r).id = r.id) (hf' : ∀ r, (f r).place = r.place) : Tables :=
  { t with resources := t.resources.update p f hf hf' }

theorem mem_updateResources {t : Tables} {p : ResourceRow → Bool} {f : ResourceRow → ResourceRow}
    {hf : ∀ r, (f r).id = r.id} {hf' : ∀ r, (f r).place = r.place} {r : ResourceRow} :
    r ∈ (t.updateResources p f hf hf').resources ↔
      ∃ x ∈ t.resources, r = if p x then f x else x := by
  unfold updateResources
  rw [Table.mem_update]

def updateAccounts (t : Tables) (p : Account → Bool) (f : Account → Account)
    (hf : ∀ a, (f a).id = a.id) (hf' : ∀ a, (f a).username = a.username) : Tables :=
  { t with accounts := t.accounts.update p f hf hf' }

/-- `DELETE FROM ical_components WHERE` the resource is among `p`, with everything that refers to
the rows deleted. A child belongs to the resource of its parent, so that no more components go. -/
def deleteComponents (t : Tables) (p : Int → Bool) : Tables :=
  let gone (component : Int) : Bool := t.components.any fun c => c.id = component && p c.resource
  let orphan (property : Int) : Bool :=
    t.properties.any fun r => r.id = property && gone r.component
  { t with components := t.components.delete fun c => p c.resource
           properties := t.properties.delete fun r => gone r.component
           parameters := t.parameters.delete fun r => orphan r.property
           events := t.events.delete fun e => gone e.component }

end Tables

/-! ## Runs -/

def insertRun (account : Int) (t : Tables) : Except String (Int × Tables) :=
  match t.runs.insert ⟨t.runs.nextRowid SyncRun.id, account, none, none⟩ with
  | some runs => .ok (t.runs.nextRowid SyncRun.id, { t with runs := runs })
  | none => .error "UNIQUE constraint failed: sync_runs.id"

/-- `RCCalendarStoreBeginScopedRun`, returning the store with its run. -/
def beginScopedRun (s : Store) (window : Bool) : StoreOf ρ Store := do
  if s.run ≠ 0 then throw ⟨1, "Calendar fetch already active"⟩
  else do
    let run ← stmt sqlError (insertRun s.account)
    begin sqlError
    pure { s with run := run, scopedRun := window }

/-- `RCDAVCollection`, as far as the store reads it. -/
structure DAVCollection where
  url : Bytes
  displayName : Option Bytes
  description : Option Bytes
  color : Option Bytes
deriving DecidableEq, Repr

def addCalendar (account : Int) (url syncID : Bytes) (displayName description : Option Bytes)
    (t : Tables) : Tables :=
  let row : Calendar := ⟨t.calendars.nextRowid Calendar.id, account, url, displayName, description,
    none, syncID, none, false⟩
  { t with calendars := t.calendars.insertOrIgnore row }

def Calendar.listed (run : Int) (c : DAVCollection) (r : Calendar) : Calendar :=
  { r with displayName := some (c.displayName.getD (ascii "Calendar"))
           description := c.description, color := c.color, seenRun := some run
           remoteMissing := false }

/-- `RCCalendarStoreCollection`, returning the identifier. -/
def collection (s : Store) (c : DAVCollection) (random : Bytes) : StoreOf ρ Int := do
  change sqlError (addCalendar s.account c.url random none none)
  change sqlError fun t =>
    t.updateCalendars (fun r => r.account = s.account && r.url = c.url) (Calendar.listed s.run c)
      (fun _ => rfl) fun _ => rfl
  let identifier ← findValue fun t => (t.findCalendar s.account c.url).map Calendar.id
  if 0 < identifier then pure identifier else throw unset

def ResourceRow.seen (run : Int) (r : ResourceRow) : ResourceRow :=
  { r with seenRun := some run, remoteMissing := false, scopeExcluded := false }

/-- `calendar_id=… AND href=… AND etag=… AND length(raw_ical)>0`. -/
def ResourceRow.current (calendar : Int) (href etag : Bytes) (r : ResourceRow) : Bool :=
  r.calendar = calendar && r.href = href && r.etag = some etag && 0 < r.rawICal.length

/-- `RCCalendarStoreSeen`, returning `current`. -/
def seen (s : Store) (calendar : Int) (href etag : Bytes) : StoreOf ρ Bool := do
  let count ← findValue fun t => some (t.resources.count (ResourceRow.current calendar href etag))
  if count = 1 then do
    change sqlError fun t =>
      t.updateResources (fun r => r.calendar = calendar && r.href = href) (ResourceRow.seen s.run)
        (fun _ => rfl) fun _ => rfl
    pure true
  else pure false

/-! ## Saving a resource -/

def duplicateUID : RCError := ⟨1, "Duplicate calendar UID in remote inventory"⟩

/-- Another resource of the calendar that has the UID and is not missing. -/
def Tables.holder (t : Tables) (calendar : Int) (uid : Bytes) (resource : Int) :
    Option ResourceRow :=
  t.resources.find? fun r =>
    r.calendar = calendar && r.uid = some uid && r.id ≠ resource && !r.remoteMissing

/-- The row that a body with this UID belongs to: a row found by its UID alone is a rename. -/
def claimUID (s : Store) (calendar : Int) (uid : Bytes) (resource : Int) : StoreOf ρ Int := do
  let other ← findValue fun t => (t.holder calendar uid resource).map ResourceRow.id
  if 0 < other then
    if 0 < resource then throw duplicateUID
    else do
      let seenRun ← findValue fun t =>
        (t.resources.find? fun r => r.id = other).map fun r => r.seenRun.getD 0
      if seenRun = s.run then throw duplicateUID else pure other
  else pure resource

def newResource (id calendar : Int) (href : Bytes) : ResourceRow where
  id := id
  calendar := calendar
  href := href
  uid := none
  etag := none
  rawICal := []
  exportICal := none
  exportETag := none
  parseError := none
  exportError := none
  exportStatus := .pending
  seenRun := none
  remoteMissing := false
  scopeExcluded := false

def insertResource (calendar : Int) (href : Bytes) (t : Tables) : Except String (Int × Tables) :=
  let id := t.resources.nextRowid ResourceRow.id
  match t.resources.insert (newResource id calendar href) with
  | some resources => .ok (id, { t with resources := resources })
  | none => .error "UNIQUE constraint failed: calendar_resources.calendar_id, href"

/-- The columns that a download fills; `uid` keeps its value when there is none. -/
def ResourceRow.saved (run : Int) (href : Bytes) (etag : Option Bytes) (raw : Bytes)
    (parseError : Option String) (uid : Option Bytes) (r : ResourceRow) : ResourceRow :=
  { r with href := href, etag := etag, rawICal := raw, parseError := parseError
           uid := uid.orElse fun _ => r.uid, seenRun := some run, remoteMissing := false
           scopeExcluded := false, exportStatus := .pending }

/-- The `UPDATE` of a save. The row is there: it was just found or inserted. -/
def updateSaved (resource : Int) (f : Bytes → ResourceRow → ResourceRow)
    (hf : ∀ raw r, (f raw r).id = r.id) (body : Buf) (t : Tables) :
    Except String (Unit × Tables) :=
  match body.column with
  | none => .error "NOT NULL constraint failed: calendar_resources.raw_ical"
  | some raw =>
    match t.resources.reassign (fun r => r.id = resource) (f raw) (hf raw) with
    | some resources => .ok ((), { t with resources := resources })
    | none => .error "UNIQUE constraint failed: calendar_resources.calendar_id, href"

def saveError (m : String) : RCError := ⟨1, "Could not save calendar resource: " ++ m⟩

/-- What a save knows of its body: the tree with its UID, or why there is none. -/
abbrev Parsed := Except RCError (Component × Bytes)

/-- The message kept in `parse_error`. -/
def Parsed.message : Parsed → Option String
  | .ok _ => none
  | .error e => some e.message

def Parsed.uid : Parsed → Option Bytes
  | .ok (_, uid) => some uid
  | .error _ => none

/-- The row of the href, or of the UID. -/
def findRow (s : Store) (calendar : Int) (href : Bytes) (uid : Option Bytes) : StoreOf ρ Int := do
  let found ← findValue fun t => (t.findResource calendar href).map ResourceRow.id
  match uid with
  | some uid => claimUID s calendar uid found
  | none => pure found

/-- The row found, or a new one. -/
def ensureRow (calendar : Int) (href : Bytes) (found : Int) : StoreOf ρ Int :=
  if found < 0 then stmt sqlError (insertResource calendar href) else pure found

/-- The word on the body that a row has got. -/
def Parsed.entries (resource : Int) (body : Buf) : Parsed → List Entry
  | .ok (root, _) => [.accepted resource (body.column.getD []) root]
  | .error _ => []

/-- The rows of an accepted body in the place of those there were. -/
def replaceRows (resource : Int) : Parsed → StoreOf ρ Unit
  | .ok (root, _) => do
    change sqlError fun t => t.deleteComponents fun r => r = resource
    storeComponent resource 0 0 root
  | .error _ => pure ()

/-- `RCCalendarStoreSave`. -/
def save (reader : Reader) (s : Store) (calendar : Int) (href : Bytes) (etag : Option Bytes)
    (body : Buf) : StoreOf ρ Unit := do
  let parsed : Parsed := reader.accept body
  let found ← findRow s calendar href parsed.uid
  let resource ← ensureRow calendar href found
  gate saveError
  stmt saveError (updateSaved resource
    (fun raw => ResourceRow.saved s.run href etag raw parsed.message parsed.uid) (fun _ _ => rfl)
    body)
  note (parsed.entries resource body)
  replaceRows resource parsed

/-! ## The end of a run -/

/-- `seen_run IS NULL OR seen_run!=…`. -/
def missed (run : Int) (seenRun : Option Int) : Bool := seenRun ≠ some run

def ResourceRow.settled (window : Bool) (run : Int) (r : ResourceRow) : ResourceRow :=
  if window then { r with scopeExcluded := missed run r.seenRun }
  else { r with scopeExcluded := false, remoteMissing := missed run r.seenRun }

theorem ResourceRow.settled_id (window : Bool) (run : Int) (r : ResourceRow) :
    (r.settled window run).id = r.id := by cases window <;> rfl

theorem ResourceRow.settled_place (window : Bool) (run : Int) (r : ResourceRow) :
    (r.settled window run).place = r.place := by cases window <;> rfl

def Calendar.settled (run : Int) (c : Calendar) : Calendar :=
  { c with remoteMissing := missed run c.seenRun }

def Account.generated (run : Int) (a : Account) : Account := { a with generation := run }

/-- What a successful run concludes. A time-range query cannot establish a remote deletion. -/
def conclude (s : Store) : StoreOf ρ Unit := do
  change sqlError fun t => t.updateResources (fun r => t.owns s.account r.calendar)
    (ResourceRow.settled s.scopedRun s.run) (ResourceRow.settled_id _ _)
    (ResourceRow.settled_place _ _)
  change sqlError fun t => t.updateCalendars (fun c => c.account = s.account)
    (Calendar.settled s.run) (fun _ => rfl) fun _ => rfl
  change sqlError fun t => t.updateAccounts (fun a => a.id = s.account)
    (Account.generated s.run) (fun _ => rfl) fun _ => rfl

def concludeRun (s : Store) : StoreOf ρ Unit := do
  conclude s
  commit sqlError

def SyncRun.finished (succeeded : Bool) (message : Option String) (r : SyncRun) : SyncRun :=
  { r with succeeded := some succeeded, message := message }

def closeRun (run : Int) (succeeded : Bool) (message : Option String) (t : Tables) : Tables :=
  let runs := t.runs.update (fun r => r.id = run) (SyncRun.finished succeeded message)
    (fun _ => rfl) fun _ => rfl
  { t with runs := runs }

/-- `RCCalendarStoreFinishRun` of a run that is active. -/
def finishRun (s : Store) (success : Bool) (message : Option String) : StoreOf ρ Unit := do
  let outcome ← attempt (orRollback (if success then concludeRun s else throw unset))
  change sqlError (closeRun s.run outcome.isOk message)
  match outcome with
  | .ok () => pure ()
  | .error e => throw e

/-! ## Opening -/

/-- The next cached resource whose body did not parse. -/
def nextCached (account last : Int) (t : Tables) : Option ResourceRow :=
  (t.resources.rows.filter fun r => t.lists account r.calendar && last < r.id &&
    r.parseError.isSome && !r.remoteMissing && !r.scopeExcluded).minOn? ResourceRow.id

def ResourceRow.retried (seenRun : Option Int) (r : ResourceRow) : ResourceRow :=
  { r with seenRun := seenRun, exportError := none }

def reparseFailed (_ : String) : RCError := ⟨1, "Could not reparse cached calendar resources"⟩

/-- One resource that parses now: its save, kept only when its body is accepted. -/
def reparseResource (reader : Reader) (s : Store) (row : ResourceRow) : StoreOf ρ Unit := do
  control sqlError Conn.push
  let saved ← attempt (save reader s row.calendar row.href row.etag (.data row.rawICal))
  match saved with
  | .error e => do
    inside sqlError "no such savepoint: reparse_calendar" Conn.restore
    throw e
  | .ok () => do
    let accepted ← findValue fun t =>
      (t.resources.find? fun r => r.id = row.id && r.parseError.isNone).map ResourceRow.id
    if accepted < 0 then inside sqlError "no such savepoint: reparse_calendar" Conn.restore
    else do
      change sqlError fun t => t.updateResources (fun r => r.id = row.id)
        (ResourceRow.retried row.seenRun) (fun _ => rfl) fun _ => rfl
      inside sqlError "no such savepoint: reparse_calendar" Conn.release

/-- One cached resource. -/
def reparseRow (reader : Reader) (s : Store) (row : ResourceRow) : StoreOf ρ Unit :=
  match reader.parse (.data row.rawICal) with
  | .error _ => pure ()
  | .ok _ => reparseResource reader s row

/-- `RCReparseCachedResources` from the ids above `last` on; each round takes a larger id, so that
the number of resources is fuel enough. -/
def reparseCachedResources (reader : Reader) (s : Store) : Nat → Int → StoreOf ρ Unit
  | 0, _ => pure ()
  | fuel + 1, last => do
    gate reparseFailed
    match ← select reparseFailed (nextCached s.account last) with
    | none => pure ()
    | some row => do
      reparseRow reader s row
      reparseCachedResources reader s fuel row.id

def addAccount (username random : Bytes) (t : Tables) : Tables :=
  let row : Account := ⟨t.accounts.nextRowid Account.id, username, random, 0, 0⟩
  { t with accounts := t.accounts.insertOrIgnore row }

/-- `RCCalendarStoreOpen`, from the account on; a failure closes the database. -/
def openAccount (reader : Reader) (username random : Bytes) : StoreOf ρ Int :=
  orRollback do
    change sqlError (addAccount username random)
    let account ← findValue fun t =>
      (t.accounts.find? fun a => a.username = username).map Account.id
    if account < 0 then throw ⟨1, "Could not find calendar account"⟩
    else do
      let n ← peek fun t => t.resources.rows.length
      reparseCachedResources reader ⟨account, 0, false⟩ (n + 1) 0
      pure account

/-! ## Publication -/

/-- `'resource-'||id`. -/
def resourceKey (id : Int) : Bytes := ascii ("resource-" ++ toString id)

/-- The row of `write_bases` that a resource is published as. -/
def ResourceRow.base (account generation : Int) (r : ResourceRow) (body : Bytes) : Base :=
  ⟨account, resourceKey r.id, r.href, r.exportETag, body, generation⟩

/-- The bases of the resources an account makes available. -/
def snapshot (account generation : Int) (t : Tables) : List Base :=
  t.resources.rows.filterMap fun r =>
    if t.available account r then r.exportICal.map (r.base account generation) else none

def clearBases (account : Int) (t : Tables) : Tables :=
  { t with journal.bases := t.journal.bases.delete fun b => b.account = account }

def insertBases (account generation : Int) (t : Tables) : Except String (Unit × Tables) :=
  match t.journal.bases.insertAll (snapshot account generation t) with
  | some bases => .ok ((), { t with journal.bases := bases })
  | none => .error "UNIQUE constraint failed: write_bases.account_id, write_bases.resource_key"

/-- `RCCalendarStoreSnapshotWriteBases`. -/
def snapshotWriteBases (s : Store) (generation : Int) : StoreOf ρ Unit := do
  let early : RCError := ⟨1, "Calendar write bases require the publication transaction"⟩
  let idle ← autocommit
  if idle ∨ generation ≤ 0 ∨ s.run ≠ 0 then throw early
  else do
    let current ← findValue fun t => (t.findAccount s.account).map Account.generation
    if current ≠ generation then throw early
    else do
      change sqlError (clearBases s.account)
      stmt sqlError (insertBases s.account generation)

/-! ## History -/

/-- An unresolved write of the resource, by its key or by its href. -/
def Tables.unresolvedWrite (t : Tables) (account : Int) (r : ResourceRow) : Bool :=
  t.journal.operations.any fun w => w.account = account &&
    (w.resourceKey = resourceKey r.id || w.href = r.href) && w.state.unresolved

/-- The rows that `RCCalendarStorePruneHistory` empties. -/
def Tables.prunable (t : Tables) (account : Int) (r : ResourceRow) : Bool :=
  t.owns account r.calendar && r.scopeExcluded && r.exportStatus ≠ .outsideHistoryWindow &&
    !t.unresolvedWrite account r

/-- What `calendar_prune_ids` collects. -/
def Tables.pruneIds (t : Tables) (account : Int) : List Int :=
  (t.resources.rows.filter (t.prunable account)).map ResourceRow.id

def ResourceRow.pruned (r : ResourceRow) : ResourceRow :=
  { r with rawICal := [], exportICal := none, exportETag := none, etag := none
           parseError := none, exportError := none, exportStatus := .outsideHistoryWindow }

/-- Empty the rows whose ids were collected. -/
def emptyRows (account : Int) (ids : List Int) : StoreOf ρ Unit := do
  change sqlError fun t => t.deleteComponents fun r => r ∈ ids
  change sqlError fun t =>
    { t with journal.bases := t.journal.bases.delete fun b =>
        b.account = account && (ids.map resourceKey).contains b.resourceKey }
  change sqlError fun t => t.updateResources (fun r => r.id ∈ ids) ResourceRow.pruned
    (fun _ => rfl) fun _ => rfl
  note (ids.map Entry.pruned)

/-- `RCCalendarStorePruneHistory`. -/
def pruneHistory (s : Store) : StoreOf ρ Unit := do
  let early : RCError := ⟨1, "Calendar history cleanup requires a published inventory"⟩
  let idle ← autocommit
  if s.run ≠ 0 ∨ idle = false then throw early
  else do
    let published ← findValue fun t => some (t.accounts.count fun a =>
      a.id = s.account && 0 < a.generation && a.publishedGeneration = a.generation)
    if published ≠ 1 then throw early
    else do
      transaction sqlError do
        gate sqlError
        gate sqlError
        let ids ← select sqlError fun t => t.pruneIds s.account
        emptyRows s.account ids
        gate sqlError
      -- `VACUUM`, behind the commit
      gate sqlError

end CalendarStore
