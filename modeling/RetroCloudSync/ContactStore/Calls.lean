import RetroCloudSync.ContactStore.Tables

/-!
# The calls of the contact store

`RCContactStore.c`, one definition a function. `Store` is what an open `RCContactStore` remembers
outside the database; `BeginRun` and `FinishRun` are the calls that change it. Every statement is a
point where the engine may refuse. `randomblob` is an argument (`random k` is its `k`-th value in
the call).

A body is stored whole: staged bodies have at most `INT_MAX` bytes, so the cast of their length to
`int` loses nothing.
-/

set_option autoImplicit false

namespace ContactStore

open Library Library.Tx Journal

abbrev StoreM := Tx RCError Tables

/-- `struct RCContactStore`; no run is 0. -/
structure Store where
  account : Int
  activeRun : Int
deriving DecidableEq, Repr

/-- `RCStoreError`. -/
def storeError (operation m : String) : RCError := ⟨resultCode m, operation ++ ": " ++ m⟩

/-- What `RCExecute` reports. -/
def sqlError (m : String) : RCError := ⟨resultCode m, "SQLite error: " ++ m⟩

/-- `RCPrepare`. -/
def prepare : StoreM Unit := gate (storeError "Could not prepare database statement")

/-- A statement that changes the tables, reported as `operation`. -/
def change (operation : String) (f : Tables → Tables) : StoreM Unit := do
  prepare
  stmt (storeError operation) fun t => .ok ((), f t)

/-! ## Updates of one table -/

namespace Tables

def updateCollections (t : Tables) (p : Collection → Bool) (f : Collection → Collection)
    (hf : ∀ c, (f c).id = c.id) (hf' : ∀ c, (f c).place = c.place) : Tables :=
  { t with collections := t.collections.update p f hf hf' }

def updateContacts (t : Tables) (p : Contact → Bool) (f : Contact → Contact)
    (hf : ∀ c, (f c).place = c.place) (hf' : ∀ c, (f c).syncRecordID = c.syncRecordID) : Tables :=
  { t with contacts := t.contacts.update p f hf hf' }

theorem mem_updateContacts {t : Tables} {p : Contact → Bool} {f : Contact → Contact}
    {hf : ∀ c, (f c).place = c.place} {hf' : ∀ c, (f c).syncRecordID = c.syncRecordID}
    {c : Contact} :
    c ∈ (t.updateContacts p f hf hf').contacts ↔
      ∃ x ∈ t.contacts, c = if p x then f x else x := by
  unfold updateContacts
  rw [Table.mem_update]

def updateAccounts (t : Tables) (p : Account → Bool) (f : Account → Account)
    (hf : ∀ a, (f a).id = a.id) (hf' : ∀ a, (f a).name = a.name) : Tables :=
  { t with accounts := t.accounts.update p f hf hf' }

end Tables

/-! ## Opening -/

def addAccount (username random : Bytes) (t : Tables) : Tables :=
  let row : Account := ⟨t.accounts.nextRowid Account.id, username, random, 0, 0⟩
  { t with accounts := t.accounts.insertOrIgnore row }

/-- `RCContactStoreOpen`, from the account on: the row of the account, made if need be. -/
def openAccount (username random : Bytes) : StoreM Int := do
  let failed : String → RCError := fun _ => ⟨1, "Could not open contact database account"⟩
  gate failed
  stmt failed fun t => .ok ((), addAccount username random t)
  gate failed
  match ← select failed fun t =>
      t.accounts.find? fun a => a.name = username.map Resource.upper with
  | some a => if a.syncID.length = 32 then pure a.id else throw (failed "")
  | none => throw (failed "")

/-! ## Publication -/

def findAccount (account : Int) (t : Tables) : Option Account :=
  t.accounts.find? fun a => a.id = account

/-- `RCContactStoreGetPublicationState`. -/
def getPublicationState (s : Store) : StoreM (Int × Int) := do
  if s.activeRun ≠ 0 then throw ⟨1, "Cannot publish an incomplete contact inventory"⟩
  else do
    prepare
    match ← select (storeError "Could not read contact publication state")
        (findAccount s.account) with
    | some a => pure (a.generation, a.publishedGeneration)
    | none => throw (storeError "Could not read contact publication state" "no row")

def Account.published (generation : Int) (a : Account) : Account :=
  { a with publishedGeneration := generation }

/-- The row of `write_bases` that a contact is published as. -/
def Contact.base (account generation : Int) (c : Contact) (body : Bytes) : Base :=
  ⟨account, c.syncRecordID, c.href, c.usableETag, body, generation⟩

/-- The bases of the contacts an account makes available. -/
def snapshot (account generation : Int) (t : Tables) : List Base :=
  t.contacts.rows.filterMap fun c =>
    if t.listed account c.collection && !c.remoteMissing then
      c.usableVCard.map (c.base account generation)
    else none

def clearBases (account : Int) (t : Tables) : Tables :=
  { t with journal.bases := t.journal.bases.delete fun b => b.account = account }

def insertBases (account generation : Int) (t : Tables) : Except String (Unit × Tables) :=
  match t.journal.bases.insertAll (snapshot account generation t) with
  | some bases => .ok ((), { t with journal.bases := bases })
  | none => .error "UNIQUE constraint failed: write_bases.account_id, write_bases.resource_key"

/-- `RCContactStoreMarkPublished`. -/
def markPublished (s : Store) (generation : Int) : StoreM Unit :=
  if s.activeRun ≠ 0 ∨ generation ≤ 0 then
    throw ⟨1, "Cannot acknowledge an incomplete contact inventory"⟩
  else transaction sqlError do
    prepare
    let p : Account → Bool := fun a => a.id = s.account && a.generation = generation
    let changes ← stmt (storeError "Could not acknowledge contact publication") fun t =>
      .ok (t.accounts.count p,
        t.updateAccounts p (Account.published generation) (fun _ => rfl) fun _ => rfl)
    if changes ≠ 1 then throw ⟨1, "Contact inventory changed during publication"⟩
    else do
      change "Could not snapshot contact publication bases" (clearBases s.account)
      prepare
      stmt (storeError "Could not snapshot contact publication bases")
        (insertBases s.account generation)

/-! ## Runs -/

/-- `RCCheckCollection`. -/
def checkCollection (s : Store) (id : Int) : StoreM Unit := do
  let foreign : RCError := ⟨1, "Contact collection does not belong to this account"⟩
  prepare
  if ← select (fun _ => foreign) fun t =>
      t.collections.any fun c => c.id = id && c.account = s.account then pure ()
  else throw foreign

/-- `RCCheckRun`. -/
def checkRun (s : Store) (run : Int) : StoreM Unit :=
  if 0 < run ∧ s.activeRun = run then pure ()
  else throw ⟨1, "Contact inventory is not active"⟩

def insertRun (account : Int) (t : Tables) : Except String (Int × Tables) :=
  match t.runs.insert ⟨t.runs.nextRowid SyncRun.id, account, none, none⟩ with
  | some runs => .ok (t.runs.nextRowid SyncRun.id, { t with runs := runs })
  | none => .error "UNIQUE constraint failed: sync_runs.id"

/-- `RCContactStoreBeginRun`, returning the run identifier. -/
def beginRun (s : Store) : StoreM Int := do
  if s.activeRun ≠ 0 then throw ⟨1, "A contact inventory is already active"⟩
  else do
    prepare
    let run ← stmt (storeError "Could not begin contact run") (insertRun s.account)
    begin sqlError
    pure run

def addCollection (account : Int) (url : Bytes) (displayName : Option Bytes) (t : Tables) :
    Tables :=
  let row : Collection :=
    ⟨t.collections.nextRowid Collection.id, account, url, displayName, none, false⟩
  { t with collections := t.collections.insertOrIgnore row }

def Collection.named (displayName : Option Bytes) (c : Collection) : Collection :=
  { c with displayName := displayName.orElse fun _ => c.displayName }

/-- `RCContactStoreGetCollection`, returning the identifier. -/
def getCollection (s : Store) (url : Bytes) (displayName : Option Bytes) : StoreM Int := do
  change "Could not add collection" (addCollection s.account url displayName)
  change "Could not update collection" fun t =>
    t.updateCollections (fun c => c.url = url && c.account = s.account)
      (Collection.named displayName) (fun _ => rfl) fun _ => rfl
  prepare
  match ← select (storeError "Could not find collection") fun t =>
      t.findCollection s.account url with
  | some c => pure c.id
  | none => throw (storeError "Could not find collection" "no row")

/-- `RCContactStoreResourceIsCurrent`. -/
def resourceIsCurrent (s : Store) (collection : Int) (href : Bytes) (etag : Option Bytes) :
    StoreM Bool := do
  checkCollection s collection
  prepare
  select (storeError "Could not inspect contact ETag") fun t =>
    (t.findContact collection href).any fun c => c.etag.isSome && c.etag = etag

def Contact.seen (run : Int) (c : Contact) : Contact := { c with seenRun := run }

/-- `RCContactStoreKeepCollection`. -/
def keepCollection (s : Store) (collection run : Int) : StoreM Unit := do
  checkRun s run
  checkCollection s collection
  change "Could not retain unchanged contacts" fun t =>
    t.updateContacts (fun c => c.collection = collection && !c.remoteMissing) (Contact.seen run)
      (fun _ => rfl) fun _ => rfl

def Contact.deleted (c : Contact) : Contact := { c with seenRun := 0, remoteMissing := true }

/-- `RCContactStoreSyncDelete`. -/
def syncDelete (s : Store) (collection : Int) (href : Bytes) (run : Int) : StoreM Unit := do
  checkRun s run
  checkCollection s collection
  change "Could not record contact deletion" fun t =>
    t.updateContacts (fun c => c.collection = collection && c.href = href) Contact.deleted
      (fun _ => rfl) fun _ => rfl

def Contact.present (run : Int) (c : Contact) : Contact :=
  { c with seenRun := run, remoteMissing := false }

/-- `RCContactStoreMarkSeen`. -/
def markSeen (s : Store) (collection : Int) (href : Bytes) (run : Int) : StoreM Unit := do
  checkRun s run
  checkCollection s collection
  change "Could not mark contact as seen" fun t =>
    t.updateContacts (fun c => c.collection = collection && c.href = href) (Contact.present run)
      (fun _ => rfl) fun _ => rfl

/-! ## Saving a resource -/

/-- The row a new resource starts as. -/
def newContact (t : Tables) (collection : Int) (href raw : Bytes) (run : Int) (random : Bytes) :
    Contact where
  id := t.contacts.nextRowid Contact.id
  collection := collection
  href := href
  etag := none
  projection := .none
  rawVCard := raw
  usableVCard := none
  usableETag := none
  parseError := none
  syncRecordID := random
  seenRun := run
  remoteMissing := false

/-- The row of a resource, made if need be. -/
def ensureContact (collection : Int) (href raw : Bytes) (run : Int) (random : Bytes)
    (t : Tables) : Tables :=
  { t with contacts := t.contacts.insertOrIgnore (newContact t collection href raw run random) }

/-- The columns that a parsed body fills. -/
def Contact.parsed (run : Int) (etag : Option Bytes) (raw : Bytes) (p : Projection) (c : Contact) :
    Contact :=
  { c with projection := p, etag := etag, rawVCard := raw, usableVCard := some raw,
           usableETag := etag, parseError := none, seenRun := run, remoteMissing := false }

/-- The columns that a body which does not parse fills. -/
def Contact.malformed (run : Int) (etag : Option Bytes) (raw : Bytes) (message : String)
    (c : Contact) : Contact :=
  { c with rawVCard := raw, etag := etag, parseError := some message, seenRun := run,
           remoteMissing := false }

/-- `RCCopyPreviousPropertyIdentifiers` for one property. -/
def previousIdentifier (contact : Int) (p : VCardProperty) (t : Tables) : Option Bytes :=
  (t.properties.find? fun r => r.contact = contact && r.property.position = p.position &&
    r.property.group = p.group && r.property.name = p.name).map PropertyRow.syncRecordID

/-- `RCCopyPreviousPropertyIdentifiers`. -/
def copyPreviousPropertyIdentifiers (contact : Int) (document : VCardDocument) :
    StoreM (List (Option Bytes)) := do
  prepare
  document.properties.mapM fun p =>
    select (storeError "Could not inspect contact property identity") (previousIdentifier contact p)

def insertProperty (contact : Int) (p : VCardProperty) (syncID : Bytes) (t : Tables) :
    Except String (Unit × Tables) :=
  match t.properties.insert ⟨t.properties.nextRowid PropertyRow.id, contact, p, syncID⟩ with
  | some properties => .ok ((), { t with properties := properties })
  | none => .error "UNIQUE constraint failed: contact_properties.sync_record_id"

/-- `RCInsertProperties`, of the properties with their identifiers, from the `k`-th on; the rows of
its parameters and parts are inserted with a property. -/
def insertProperties (contact : Int) (random : Nat → Bytes) :
    Nat → List (VCardProperty × Option Bytes) → StoreM Unit
  | _, [] => pure ()
  | k, (p, syncID) :: rest => do
    stmt (storeError "Could not store parsed vCard property")
      (insertProperty contact p (syncID.getD (random k)))
    insertProperties contact random (k + 1) rest

def deleteProperties (contact : Int) (t : Tables) : Tables :=
  { t with properties := t.properties.delete fun r => r.contact = contact }

/-- `RCContactStoreSaveVCard`. -/
def saveVCard (s : Store) (collection run : Int) (href : Bytes) (etag : Option Bytes)
    (raw : Bytes) (document : VCardDocument) (random : Nat → Bytes) : StoreM Unit := do
  checkRun s run
  checkCollection s collection
  savepointOnce sqlError do
    change "Could not create contact row" (ensureContact collection href raw run (random 0))
    change "Could not update contact row" fun t =>
      t.updateContacts (fun c => c.collection = collection && c.href = href)
        (Contact.parsed run etag raw document.projection) (fun _ => rfl) fun _ => rfl
    prepare
    match ← select (storeError "Could not locate stored contact") fun t =>
        t.findContact collection href with
    | none => throw (storeError "Could not locate stored contact" "no row")
    | some c => do
      let syncIDs ← copyPreviousPropertyIdentifiers c.id document
      change "Could not replace parsed contact properties" (deleteProperties c.id)
      prepare
      prepare
      prepare
      insertProperties c.id random 1 (document.properties.zip syncIDs)

/-- A resource whose body does not parse. -/
def saveMalformed (s : Store) (collection run : Int) (href : Bytes) (etag : Option Bytes)
    (raw : Bytes) (message : String) (random : Nat → Bytes) : StoreM Unit := do
  checkRun s run
  checkCollection s collection
  savepointOnce sqlError do
    change "Could not retain invalid contact resource"
      (ensureContact collection href raw run (random 0))
    change "Could not retain invalid contact resource" fun t =>
      t.updateContacts (fun c => c.collection = collection && c.href = href)
        (Contact.malformed run etag raw message) (fun _ => rfl) fun _ => rfl

/-- `RCContactStoreSaveResource`, returning `parseFailed`. -/
def saveResource (reader : Reader) (s : Store) (collection run : Int) (href : Bytes)
    (etag : Option Bytes) (body : Buf) (random : Nat → Bytes) : StoreM Bool :=
  match reader.parse body with
  | .ok document => do
    saveVCard s collection run href etag (body.column.getD []) document random
    pure false
  | .error e => do
    saveMalformed s collection run href etag (body.column.getD []) e.message random
    pure true

/-! ## The end of a run -/

def Contact.settled (run : Int) (c : Contact) : Contact :=
  { c with remoteMissing := c.seenRun ≠ run }

def Collection.completed (run : Int) (c : Collection) : Collection :=
  { c with lastCompleteRun := some run }

/-- `RCContactStoreFinishCollection`. -/
def finishCollection (s : Store) (collection run : Int) : StoreM Unit := do
  checkRun s run
  checkCollection s collection
  savepointOnce sqlError do
    change "Could not finish collection inventory" fun t =>
      t.updateContacts (fun c => c.collection = collection) (Contact.settled run)
        (fun _ => rfl) fun _ => rfl
    change "Could not finish collection inventory" fun t =>
      t.updateCollections (fun c => c.id = collection) (Collection.completed run)
        (fun _ => rfl) fun _ => rfl

def Collection.settled (run : Int) (c : Collection) : Collection :=
  { c with remoteMissing := c.lastCompleteRun ≠ some run }

def Contact.retired (c : Contact) : Contact := { c with remoteMissing := true }

def Account.generated (run : Int) (a : Account) : Account := { a with generation := run }

/-- What a successful run concludes: collections it did not complete are missing, and all their
contacts with them. -/
def concludeRun (account run : Int) : StoreM Unit := do
  let failed := "Could not finish contact inventory"
  change failed fun t => t.updateCollections (fun c => c.account = account)
    (Collection.settled run) (fun _ => rfl) fun _ => rfl
  change failed fun t => t.updateContacts
    (fun c => t.collections.any fun b => b.id = c.collection && b.account = account &&
      b.remoteMissing)
    Contact.retired (fun _ => rfl) fun _ => rfl
  change failed fun t => t.updateAccounts (fun a => a.id = account) (Account.generated run)
    (fun _ => rfl) fun _ => rfl

def SyncRun.finished (succeeded : Bool) (message : Option Bytes) (r : SyncRun) : SyncRun :=
  { r with succeeded := some succeeded, message := message }

def closeRun (account run : Int) (succeeded : Bool) (message : Option Bytes) (t : Tables) :
    Tables :=
  let runs := t.runs.update (fun r => r.id = run && r.account = account)
    (SyncRun.finished succeeded message) (fun _ => rfl) fun _ => rfl
  { t with runs := runs }

/-- `RCContactStoreFinishRun`. -/
def finishRun (s : Store) (run : Int) (succeeded : Bool) (message : Option Bytes) :
    StoreM Unit := do
  checkRun s run
  orRollback (if succeeded then do
      concludeRun s.account run
      change "Could not finish contact inventory" (closeRun s.account run true message)
      commit sqlError
    else do
      rollback sqlError
      change "Could not finish contact inventory" (closeRun s.account run false message))

/-! ## The write journal and the sync tokens of the store -/

/-- A call on `RCContactStoreWriteJournal`. -/
def onJournal {α : Type} (x : JournalM α) : StoreM α :=
  within Tables.journal (fun j t => { t with journal := j }) x

/-- A call on `RCContactStoreDAVSyncState`. -/
def onSyncState {α : Type} (x : Dav.SyncM α) : StoreM α :=
  within Tables.sync (fun y t => { t with sync := y }) x

end ContactStore
