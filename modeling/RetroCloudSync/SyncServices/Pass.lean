import RetroCloudSync.Exchange.Pass

/-!
# A pass of the Sync Services exchange

`Exchange` of `RCSyncServicesBackend.m`. The journal, the notes for the user and the calendar
operations answer the questions of the native exchange; what Sync Services, the publication
checkpoint and the rows read on the way answer is a `Request`.

The pass collects the records of unresolved writes (`protectPending`) and of unfinished calendar
operations (`protectOperations`) before its session, publishes the mirror graph around them
(`publish`), and saves a checkpoint that keeps what they were (`checkpoint`). What it queues of the
local changes in between (`collectChanges`, `journalChanges`) is the outgoing half.
-/

set_option autoImplicit false

namespace SyncServices

open Library Journal Native TwoWay Calendar Value FieldValue
open Exchange (Context Stop ExchangeM Outgoing cstring items act twoWayTables savePendingFields
  saveIntent saveResource)

variable {V : Type} [GraphValue V]

/-! ## Questions -/

/-- An unresolved write with its receipt; older installations saved no resource. -/
structure Pending (V : Type) where
  href : String
  receipt : Receipt V
  saved : Option (Wire V)

inductive Request (V : Type)
  | dropExclusions
  | prepareDescription (importOnly : String)
  | register
  | canExchange (entity : String)
  | recoverConflicts (byHref : Dict String (Wire V)) (aliases : Dict String String)
  | sessionCheck
  | unresolved
  | published
  | imported
  | beginSession (entities : List String)
  | shouldReplaceAll (entity : String)
  | shouldPushAll (entity : String)
  | clientWantsToPushAll (entities : List String)
  | push (record : Record V) (key : String)
  | delete (key : String)
  | prepareToPull (entities : List String)
  | localDeletes (entities : List String)
  | truth (entities : List String)
  | excluded
  | firstPass
  | ownsIdentity (key : String)
  | exclude (key : String)
  | addAccount
  | clearAttention (root kept : String)
  | cancelSession
  | closeSession
  | savePublished (graph : Graph V)

def Request.Answer : Request V → Type
  | register => Except Stop (Bool × List String)
  | canExchange _ | beginSession _ | shouldReplaceAll _ | shouldPushAll _ | prepareToPull _ |
    firstPass | ownsIdentity _ => Except Stop Bool
  | unresolved => Except Stop (List (Pending V))
  | published | truth _ => Except Stop (Graph V)
  | imported | localDeletes _ | excluded => Except Stop (List String)
  | _ => Except Stop Unit

abbrev Question (V : Type) := Exchange.Question V ⊕ Request V

abbrev Question.Answer : Question V → Type := Sum.elim Exchange.Question.Answer Request.Answer

abbrev SessionM (V : Type) := Prog (Question V) Question.Answer Stop

def orStop {α : Type} : Except Stop α → SessionM V α
  | .ok a => .ret a
  | .error s => .raise s

/-- What the native exchange asks too. -/
def journaled {α : Type} (x : ExchangeM V α) : SessionM V α := x.left

/-- A call that needs nothing but to succeed. -/
def tell (q : Request V) (h : q.Answer = Except Stop Unit) : SessionM V Unit :=
  .ask (.inr q) fun a => orStop (h ▸ a)

def check (q : Request V) (h : q.Answer = Except Stop Bool) : SessionM V Bool :=
  .ask (.inr q) fun a => orStop (h ▸ a)

def strings (q : Request V) (h : q.Answer = Except Stop (List String)) :
    SessionM V (List String) :=
  .ask (.inr q) fun a => orStop (h ▸ a)

def refuse {α : Type} (message : String) : SessionM V α := .raise (.failed ⟨1, message⟩)

/-! ## Records kept out of the session -/

/-- The calendars a record lists. -/
def calendars (r : Option (Record V)) : List String :=
  ((fieldValue r "calendar").bind children).getD []

/-- The resource of the mirror at a write's address, under its native ids. -/
def currentResource (byHref : Dict String (Wire V)) (aliases : Dict String String) (href : String) :
    Option (Wire V) :=
  (byHref.lookup href).map fun r => mapResource r aliases

/-- Every record of a graph, as a receipt has it. -/
def live (graph : Option (Graph V)) : Receipt V :=
  Dict.collect ((graph.getD ∅).keys) fun key => ((graph.getD ∅).lookup key).map some

/-- `pendingGraph`: the newest version of each record of a write. -/
def Pending.newest (o : Pending V) (current : Option (Wire V)) : Receipt V :=
  (o.receipt.update (live (o.saved.map Wire.graph))).update (live (current.map Wire.graph))

/-- The records of one unresolved write, and the calendars they lie in. -/
def protectPending (byHref : Dict String (Wire V)) (aliases : Dict String String)
    (busy : List String) (o : Pending V) : List String :=
  let current := currentResource byHref aliases o.href
  busy ++ o.receipt.keys ++ ((current.map Wire.graph).getD ∅).keys ++
    ((o.saved.map Wire.graph).getD ∅).keys ++
    (o.newest current).entries.flatMap fun e => calendars e.2

/-- `busy`, before the session begins. -/
def protect (c : Context V) (byHref : Dict String (Wire V)) (aliases : Dict String String)
    (resources : List (Wire V)) (graph : Graph V) : SessionM V (List String) := do
  let pending ← .ask (.inr .unresolved) orStop
  let busy := pending.foldl (protectPending byHref aliases) []
  if c.isContact then pure busy
  else journaled (Exchange.protectOperations { c with resources := resources, graph := graph } busy)

/-! ## Registration -/

/-- The entity type without a reverse mapper. -/
def importOnly (c : Context V) : String :=
  if c.isEvent then "com.apple.calendars.Task" else "com.apple.contacts.SmartGroup"

/-- One entity type of the pull. -/
def checkCapability (_ : Unit) (entity : String) : SessionM V Unit := do
  if ← check (.canExchange entity) rfl then pure ()
  else refuse "Two-way registration lacks bidirectional capability for an enabled entity"

/-- The entity types of the client. -/
def register (c : Context V) : SessionM V (List String) := do
  tell (.prepareDescription (importOnly c)) rfl
  let (registered, entities) ← .ask (.inr .register) orStop
  if !registered || entities.isEmpty then refuse "Two-way Sync Services client is unavailable"
  else do
    (entities.filter (· ≠ importOnly c)).foldlM checkCapability ()
    pure entities

/-! ## Publication -/

/-- One resource under its native ids. -/
def mapOne (aliases : Dict String String) (resources : List (Wire V)) (r : Wire V) :
    SessionM V (List (Wire V)) := do
  tell .sessionCheck rfl
  pure (resources ++ [mapResource r aliases])

/-- Identities that are not new native records. -/
def identities (resources : List (Wire V)) (busy : List String) (published : Graph V)
    (aliases : Dict String String) : SessionM V (List String) := do
  let imported ← strings .imported rfl
  pure (resources.map Wire.root ++ busy ++ published.keys ++ aliases.entries.map Sigma.snd ++
    imported.map (stands aliases))

def checkTruthReset (_ : Unit) (entity : String) : SessionM V Unit := do
  if ← check (.shouldReplaceAll entity) rfl then
    refuse "Two-way sync requires recovery from a truth reset; no uploads queued"
  else pure ()

def checkFastSession (_ : Unit) (entity : String) : SessionM V Unit := do
  if ← check (.shouldPushAll entity) rfl then
    refuse "Pending writes require a fast session before resynchronization"
  else pure ()

/-- One record of the mirror graph. -/
def pushRecord (graph : Graph V) (busy : List String) (_ : Unit) (key : String) :
    SessionM V Unit :=
  match graph.lookup key with
  | some record => if busy.contains key then pure () else tell (.push record key) rfl
  | none => pure ()

/-- One record of the last checkpoint. -/
def deleteRecord (graph : Graph V) (busy : List String) (_ : Unit) (key : String) :
    SessionM V Unit :=
  if (graph.lookup key).isNone && !busy.contains key then tell (.delete key) rfl else pure ()

/-- `RCBeginSession`, and what the session must not ask for. -/
def openSession (entities : List String) : SessionM V Unit := do
  if ← check (.beginSession entities) rfl then entities.foldlM checkTruthReset ()
  else refuse "Could not begin two-way sync session"

/-- Everything is to be pushed, unless some records are busy. -/
def choosePush (entities busy : List String) : SessionM V Unit :=
  if busy.isEmpty then tell (.clientWantsToPushAll entities) rfl
  else entities.foldlM checkFastSession ()

/-- The push: the graph around the busy records and, in a fast session, what it no longer has. -/
def publish (graph published : Graph V) (entities busy : List String) : SessionM V Unit := do
  choosePush entities busy
  graph.keys.foldlM (pushRecord graph busy) ()
  if busy.isEmpty then pure () else published.keys.foldlM (deleteRecord graph busy) ()

/-- What is published once the session is over. -/
def checkpoint (graph published : Graph V) (busy : List String) : Graph V :=
  busy.foldl (fun g key => g.put key (published.lookup key)) graph

/-! ## Local changes -/

/-- An event inside an imported calendar belongs to the account, unless its identity is known. -/
def eligible (c : Context V) (graph truth : Graph V) (key : String) : SessionM V Bool :=
  match items truth key "calendar" with
  | [calendar] =>
    if c.isEvent && (graph.lookup calendar).bind entity = some "com.apple.calendars.Calendar" then do
      pure !(← check (.ownsIdentity key) rfl)
    else pure false
  | _ => pure false

/-- A record of the root entity that no identity accounts for. -/
def unknown (c : Context V) (truth : Graph V) (known : List String) (key : String) : Bool :=
  (truth.lookup key).bind entity = some c.rootEntity && !known.contains key

/-- One record of the first pass of an account. -/
def excludeExisting (c : Context V) (graph truth : Graph V) (known excluded : List String)
    (key : String) : SessionM V (List String) := do
  if c.isContact || !unknown c truth known key then pure excluded
  else if ← eligible c graph truth key then pure excluded
  else do
    tell (.exclude key) rfl
    pure (key :: excluded)

/-- The first pass of an account leaves out what the Mac already had. -/
def excludedRecords (c : Context V) (graph truth : Graph V) (known : List String) :
    SessionM V (List String) := do
  let excluded ← strings .excluded rfl
  if ← check .firstPass rfl then do
    journaled Exchange.begin
    let excluded ← truth.keys.foldlM (excludeExisting c graph truth known) excluded
    tell .addAccount rfl
    pure excluded
  else pure excluded

/-- A record of the native store, with the resource it belongs to. -/
abbrev Local (V : Type) := String × Option (Wire V)

/-- The series an exception belongs to. -/
def owned (truth : Graph V) (resources : List (Local V)) (key : String) : Bool :=
  match items truth key "main event" with
  | [parent] => resources.any fun r => r.1 = parent && r.2.isSome &&
      (items truth parent "detached events").contains key
  | _ => false

/-- One new record of the native store; an exception belongs to its master's resource. -/
def collectNew (c : Context V) (truth : Graph V) (known excluded : List String)
    (resources : List (Local V)) (key : String) : SessionM V (List (Local V)) :=
  if !unknown c truth known key || excluded.contains key then pure resources
  else if !c.isContact && items truth key "main event" ≠ [] then
    if owned truth resources key then pure resources
    else do
      journaled (Exchange.attention key "unsupported-detached-parent")
      pure resources
  else pure (resources ++ [(key, none)])

/-- What the transaction of an upload writes. -/
def writeChange (base : Option (Wire V)) (truth : Graph V) (root : String)
    (desired : Outgoing V) : SessionM V Unit := do
  journaled do
    Exchange.pinBase base desired
    let receipt := uploadReceipt ((base.map Wire.graph).getD ∅) truth desired.resource.graph
    let change ← Exchange.newIdentifier
    let operation : Int ← Exchange.journal (.enqueue (some (cstring change))
      (some (cstring desired.resource.key)) (some (cstring desired.resource.href))
      (some (Exchange.uploadKind base truth root).name) ((base.map Wire.revision).getD 0)
      desired.buf)
    saveIntent operation receipt desired.resource.paths desired.fieldScopes
    saveResource operation (base.getD desired.resource)
  tell (.clearAttention root "unsupported-fields") rfl
  journaled Exchange.commit

/-- The edit, creation or deletion to upload, where it can be. -/
def desiredChange (c : Context V) (base : Option (Wire V)) (truth : Graph V) (root : String) :
    Option (Outgoing V) :=
  match base, truth.lookup root with
  | some base, none => Exchange.deletion base truth
  | base, _ => (encodeFields c.encoder base truth root).toOption.map Exchange.outgoing

/-- The native store shows what was published. -/
def untouched (base : Option (Wire V)) (truth : Graph V) : Bool :=
  base.any fun base => graphsEqual base.graph (subgraph truth base.graph.keys)

/-- Queue a local change, or say why not. -/
def queueChange (c : Context V) (truth : Graph V) (root : String) (base : Option (Wire V)) :
    SessionM V Unit :=
  match desiredChange c base truth root with
  | none => journaled (Exchange.attention root "unsupported-local-mapping")
  | some desired => do
    journaled (savePendingFields root desired)
    if base.any fun base => desired.body = some base.body then pure ()
    else do
      journaled Exchange.begin
      writeChange base truth root desired

/-- One record of the native store. -/
def journalChange (c : Context V) (busy deletes : List String) (truth : Graph V) (_ : Unit)
    (r : Local V) : SessionM V Unit := do
  tell .sessionCheck rfl
  if busy.contains r.1 then pure ()
  else if (truth.lookup r.1).isNone && !deletes.contains r.1 then
    journaled (Exchange.attention r.1 "missing-native-delete-receipt")
  else if untouched r.2 truth then do
    if ← journaled (Exchange.pendingFields r.1) then queueChange c truth r.1 r.2 else pure ()
  else queueChange c truth r.1 r.2

/-- What the native store changed since the last session: its truth, the records it deleted, those
to look at, and the busy ones. -/
def collectChanges (c : Context V) (entities known busy : List String) (graph : Graph V)
    (resources : List (Wire V)) :
    SessionM V (Graph V × List String × List (Local V) × List String) := do
  if ← check (.prepareToPull (entities.filter (· ≠ importOnly c))) rfl then do
    let deletes ← strings (.localDeletes (entities.filter (· ≠ importOnly c))) rfl
    let truth ← .ask (.inr (.truth entities)) orStop
    let excluded ← excludedRecords c graph truth known
    let records ← truth.keys.foldlM (collectNew c truth known excluded)
      (resources.map fun r => (r.root, some r))
    let busy ← if c.isContact then pure busy
      else journaled (Exchange.collectOperations c truth graph (records.filterMap Prod.snd) busy)
    pure (truth, deletes, records, busy)
  else refuse "Two-way merge is pending"

/-! ## The pass -/

/-- An exception is reported with the phase it ended. -/
def during {α : Type} (phase : String) (x : SessionM V α) : SessionM V α :=
  x.rescue fun
    | .failed e => .raise (.failed e)
    | .thrown name => refuse
        ("Two-way Sync Services operation failed during " ++ phase ++ " (" ++ name ++ ")")

/-- The alias table, with what verified uploads add to it. -/
def completed (byHref : Dict String (Wire V)) : SessionM V (Dict String String) := do
  let aliases ← during "registration" (journaled (.ask (.other .aliases) Exchange.orStop))
  during "verified-write completion" (journaled (.ask (.complete byHref aliases) Exchange.orStop))

/-- What a session starts from: the mapped resources, the busy records, the last checkpoint and the
known identities. -/
def prepare (c : Context V) (byHref : Dict String (Wire V)) (aliases : Dict String String) :
    SessionM V (List (Wire V) × List String × Graph V × List String) := do
  tell (.recoverConflicts byHref aliases) rfl
  let resources ← c.resources.foldlM (mapOne aliases) []
  let busy ← protect c byHref aliases resources (remap c.graph aliases)
  let published ← .ask (.inr .published) orStop
  let known ← identities resources busy published aliases
  pure (resources, busy, published, known)

/-- The end of a session: every change is journaled before what was published is. -/
def journalChanges (c : Context V) (truth : Graph V) (deletes : List String)
    (records : List (Local V)) (busy : List String) (published : Graph V) : SessionM V Unit := do
  records.foldlM (journalChange c busy deletes truth) ()
  tell .sessionCheck rfl
  tell .cancelSession rfl
  tell (.savePublished published) rfl

/-- From registration to `didPublishAll`. -/
def pass (c : Context V) : SessionM V Bool := do
  let entities ← during "registration" (register c)
  let byHref := Dict.putAll ∅ (c.resources.map fun r => (r.href, r))
  let aliases ← completed byHref
  let graph := remap c.graph aliases
  let (resources, busy, published, known) ← during "conflict recovery" (prepare c byHref aliases)
  during "session start" (openSession entities)
  during "remote graph publication" (publish graph published entities busy)
  let (truth, deletes, records, now) ←
    during "local change collection" (collectChanges c entities known busy graph resources)
  during "local mapping and journaling"
    (journalChanges c truth deletes records now (checkpoint graph published busy))
  pure busy.isEmpty

/-- What is left of a failure. -/
def report : Stop → SessionM V (Except RCError Bool)
  | .failed e => .ret (.error e)
  | .thrown name => .ret (.error ⟨1, name⟩)

/-- What is left of a pass. -/
def outcome (x : SessionM V Bool) : SessionM V (Except RCError Bool) :=
  (x >>= fun all => pure (.ok all)).rescue report

/-- The session is closed whatever happened. -/
def closeSession (result : Except RCError Bool) : SessionM V (Except RCError Bool) :=
  (tell .closeSession rfl >>= fun _ => pure result).rescue fun _ =>
    .ret (.error ⟨1, "Could not close two-way session"⟩)

/-- Two-way contacts include what the Mac already had. -/
def dropExclusions (c : Context V) : SessionM V Unit :=
  if c.isContact then tell .dropExclusions rfl else pure ()

/-- `Exchange`: `didPublishAll` of a pass that went through, or its error. -/
def exchange (c : Context V) : SessionM V (Except RCError Bool) :=
  (do
    journaled twoWayTables
    dropExclusions c
    let result ← outcome (pass c)
    journaled Exchange.rollbackOpen
    closeSession result).rescue report

end SyncServices
