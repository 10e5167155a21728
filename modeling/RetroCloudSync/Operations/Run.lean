import RetroCloudSync.Operations.Commit

/-!
# A pass over the queued operations

`RCCalendarRunOperations`: each queued creation or move is tried against the server and verified by
reading it back. A pass is a program that asks its surroundings for the database, for requests to
the server and for the error it reports; nothing is assumed about the answers here.

A move is judged by two reads, of its source and of its target (`judge`). Before it is sent, the
source has to be what was saved in the action (`unchanged`).
-/

set_option autoImplicit false

namespace Operations

open Library Library.Tx Journal Exchange
open CalendarStore (twoWayError)

/-! ## Questions -/

/-- The fields of `RCHTTPResponse` that are read, their texts as strings. -/
structure Response where
  statusCode : Int
  effectiveURL : Option String
  etag : Option String
  body : Option Bytes
deriving DecidableEq, Repr

/-- A MOVE as it goes out: `Destination`, `If-Match` and `Overwrite`. -/
structure MoveRequest where
  source : Bytes
  destination : Bytes
  ifMatch : Cond Bytes
  overwrite : Bool
deriving DecidableEq

/-- What a pass asks. -/
inductive Question
  | actionTables
  | autocommit
  | queued
  | cancelled
  | created (target marker : String)
  | mkcalendar (m : Writer.Mutation)
  | get (url : String)
  | move (m : MoveRequest)
  | commitMove (root source target etag : String) (body : Option Bytes)
  | commitCreated (a : Action)
  | rollbackOpen
  | markConflict (native : String)
  | errorSet
  | setError (e : RCError)
  | clearError

def Question.Answer : Question → Type
  | actionTables | autocommit | cancelled | created .. | commitMove .. | commitCreated _ | errorSet =>
    Bool
  | queued => Option (List Action)
  | get _ => Option Response
  | _ => Unit

abbrev OperationsM := Prog Question Question.Answer Empty

def setError (e : RCError) : OperationsM Unit := .ask (.setError e) .ret

/-! ## Statements -/

section
variable {V : Type}

/-- The rows of the pass. -/
def queuedActions (account : Int) (t : Actions) : List Action :=
  t.rows.filter fun a => a.account = account && a.state = .queued

def inState (state : ActionState) (a : Action) : Action := { a with state := state }

theorem inState_key (state : ActionState) (a : Action) : (inState state a).key = a.key := rfl

def setState (account : Int) (native : String) (state : ActionState) (t : Tables V) : Tables V :=
  let actions := t.actions.update (fun a => a.account = account && a.native = native)
    (inState state) (inState_key state) (inState_key state)
  { t with actions := actions }

/-- `INSERT OR REPLACE INTO two_way_attention`. -/
def addAttention (a : Attention) (t : Tables V) : Tables V :=
  { t with attention := t.attention.replace a }

/-- The statements for a conflict, each by itself. -/
def recordConflict (account : Int) (native : String) : TablesM V Unit := do
  stmt twoWayError fun t => .ok ((), setState account native .conflict t)
  stmt twoWayError fun t => .ok ((), addAttention ⟨account, native, "calendar-move-conflict"⟩ t)

/-- `INSERT OR REPLACE INTO two_way_aliases SELECT …`. -/
def aliasCalendar (account : Int) (url : Bytes) (native : String) (t : Tables V) : Tables V :=
  match t.mirror.calendars.find? fun c => c.account = account && c.url = url with
  | none => t
  | some c =>
    let aliases := t.aliases.replace ⟨account, "calendar-" ++ asciiText c.syncID, native⟩
    { t with aliases := aliases }

def insertCalendar (account : Int) (a : Action) (t : Tables V) : Tables V :=
  let mirror := CalendarStore.addCalendar account (cstring a.target) (cstring (a.marker.getD ""))
    (a.title.map cstring) (a.notes.map cstring) t.mirror
  { t with mirror := mirror }

/-- The commit of a created calendar; a failure leaves the transaction open. -/
def commitCreated (account : Int) (a : Action) : TablesM V Unit := do
  begin twoWayError
  stmt twoWayError fun t => .ok ((), insertCalendar account a t)
  stmt twoWayError fun t => .ok ((), aliasCalendar account (cstring a.target) a.native t)
  stmt twoWayError fun t => .ok ((), setState account a.native .done t)
  commit twoWayError

end

/-! ## Creation -/

/-- `EscapeXML`. -/
def escapeXML (text : Option String) : String :=
  String.join ((text.getD "").toList.map fun c =>
    if c = '&' then "&amp;" else if c = '<' then "&lt;" else if c = '>' then "&gt;"
    else String.singleton c)

@[irreducible]
def creationBody (a : Action) : Bytes :=
  cstring ("<c:mkcalendar xmlns:c='urn:ietf:params:xml:ns:caldav' xmlns:d='DAV:' " ++
    "xmlns:r='urn:retrocloudsync'><d:set><d:prop><d:displayname>" ++ escapeXML a.title ++
    "</d:displayname><c:calendar-description>" ++ escapeXML a.notes ++
    "</c:calendar-description><r:creation-id>" ++ a.marker.getD "" ++
    "</r:creation-id></d:prop></d:set></c:mkcalendar>")

/-- `RCHTTPClientConditionalRequest` for a new calendar. -/
def mkcalendar (a : Action) : OperationsM Unit :=
  if Writer.validMutation .mkcalendar (some (creationBody a)) none true then
    .ask (.mkcalendar ⟨.mkcalendar, cstring a.target, some (ascii "application/xml"),
      some (creationBody a), .absent⟩) .ret
  else setError ⟨1, "Invalid conditional DAV mutation"⟩

/-- `Created`. -/
def created (a : Action) : OperationsM Bool := .ask (.created a.target (a.marker.getD "")) .ret

/-- The server has the calendar, or has it now. -/
def createCalendar (a : Action) : OperationsM Bool := do
  if ← created a then pure true
  else do
    mkcalendar a
    created a

def runCreation (a : Action) : OperationsM Bool := do
  if ← createCalendar a then .ask (.commitCreated a) .ret else pure false

/-! ## Moves -/

/-- `Get`. -/
def get (url : String) : OperationsM (Option Response) :=
  .ask (.get url) fun r => .ret (r.filter fun r => r.effectiveURL = some url)

/-- The source, and then the target. -/
def readBoth (source target : String) : OperationsM (Option (Response × Response)) := do
  match ← get source with
  | none => pure none
  | some before => do
    match ← get target with
    | none => pure none
    | some response => pure (some (before, response))

def holdsBody (body : Option Bytes) (r : Response) : Bool := r.body.getD [] = body.getD []

/-- The source is the version saved in the action. -/
def unchanged (a : Action) (before : Response) : Bool :=
  some (before.etag.getD "") = a.etag && holdsBody a.body before

structure Outcome where
  done : Bool
  conflict : Bool

/-- The source is gone and the target has the saved bytes. -/
def arrived (a : Action) (before response : Response) : Bool :=
  before.statusCode = 404 && response.statusCode = 200 &&
    etagIsStrong (response.etag.map cstring) && holdsBody a.body response

/-- What the last reads say about a move. -/
def judge (a : Action) (source : String) : Option (Response × Response) → OperationsM Outcome
  | none => pure ⟨false, false⟩
  | some (before, response) =>
    if arrived a before response then
      .ask (.commitMove a.native source a.target (response.etag.getD "") a.body) fun done =>
        .ret ⟨done, false⟩
    else pure ⟨false, response.statusCode = 200 && before.statusCode = 200⟩

/-- `RCHTTPClientMove`; `valid` is `RCValidateDestination` with the host suffix of the client. -/
def clientMove (valid : String → Bool) (source target etag : String) : OperationsM Unit :=
  if etagIsStrong (some (cstring etag)) && !(cstring target).contains 0x0d &&
      !(cstring target).contains 0x0a && valid target then
    .ask (.move ⟨cstring source, cstring target, .tagged (cstring etag), false⟩) .ret
  else setError ⟨1, "Invalid conditional MOVE"⟩

/-- A move whose source was read as `before` and whose target as `response`. -/
def tryMove (valid : String → Bool) (a : Action) (source : String) (before response : Response) :
    OperationsM Outcome :=
  if before.statusCode = 200 ∧ response.statusCode = 404 then
    if unchanged a before then do
      clientMove valid source a.target (a.etag.getD "")
      let read ← readBoth source a.target
      judge a source read
    else pure ⟨false, true⟩
  else judge a source (some (before, response))

def runMove (valid : String → Bool) (a : Action) : OperationsM Outcome :=
  match a.source with
  | none => pure ⟨false, false⟩
  | some source => do
    match ← readBoth source a.target with
    | none => pure ⟨false, false⟩
    | some (before, response) => tryMove valid a source before response

/-! ## The pass -/

def runAction (valid : String → Bool) (a : Action) : OperationsM Outcome :=
  if a.kind = .create then do
    let done ← runCreation a
    pure ⟨done, false⟩
  else runMove valid a

def settle (a : Action) (outcome : Outcome) : OperationsM Unit :=
  .ask .rollbackOpen fun _ =>
    if outcome.conflict then .ask (.markConflict a.native) .ret else .ret ()

def awaiting : RCError := ⟨1, "Calendar creation or move awaits server verification"⟩

/-- The end of the pass. -/
def finish (all : Bool) : OperationsM Unit :=
  if all then .ask .clearError .ret
  else .ask .errorSet fun (set : Bool) => if set then .ret () else setError awaiting

/-- The loop over the actions, with whether all were done so far and how many. -/
def runActions (valid : String → Bool) : List Action → Bool → Nat → OperationsM (Bool × Nat)
  | [], all, verified => do
    finish all
    pure (all, verified)
  | a :: rest, all, verified =>
    .ask .cancelled fun (stop : Bool) =>
      if stop then .ret (false, verified)
      else do
        let outcome ← runAction valid a
        settle a outcome
        runActions valid rest (all && outcome.done) (if outcome.done then verified + 1 else verified)

/-- `RCCalendarRunOperations`, with the value of `verified`. -/
def runOperations (valid : String → Bool) : OperationsM (Bool × Nat) :=
  .ask .actionTables fun (ready : Bool) =>
    if ready then .ask .autocommit fun (idle : Bool) =>
      if idle then .ask .queued fun
        | some actions => runActions valid actions true 0
        | none => .ret (false, 0)
      else .ret (false, 0)
    else .ret (false, 0)

end Operations
