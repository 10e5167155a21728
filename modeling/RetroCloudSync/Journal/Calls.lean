import RetroCloudSync.Library.Transaction
import RetroCloudSync.Journal.Tables
import Mathlib.Algebra.Ring.Int.Defs
import Mathlib.Algebra.Ring.Nat

/-!
# The calls of the write journal

`RCWriteJournal.c`, one definition a function. Every `sqlite3_prepare_v2`, `sqlite3_step` and
`sqlite3_exec` is a point where the engine may refuse; a refusal has no effect of its own. The
two calls that join an outer transaction (`Enqueue`, `ResolveConflict`) run in a savepoint.

Arguments are checked into structures that carry what the check established: an `Intent` for
`Enqueue`, an `Outcome` for `RecordResult`, a `Decision` for `ResolveConflict`.
-/

set_option autoImplicit false

namespace Journal

open Library Library.Tx

/-- A call on an engine whose refusals are `ρ`. -/
abbrev JournalOf (ρ : Type) := TxOf ρ RCError Tables

abbrev JournalM := Tx RCError Tables

variable {ρ : Type} [Engine ρ]

/-- `fail`: the engine's own message. -/
def fail (m : String) : RCError := ⟨1, "Write journal database error: " ++ m⟩

def prepare : JournalOf ρ Unit := gate fail

/-- `prepare`, bind and `sqlite3_step` of a query, failing with `fail`. -/
def query {α : Type} (f : Tables → α) : JournalOf ρ α := do
  prepare
  select fail f

/-- `outsideTransaction`. -/
def outsideTransaction : JournalOf ρ Unit := do
  if ← autocommit then pure ()
  else throw ⟨1, "Write journal operation requires a committed transaction"⟩

/-- An `UPDATE` that must change exactly one row, and reports `e` when it does not. -/
def updateOne (e : RCError) (f : Tables → Nat × Tables) : JournalOf ρ Unit := do
  prepare
  let n ← stmt (fun _ => e) fun t => .ok (f t)
  if n = 1 then pure () else throw e

/-- `UPDATE write_operations SET f WHERE p`, with `sqlite3_changes`. -/
def updateOperations (p : Operation → Bool) (f : Operation → Operation)
    (hf : ∀ o, (f o).id = o.id) (hf' : ∀ o, (f o).change = o.change) (t : Tables) : Nat × Tables :=
  (t.operations.count p, { t with operations := t.operations.update p f hf hf' })

/-- A row inserted, or the constraint it violates. -/
def insertOperation (o : Operation) (t : Tables) : Except String (Int × Tables) :=
  match t.operations.insert o with
  | some ops => .ok (o.id, { t with operations := ops })
  | none => .error "UNIQUE constraint failed: write_operations.account_id, write_operations.change_id"

/-! ## Bases and new operations -/

/-- `RCWriteJournalSetBase`. -/
def setBase (account : Int) (key href etag : Option Bytes) (body : Buf) (revision : Int) :
    JournalOf ρ Unit := do
  match key, href, body with
  | some key, some href, .data body =>
    if key = [] ∨ href = [] ∨ body = [] ∨ INT_MAX < body.length ∨ revision ≤ 0 then
      throw ⟨1, "Invalid published write base"⟩
    else do
      prepare
      stmt fail fun t =>
        .ok ((), { t with bases := t.bases.replace ⟨account, key, href, etag, body, revision⟩ })
  | _, _, _ => throw ⟨1, "Invalid published write base"⟩

/-- What `Enqueue` asks for, once its arguments passed both checks. -/
structure Intent where
  changeID : Bytes
  resourceKey : Bytes
  href : Bytes
  kind : Kind
  localRevision : Int
  desiredBody : Option Bytes
  named : changeID ≠ [] ∧ resourceKey ≠ []
  https : ascii "https://" <+: href
  bodied : (desiredBody = none ↔ kind = .delete) ∧ desiredBody ≠ some []
  revised : if kind = .create then localRevision = 0 else 0 < localRevision

/-- The argument checks of `RCWriteJournalEnqueue`. -/
def Intent.check (change key href kind : Option Bytes) (revision : Int) (body : Buf) :
    Except RCError Intent :=
  match change, key, href, kind.bind Kind.ofName with
  | some change, some key, some href, some kind =>
    if hn : (change ≠ [] ∧ key ≠ []) ∧ ascii "https://" <+: href ∧ body.len ≤ INT_MAX then
      match hb : kind.desired body with
      | some desired =>
        if hr : if kind = .create then revision = 0 else 0 < revision then
          .ok ⟨change, key, href, kind, revision, desired, hn.1, hn.2.1, Kind.desired_some hb, hr⟩
        else .error ⟨1, "Outgoing operation has no valid body or base revision"⟩
      | none => .error ⟨1, "Outgoing operation has no valid body or base revision"⟩
    else .error ⟨1, "Invalid outgoing operation"⟩
  | _, _, _, _ => .error ⟨1, "Invalid outgoing operation"⟩

/-- The stored operation is the one `i` describes. -/
def Intent.matches (i : Intent) (o : Operation) : Bool :=
  o.resourceKey = i.resourceKey && o.href = i.href && o.kind = i.kind &&
    o.localRevision = i.localRevision && o.desiredBody.getD [] = i.desiredBody.getD []

/-- The base of a create is absent, any other is exactly the one the edit started from. -/
def Intent.pinned (i : Intent) : Option Base → Bool
  | none => i.kind = .create
  | some b => i.kind ≠ .create && b.href = i.href && etagIsStrong b.etag &&
      b.localRevision = i.localRevision

/-- The row `Enqueue` inserts. -/
def Intent.row (i : Intent) (account id : Int) (base : Option Base) : Operation where
  id := id
  account := account
  changeID := i.changeID
  resourceKey := i.resourceKey
  href := i.href
  kind := i.kind
  state := .queued
  localRevision := i.localRevision
  baseETag := base.bind Base.etag
  baseBody := base.map Base.body
  desiredBody := i.desiredBody
  attempts := 0
  retryAt := 0
  httpStatus := none
  resultETag := none
  resultBody := none

def findBase (account : Int) (key : Bytes) (t : Tables) : Option Base :=
  t.bases.find? fun b => b.account = account && b.resourceKey = key

def findChange (account : Int) (change : Bytes) (t : Tables) : Option Operation :=
  t.operations.find? fun o => o.account = account && o.changeID = change

/-- Whether the resource has an operation that is neither acknowledged nor cancelled. -/
def occupied (account : Int) (key href : Bytes) (t : Tables) : Bool :=
  t.operations.any fun o =>
    o.account = account && (o.resourceKey = key || o.href = href) && o.unresolved

/-- `RCWriteJournalEnqueue`. -/
def enqueue (account : Int) (change key href kind : Option Bytes) (revision : Int) (body : Buf) :
    JournalOf ρ Int :=
  match Intent.check change key href kind revision body with
  | .error e => throw e
  | .ok i => savepoint fail do
    match ← query (findChange account i.changeID) with
    | some o =>
      if i.matches o then pure o.id
      else throw ⟨1, "Local change identifier was reused for a different operation"⟩
    | none =>
      if ← query (occupied account i.resourceKey i.href) then
        throw ⟨1, "Resource already has an unresolved write"⟩
      else
        if i.pinned (← query (findBase account i.resourceKey)) then do
          prepare
          stmt fail fun t =>
            insertOperation
              (i.row account (newRowid t.operations) (findBase account i.resourceKey t)) t
        else throw ⟨1, "Write requires the exact published base and a strong ETag"⟩

/-! ## Reading operations -/

/-- The row an id names for this account. -/
def findOperation (account id : Int) (t : Tables) : Option Operation :=
  t.operations.find? fun o => o.account = account && o.id = id

/-- `RCWriteJournalGet`. -/
def get (account id : Int) : JournalOf ρ Operation := do
  prepare
  match ← select (fun _ => ⟨1, "Outgoing operation is unavailable for this account"⟩)
      (findOperation account id) with
  | none => throw ⟨1, "Outgoing operation is unavailable for this account"⟩
  | some o => do
    gate fun _ => ⟨1, "Out of memory reading outgoing operation"⟩
    pure o

theorem runs_get {account id : Int} {c : Conn Tables} {o : Operation}
    (h : findOperation account id c.now = some o) : Tx.runs (get account id) c o c := by
  refine Tx.runs_bind Tx.runs_gate (Tx.runs_bind (Tx.runs_select _) ?_)
  rw [h]
  exact Tx.runs_bind Tx.runs_gate (Tx.runs_pure _)

/-- `SELECT id … WHERE p ORDER BY id LIMIT 1`, and 0 when there is none. -/
def firstId (p : Operation → Bool) (t : Tables) : Int :=
  ((t.operations.rows.filter p).map Operation.id).min?.getD 0

/-- `RCWriteJournalNext`. -/
def next (account now : Int) : JournalOf ρ Int :=
  query (firstId fun o =>
    o.account = account && (o.state = .queued || o.state = .uncertain) && o.retryAt ≤ now)

/-- `EXISTS(SELECT 1 FROM write_attention WHERE operation_id=id)`. -/
def attended (id : Int) (t : Tables) : Bool := t.attention.any fun a => a.operation = id

/-- `RCWriteJournalNextConflict`. -/
def nextConflict (account : Int) : JournalOf ρ Int :=
  query fun t => firstId (fun o =>
    o.account = account && o.state = .conflict && !attended o.id t) t

/-- `RCWriteJournalRecoveryNext`. -/
def recoveryNext (account after : Int) : JournalOf ρ Int :=
  query fun t => firstId (fun o =>
    o.account = account && after < o.id && !attended o.id t &&
      (o.state = .conflict ||
        (o.state = .applied && t.resolutions.any fun r => r.successor = o.id))) t

/-! ## Attempts and their outcome -/

/-- The delay before the next attempt, in seconds. -/
def retryDelay (attempts : Nat) : Int := if attempts < 10 then 5 * 2 ^ attempts else 3600

/-- The columns `BeginAttempt` sets. -/
def Operation.attempted (now : Int) (o : Operation) : Operation :=
  { o with state := .uncertain, retryAt := now + retryDelay o.attempts,
           attempts := o.attempts + 1, httpStatus := none, resultETag := none, resultBody := none }

/-- The rows `BeginAttempt` selects. -/
def Operation.due (account id now : Int) (o : Operation) : Bool :=
  o.account = account && o.id = id && (o.state = .queued || o.state = .uncertain) &&
    o.retryAt ≤ now

/-- `RCWriteJournalBeginAttempt`. -/
def beginAttempt (account id now : Int) : JournalOf ρ Unit :=
  if now < 0 ∨ LLONG_MAX - 3600 < now then throw ⟨1, "Invalid outgoing attempt time"⟩
  else do
    outsideTransaction
    updateOne ⟨1, "Outgoing operation is not due or cannot be attempted"⟩
      (updateOperations (Operation.due account id now) (Operation.attempted now)
        (fun _ => rfl) fun _ => rfl)

/-- What `RecordResult` records, once its arguments passed the check. -/
structure Outcome where
  state : OpState
  status : Int
  etag : Option Bytes
  body : Option Bytes
  proper : state = .uncertain ∨ state = .applied ∨ state = .conflict
  evident : state = .applied → status ≠ 404 →
    etagIsStrong etag = true ∧ body ≠ none ∧ body ≠ some []

/-- The three states `RecordResult` accepts, by `strcmp`. -/
def OpState.ofResult (s : Bytes) : Option OpState :=
  if s = OpState.uncertain.name then some .uncertain
  else if s = OpState.applied.name then some .applied
  else if s = OpState.conflict.name then some .conflict
  else none

theorem OpState.ofResult_some {s : Bytes} {st : OpState} (h : OpState.ofResult s = some st) :
    st = .uncertain ∨ st = .applied ∨ st = .conflict := by
  revert h
  unfold OpState.ofResult
  split_ifs <;> simp +contextual [eq_comm]

/-- The argument check of `RCWriteJournalRecordResult`. -/
def Outcome.check (state : Option Bytes) (status : Int) (etag : Option Bytes) (body : Buf) :
    Except RCError Outcome :=
  match hs : state.bind OpState.ofResult with
  | none => .error ⟨1, "Invalid outgoing write result"⟩
  | some st =>
    if body.len ≤ INT_MAX ∧ (body.column = none → body.len = 0) then
      if he : st = .applied → status ≠ 404 →
          etagIsStrong etag = true ∧ body.column ≠ none ∧ body.column ≠ some [] then
        .ok ⟨st, status, etag, body.column, by
          obtain ⟨s, rfl, hs⟩ := Option.bind_eq_some_iff.1 hs
          exact OpState.ofResult_some hs, he⟩
      else .error ⟨1, "Invalid outgoing write result"⟩
    else .error ⟨1, "Invalid outgoing write result"⟩

/-- The columns `RecordResult` sets. -/
def Outcome.record (r : Outcome) (o : Operation) : Operation :=
  { o with state := r.state, httpStatus := some r.status, resultETag := r.etag,
           resultBody := r.body }

/-- The rows `RecordResult` selects: an application is believed only on its own evidence. -/
def Outcome.fits (r : Outcome) (account id : Int) (o : Operation) : Bool :=
  o.account = account && o.id = id && o.state = .uncertain &&
    (r.state ≠ .applied || (o.kind = .delete && r.status = 404) ||
      (o.kind ≠ .delete && r.status = 200))

/-- `RCWriteJournalRecordResult`. -/
def recordResult (account id : Int) (state : Option Bytes) (status : Int) (etag : Option Bytes)
    (body : Buf) : JournalOf ρ Unit :=
  match Outcome.check state status etag body with
  | .error e => throw e
  | .ok r => do
    outsideTransaction
    updateOne ⟨1, "Outgoing write result cannot be recorded in this state"⟩
      (updateOperations (r.fits account id) r.record (fun _ => rfl) fun _ => rfl)

/-! ## Closing an operation -/

def Operation.closed (s : OpState) (o : Operation) : Operation := { o with state := s }

/-- A successor whose mirror was not yet committed. -/
def pendingMirror (id : Int) (t : Tables) : Bool :=
  t.resolutions.any fun r => r.successor = id && !r.mirrorCommitted

/-- `terminal`: the acknowledgement (`ack`) or the cancellation of an operation. -/
def terminal (account id : Int) (ack : Bool) : JournalOf ρ Unit :=
  updateOne ⟨1, "Outgoing operation cannot be acknowledged or cancelled in this state"⟩
    (if ack then fun t => updateOperations (fun o =>
        o.account = account && o.id = id && (o.state = .applied || o.state = .acknowledged) &&
          !pendingMirror o.id t) (Operation.closed .acknowledged) (fun _ => rfl) (fun _ => rfl) t
      else updateOperations (fun o =>
        o.account = account && o.id = id &&
          (o.state = .queued || o.state = .conflict || o.state = .cancelled))
        (Operation.closed .cancelled) (fun _ => rfl) fun _ => rfl)

/-- `RCWriteJournalAcknowledge`. -/
def acknowledge (account id : Int) : JournalOf ρ Unit := terminal account id true

/-- `RCWriteJournalCancel`. -/
def cancel (account id : Int) : JournalOf ρ Unit := terminal account id false

/-! ## Conflicts -/

/-- A decision on a conflict, once the arguments of `ResolveConflict` passed the check. -/
structure Decision where
  kind : Kind
  desiredBody : Option Bytes
  receipt : Bytes
  bodied : (desiredBody = none ↔ kind = .delete) ∧ desiredBody ≠ some []
  receipted : receipt ≠ []

/-- The argument check of `RCWriteJournalResolveConflict`. -/
def Decision.check (kind : Option Bytes) (body receipt : Buf) : Except RCError Decision :=
  match kind.bind Kind.ofName, receipt with
  | some kind, .data receipt =>
    if hr : receipt ≠ [] ∧ receipt.length ≤ INT_MAX ∧ body.len ≤ INT_MAX then
      match hb : kind.desired body with
      | some desired => .ok ⟨kind, desired, receipt, Kind.desired_some hb, hr.1⟩
      | none => .error ⟨1, "Invalid conflict resolution"⟩
    else .error ⟨1, "Invalid conflict resolution"⟩
  | _, _ => .error ⟨1, "Invalid conflict resolution"⟩

/-- The stored successor carries out this very decision. -/
def Decision.matches (d : Decision) (next : Operation) : Bool :=
  next.kind = d.kind && next.desiredBody.getD [] = d.desiredBody.getD []

/-- The conflict has an observed revision the decision can be pinned to. -/
def Decision.usable (d : Decision) (old : Operation) : Bool :=
  old.state = .conflict &&
    (d.kind ≠ .delete || old.status ≠ 404 || (etagIsStrong old.baseETag && 0 < old.localRevision)) &&
    (if old.status = 404 then d.kind = .create || d.kind = .delete
     else old.status = 200 && etagIsStrong old.resultETag && old.resultBody.getD [] ≠ [] &&
      d.kind ≠ .create)

/-- The base the successor is pinned to. -/
def Decision.base (d : Decision) (old : Operation) : Option Bytes × Option Bytes :=
  if old.status = 404 then
    if d.kind = .delete then (old.baseETag, old.baseBody) else (none, none)
  else (old.resultETag, old.resultBody)

/-- `"resolution:%lld"`. -/
def resolutionChange (id : Int) : Bytes := ascii "resolution:" ++ ascii (toString id)

/-- The row `ResolveConflict` inserts. -/
def Decision.row (d : Decision) (account id : Int) (old : Operation) : Operation where
  id := id
  account := account
  changeID := resolutionChange old.id
  resourceKey := old.resourceKey
  href := old.href
  kind := d.kind
  state := .queued
  localRevision := if old.status = 404 ∧ d.kind ≠ .delete then 0 else old.localRevision
  baseETag := (d.base old).1
  baseBody := (d.base old).2
  desiredBody := d.desiredBody
  attempts := 0
  retryAt := 0
  httpStatus := none
  resultETag := none
  resultBody := none

def findResolution (id : Int) (t : Tables) : Option Resolution :=
  t.resolutions.find? fun r => r.operation = id

def insertResolution (r : Resolution) (t : Tables) : Except String (Unit × Tables) :=
  match t.resolutions.insert r with
  | some rs => .ok ((), { t with resolutions := rs })
  | none => .error "UNIQUE constraint failed: write_resolutions"

def deleteAttention (id : Int) (t : Tables) : Tables :=
  { t with attention := t.attention.delete fun a => a.operation = id }

def differs : RCError := ⟨1, "Conflict already has a different resolution"⟩

/-- `RCWriteJournalResolveConflict`. -/
def resolveConflict (account id : Int) (kind : Option Bytes) (body receipt : Buf) :
    JournalOf ρ Int :=
  match Decision.check kind body receipt with
  | .error e => throw e
  | .ok d => savepoint fail do
    let old ← get account id
    match ← query (findResolution id) with
    | some r =>
      if r.receipt = d.receipt then do
        let next ← mapError (fun _ => differs) (get account r.successor)
        if d.matches next then pure r.successor else throw differs
      else throw differs
    | none =>
      if d.usable old then do
        prepare
        let successor ← stmt fail fun t =>
          insertOperation (d.row account (newRowid t.operations) old) t
        prepare
        stmt fail (insertResolution ⟨id, successor, d.receipt, false⟩)
        cancel account id
        prepare
        stmt fail fun t => .ok ((), deleteAttention id t)
        pure successor
      else throw ⟨1, "Conflict has no usable remote revision for this decision"⟩

/-- A diagnostic reason code: lower-case letters and dashes. -/
def isReasonCode (r : Bytes) : Bool := r.all fun c => (0x61 ≤ c && c ≤ 0x7a) || c = 0x2d

/-- `RCWriteJournalConflictAttention`. -/
def conflictAttention (account id : Int) (reason : Option Bytes) : JournalOf ρ Unit :=
  if reason = some [] ∨ 80 < (reason.getD []).length then throw ⟨1, "Invalid attention reason"⟩
  else if ¬ isReasonCode (reason.getD []) then
    throw ⟨1, "Attention requires a diagnostic reason code"⟩
  else do
    let o ← get account id
    if o.state = .conflict then do
      prepare
      stmt fail fun t => .ok ((), match reason with
        | some r => { t with attention := t.attention.replace ⟨id, r⟩ }
        | none => deleteAttention id t)
    else throw ⟨1, "Attention requires a conflicted operation"⟩

/-! ## Resolutions -/

/-- The resolution whose successor is this operation of the account. -/
def findReceipt (account id : Int) (t : Tables) : Option Resolution :=
  t.resolutions.find? fun r =>
    t.operations.any fun o => o.id = r.successor && o.account = account && o.id = id

/-- `RCWriteJournalResolutionReceipt`. -/
def resolutionReceipt (account id : Int) : JournalOf ρ (Bytes × Bool) := do
  prepare
  match ← select (fun _ => ⟨1, "Resolution receipt is unavailable"⟩) (findReceipt account id) with
  | none => throw ⟨1, "Resolution receipt is unavailable"⟩
  | some r => do
    gate fun _ => ⟨1, "Resolution receipt is unavailable"⟩
    pure (r.receipt, r.mirrorCommitted)

/-- The resolutions whose successor is this applied operation of the account. -/
def mirrorable (account id : Int) (t : Tables) (r : Resolution) : Bool :=
  t.operations.any fun o =>
    o.id = r.successor && o.account = account && o.id = id && o.state = .applied

def Resolution.mirrored (r : Resolution) : Resolution := { r with mirrorCommitted := true }

def markMirrored (account id : Int) (t : Tables) : Nat × Tables :=
  let p := mirrorable account id t
  (t.resolutions.count p,
    { t with resolutions := t.resolutions.update p Resolution.mirrored (fun _ => rfl) fun _ => rfl })

/-- `RCWriteJournalResolutionMirrored`. -/
def resolutionMirrored (account id : Int) : JournalOf ρ Unit := do
  if ← autocommit then throw ⟨1, "Mirror checkpoint must join the mirror transaction"⟩
  else updateOne ⟨1, "Resolution is not ready for mirror completion"⟩ (markMirrored account id)

end Journal
