import RetroCloudSync.Library.Transaction
import RetroCloudSync.Journal.Tables

/-!
# The saved sync tokens

`RCDAVSyncState.c`: the table `dav_sync_state` of a mirror database, one row for each collection of
an account. The table is created with the first row, inside the transaction of the mirror; before
that it counts as empty.
-/

set_option autoImplicit false

namespace Dav

open Library Library.Tx Journal

/-- `dav_sync_state`. -/
structure SyncRow where
  account : Int
  url : Bytes
  token : Option Bytes
  scope : Bytes
  seenRun : Int
deriving DecidableEq, Repr

/-- `PRIMARY KEY(account_id,collection_url)`. -/
def SyncRow.key (r : SyncRow) : Int × Bytes := (r.account, r.url)

abbrev SyncTable := Table SyncRow.key SyncRow.key

abbrev SyncOf (ρ : Type) := TxOf ρ RCError SyncTable

abbrev SyncM := SyncOf String

namespace SyncState

variable {ρ : Type} [Engine ρ]

def fail (m : String) : RCError := ⟨1, "DAV sync state: " ++ m⟩

/-- `prepare`: never outside the transaction of the mirror. -/
def prepare : SyncOf ρ Unit := do
  if ← autocommit then throw ⟨1, "DAV sync state requires the mirror transaction"⟩
  else do
    gate fail
    gate fail

def find (account : Int) (url : Bytes) (t : SyncTable) : Option SyncRow :=
  t.find? fun r => r.account = account && r.url = url

/-- `RCDAVSyncStateLoad`: the token and the scope of a collection, if it has a row. -/
def load (account : Int) (url : Bytes) : SyncOf ρ (Option Bytes × Option Bytes) := do
  gate fail
  gate fail
  match ← select (fun _ => ⟨1, "Could not read durable DAV sync state"⟩) (find account url) with
  | none => pure (none, none)
  | some r => do
    gate fun _ => ⟨1, "Could not read durable DAV sync state"⟩
    pure (r.token, some r.scope)

/-- `RCDAVSyncStateSave`. -/
def save (account : Int) (url : Bytes) (token scope : Option Bytes) (run : Int) : SyncOf ρ Unit := do
  prepare
  stmt fail fun t => .ok ((), t.replace ⟨account, url, token, scope.getD [], run⟩)

/-- `RCDAVSyncStateFinish`: collections that this run did not list lose their tokens. -/
def finish (account run : Int) : SyncOf ρ Unit := do
  prepare
  stmt fail fun t => .ok ((), t.delete fun r => r.account = account && r.seenRun ≠ run)

/-! ## The transaction of the mirror -/

section
variable {P : SyncTable → Prop}

/-- The calls only read and write the table. -/
theorem keeps_prepare : keeps P prepare := by
  refine keeps_bind keeps_autocommit fun idle => ?_
  split
  · exact keeps_throw _
  · exact keeps_bind keeps_gate fun _ => keeps_gate

theorem keeps_load {account : Int} {url : Bytes} : keeps P (load account url) := by
  refine keeps_bind keeps_gate fun _ => keeps_bind keeps_gate fun _ =>
    keeps_bind keeps_select fun r => ?_
  cases r with
  | none => exact keeps_pure _
  | some r => exact keeps_bind keeps_gate fun _ => keeps_pure _

theorem keeps_save {account : Int} {url : Bytes} {token scope : Option Bytes} {run : Int} :
    keeps (fun _ => True) (save account url token scope run) :=
  keeps_bind keeps_prepare fun _ => keeps_stmt fun _ _ _ _ _ => trivial

theorem keeps_finish {account run : Int} : keeps (fun _ => True) (finish account run) :=
  keeps_bind keeps_prepare fun _ => keeps_stmt fun _ _ _ _ _ => trivial

end

end SyncState

end Dav
