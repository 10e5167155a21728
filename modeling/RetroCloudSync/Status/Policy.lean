import Mathlib.Data.Finset.Card
import Mathlib.Data.Finset.Dedup
import Mathlib.Algebra.Ring.Nat

/-!
# The status of an account

`RCStatusEvaluate` of `RCStatusPolicy.c` over a database in which every table it asks for may be
missing (`none`), and in which SQLite may refuse every single statement: a damaged page, a missing
column or a lock strikes one statement and spares the next one on the same table (`Refusals`). A
table that is missing counts as empty; a statement that fails counts as nothing and makes the result
unknown.

`long` is `Int`.
-/

set_option autoImplicit false

namespace Status

/-! ## Tables -/

structure WriteOperation where
  id : Int
  account : Int
  state : String

structure PendingFields where
  account : Int
  root : String

structure Attention where
  account : Int
  record : String

structure CalendarAction where
  account : Int
  state : String

structure WriteAttention where
  operation : Int

/-- A row of `collections` or of `calendars`. -/
structure Mirror where
  id : Int
  account : Int

structure Contact where
  collection : Int
  remoteMissing : Int
  parseError : Option String

structure CalendarResource where
  calendar : Int
  remoteMissing : Int
  scopeExcluded : Int
  parseError : Option String
  exportStatus : Option String

/-- The tables that are asked for. -/
structure Database where
  writeOperations : Option (List WriteOperation)
  twoWayPendingFields : Option (List PendingFields)
  twoWayAttention : Option (List Attention)
  calendarActions : Option (List CalendarAction)
  writeAttention : Option (List WriteAttention)
  collections : Option (List Mirror)
  contacts : Option (List Contact)
  calendars : Option (List Mirror)
  calendarResources : Option (List CalendarResource)

/-- The statements that count. -/
inductive Query
  | unresolved | pendingFields | attention | actions | writeAttention | overlap | mirror | uploaded
deriving DecidableEq, Repr

/-- The statements that SQLite refuses. -/
structure Refusals where
  /-- The look for its table in front of a query. -/
  schema : Query → Bool
  query : Query → Bool
  /-- The looks for the two tables of roots. -/
  fieldsTable : Bool
  attentionTable : Bool

/-- A query is answered, if its tables are there. -/
def Refusals.tells (r : Refusals) (q : Query) : Bool := !r.schema q && !r.query q

variable {R S : Type} (db : Database) (r : Refusals) (account : Int)

/-! ## Queries -/

/-- The rows of a join with a condition. -/
def joinCount (l : List R) (m : List S) (p : R → S → Bool) : Nat :=
  (l.map fun a => m.countP (p a)).sum

def unresolvedQuery : Option Nat :=
  db.writeOperations.map fun os => os.countP fun o =>
    o.account = account && !(["acknowledged", "cancelled"].contains o.state)

def pendingFieldsQuery : Option Nat :=
  db.twoWayPendingFields.map fun ps => ps.countP fun p => p.account = account

def attentionQuery : Option Nat :=
  db.twoWayAttention.map fun as => as.countP fun a => a.account = account

def actionsQuery : Option Nat :=
  db.calendarActions.map fun as => as.countP fun a => a.account = account && a.state ≠ "done"

def writeAttentionQuery : Option Nat :=
  db.writeAttention.bind fun as => db.writeOperations.map fun os =>
    joinCount as os fun a o => o.id = a.operation && o.account = account && o.state = "applied"

def overlapQuery : Option Nat :=
  db.twoWayPendingFields.bind fun ps => db.twoWayAttention.map fun as =>
    joinCount ps as fun p a => a.account = p.account && a.record = p.root && p.account = account

def contactsQuery : Option Nat :=
  db.contacts.bind fun cs => db.collections.map fun bs =>
    joinCount cs bs fun c b =>
      b.id = c.collection && b.account = account && c.remoteMissing = 0 && c.parseError.isSome

def calendarResourcesQuery : Option Nat :=
  db.calendarResources.bind fun rs => db.calendars.map fun cs =>
    joinCount rs cs fun r c =>
      c.id = r.calendar && c.account = account && r.remoteMissing = 0 && r.scopeExcluded = 0 &&
        (r.parseError.isSome || r.exportStatus = some "unsupported" ||
          r.exportStatus = some "retained previous")

def uploadedQuery : Option Nat :=
  db.writeOperations.map fun os => os.countP fun o => o.account = account && o.state = "applied"

/-! ## `RCStatusEvaluate` -/

/-- `HasTable`. -/
def hasTable (refused : Bool) (t : Option R) : Int :=
  if refused then -1 else if t.isSome then 1 else 0

/-- `Count`. -/
def count (q : Query) (t : Option R) (answer : Option Nat) : Int :=
  let present := hasTable (r.schema q) t
  if present ≤ 0 then present
  else if r.query q then -1
  else match answer with
    | some n => n
    | none => -1

inductive Phase
  | stopping | error | attention | uploaded | upToDate
deriving DecidableEq, Repr

inductive Severity
  | yellow | red | green
deriving DecidableEq, Repr

/-- `RCStatusResult`. -/
structure Result where
  pending : Int
  uploaded : Int
  attention : Int
  known : Bool
  phase : Phase
  severity : Severity
  advanceSuccess : Bool
deriving DecidableEq, Repr

/-- The sum so far and whether it is known, and one more number. -/
def addCount (s : Int × Bool) (n : Int) : Int × Bool :=
  if n < 0 then (s.1, false) else (s.1 + n, s.2)

/-- The pending number, and whether it is known. -/
def pendingCount (contacts : Bool) : Int × Bool :=
  let s := [count r .unresolved db.writeOperations (unresolvedQuery db account),
    count r .pendingFields db.twoWayPendingFields (pendingFieldsQuery db account),
    count r .attention db.twoWayAttention (attentionQuery db account),
    count r .actions db.calendarActions (actionsQuery db account),
    count r .writeAttention db.writeAttention (writeAttentionQuery db account)].foldl addCount
      (0, true)
  let fields := hasTable r.fieldsTable db.twoWayPendingFields
  let attention := hasTable r.attentionTable db.twoWayAttention
  let s :=
    if fields < 0 ∨ attention < 0 then (s.1, false)
    else if fields ≠ 0 ∧ attention ≠ 0 then
      let overlap := count r .overlap db.twoWayPendingFields (overlapQuery db account)
      if overlap < 0 then (s.1, false) else (s.1 - overlap, s.2)
    else s
  addCount s (if contacts then count r .mirror db.contacts (contactsQuery db account)
    else count r .mirror db.calendarResources (calendarResourcesQuery db account))

/-- `RCStatusEvaluate`. -/
def evaluate (contacts complete failed stopping : Bool) : Result :=
  let (pending, known) := pendingCount db r account contacts
  let uploaded := count r .uploaded db.writeOperations (uploadedQuery db account)
  let known := if uploaded < 0 then false else known
  let uploaded := if uploaded < 0 then 0 else uploaded
  let attention := pending - uploaded
  let needsAttention := !known || attention ≠ 0 || (!complete && uploaded = 0)
  { pending, uploaded, attention, known
    phase :=
      if stopping then .stopping else if failed then .error else if needsAttention then .attention
      else if uploaded ≠ 0 then .uploaded else .upToDate
    severity :=
      if stopping then .yellow else if failed then .red else if needsAttention then .yellow
      else .green
    advanceSuccess := !stopping && !failed && complete && known && pending = 0 }

end Status
