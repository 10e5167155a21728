import RetroCloudSync.CalendarStore.Component
import RetroCloudSync.Dav.SyncState

/-!
# The tables of the calendar store

The schema of `RCCalendarStore.c`, beside the write journal and the sync tokens that the same
database holds. Each table has its key and its `UNIQUE` constraint; a `NOT NULL` column is no
`Option`. The foreign keys always hold: a row is inserted only under one that was just found or
inserted. Times of day are left out.

`history` is no table. It notes the accepted bodies that rows were given and the rows that were
pruned, newest first and with the `UPDATE` of the row, to say what the projection tables are compared
with; a rollback takes it back with the rest.
-/

set_option autoImplicit false

namespace CalendarStore

open Library Journal

/-! ## Rows -/

/-- `accounts`. -/
structure Account where
  id : Int
  username : Bytes
  syncID : Bytes
  generation : Int
  publishedGeneration : Int
deriving DecidableEq, Repr

/-- `sync_runs`. -/
structure SyncRun where
  id : Int
  account : Int
  succeeded : Option Bool
  message : Option String
deriving DecidableEq, Repr

/-- `calendars`. -/
structure Calendar where
  id : Int
  account : Int
  url : Bytes
  displayName : Option Bytes
  description : Option Bytes
  color : Option Bytes
  syncID : Bytes
  seenRun : Option Int
  remoteMissing : Bool
deriving DecidableEq, Repr

/-- `UNIQUE(account_id,url)`. -/
def Calendar.place (c : Calendar) : Int × Bytes := (c.account, c.url)

/-- What `export_status` may say. -/
inductive ExportStatus
  | pending | exported | unsupported | retainedPrevious | outsideHistoryWindow
deriving DecidableEq, Repr

/-- `calendar_resources`. -/
structure ResourceRow where
  id : Int
  calendar : Int
  href : Bytes
  uid : Option Bytes
  etag : Option Bytes
  rawICal : Bytes
  exportICal : Option Bytes
  exportETag : Option Bytes
  parseError : Option String
  exportError : Option String
  exportStatus : ExportStatus
  seenRun : Option Int
  remoteMissing : Bool
  scopeExcluded : Bool
deriving DecidableEq, Repr

/-- `UNIQUE(calendar_id,href)`. -/
def ResourceRow.place (r : ResourceRow) : Int × Bytes := (r.calendar, r.href)

/-- `ical_components`. -/
structure ComponentRow where
  id : Int
  resource : Int
  parent : Option Int
  kind : Bytes
  position : Nat
deriving DecidableEq, Repr

/-- `ical_properties`. -/
structure PropertyRow where
  id : Int
  component : Int
  position : Nat
  name : Bytes
  value : Option Bytes
  valueType : Option Bytes
  text : Option Bytes
deriving DecidableEq, Repr

/-- `ical_parameters`. -/
structure ParameterRow where
  id : Int
  property : Int
  position : Nat
  name : Bytes
  value : Bytes
deriving DecidableEq, Repr

/-- The columns of `events` that only describe it. -/
structure EventColumns where
  summary : Option Bytes
  description : Option Bytes
  location : Option Bytes
  url : Option Bytes
  status : Option Bytes
  classification : Option Bytes
  priority : Int
  sequence : Int
  startValue : Bytes
  startKind : Bytes
  startTZID : Option Bytes
  endValue : Bytes
  endKind : Bytes
  endTZID : Option Bytes
  duration : Option Bytes
  allDay : Bool
deriving DecidableEq, Repr

/-- `events`. -/
structure EventRow where
  component : Int
  resource : Int
  uid : Bytes
  recurrenceID : Bytes
  columns : EventColumns
deriving DecidableEq, Repr

/-- `UNIQUE(resource_id,recurrence_id)`. -/
def EventRow.occurrence (e : EventRow) : Int × Bytes := (e.resource, e.recurrenceID)

/-- A body accepted for a resource, or a row emptied by a prune. -/
inductive Entry
  | accepted (resource : Int) (body : Bytes) (root : Component)
  | pruned (resource : Int)

/-! ## Tables -/

structure Tables where
  accounts : Table Account.id Account.username
  runs : Table SyncRun.id SyncRun.id
  calendars : Table Calendar.id Calendar.place
  resources : Table ResourceRow.id ResourceRow.place
  components : Table ComponentRow.id ComponentRow.id
  properties : Table PropertyRow.id PropertyRow.id
  parameters : Table ParameterRow.id ParameterRow.id
  events : Table EventRow.component EventRow.occurrence
  journal : Journal.Tables
  sync : Dav.SyncTable
  history : List Entry

namespace Tables

def empty : Tables :=
  ⟨.empty, .empty, .empty, .empty, .empty, .empty, .empty, .empty, Journal.Tables.empty, .empty, []⟩

/-! ## Queries -/

def findAccount (t : Tables) (account : Int) : Option Account :=
  t.accounts.find? fun a => a.id = account

def findCalendar (t : Tables) (account : Int) (url : Bytes) : Option Calendar :=
  t.calendars.find? fun c => c.account = account && c.url = url

def findResource (t : Tables) (calendar : Int) (href : Bytes) : Option ResourceRow :=
  t.resources.find? fun r => r.calendar = calendar && r.href = href

/-- `calendar_id IN(SELECT id FROM calendars WHERE account_id=…)`. -/
def owns (t : Tables) (account : Int) (calendar : Int) : Bool :=
  t.calendars.any fun c => c.id = calendar && c.account = account

/-- The calendars of an account that are not missing. -/
def lists (t : Tables) (account : Int) (calendar : Int) : Bool :=
  t.calendars.any fun c => c.id = calendar && c.account = account && !c.remoteMissing

/-- The resources an account makes available. -/
def available (t : Tables) (account : Int) (r : ResourceRow) : Bool :=
  t.lists account r.calendar && !r.remoteMissing && !r.scopeExcluded

end Tables

/-- The body of a resource accepted last, since its row was pruned last. -/
def acceptedBody (resource : Int) : List Entry → Option (Bytes × Component)
  | [] => none
  | .accepted r body root :: rest => if r = resource then some (body, root) else
      acceptedBody resource rest
  | .pruned r :: rest => if r = resource then none else acceptedBody resource rest

end CalendarStore
