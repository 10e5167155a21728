import RetroCloudSync.Calendar.Alias
import RetroCloudSync.Journal.Unique
import RetroCloudSync.Library.Interaction
import RetroCloudSync.Writer.Attempt

/-!
# What a native exchange works on

`RCNativeExchange` calls a native store, the write journal, the table of calendar operations and
some tables that only carry notes for the user. A pass is a program over these calls (`Question`);
a `World` is what they act on, with what the pass was told: the native resources it owns (`saved`)
and those it does not (`discovered`), its readbacks, and its set of records busy with a calendar
operation.

The assumption about the native store is in `answers`: a readback stays what the store holds
(`readback`) until the pass publishes or removes something.
-/

set_option autoImplicit false

namespace Exchange

open Library Journal Native TwoWay Calendar Value FieldValue

variable {V : Type} [GraphValue V]

/-- A string as SQLite binds it: its bytes up to the first NUL. -/
def cstring (s : String) : Bytes :=
  (s.toList.flatMap String.utf8EncodeChar).takeWhile fun b => b ≠ 0

/-! ## Calendar operations -/

inductive ActionKind
  | create | move
deriving DecidableEq, Repr

inductive ActionState
  | queued | conflict | done
deriving DecidableEq, Repr

/-- `calendar_actions`. -/
structure Action where
  account : Int
  native : String
  kind : ActionKind
  source : Option String
  target : String
  etag : Option String
  body : Option Bytes
  title : Option String
  notes : Option String
  marker : Option String
  state : ActionState
deriving DecidableEq, Repr

/-- `PRIMARY KEY(account_id,native_id)`. -/
def Action.key (a : Action) : Int × String := (a.account, a.native)

/-- `state<>'done'`. -/
def Action.live (a : Action) : Bool := a.state ≠ .done

abbrev Actions := Table Action.key Action.key

/-- `INSERT OR IGNORE`. -/
def addAction (a : Action) (t : Actions) : Actions := (t.insert a).getD t

/-- The rejected operation of a native record. -/
def rejected (account : Int) (native : String) (a : Action) : Bool :=
  a.account = account && a.native = native && a.state = .conflict

/-- `DELETE … AND state='conflict'`. -/
def retire (account : Int) (native : String) (t : Actions) : Actions :=
  t.delete (rejected account native)

/-- The moves the server rejected, with their targets. -/
def conflictMoves (account : Int) (t : Actions) : List (String × String) :=
  (t.rows.filter fun a => a.account = account && a.kind = .move && a.state = .conflict).map
    fun a => (a.native, a.target)

/-- The operations that are not done, with their sources and targets. -/
def liveActions (account : Int) (t : Actions) : List (String × String × String) :=
  (t.rows.filter fun a => a.account = account && a.live).map
    fun a => (a.native, a.source.getD "", a.target)

/-! ## Questions -/

/-- An item of `untrackedResources`. -/
structure Untracked (V : Type) where
  root : String
  graph : Graph V
  detached : Bool

/-- What a receipt or a remembered resource takes its native ids and snapshot from. -/
inductive Owner (V : Type)
  | saved (r : Wire V)
  | untracked (r : Untracked V)

/-- What `RCNativeQueue` uploads; a deletion has no body. -/
structure Outgoing (V : Type) where
  resource : Wire V
  body : Option Bytes
  fieldScopes : Option Scopes
  pendingFields : Dict String (List String)
  knownFields : Dict String (List String)

/-- How a call ends that does not return: with an error, or with an exception. -/
inductive Stop
  | failed (e : RCError)
  | thrown (name : String)
deriving DecidableEq, Repr

/-- `reason IN (names)`, or with `series` also `reason LIKE 'native-series-%'`. -/
structure Reasons where
  names : List String
  series : Bool

/-- Calls that leave the journal, the calendar operations and the native resources alone. -/
inductive Request (V : Type)
  | cancelled
  | twoWayTables
  | createStore
  | syncContainers
  | aliases
  | seriesAttention (saved : Wire V)
  | rememberResource (resource : Wire V) (native : Option (Owner V))
  | untrackedCalendarDeleted (root : String)
  | canPublishResource (resource : Wire V)
  | captureReceipt (receipt : Receipt V) (operation : Int) (scopes : Option Scopes)
      (resource : Option (Owner V))
  | attention (root reason : String)
  | clearAttention (root : String) (reasons : Reasons)
  | savePendingFields (root : String) (desired : Outgoing V)
  | pendingFields (root : String)
  | saveIntent (operation : Int) (receipt : Receipt V) (paths : Dict String String)
      (scopes : Option Scopes)
  | saveResource (operation : Int) (resource : Wire V)
  | retained (href : String)
  | rejectedCreations
  | unresolvedRoots
  | mirrored
  | newIdentifier
  | actionTables
  | actionAccount
  | baseline
  | addBaseline (native : String)
  | addActionAccount
  | collectionURL (native : String)
  | collectionURLs

def Request.Answer : Request V → Type
  | aliases => Except Stop (Dict String String)
  | seriesAttention _ => Except Stop (Option String)
  | untrackedCalendarDeleted _ | pendingFields _ | actionAccount => Except Stop Bool
  | retained _ => Except Stop (Option Int)
  | rejectedCreations | baseline | collectionURLs => Except Stop (List String)
  | unresolvedRoots => Except Stop (List (Option String))
  | mirrored => Except Stop (Option (Int × Option Int))
  | newIdentifier => String
  | collectionURL _ => Option String
  | cancelled => Bool
  | _ => Except Stop Unit

/-- What a pass asks. -/
inductive Question (V : Type)
  | other (q : Request V)
  | complete (byHref : Dict String (Wire V)) (aliases : Dict String String)
  | savedResources
  | readResource (saved : Wire V)
  | publishResource (resource : Wire V)
  | removeResource (saved : Wire V)
  | untrackedResources
  | begin
  | commit
  | rollback
  | autocommit
  | journal (q : Call)
  | nativeBusy (href : String)
  | liveActions
  | conflictMoves
  | retire (native : String)
  | addAction (a : Action)
  | calendarBusy (busy : List String)

def Question.Answer : Question V → Type
  | other q => q.Answer
  | complete .. => Except Stop (Dict String String)
  | savedResources => Except Stop (Dict String (Wire V))
  | readResource _ => Except Stop (Graph V)
  | untrackedResources => Except Stop (List (Untracked V))
  | autocommit => Bool
  | journal q => Except RCError q.Answer
  | nativeBusy _ => Except Stop Bool
  | liveActions => Except Stop (List (String × String × String))
  | conflictMoves => Except Stop (List (String × String))
  | calendarBusy _ => Unit
  | _ => Except Stop Unit

abbrev ExchangeM (V : Type) := Prog (Question V) Question.Answer Stop

/-! ## The world -/

/-- `RCTwoWayContext`, with the host of a URL as `NSURL` reads it. -/
structure Context (V : Type) where
  account : Int
  rootEntity : String
  resources : List (Wire V)
  graph : Graph V
  encoder : Encoder V
  host : String → Option String

def Context.isEvent (c : Context V) : Bool := c.rootEntity = "com.apple.calendars.Event"

def Context.isContact (c : Context V) : Bool := c.rootEntity = "com.apple.contacts.Contact"

structure World (V : Type) where
  conn : Conn Tables
  actions : Actions
  /-- The resources the pass owns, by their root. -/
  saved : Dict String (Wire V)
  /-- The last readback, while the native store has to be what it shows. -/
  readback : Option (Wire V × Graph V)
  /-- The aliases the pass maps the mirror with. -/
  aliases : Dict String String
  /-- What `untrackedResources` found. -/
  discovered : List (Untracked V)
  /-- `calendarBusy`. -/
  calendarBusy : List String

/-- `saved` was just read back as `truth`. -/
def World.observe (w : World V) (saved : Wire V) (truth : Graph V) : World V :=
  { w with readback := some (saved, truth) }

/-- The query of `RCNativeBusy`. -/
def nativeBusy (account : Int) (href : String) (t : Tables) : Bool :=
  t.operations.any fun o => o.account = account && o.href = cstring href && o.unresolved

/-- How the surroundings answer a pass of `c`. -/
def answers (c : Context V) (w : World V) : (q : Question V) → q.Answer → World V → Prop
  | .other _, _, w' => w' = w
  | .complete .., a, w' => match a with
    | .ok aliases => ∃ conn actions,
        w' = { w with conn := conn, actions := actions, readback := none, aliases := aliases }
    | .error _ => ∃ conn actions, w' = { w with conn := conn, actions := actions, readback := none }
  | .savedResources, a, w' => match a with
    | .ok saved => (∀ root s, saved.lookup root = some s → s.root = root) ∧
        w' = { w with saved := saved, readback := none, discovered := [] }
    | .error _ => w' = w
  | .readResource saved, a, w' => match a with
    | .ok truth => w' = w.observe saved truth
    | .error _ => w' = w
  | .publishResource _, _, w' => w' = { w with readback := none }
  | .removeResource _, _, w' => w' = { w with readback := none }
  | .untrackedResources, a, w' => match a with
    | .ok l => w' = { w with discovered := l }
    | .error _ => w' = w
  | .begin, a, w' => match a with
    | .ok _ => w.conn.undo = [] ∧ w' = { w with conn := w.conn.push }
    | .error _ => w' = w
  | .commit, a, w' => match a with
    | .ok _ => w' = { w with conn := w.conn.commit }
    | .error _ => w' = w
  | .rollback, _, w' => w' = { w with conn := w.conn.rollback } ∨ w' = w
  | .autocommit, a, w' => a = w.conn.autocommit ∧ w' = w
  | .journal q, a, w' => ∃ faults, a = answer (q.run c.account) w.conn faults ∧
      w' = { w with conn := after (q.run c.account) w.conn faults }
  | .nativeBusy href, a, w' => w' = w ∧
      ∀ b, a = (.ok b : Except Stop Bool) → b = Exchange.nativeBusy c.account href w.conn.now
  | .liveActions, a, w' => w' = w ∧ ∀ l, a = (.ok l : Except Stop (List (String × String × String))) →
      l = Exchange.liveActions c.account w.actions
  | .conflictMoves, a, w' => w' = w ∧ ∀ l, a = (.ok l : Except Stop (List (String × String))) →
      l <+: Exchange.conflictMoves c.account w.actions
  | .retire native, a, w' => w' = { w with actions := Exchange.retire c.account native w.actions } ∨
      (a ≠ (.ok () : Except Stop Unit) ∧ w' = w)
  | .addAction x, a, w' => w' = { w with actions := Exchange.addAction x w.actions } ∨
      (a ≠ (.ok () : Except Stop Unit) ∧ w' = w)
  | .calendarBusy busy, _, w' => w' = { w with calendarBusy := busy }

end Exchange
