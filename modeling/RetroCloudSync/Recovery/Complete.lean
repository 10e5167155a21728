import RetroCloudSync.Library.Interaction
import RetroCloudSync.Library.Run
import RetroCloudSync.Journal.Reach

/-!
# Completing a resolved conflict

`RCConflictComplete` of `RCConflictRecovery.c`: the mirror of a verified successor is saved in one
transaction with its checkpoint, the local edit is accepted outside of any transaction, and only
then the operation is acknowledged. The calls of the journal, the statements on the transaction
and the two callbacks are the questions of a program; `World` is the database they act on.

Of the callbacks only what `RCConflictRecovery.h` asks for is assumed: `saveMirror` writes within
the transaction opened for it, mirror data and bases, and `acceptLocal` writes no database at all.
Each may fail, `saveMirror` also after it wrote. The engine may refuse every statement, and a
`COMMIT` it refuses may have been rolled back. A crash brings back the committed image.
-/

set_option autoImplicit false

namespace Recovery

open Library Journal

/-- What a completion asks. -/
inductive Question
  | autocommit
  | journal (q : Call)
  | begin
  | commit
  | rollback
  | saveMirror (o : Operation)
  | acceptLocal (o : Operation) (receipt : Bytes)

/-- A refused statement answers with the engine's message, `rollback` with the message it leaves. -/
def Question.Answer : Question → Type
  | autocommit => Bool
  | journal q => Except RCError q.Answer
  | begin | commit => Except String Unit
  | rollback => String
  | saveMirror _ | acceptLocal .. => Except RCError Unit

abbrev CompleteM := Prog Question Question.Answer RCError

def orRaise {α : Type} : Except RCError α → CompleteM α
  | .ok a => .ret a
  | .error e => .raise e

def call (q : Call) : CompleteM q.Answer := .ask (.journal q) orRaise

/-- `sqlError`. -/
def sqlError (m : String) : RCError := ⟨1, "Conflict completion database error: " ++ m⟩

def orSqlError : Except String Unit → CompleteM Unit
  | .ok _ => .ret ()
  | .error m => .raise (sqlError m)

/-- `BEGIN IMMEDIATE`. -/
def begin : CompleteM Unit := .ask .begin orSqlError

/-- The callback `saveMirror`. -/
def writeMirror (o : Operation) : CompleteM Unit := .ask (.saveMirror o) orRaise

/-- The callback `acceptLocal`. -/
def acceptLocal (o : Operation) (receipt : Bytes) : CompleteM Unit :=
  .ask (.acceptLocal o receipt) orRaise

def acknowledge (id : Int) : CompleteM Unit := call (.acknowledge id)

/-- The mirror of `o` and its checkpoint, or `ROLLBACK`. -/
def checkpoint (id : Int) (o : Operation) : CompleteM Unit :=
  Prog.rescue
    (do
      writeMirror o
      call (.resolutionMirrored id))
    fun e => .ask .rollback fun _ => .raise e

/-- `COMMIT`, or `ROLLBACK` and the error it leaves. -/
def commit : CompleteM Unit :=
  .ask .commit fun (r : Except String Unit) => match r with
    | .ok _ => .ret ()
    | .error _ => .ask .rollback fun m => .raise (sqlError m)

/-- The transaction of the mirror, unless it was committed before. -/
def saveMirror (id : Int) (o : Operation) (mirrored : Bool) : CompleteM Unit :=
  if mirrored then pure ()
  else do
    begin
    checkpoint id o
    commit

/-- Whether no transaction is open. -/
def autocommit : CompleteM Bool := .ask .autocommit fun (alone : Bool) => .ret alone

/-- From the row and its receipt on. -/
def settle (id : Int) (o : Operation) (receipt : Bytes) (mirrored : Bool) : CompleteM Unit :=
  if o.state = .acknowledged then pure ()
  else if o.state ≠ .applied then .raise ⟨1, "Resolution has no verified remote success"⟩
  else do
    saveMirror id o mirrored
    acceptLocal o receipt
    acknowledge id

/-- `RCConflictComplete`; `callbacks` when both of them are given. -/
def complete (callbacks : Bool) (id : Int) : CompleteM Unit := do
  let alone ← autocommit
  if !alone || !callbacks then
    .raise ⟨1, "Conflict completion requires callbacks outside a transaction"⟩
  else do
    let o ← call (.get id)
    let (receipt, mirrored) ← call (.resolutionReceipt id)
    settle id o receipt mirrored

/-! ## The world -/

/-- The database: `conn` are the tables of the journal, `saves` has one entry for each time
`saveMirror` wrote. They are always in the same transaction. -/
structure Site where
  conn : Conn Tables
  saves : Conn (List Int)
  /-- `acceptLocal` returned success in the call that is running. -/
  accepted : Bool

namespace Site

def push (w : Site) : Site := { w with conn := w.conn.push, saves := w.saves.push }

def commit (w : Site) : Site := { w with conn := w.conn.commit, saves := w.saves.commit }

def rollback (w : Site) : Site := { w with conn := w.conn.rollback, saves := w.saves.rollback }

end Site

/-- How the surroundings answer a completion that works for `account`. -/
def answers (account : Int) (w : Site) : (q : Question) → q.Answer → Site → Prop
  | .autocommit, a, w' => a = w.conn.autocommit ∧ w' = w
  | .journal q, a, w' => ∃ faults, a = answer (q.run account) w.conn faults ∧
      w' = { w with conn := after (q.run account) w.conn faults }
  | .begin, a, w' => match a with
    | .ok _ => w.conn.undo = [] ∧ w' = w.push
    | .error _ => w' = w
  | .commit, a, w' => match a with
    | .ok _ => w' = w.commit
    | .error _ => w' = w ∨ w' = w.rollback
  | .rollback, _, w' => w' = w ∨ w' = w.rollback
  | .saveMirror o, a, w' => ∃ bs,
      w' = { w with conn.now.bases := bs, saves.now := o.id :: w.saves.now } ∨
      (a ≠ (.ok () : Except RCError Unit) ∧ w' = { w with conn.now.bases := bs })
  | .acceptLocal .., a, w' => match a with
    | .ok _ => w' = { w with accepted := true }
    | .error _ => w' = w

/-- The database and the call that is running. -/
structure World where
  site : Site
  running : Option (CompleteM Unit)

/-- The committed tables. -/
def World.durable (w : World) : Tables := w.site.conn.rollback.now

/-- The committed writes of `saveMirror`. -/
def World.durableSaves (w : World) : List Int := w.site.saves.rollback.now

/-- One step of the process that completes `id`, again and again. -/
inductive Step (account id : Int) : World → World → Prop
  | start {w : World} (callbacks : Bool) (idle : w.running = none) :
      Step account id w ⟨{ w.site with accepted := false }, some (complete callbacks id)⟩
  | turn {w : World} {x y : CompleteM Unit} {s : Site} (running : w.running = some x)
      (turn : Prog.Turn (answers account) (x, w.site) (y, s)) : Step account id w ⟨s, some y⟩
  | returned {w : World} (running : w.running = some (.ret ())) :
      Step account id w ⟨w.site, none⟩
  | failed {w : World} {e : RCError} (running : w.running = some (.raise e)) :
      Step account id w ⟨w.site, none⟩
  | crash (w : World) : Step account id w ⟨w.site.rollback, none⟩

/-- `mirror_committed` of the resolution whose successor is `id`. -/
def mirrored (id : Int) (t : Tables) : Bool :=
  t.resolutions.any fun r => r.successor = id && r.mirrorCommitted

/-- The operation `id` is acknowledged. -/
def acknowledged (id : Int) (t : Tables) : Bool :=
  t.operations.any fun o => o.id = id && o.state = .acknowledged

/-- The effect of `saveMirror` and its checkpoint are both there, the effect once, or neither. -/
def Together (id : Int) (t : Tables) (saves : List Int) : Prop :=
  saves.count id = if mirrored id t then 1 else 0

/-- A committed journal in which the effect and the checkpoint agree, and no call running. A
successor that was never completed has neither. -/
structure Start (id : Int) (w : World) : Prop where
  committed : w.site.conn.undo = [] ∧ w.site.saves.undo = []
  idle : w.running = none
  together : Together id w.site.conn.now w.site.saves.now

end Recovery
