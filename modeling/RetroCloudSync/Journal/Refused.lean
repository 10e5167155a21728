import RetroCloudSync.Library.Refusals
import RetroCloudSync.Journal.Reach

/-!
# Calls that lose the transaction

SQLite may answer a statement it refuses (a full disk, an I/O error, a want of memory) by rolling
back the transaction the call was joined to, the rows of the caller included. `call_follows`: a call
under such refusals does what it does under refusals of single statements, up to that rollback. So
what `call_moves` says of every call holds of these too (`call_ok`, `call_error`), and such a call is
a run of `Step`s (`steps_refused`).
-/

set_option autoImplicit false

namespace Journal

open Library Library.Tx

variable {ρ : Type} [Engine ρ] {account : Int} {α : Type}

theorem follows_query {f : Tables → α} : follows (query f : JournalOf ρ α) (query f) :=
  follows_bind follows_gate fun _ => follows_select

theorem follows_get {id : Int} : follows (get account id : JournalOf ρ _) (get account id) := by
  refine follows_bind follows_gate fun _ => follows_bind follows_select fun o => ?_
  cases o with
  | none => exact follows_throw _
  | some o => exact follows_bind follows_gate fun _ => follows_pure o

theorem follows_outsideTransaction :
    follows (outsideTransaction : JournalOf ρ Unit) outsideTransaction := by
  refine follows_bind follows_autocommit fun b => ?_
  split
  · exact follows_pure _
  · exact follows_throw _

theorem follows_updateOne {e : RCError} {f : Tables → Nat × Tables} :
    follows (updateOne e f : JournalOf ρ Unit) (updateOne e f) := by
  refine follows_bind follows_gate fun _ => follows_bind follows_stmt fun n => ?_
  split
  · exact follows_pure _
  · exact follows_throw _

theorem follows_enqueue {change key href kind : Option Bytes} {revision : Int} {body : Buf} :
    follows (enqueue account change key href kind revision body : JournalOf ρ Int)
      (enqueue account change key href kind revision body) := by
  unfold enqueue
  split
  · exact follows_throw _
  · refine follows_savepoint (follows_bind follows_query fun o => ?_)
    split
    · split
      · exact follows_pure _
      · exact follows_throw _
    · refine follows_bind follows_query fun b => ?_
      split
      · exact follows_throw _
      · refine follows_bind follows_query fun base => ?_
        split
        · exact follows_bind follows_gate fun _ => follows_stmt
        · exact follows_throw _

theorem follows_resolveConflict {id : Int} {kind : Option Bytes} {body receipt : Buf} :
    follows (resolveConflict account id kind body receipt : JournalOf ρ Int)
      (resolveConflict account id kind body receipt) := by
  unfold resolveConflict
  split
  · exact follows_throw _
  · refine follows_savepoint (follows_bind follows_get fun old => ?_)
    refine follows_bind follows_query fun r => ?_
    split
    · split
      · refine follows_bind (follows_mapError follows_get) fun next => ?_
        split
        · exact follows_pure _
        · exact follows_throw _
      · exact follows_throw _
    · split
      · refine follows_bind follows_gate fun _ => follows_bind follows_stmt fun _ => ?_
        refine follows_bind follows_gate fun _ => follows_bind follows_stmt fun _ => ?_
        refine follows_bind follows_updateOne fun _ => ?_
        exact follows_bind follows_gate fun _ => follows_bind follows_stmt fun _ => follows_pure _
      · exact follows_throw _

/-- **Every call** does what it does when refusals undo their statement only, up to a rollback. -/
theorem call_follows (q : Call) :
    follows (q.run account : JournalOf ρ q.Answer) (q.run account) := by
  cases q with
  | setBase key href etag body revision =>
    show follows (setBase account key href etag body revision : JournalOf ρ Unit)
      (setBase account key href etag body revision)
    unfold setBase
    split
    · split
      · exact follows_throw _
      · exact follows_bind follows_gate fun _ => follows_stmt
    · exact follows_throw _
  | enqueue change key href kind revision body => exact follows_enqueue
  | get id => exact follows_get
  | next now => exact follows_query
  | nextConflict => exact follows_query
  | recoveryNext after => exact follows_query
  | beginAttempt id now =>
    show follows (beginAttempt account id now : JournalOf ρ Unit) (beginAttempt account id now)
    unfold beginAttempt
    split
    · exact follows_throw _
    · exact follows_bind follows_outsideTransaction fun _ => follows_updateOne
  | recordResult id state status etag body =>
    show follows (recordResult account id state status etag body : JournalOf ρ Unit)
      (recordResult account id state status etag body)
    unfold recordResult
    split
    · exact follows_throw _
    · exact follows_bind follows_outsideTransaction fun _ => follows_updateOne
  | acknowledge id => exact follows_updateOne
  | cancel id => exact follows_updateOne
  | resolveConflict id kind body receipt => exact follows_resolveConflict
  | conflictAttention id reason =>
    show follows (conflictAttention account id reason : JournalOf ρ Unit)
      (conflictAttention account id reason)
    unfold conflictAttention
    split
    · exact follows_throw _
    · split
      · exact follows_throw _
      · refine follows_bind follows_get fun o => ?_
        split
        · exact follows_bind follows_gate fun _ => follows_stmt
        · exact follows_throw _
  | resolutionReceipt id =>
    show follows (resolutionReceipt account id : JournalOf ρ _) (resolutionReceipt account id)
    refine follows_bind follows_gate fun _ => follows_bind follows_select fun r => ?_
    split
    · exact follows_throw _
    · exact follows_bind follows_gate fun _ => follows_pure _
  | resolutionMirrored id =>
    show follows (resolutionMirrored account id : JournalOf ρ Unit) (resolutionMirrored account id)
    refine follows_bind follows_autocommit fun b => ?_
    split
    · exact follows_throw _
    · exact follows_updateOne

section
variable {q : Call} {c : Conn Tables} {faults : List (Option ρ)} {s : SessionOf ρ Tables}

/-- A call that fails left the connection as it was, or it is rolled back. -/
theorem call_error {e : RCError} (h : q.run account ⟨c, faults⟩ = .error e s) :
    Undone faults c s.conn := by
  obtain ⟨c', rfl, hu⟩ := (call_follows q).error (call_moves q) h
  exact hu

/-- A refused call is a call or a rollback of the process that owns the database. -/
theorem steps_refused (h : (∃ a, q.run account ⟨c, faults⟩ = .ok a s) ∨
    ∃ e, q.run account ⟨c, faults⟩ = .error e s) : Relation.ReflTransGen Step c s.conn := by
  rcases h with ⟨a, h⟩ | ⟨e, h⟩
  · have hs : s.conn = after (q.run account) c (mild faults) := by
      unfold after
      rw [(follows_ok (call_follows q) h).1]
    rw [hs]
    exact .single (.call c account q _)
  · rcases call_error h with hc | ⟨-, hc⟩ <;> rw [hc]
    exact .single (.rollback c)

end

end Journal
