import RetroCloudSync.Writer.Attempt
import RetroCloudSync.Journal.Reach

/-!
# Stored operations can be attempted

`Operation.Attemptable`: the columns of a row make a conditional request. Both ways into the table
establish it, `Enqueue` from the base it pins and `ResolveConflict` from what the conflict observed
(`Inserted.attemptable`), and no later statement touches these columns.

`Journaled` answers an attempt's questions from any reachable journals, a different one at each
question. Even so an attempt that ends before `BeginAttempt` was asked was cancelled, or could not
read its row (`attempt_begins`): the refusal of an invalid precondition is dead code.
-/

set_option autoImplicit false

namespace Journal

open Library Library.Tx

variable {account id : Int} {c : Conn Tables} {t : Tables}

/-- The columns of a row make a conditional request. -/
structure Operation.Attemptable (o : Operation) : Prop where
  based : o.kind ≠ .create → etagIsStrong o.baseETag = true ∧ ∃ b, o.baseBody = some b
  created : o.kind = .create → o.baseETag = none ∧ o.baseBody = none
  bodied : o.kind ≠ .delete → ∃ b, o.desiredBody = some b ∧ b ≠ []
  deleted : o.kind = .delete → o.desiredBody = none

theorem Operation.Attemptable.of_intent {o x : Operation} (h : o.Attemptable)
    (hi : x.intent = o.intent) : x.Attemptable := by
  have hs := Operation.same_of_intent hi
  constructor
  · rw [hs.kind, hs.baseETag, hs.baseBody]
    exact h.based
  · rw [hs.kind, hs.baseETag, hs.baseBody]
    exact h.created
  · rw [hs.kind, hs.desiredBody]
    exact h.bodied
  · rw [hs.kind, hs.desiredBody]
    exact h.deleted

/-- The two body conditions, as both argument checks state them. -/
theorem desired_of_bodied {k : Kind} {b : Option Bytes}
    (h : (b = none ↔ k = .delete) ∧ b ≠ some []) :
    (k ≠ .delete → ∃ d, b = some d ∧ d ≠ []) ∧ (k = .delete → b = none) := by
  refine ⟨fun hk => ?_, h.1.2⟩
  obtain ⟨d, hd⟩ := Option.ne_none_iff_exists'.1 fun hn => hk (h.1.1 hn)
  exact ⟨d, hd, fun he => h.2 (he ▸ hd)⟩

/-! ## The two ways in -/

/-- `Enqueue` pins a strong base, or creates. -/
theorem attemptable_enqueued {i : Intent} {base : Option Base} {n : Int}
    (h : i.pinned base = true) : (i.row account n base).Attemptable := by
  obtain ⟨hb, hd⟩ := desired_of_bodied i.bodied
  refine ⟨fun hk => ?_, fun hk => ?_, hb, hd⟩
  · cases base with
    | none =>
      have hcreate : i.kind = .create := by simpa [Intent.pinned] using h
      exact absurd hcreate hk
    | some b =>
      simp only [Intent.pinned, Bool.and_eq_true, decide_eq_true_iff] at h
      exact ⟨h.1.2, b.body, rfl⟩
  · cases base with
    | none => exact ⟨rfl, rfl⟩
    | some b =>
      simp only [Intent.pinned, Bool.and_eq_true, decide_eq_true_iff] at h
      exact absurd hk h.1.1.1

/-- `ResolveConflict` pins what a 200 brought, starts anew after a 404, or deletes on the base of
a conflict that itself had one. -/
theorem attemptable_resolved {d : Decision} {old : Operation} {n : Int} (ho : old.Attemptable)
    (h : d.usable old = true) : (d.row account n old).Attemptable := by
  obtain ⟨hb, hd⟩ := desired_of_bodied d.bodied
  simp only [Decision.usable, Bool.and_eq_true, Bool.or_eq_true, decide_eq_true_iff] at h
  obtain ⟨⟨-, hdel⟩, hstatus⟩ := h
  refine ⟨fun hk => ?_, fun hk => ?_, hb, hd⟩
  · have hk' : d.kind ≠ .create := hk
    by_cases h404 : old.status = 404
    · simp only [h404, if_true, Bool.or_eq_true, decide_eq_true_iff] at hstatus
      have hdelete : d.kind = .delete := hstatus.resolve_left hk'
      obtain ⟨hstrong, -⟩ : etagIsStrong old.baseETag = true ∧ 0 < old.localRevision := by
        simpa [hdelete, h404] using hdel
      -- a create has no ETag, so the conflict had a base and with it the base's body
      have hold : old.kind ≠ .create := fun hc => by
        simp [(ho.created hc).1, etagIsStrong] at hstrong
      simpa [Decision.row, Decision.base, h404, hdelete] using ho.based hold
    · simp only [h404, if_false, Bool.and_eq_true, decide_eq_true_iff] at hstatus
      obtain ⟨⟨⟨-, hstrong⟩, hbody⟩, -⟩ := hstatus
      simp only [Decision.row, Decision.base, h404, if_false]
      refine ⟨hstrong, ?_⟩
      cases hr : old.resultBody with
      | none => simp [hr] at hbody
      | some b => exact ⟨b, rfl⟩
  · have hk' : d.kind = .create := hk
    by_cases h404 : old.status = 404
    · simp [Decision.row, Decision.base, h404, hk']
    · simp [h404, hk'] at hstatus

theorem Inserted.attemptable {x : Operation} (hx : Inserted account c x)
    (hc : ∀ o ∈ c.now.operations, o.Attemptable) : x.Attemptable := by
  cases hx with
  | enqueued pinned => exact attemptable_enqueued pinned
  | resolved mem _ usable => exact attemptable_resolved (hc _ mem) usable

/-! ## Every row -/

/-- Every row can be attempted, under a positive id. -/
def Stocked (t : Tables) : Prop := ∀ o ∈ t.operations, o.Attemptable ∧ 0 < o.id

theorem Stocked.move (hc : Everywhere Stocked c) (h : Move account c t) : Stocked t := by
  intro x hx
  rcases h.source hx with hx | hx | ⟨o, ho, ht⟩
  · exact hc.now x hx
  · exact ⟨hx.attemptable fun o ho => (hc.now o ho).1,
      hx.queued.2 ▸ Table.nextRowid_pos _ Operation.id⟩
  · obtain ⟨ha, hid⟩ := hc.now o ho
    exact ⟨ha.of_intent ht.intent_eq, ht.id_eq ▸ hid⟩

theorem Reached.stocked {past : List (Conn Tables)} (h : Reached c past) : Stocked c.now :=
  (h.images (fun _ ho => absurd ho (Table.not_mem_empty _)) fun _ _ _ => Stocked.move).now

/-! ## What the queue hands out -/

/-- A query by `firstId` answers 0 or the id of a row it looked for. -/
theorem firstId_cases (p : Operation → Bool) (t : Tables) :
    firstId p t = 0 ∨ ∃ o ∈ t.operations, p o = true ∧ o.id = firstId p t := by
  unfold firstId
  cases hm : ((t.operations.rows.filter p).map Operation.id).min? with
  | none => exact .inl rfl
  | some n =>
    obtain ⟨o, ho, hn⟩ := List.mem_map.1 (List.min?_mem hm)
    obtain ⟨hmem, hp⟩ := List.mem_filter.1 ho
    exact .inr ⟨o, hmem, hp, hn⟩

/-- `Next` answers 0 or the id of a row that is due. -/
theorem next_cases {now n : Int} {faults : List (Option String)}
    (h : answer (next account now) c faults = .ok n) :
    n = 0 ∨ ∃ o ∈ c.now.operations, o.id = n ∧ o.account = account ∧ o.retryAt ≤ now := by
  refine answer_spec (P := fun n => n = 0 ∨ ∃ o ∈ c.now.operations, o.id = n ∧
    o.account = account ∧ o.retryAt ≤ now) (wp_query ?_ fun _ => trivial) h
  rcases firstId_cases (fun o => o.account = account && (o.state = .queued || o.state = .uncertain) &&
    o.retryAt ≤ now) c.now with h0 | ⟨o, ho, hp, hid⟩
  · exact .inl h0
  · simp only [Bool.and_eq_true, decide_eq_true_iff] at hp
    exact .inr ⟨o, ho, hid, hp.1.1, hp.2⟩

theorem get_cases {o : Operation} {faults : List (Option String)}
    (h : answer (get account id) c faults = .ok o) :
    o ∈ c.now.operations ∧ o.account = account ∧ o.id = id :=
  answer_spec (P := fun o => o ∈ c.now.operations ∧ o.account = account ∧ o.id = id)
    (wp_get (fun _ hf => findOperation_some hf) fun _ => trivial) h

theorem five_le_retryDelay (n : Nat) : 5 ≤ retryDelay n := by
  unfold retryDelay
  split
  · have h : (0 : Int) < 2 ^ n := Int.pow_pos (by decide)
    omega
  · decide

/-- An attempt that began is not due again for five seconds. -/
theorem beginAttempt_delays {now now' n : Int} {faults faults' : List (Option String)}
    (hc : Stocked c.now) (h : answer (beginAttempt account id now) c faults = .ok ())
    (hn : answer (next account now') (after (beginAttempt account id now) c faults) faults' = .ok n)
    (hnow : now' < now + 5) : n ≠ id := by
  have hw : 0 < id ∧ ∀ x ∈ (after (beginAttempt account id now) c faults).now.operations,
      x.id = id → now + 5 ≤ x.retryAt := by
    have hspec := @beginAttempt_spec account id c now faults
    unfold answer at h
    unfold after
    cases hx : beginAttempt account id now ⟨c, faults⟩ with
    | error e s => rw [hx] at h; cases h
    | ok u s =>
      rw [hx] at hspec
      obtain ⟨-, -, o, ops, hdue, hr, he⟩ := hspec
      simp only [Operation.due, Bool.and_eq_true, decide_eq_true_iff] at hdue
      refine ⟨hdue.1.1.2 ▸ (hc o hr.mem).2, fun x hxm hxid => ?_⟩
      rw [show s.conn.now.operations = ops from congrArg Tables.operations he] at hxm
      obtain rfl : x = o.attempted now :=
        Table.eq_of_key hxm hr.mem_new (hxid.trans hdue.1.1.2.symm)
      have hd := five_le_retryDelay o.attempts
      show now + 5 ≤ now + retryDelay o.attempts
      omega
  rintro rfl
  rcases next_cases hn with h0 | ⟨o, ho, hi, -, hle⟩
  · exact absurd hw.1 (by omega)
  · have hlate := hw.2 o ho hi
    omega

end Journal

namespace Writer

open Library Journal

variable {account id : Int}

/-- The journals are reachable ones, perhaps another at each question; `true` is a world in which
`BeginAttempt` was asked. -/
def Journaled (account : Int) (begun : Bool) : (q : Question) → q.Answer → Bool → Prop
  | .journal q, a, begun' =>
    (∃ c past faults, Reached c past ∧ a = answer (q.run account) c faults) ∧
      begun' = (begun || match q with | .beginAttempt .. => true | _ => false)
  | _, _, begun' => begun' = begun

/-- An attempt that did not come to `BeginAttempt` was stopped, or had no row. -/
def Unread (account id : Int) (e : RCError) : Prop :=
  e.code = RC_ERROR_CANCELLED ∨
    ∃ c past faults, Reached c past ∧ answer (Journal.get account id) c faults = .error e

theorem conditional_of_attemptable {o : Operation} (h : o.Attemptable) : unconditional o = false := by
  have hbase : ¬ (o.kind ≠ .create ∧ etagIsStrong o.baseETag = false) := by
    rintro ⟨hk, hf⟩
    simp [(h.based hk).1] at hf
  have hbody : ¬ (o.kind ≠ .delete ∧ o.desiredBody.getD [] = []) := by
    rintro ⟨hk, he⟩
    obtain ⟨b, hb, hne⟩ := h.bodied hk
    exact hne (by simpa [hb] using he)
  unfold unconditional
  rw [Bool.or_eq_false_iff]
  exact ⟨by simpa using hbase, by simpa using hbody⟩

/-- Once `BeginAttempt` was asked it stays so. -/
theorem begun_stays {α : Type} (x : WriterM α) :
    Prog.wp (Journaled account) (fun _ _ => True) x (fun _ begun => begun = true)
      (fun _ begun => begun = true) true := by
  induction x with
  | ret a => exact rfl
  | raise e => exact rfl
  | ask q k ih =>
    refine ⟨trivial, fun a begun ha => ?_⟩
    have hb : begun = true := by
      cases q with
      | journal q => simpa using ha.2
      | _ => exact ha
    subst hb
    exact ih a

/-- The row an attempt reads can be attempted. -/
theorem wp_row :
    Prog.wp (Journaled account) (fun _ _ => True) (call (.get id))
      (fun (o : Operation) begun => unconditional o = false ∧ begun = false)
      (fun e _ => Unread account id e) false := by
  refine Prog.wp_ask trivial fun a begun ⟨⟨c, past, faults, hc, ha⟩, hb⟩ => ?_
  cases a with
  | error e => exact .inr ⟨c, past, faults, hc, ha.symm⟩
  | ok o =>
    obtain ⟨ho, -⟩ := get_cases ha.symm
    exact ⟨conditional_of_attemptable (hc.stocked o ho).1, hb⟩

/-- An attempt ends before `BeginAttempt` was asked only if it was stopped or had no row. -/
theorem attempt_begins (account id : Int) (type : Option Bytes) (now : Int) :
    Prog.wp (Journaled account) (fun _ _ => True) (attempt id type now)
      (fun _ begun => begun = true) (fun e begun => begun = true ∨ Unread account id e) false := by
  unfold attempt
  refine Prog.wp_bind (Prog.wp_ask trivial fun stop begun hb => ?_)
  obtain rfl : begun = false := hb
  cases (stop : Bool) with
  | true => exact .inr (.inl rfl)
  | false =>
    refine Prog.wp_bind (Prog.wp_mono wp_row (fun o begun ho => ?_) fun _ _ he => .inr he)
    obtain ⟨hu, rfl⟩ := ho
    rw [if_neg (by simp [hu])]
    refine Prog.wp_ask trivial fun a begun hb => ?_
    obtain rfl : begun = true := hb.2
    exact Prog.wp_mono (begun_stays _) (fun _ _ h => h) fun _ _ h => .inl h

/-- **Every stored operation is attemptable.** In every reachable journal each row carries the
base, the precondition and the body of its kind; what `Next` hands out is such a row; an attempt,
whatever reachable journals and whatever server answer it, never ends before `BeginAttempt` for
its precondition; and a row whose attempt began leaves the head of the queue. -/
theorem stored_attemptable {c : Conn Tables} {past : List (Conn Tables)} (h : Reached c past) :
    (∀ o ∈ c.now.operations, o.Attemptable) ∧
    (∀ account now n faults, answer (Journal.next account now) c faults = .ok n → n ≠ 0 →
      ∃ o ∈ c.now.operations, o.id = n ∧ o.account = account ∧ o.Attemptable) ∧
    (∀ account id o faults, answer (Journal.get account id) c faults = .ok o →
      unconditional o = false) ∧
    (∀ account id type now, Prog.wp (Journaled account) (fun _ _ => True) (attempt id type now)
      (fun _ begun => begun = true) (fun e begun => begun = true ∨ Unread account id e) false) ∧
    ∀ account id now faults now' faults' n,
      answer (Journal.beginAttempt account id now) c faults = .ok () → now' < now + 5 →
      answer (Journal.next account now') (after (Journal.beginAttempt account id now) c faults)
        faults' = .ok n → n ≠ id := by
  have hall : ∀ o ∈ c.now.operations, o.Attemptable := fun o ho => (h.stocked o ho).1
  refine ⟨hall, ?_, ?_, attempt_begins, ?_⟩
  · intro account now n faults hn h0
    rcases next_cases hn with rfl | ⟨o, ho, hid, ha, -⟩
    · exact absurd rfl h0
    · exact ⟨o, ho, hid, ha, hall o ho⟩
  · intro account id o faults ho
    exact conditional_of_attemptable (hall o (get_cases ho).1)
  · intro account id now faults now' faults' n hb hlt hn
    exact beginAttempt_delays h.stocked hb hn hlt

theorem stored_attemptable_queued :
    ∃ o ∈ (perform 7 waitingCalls ⟨Tables.empty, []⟩).now.operations, o.id = 1 ∧ o.account = 7 ∧
      o.Attemptable := by
  obtain ⟨past, h⟩ := reached_empty.perform 7 waitingCalls
  have hnext : (answer (Journal.next 7 0) (perform 7 waitingCalls ⟨Tables.empty, []⟩) []).toOption =
      some 1 := by decide +kernel
  cases hn : answer (Journal.next 7 0) (perform 7 waitingCalls ⟨Tables.empty, []⟩) [] with
  | error e => rw [hn] at hnext; cases hnext
  | ok n =>
    rw [hn] at hnext
    cases hnext
    exact (stored_attemptable h).2.1 7 0 1 [] hn (by decide)

end Writer
