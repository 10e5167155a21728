import RetroCloudSync.Journal.Calls

/-!
# What each journal call does

One specification a call, whatever the engine refuses: a failing call leaves the connection as it
was, and a returning one did what its `Move` says. Everything later is read off the moves; no
later proof unfolds a call.

- `enqueue_spec`, `resolve_spec`: the two calls that insert, with what they return.
- `Call`, `Call.run`: the calls as data, with their answers.
- `call_moves`: every call is a `Move`.
-/

set_option autoImplicit false

namespace Journal

open Library Library.Tx

variable {account id : Int} {c : Conn Tables} {α : Type}

/-! ## Rows named by an id -/

theorem findOperation_some {t : Tables} {o : Operation}
    (h : findOperation account id t = some o) :
    o ∈ t.operations ∧ o.account = account ∧ o.id = id := by
  obtain ⟨hm, hp⟩ := Table.find?_some h
  simpa [hm] using hp

theorem findOperation_eq {t : Tables} {o : Operation} (hm : o ∈ t.operations) :
    findOperation o.account o.id t = some o :=
  Table.find?_eq hm (by simp) fun s hs => by
    rw [Bool.and_eq_true, decide_eq_true_iff, decide_eq_true_iff] at hs
    exact hs.2

theorem findResolution_some {t : Tables} {r : Resolution} (h : findResolution id t = some r) :
    r ∈ t.resolutions ∧ r.operation = id := by
  obtain ⟨hm, hp⟩ := Table.find?_some h
  simpa [hm] using hp

theorem findResolution_eq {t : Tables} {r : Resolution} (hm : r ∈ t.resolutions) :
    findResolution r.operation t = some r :=
  Table.find?_eq hm (by simp) fun s hs => by simpa using hs

/-- Two rows selected by their id are one row. -/
theorem one_row {t : Table Operation.id Operation.change} {p : Operation → Bool}
    (hp : ∀ o, p o = true → o.id = id) :
    ∀ r ∈ t, ∀ s ∈ t, p r = true → p s = true → r = s :=
  fun _ hr _ hs hpr hps => Table.eq_of_key hr hs ((hp _ hpr).trans (hp _ hps).symm)

/-! ## Rules for the shared pieces -/

section
variable {Q : α → Conn Tables → Prop} {E : RCError → Conn Tables → Prop}

theorem wp_query {f : Tables → α} (h : Q (f c.now) c) (hE : ∀ e, E e c) : wp (query f) Q E c :=
  wp_bind (wp_gate (wp_select h fun _ => hE _) fun _ => hE _)

theorem wp_get {Q : Operation → Conn Tables → Prop}
    (h : ∀ o, findOperation account id c.now = some o → Q o c) (hE : ∀ e, E e c) :
    wp (get account id) Q E c := by
  refine wp_bind (wp_gate (wp_bind (wp_select ?_ fun _ => hE _)) fun _ => hE _)
  cases hf : findOperation account id c.now with
  | none => exact wp_throw (hE _)
  | some o => exact wp_bind (wp_gate (wp_pure (h o hf)) fun _ => hE _)

theorem wp_outsideTransaction {Q : Unit → Conn Tables → Prop} (h : c.undo = [] → Q () c)
    (hE : ∀ e, E e c) : wp outsideTransaction Q E c := by
  refine wp_bind (wp_autocommit ?_)
  split
  · rename_i ha
    exact wp_pure (h (Conn.autocommit_iff.1 ha))
  · exact wp_throw (hE _)

theorem wp_updateOne {Q : Unit → Conn Tables → Prop} {e : RCError} {f : Tables → Nat × Tables}
    (h : (f c.now).1 = 1 → Q () { c with now := (f c.now).2 })
    (h0 : (f c.now).1 ≠ 1 → (f c.now).2 = c.now) (hE : ∀ e, E e c) :
    wp (updateOne e f) Q E c := by
  refine wp_bind (wp_gate (wp_bind (wp_stmt (fun n t ht => ?_) fun _ => hE _)) fun _ => hE _)
  obtain ⟨rfl, rfl⟩ : (f c.now).1 = n ∧ (f c.now).2 = t := by simpa [Prod.ext_iff] using ht
  split
  · rename_i h1
    exact wp_pure (h h1)
  · rename_i h1
    rw [h0 h1]
    exact wp_throw (hE _)

/-- An `UPDATE` of the one operation an id names. -/
theorem wp_updateOperations {Q : Unit → Conn Tables → Prop} {e : RCError}
    {f : Operation → Operation} {hf : ∀ o, (f o).id = o.id}
    {hf' : ∀ o, (f o).change = o.change} (id : Int) (p : Tables → Operation → Bool)
    (hp : ∀ t o, p t o = true → o.id = id)
    (h : ∀ o ops, p c.now o = true → Table.Rewrote c.now.operations ops o (f o) →
      Q () { c with now.operations := ops }) (hE : ∀ e, E e c) :
    wp (updateOne e fun t => updateOperations (p t) f hf hf' t) Q E c := by
  refine wp_updateOne (fun h1 => ?_) (fun h1 => ?_) hE
  · obtain ⟨o, ho, hr⟩ := Table.update_one hf hf' (one_row (hp c.now)) h1
    exact h o _ ho hr
  · exact congrArg (fun ops => ({ c.now with operations := ops } : Tables))
      (Table.update_not_one hf hf' (one_row (hp c.now)) h1)

end

/-! ## Bases -/

theorem findBase_replace (t : Tables) (b : Base) :
    findBase b.account b.resourceKey { t with bases := t.bases.replace b } = some b := by
  have hm : b ∈ t.bases.replace b := (Table.mem_replace t.bases b b).2 (.inr rfl)
  refine Table.find?_eq hm (by simp) fun s hs => ?_
  simp only [Bool.and_eq_true, decide_eq_true_iff] at hs
  simp [Base.key, hs.1, hs.2]

/-- A base that was set is the one an edit of its resource starts from. -/
theorem setBase_spec {key href etag : Option Bytes} {body : Buf} {revision : Int} :
    wp (setBase account key href etag body revision)
      (fun _ c' => c'.now.operations = c.now.operations ∧ ∃ k h b,
        key = some k ∧ href = some h ∧ body = .data b ∧
          findBase account k c'.now = some ⟨account, k, h, etag, b, revision⟩)
      (fun _ c' => c' = c) c := by
  unfold setBase
  split
  · rename_i k h b
    split
    · exact wp_throw rfl
    · refine wp_bind (wp_gate (wp_stmt (fun a t ht => ?_) fun _ => rfl) fun _ => rfl)
      cases ht
      exact ⟨rfl, k, h, b, rfl, rfl, rfl, findBase_replace c.now _⟩
  · exact wp_throw rfl

/-! ## Enqueue -/

/-- `Enqueue` of `i` in tables `t`: a replay that finds the operation, or a new row. -/
inductive Enqueued (account : Int) (i : Intent) (t : Tables) : Int → Tables → Prop
  | replay {o : Operation} (found : findChange account i.changeID t = some o)
      (same : i.matches o = true) : Enqueued account i t o.id t
  | fresh {ops : Table Operation.id Operation.change}
      (new : findChange account i.changeID t = none)
      (free : occupied account i.resourceKey i.href t = false)
      (pinned : i.pinned (findBase account i.resourceKey t) = true)
      (added : Table.Added t.operations ops
        (i.row account (newRowid t.operations) (findBase account i.resourceKey t))) :
      Enqueued account i t (newRowid t.operations) { t with operations := ops }

theorem Kind.name_inj {k k' : Kind} (h : k.name = k'.name) : k = k' := by
  revert h
  cases k <;> cases k' <;> decide

theorem Intent.check_ok {change key href kind : Option Bytes} {revision : Int} {body : Buf}
    {i : Intent} (h : Intent.check change key href kind revision body = .ok i) :
    key = some i.resourceKey ∧ kind = some i.kind.name := by
  unfold Intent.check at h
  split at h
  · rename_i k hk
    obtain ⟨s, hs, hname⟩ := Option.bind_eq_some_iff.1 hk
    split at h
    · split at h
      · by_cases hr : if k = .create then revision = 0 else 0 < revision
        · rw [dif_pos hr] at h
          cases h
          exact ⟨rfl, hs.trans (congrArg some (Kind.ofName_some hname))⟩
        · rw [dif_neg hr] at h
          cases h
      · cases h
    · cases h
  · cases h

theorem wp_insertOperation {Q : Int → Conn Tables → Prop} {E : RCError → Conn Tables → Prop}
    {f : Tables → Operation}
    (h : ∀ ops, Table.Added c.now.operations ops (f c.now) →
      Q (f c.now).id { c with now.operations := ops })
    (hE : ∀ e, E e c) : wp (stmt fail fun t => insertOperation (f t) t) Q E c := by
  refine wp_stmt (fun a t ht => ?_) fun _ => hE _
  unfold insertOperation at ht
  split at ht
  · rename_i ops hi
    cases ht
    exact h ops (Table.insert_added hi)
  · cases ht

theorem enqueue_spec {change key href kind : Option Bytes} {revision : Int} {body : Buf} :
    wp (enqueue account change key href kind revision body)
      (fun n c' => c'.undo = c.undo ∧ ∃ i, Intent.check change key href kind revision body = .ok i ∧
        Enqueued account i c.now n c'.now) (fun _ c' => c' = c) c := by
  unfold enqueue
  cases hi : Intent.check change key href kind revision body with
  | error e => exact wp_throw rfl
  | ok i =>
    refine wp_savepoint ?_ fun _ => rfl
    have hE : ∀ _ : RCError, c.push.undo = c.now :: c.undo ∧ c = c := fun _ => ⟨rfl, rfl⟩
    refine wp_bind (wp_query ?_ hE)
    cases hf : findChange account i.changeID c.now with
    | some o =>
      rw [Conn.push_now, hf]
      dsimp only
      split
      · rename_i hm
        exact wp_pure ⟨rfl, rfl, i, rfl, .replay hf hm⟩
      · exact wp_throw ⟨rfl, rfl⟩
    | none =>
      rw [Conn.push_now, hf]
      dsimp only
      refine wp_bind (wp_query ?_ hE)
      split
      · exact wp_throw ⟨rfl, rfl⟩
      · rename_i hfree
        refine wp_bind (wp_query ?_ hE)
        split
        · rename_i hp
          refine wp_bind (wp_gate (wp_insertOperation (fun ops ha => ?_) hE) fun m => hE (fail m))
          exact ⟨rfl, rfl, i, rfl, .fresh hf (by simpa using hfree) hp ha⟩
        · exact wp_throw ⟨rfl, rfl⟩

/-! ## Attempts, results and the end of an operation -/

theorem beginAttempt_spec {now : Int} :
    wp (beginAttempt account id now)
      (fun _ c' => c.undo = [] ∧ c'.undo = [] ∧ ∃ o ops, o.due account id now = true ∧
        Table.Rewrote c.now.operations ops o (o.attempted now) ∧
        c'.now = { c.now with operations := ops }) (fun _ c' => c' = c) c := by
  unfold beginAttempt
  split
  · exact wp_throw rfl
  · refine wp_bind (wp_outsideTransaction (fun hu => ?_) fun _ => rfl)
    refine wp_updateOperations id (fun _ => Operation.due account id now) ?_ ?_ fun _ => rfl
    · intro t o ho
      simp only [Operation.due, Bool.and_eq_true, decide_eq_true_iff] at ho
      exact ho.1.1.2
    · exact fun o ops ho hr => ⟨hu, hu, o, ops, ho, hr, rfl⟩

/-- A checked outcome is what the caller reported. -/
theorem Outcome.check_ok {state : Option Bytes} {status : Int} {etag : Option Bytes} {body : Buf}
    {r : Outcome} (h : Outcome.check state status etag body = .ok r) :
    r.status = status ∧ r.etag = etag ∧ r.body = body.column := by
  unfold Outcome.check at h
  split at h
  · cases h
  · split at h
    · split at h
      · cases h
        exact ⟨rfl, rfl, rfl⟩
      · cases h
    · cases h

theorem recordResult_spec {state : Option Bytes} {status : Int} {etag : Option Bytes} {body : Buf} :
    wp (recordResult account id state status etag body)
      (fun _ c' => c.undo = [] ∧ c'.undo = [] ∧ ∃ r, Outcome.check state status etag body = .ok r ∧
        ∃ o ops, r.fits account id o = true ∧ Table.Rewrote c.now.operations ops o (r.record o) ∧
        c'.now = { c.now with operations := ops }) (fun _ c' => c' = c) c := by
  unfold recordResult
  cases hr : Outcome.check state status etag body with
  | error e => exact wp_throw rfl
  | ok r =>
    refine wp_bind (wp_outsideTransaction (fun hu => ?_) fun _ => rfl)
    refine wp_updateOperations id (fun _ => r.fits account id) ?_ ?_ fun _ => rfl
    · intro t o ho
      simp only [Outcome.fits, Bool.and_eq_true, decide_eq_true_iff] at ho
      exact ho.1.1.2
    · exact fun o ops ho hw => ⟨hu, hu, r, rfl, o, ops, ho, hw, rfl⟩

/-- The operations `Acknowledge` selects. -/
def Acknowledgeable (account id : Int) (t : Tables) (o : Operation) : Prop :=
  o.account = account ∧ o.id = id ∧ (o.state = .applied ∨ o.state = .acknowledged) ∧
    pendingMirror id t = false

theorem wp_acknowledge {Q : Unit → Conn Tables → Prop} {E : RCError → Conn Tables → Prop}
    (h : ∀ o ops, Acknowledgeable account id c.now o →
      Table.Rewrote c.now.operations ops o (o.closed .acknowledged) →
      Q () { c with now.operations := ops }) (hE : ∀ e, E e c) :
    wp (acknowledge account id) Q E c := by
  refine wp_updateOperations id (fun t o => o.account = account && o.id = id &&
    (o.state = .applied || o.state = .acknowledged) && !pendingMirror o.id t) ?_ ?_ hE
  · intro t o ho
    simp only [Bool.and_eq_true, decide_eq_true_iff] at ho
    exact ho.1.1.2
  · intro o ops ho hr
    simp only [Bool.and_eq_true, Bool.or_eq_true, decide_eq_true_iff, Bool.not_eq_true'] at ho
    obtain ⟨⟨⟨ha, hi⟩, hs⟩, hm⟩ := ho
    exact h o ops ⟨ha, hi, hs, hi ▸ hm⟩ hr

/-- The operations `Cancel` selects. -/
def Cancellable (account id : Int) (o : Operation) : Prop :=
  o.account = account ∧ o.id = id ∧
    (o.state = .queued ∨ o.state = .conflict ∨ o.state = .cancelled)

theorem wp_cancel {Q : Unit → Conn Tables → Prop} {E : RCError → Conn Tables → Prop}
    (h : ∀ o ops, Cancellable account id o →
      Table.Rewrote c.now.operations ops o (o.closed .cancelled) →
      Q () { c with now.operations := ops }) (hE : ∀ e, E e c) :
    wp (cancel account id) Q E c := by
  refine wp_updateOperations id (fun _ o => o.account = account && o.id = id &&
    (o.state = .queued || o.state = .conflict || o.state = .cancelled)) ?_ ?_ hE
  · intro t o ho
    simp only [Bool.and_eq_true, decide_eq_true_iff] at ho
    exact ho.1.2
  · intro o ops ho hr
    simp only [Bool.and_eq_true, Bool.or_eq_true, decide_eq_true_iff] at ho
    obtain ⟨⟨ha, hi⟩, hs⟩ := ho
    exact h o ops ⟨ha, hi, or_assoc.1 hs⟩ hr

/-! ## Conflict resolution -/

/-- `ResolveConflict` of `id` by `d` in tables `t`: a replay that finds the successor, or a
successor inserted, linked, and the conflict cancelled. -/
inductive Resolved (account id : Int) (d : Decision) (t : Tables) : Int → Tables → Prop
  | replay {old next : Operation} {r : Resolution} (found : findOperation account id t = some old)
      (linked : findResolution id t = some r) (receipt : r.receipt = d.receipt)
      (successor : findOperation account r.successor t = some next) (same : d.matches next = true) :
      Resolved account id d t r.successor t
  | fresh {old : Operation} {mid ops : Table Operation.id Operation.change}
      {rs : Table Resolution.operation Resolution.successor}
      (found : findOperation account id t = some old) (unlinked : findResolution id t = none)
      (usable : d.usable old = true)
      (added : Table.Added t.operations mid (d.row account (newRowid t.operations) old))
      (linked : Table.Added t.resolutions rs ⟨id, newRowid t.operations, d.receipt, false⟩)
      (cancelled : Table.Rewrote mid ops old (old.closed .cancelled)) :
      Resolved account id d t (newRowid t.operations)
        (deleteAttention id { t with operations := ops, resolutions := rs })

theorem wp_insertResolution {Q : Unit → Conn Tables → Prop} {E : RCError → Conn Tables → Prop}
    {r : Resolution}
    (h : ∀ rs, Table.Added c.now.resolutions rs r → Q () { c with now.resolutions := rs })
    (hE : ∀ e, E e c) : wp (stmt fail (insertResolution r)) Q E c := by
  refine wp_stmt (fun a t ht => ?_) fun _ => hE _
  unfold insertResolution at ht
  split at ht
  · rename_i rs hi
    cases ht
    exact h rs (Table.insert_added hi)
  · cases ht

theorem resolve_spec {kind : Option Bytes} {body receipt : Buf} :
    wp (resolveConflict account id kind body receipt)
      (fun n c' => c'.undo = c.undo ∧ ∃ d, Decision.check kind body receipt = .ok d ∧
        Resolved account id d c.now n c'.now) (fun _ c' => c' = c) c := by
  unfold resolveConflict
  cases hd : Decision.check kind body receipt with
  | error e => exact wp_throw rfl
  | ok d =>
    refine wp_savepoint ?_ fun _ => rfl
    have hE : ∀ _ : RCError, c.push.undo = c.now :: c.undo ∧ c = c := fun _ => ⟨rfl, rfl⟩
    refine wp_bind (wp_get (fun old hold => ?_) hE)
    rw [Conn.push_now] at hold
    refine wp_bind (wp_query ?_ hE)
    rw [Conn.push_now]
    cases hr : findResolution id c.now with
    | some r =>
      dsimp only
      split
      · rename_i hrec
        refine wp_bind (wp_mapError (wp_get (fun next hnext => ?_) fun _ => ⟨rfl, rfl⟩))
        split
        · rename_i hm
          exact wp_pure ⟨rfl, rfl, d, rfl, .replay hold hr hrec hnext hm⟩
        · exact wp_throw ⟨rfl, rfl⟩
      · exact wp_throw ⟨rfl, rfl⟩
    | none =>
      dsimp only
      split
      · rename_i hu
        refine wp_bind (wp_gate ?_ fun m => hE (fail m))
        refine wp_bind (wp_insertOperation (fun mid hmid => ?_) hE)
        refine wp_bind (wp_gate ?_ fun m => hE (fail m))
        refine wp_bind (wp_insertResolution (fun rs hrs => ?_) hE)
        refine wp_bind (wp_cancel (fun o ops ho hops => ?_) hE)
        refine wp_bind (wp_gate ?_ fun m => hE (fail m))
        refine wp_bind (wp_stmt (fun _ t ht => ?_) fun m => hE (fail m))
        cases ht
        obtain ⟨hmem, -, hid⟩ := findOperation_some hold
        -- the row cancelled is the conflict itself: ids are unique in the enlarged table
        obtain rfl : o = old :=
          Table.eq_of_key hops.mem (hmid.keeps hmem) (ho.2.1.trans hid.symm)
        exact wp_pure ⟨rfl, rfl, d, rfl, .fresh hold hr hu hmid hrs hops⟩
      · exact wp_throw ⟨rfl, rfl⟩

/-! ## Attention and the mirror checkpoint -/

theorem conflictAttention_spec {reason : Option Bytes} :
    wp (conflictAttention account id reason)
      (fun _ c' => c'.undo = c.undo ∧ ∃ att, c'.now = { c.now with attention := att })
      (fun _ c' => c' = c) c := by
  unfold conflictAttention
  split
  · exact wp_throw rfl
  · split
    · exact wp_throw rfl
    · refine wp_bind (wp_get (fun o _ => ?_) fun _ => rfl)
      split
      · refine wp_bind (wp_gate (wp_stmt (fun a t ht => ?_) fun _ => rfl) fun _ => rfl)
        cases ht
        cases reason <;> exact ⟨rfl, _, rfl⟩
      · exact wp_throw rfl

theorem resolutionMirrored_spec :
    wp (resolutionMirrored account id)
      (fun _ c' => c.undo ≠ [] ∧ c'.undo = c.undo ∧ ∃ r rs, mirrorable account id c.now r = true ∧
        Table.Rewrote c.now.resolutions rs r r.mirrored ∧
        c'.now = { c.now with resolutions := rs }) (fun _ c' => c' = c) c := by
  -- the successor column is unique, so the statement selects at most one row
  have hone : ∀ r ∈ c.now.resolutions, ∀ s ∈ c.now.resolutions,
      mirrorable account id c.now r = true → mirrorable account id c.now s = true → r = s := by
    intro r hr s hs hpr hps
    have hsucc : ∀ x, mirrorable account id c.now x = true → x.successor = id := by
      intro x hx
      obtain ⟨o, -, ho⟩ := Table.any_iff.1 hx
      simp only [Bool.and_eq_true, decide_eq_true_iff] at ho
      exact ho.1.1.1.symm.trans ho.1.2
    exact Table.eq_of_uniq hr hs ((hsucc r hpr).trans (hsucc s hps).symm)
  refine wp_bind (wp_autocommit ?_)
  split
  · exact wp_throw rfl
  · rename_i hu
    refine wp_updateOne (fun h1 => ?_) (fun h1 => ?_) fun _ => rfl
    · obtain ⟨r, hr, hw⟩ := Table.update_one (f := Resolution.mirrored) (fun _ => rfl)
        (fun _ => rfl) hone h1
      exact ⟨fun hn => hu (Conn.autocommit_iff.2 hn), rfl, r, _, hr, hw, rfl⟩
    · exact congrArg (fun rs => ({ c.now with resolutions := rs } : Tables))
        (Table.update_not_one (f := Resolution.mirrored) (fun _ => rfl) (fun _ => rfl) hone h1)

/-! ## The calls as data -/

/-- A call with its arguments. -/
inductive Call
  | setBase (key href etag : Option Bytes) (body : Buf) (revision : Int)
  | enqueue (change key href kind : Option Bytes) (revision : Int) (body : Buf)
  | get (id : Int)
  | next (now : Int)
  | nextConflict
  | recoveryNext (after : Int)
  | beginAttempt (id now : Int)
  | recordResult (id : Int) (state : Option Bytes) (status : Int) (etag : Option Bytes) (body : Buf)
  | acknowledge (id : Int)
  | cancel (id : Int)
  | resolveConflict (id : Int) (kind : Option Bytes) (body receipt : Buf)
  | conflictAttention (id : Int) (reason : Option Bytes)
  | resolutionReceipt (id : Int)
  | resolutionMirrored (id : Int)

/-- What a call answers when it succeeds. -/
def Call.Answer : Call → Type
  | enqueue .. | next .. | nextConflict | recoveryNext .. | resolveConflict .. => Int
  | get .. => Operation
  | resolutionReceipt .. => Bytes × Bool
  | _ => Unit

def Call.run {ρ : Type} [Engine ρ] (account : Int) : (q : Call) → JournalOf ρ q.Answer
  | setBase key href etag body revision => Journal.setBase account key href etag body revision
  | enqueue change key href kind revision body =>
    Journal.enqueue account change key href kind revision body
  | get id => Journal.get account id
  | next now => Journal.next account now
  | nextConflict => Journal.nextConflict account
  | recoveryNext after => Journal.recoveryNext account after
  | beginAttempt id now => Journal.beginAttempt account id now
  | recordResult id state status etag body =>
    Journal.recordResult account id state status etag body
  | acknowledge id => Journal.acknowledge account id
  | cancel id => Journal.cancel account id
  | resolveConflict id kind body receipt =>
    Journal.resolveConflict account id kind body receipt
  | conflictAttention id reason => Journal.conflictAttention account id reason
  | resolutionReceipt id => Journal.resolutionReceipt account id
  | resolutionMirrored id => Journal.resolutionMirrored account id

/-- What a call may do to the tables that connection `c` sees. -/
inductive Move (account : Int) (c : Conn Tables) : Tables → Prop
  | rest : Move account c c.now
  | base (bs : Table Base.key Base.key) : Move account c { c.now with bases := bs }
  | attention (att : Table Attention.operation Attention.operation) :
      Move account c { c.now with attention := att }
  | enqueued {i : Intent} {id : Int} {t : Tables} (h : Enqueued account i c.now id t) :
      Move account c t
  | attempted {id now : Int} {o : Operation} {ops : Table Operation.id Operation.change}
      (alone : c.undo = []) (due : o.due account id now = true)
      (rewrote : Table.Rewrote c.now.operations ops o (o.attempted now)) :
      Move account c { c.now with operations := ops }
  | recorded {id : Int} {r : Outcome} {o : Operation} {ops : Table Operation.id Operation.change}
      (alone : c.undo = []) (fits : r.fits account id o = true)
      (rewrote : Table.Rewrote c.now.operations ops o (r.record o)) :
      Move account c { c.now with operations := ops }
  | acknowledged {id : Int} {o : Operation} {ops : Table Operation.id Operation.change}
      (ready : Acknowledgeable account id c.now o)
      (rewrote : Table.Rewrote c.now.operations ops o (o.closed .acknowledged)) :
      Move account c { c.now with operations := ops }
  | cancelled {id : Int} {o : Operation} {ops : Table Operation.id Operation.change}
      (ready : Cancellable account id o)
      (rewrote : Table.Rewrote c.now.operations ops o (o.closed .cancelled)) :
      Move account c { c.now with operations := ops }
  | resolved {id n : Int} {d : Decision} {t : Tables} (h : Resolved account id d c.now n t) :
      Move account c t
  | mirrored {id : Int} {r : Resolution} {rs : Table Resolution.operation Resolution.successor}
      (inside : c.undo ≠ []) (ready : mirrorable account id c.now r = true)
      (rewrote : Table.Rewrote c.now.resolutions rs r r.mirrored) :
      Move account c { c.now with resolutions := rs }

/-- **All or nothing, call by call**: a call that fails leaves the connection as it was; one that
returns made a move, inside the transactions that were open. -/
theorem call_moves (q : Call) :
    wp (q.run account) (fun _ c' => c'.undo = c.undo ∧ Move account c c'.now)
      (fun _ c' => c' = c) c := by
  cases q with
  | setBase key href etag body revision =>
    show wp (setBase account key href etag body revision) _ _ _
    unfold setBase
    split
    · split
      · exact wp_throw rfl
      · refine wp_bind (wp_gate (wp_stmt (fun a t ht => ?_) fun _ => rfl) fun _ => rfl)
        cases ht
        exact ⟨rfl, .base _⟩
    · exact wp_throw rfl
  | enqueue change key href kind revision body =>
    refine wp_mono enqueue_spec ?_ fun _ _ h => h
    rintro n c' ⟨hu, i, -, h⟩
    exact ⟨hu, .enqueued h⟩
  | get id => exact wp_get (fun _ _ => ⟨rfl, .rest⟩) fun _ => rfl
  | next now => exact wp_query ⟨rfl, .rest⟩ fun _ => rfl
  | nextConflict => exact wp_query ⟨rfl, .rest⟩ fun _ => rfl
  | recoveryNext after => exact wp_query ⟨rfl, .rest⟩ fun _ => rfl
  | beginAttempt id now =>
    refine wp_mono beginAttempt_spec ?_ fun _ _ h => h
    rintro _ ⟨now', undo'⟩ ⟨hu, hu', o, ops, ho, hr, rfl⟩
    exact ⟨hu'.trans hu.symm, .attempted hu ho hr⟩
  | recordResult id state status etag body =>
    refine wp_mono recordResult_spec ?_ fun _ _ h => h
    rintro _ ⟨now', undo'⟩ ⟨hu, hu', r, -, o, ops, ho, hr, rfl⟩
    exact ⟨hu'.trans hu.symm, .recorded hu ho hr⟩
  | acknowledge id =>
    exact wp_acknowledge (fun o ops ho hr => ⟨rfl, .acknowledged ho hr⟩) fun _ => rfl
  | cancel id => exact wp_cancel (fun o ops ho hr => ⟨rfl, .cancelled ho hr⟩) fun _ => rfl
  | resolveConflict id kind body receipt =>
    refine wp_mono resolve_spec ?_ fun _ _ h => h
    rintro n c' ⟨hu, d, -, h⟩
    exact ⟨hu, .resolved h⟩
  | conflictAttention id reason =>
    refine wp_mono conflictAttention_spec ?_ fun _ _ h => h
    rintro _ ⟨now', undo'⟩ ⟨hu, att, rfl⟩
    exact ⟨hu, .attention att⟩
  | resolutionReceipt id =>
    refine wp_bind (wp_gate (wp_bind (wp_select ?_ fun _ => rfl)) fun _ => rfl)
    split
    · exact wp_throw rfl
    · exact wp_bind (wp_gate (wp_pure ⟨rfl, .rest⟩) fun _ => rfl)
  | resolutionMirrored id =>
    refine wp_mono resolutionMirrored_spec ?_ fun _ _ h => h
    rintro _ ⟨now', undo'⟩ ⟨hi, hu, r, rs, hr, hw, rfl⟩
    exact ⟨hu, .mirrored hi hr hw⟩

/-- A call leaves the held images alone. -/
theorem call_keeps (q : Call) : keeps (fun _ => True) (q.run account) :=
  fun _ _ => wp_mono (call_moves q) (fun _ _ h => ⟨trivial, h.1⟩) fun _ _ h => congrArg Conn.undo h

end Journal
