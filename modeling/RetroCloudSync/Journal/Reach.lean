import RetroCloudSync.Library.Run
import RetroCloudSync.Journal.Spec

/-!
# Reachable journals

`Step`: any call on any account with any arguments, the engine refusing whatever it likes, or a
statement on the enclosing transaction (a crash is a `rollback`). `Reached c past`: a run from
the empty tables that is now at `c`.

`step_cases` says once what a step can do: it is a `Move` of the visible tables, or it brings
back or drops images that were held already. `Reached.images` is the induction rule for a property
of the tables: what holds of the empty tables and along every move holds of every image held.
-/

set_option autoImplicit false

namespace Journal

open Library Library.Tx

/-- The connection that running `x` leaves, whether it returned or failed. -/
def after {α : Type} (x : JournalM α) (c : Conn Tables) (faults : List (Option String)) :
    Conn Tables :=
  match x ⟨c, faults⟩ with
  | .ok _ s => s.conn
  | .error _ s => s.conn

/-- What running `x` answers. -/
def answer {α : Type} (x : JournalM α) (c : Conn Tables) (faults : List (Option String)) :
    Except RCError α :=
  match x ⟨c, faults⟩ with
  | .ok a _ => .ok a
  | .error e _ => .error e

/-- One step of the process that owns the database. -/
inductive Step : Conn Tables → Conn Tables → Prop
  | call (c : Conn Tables) (account : Int) (q : Call) (faults : List (Option String)) :
      Step c (after (q.run account) c faults)
  | push (c : Conn Tables) : Step c c.push
  | release (c : Conn Tables) : Step c c.release
  | commit (c : Conn Tables) : Step c c.commit
  | restore (c : Conn Tables) : Step c c.restore
  | rollback (c : Conn Tables) : Step c c.rollback

/-- A run from the empty tables that is at `c` and has been through `past`. -/
def Reached (c : Conn Tables) (past : List (Conn Tables)) : Prop :=
  Run (· = ⟨Tables.empty, []⟩) Step (c :: past)

theorem after_spec {α : Type} {x : JournalM α} {c : Conn Tables} {P : Conn Tables → Prop}
    (h : wp x (fun _ => P) (fun _ => P) c) (faults : List (Option String)) :
    P (after x c faults) := by
  have hf := h faults
  unfold after
  cases hx : x ⟨c, faults⟩ <;> rw [hx] at hf <;> exact hf

theorem answer_spec {α : Type} {x : JournalM α} {c : Conn Tables} {P : α → Prop}
    (h : wp x (fun a _ => P a) (fun _ _ => True) c) {faults : List (Option String)} {a : α}
    (ha : answer x c faults = .ok a) : P a := by
  have hf := h faults
  unfold answer at ha
  cases hx : x ⟨c, faults⟩ <;> rw [hx] at hf ha <;> cases ha
  exact hf

/-- What one call can do to the connection. -/
theorem call_cases (account : Int) (q : Call) (c : Conn Tables) (faults : List (Option String)) :
    (after (q.run account) c faults).undo = c.undo ∧
      Move account c (after (q.run account) c faults).now := by
  refine after_spec (P := fun c' => c'.undo = c.undo ∧ Move account c c'.now)
    (wp_mono (call_moves q) (fun _ _ h => h) ?_) faults
  rintro _ c' rfl
  exact ⟨rfl, .rest⟩

/-- What one step can do to the connection. -/
theorem step_cases {c c' : Conn Tables} (h : Step c c') :
    (∃ account, c'.undo = c.undo ∧ Move account c c'.now) ∨
      ∀ t ∈ c'.images, t ∈ c.images := by
  cases h with
  | call account q faults => exact .inl ⟨account, call_cases account q c faults⟩
  | push => exact .inr fun _ => Conn.images_push
  | release => exact .inr fun _ => Conn.images_release
  | commit => exact .inr fun _ => Conn.images_commit
  | restore => exact .inr fun _ => Conn.images_restore
  | rollback => exact .inr fun _ => Conn.images_rollback

/-- Every image the connection holds, the visible tables included, satisfies `P`. -/
def Everywhere (P : Tables → Prop) (c : Conn Tables) : Prop := ∀ t ∈ c.images, P t

theorem Everywhere.now {P : Tables → Prop} {c : Conn Tables} (h : Everywhere P c) : P c.now :=
  h c.now c.now_mem_images

/-- A property that every move keeps, every step keeps on every image. -/
theorem Everywhere.step {P : Tables → Prop}
    (hP : ∀ account c t, Everywhere P c → Move account c t → P t) {c c' : Conn Tables}
    (h : Everywhere P c) (hs : Step c c') : Everywhere P c' := by
  rcases step_cases hs with ⟨account, hu, hm⟩ | hi
  · intro t ht
    rcases Conn.mem_images.1 ht with rfl | ht
    · exact hP account c _ h hm
    · exact h t (Conn.mem_images.2 (.inr (hu ▸ ht)))
  · exact fun t ht => h t (hi t ht)

/-- **Induction over reachable journals**, image by image. -/
theorem Reached.images {P : Tables → Prop} (h0 : P Tables.empty)
    (hP : ∀ account c t, Everywhere P c → Move account c t → P t) {c : Conn Tables}
    {past : List (Conn Tables)} (h : Reached c past) : Everywhere P c := by
  refine Run.invariant ?_ (fun s t hs hst => hs.step hP hst) h
  rintro _ rfl t ht
  rw [show t = Tables.empty by simpa [Conn.images] using ht]
  exact h0

/-! ## Runs along a list of calls -/

/-- Do the calls of one account one after the other, with no refusal. -/
def perform (account : Int) : List Call → Conn Tables → Conn Tables
  | [], c => c
  | q :: qs, c => perform account qs (after (q.run account) c [])

theorem Reached.perform (account : Int) (qs : List Call) {c : Conn Tables}
    {past : List (Conn Tables)} (h : Reached c past) :
    ∃ past', Reached (perform account qs c) past' := by
  induction qs generalizing c past with
  | nil => exact ⟨past, h⟩
  | cons q qs ih => exact ih (h.next (.call c account q []))

theorem reached_empty : Reached ⟨Tables.empty, []⟩ [] := .start rfl

/-- An edit of a published contact, waiting to be sent. -/
def waitingCalls : List Call :=
  [.setBase (some (ascii "k")) (some (ascii "https://dav/k")) (some (ascii "\"v1\""))
      (.data (ascii "old")) 1,
    .enqueue (some (ascii "c1")) (some (ascii "k")) (some (ascii "https://dav/k"))
      (some (ascii "update")) 1 (.data (ascii "new"))]

/-! ## What every move keeps -/

section
variable {account : Int} {c : Conn Tables} {t : Tables}

theorem due_unresolved {id now : Int} {o : Operation} (h : o.due account id now = true) :
    o.unresolved = true := by
  simp only [Operation.due, Bool.and_eq_true, Bool.or_eq_true, decide_eq_true_iff] at h
  rcases h.1.2 with hs | hs <;> simp [Operation.unresolved, OpState.unresolved, hs]

theorem fits_unresolved {id : Int} {r : Outcome} {o : Operation}
    (h : r.fits account id o = true) : o.unresolved = true := by
  simp only [Outcome.fits, Bool.and_eq_true, decide_eq_true_iff] at h
  simp [Operation.unresolved, OpState.unresolved, h.1.2]

theorem usable_conflict {d : Decision} {o : Operation} (h : d.usable o = true) :
    o.state = .conflict := by
  simp only [Decision.usable, Bool.and_eq_true, decide_eq_true_iff] at h
  exact h.1.1

theorem usable_unresolved {d : Decision} {o : Operation} (h : d.usable o = true) :
    o.unresolved = true := by
  simp [Operation.unresolved, OpState.unresolved, usable_conflict h]

theorem Acknowledgeable.closed_eq {id : Int} {t : Tables} {o : Operation}
    (h : Acknowledgeable account id t o) (hu : o.unresolved = false) :
    o.closed .acknowledged = o := by
  obtain ⟨-, -, hs | hs, -⟩ := h
  · simp [Operation.unresolved, OpState.unresolved, hs] at hu
  · rw [Operation.closed, ← hs]

theorem Cancellable.closed_eq {id : Int} {o : Operation} (h : Cancellable account id o)
    (hu : o.unresolved = false) : o.closed .cancelled = o := by
  obtain ⟨-, -, hs | hs | hs⟩ := h
  · simp [Operation.unresolved, OpState.unresolved, hs] at hu
  · simp [Operation.unresolved, OpState.unresolved, hs] at hu
  · rw [Operation.closed, ← hs]

/-- An operation goes on under its id, with its intent; a closed one is not touched at all. -/
theorem Move.operation (h : Move account c t) {o : Operation} (ho : o ∈ c.now.operations) :
    ∃ o' ∈ t.operations, o'.intent = o.intent ∧ (o.unresolved = false → o' = o) := by
  have same : ∀ {ops : Table Operation.id Operation.change}, o ∈ ops →
      ∃ o' ∈ ops, o'.intent = o.intent ∧ (o.unresolved = false → o' = o) :=
    fun h => ⟨o, h, rfl, fun _ => rfl⟩
  cases h with
  | rest | base | attention | mirrored => exact same ho
  | enqueued h =>
    cases h with
    | replay => exact same ho
    | fresh _ _ _ added => exact same (added.keeps ho)
  | attempted _ due rewrote =>
    rcases rewrote.goes_on ho with h | ⟨rfl, h⟩
    · exact same h
    · exact ⟨_, h, rfl, fun hu => absurd hu (by simp [due_unresolved due])⟩
  | recorded _ fits rewrote =>
    rcases rewrote.goes_on ho with h | ⟨rfl, h⟩
    · exact same h
    · exact ⟨_, h, rfl, fun hu => absurd hu (by simp [fits_unresolved fits])⟩
  | acknowledged ready rewrote =>
    rcases rewrote.goes_on ho with h | ⟨rfl, h⟩
    · exact same h
    · exact ⟨_, h, rfl, ready.closed_eq⟩
  | cancelled ready rewrote =>
    rcases rewrote.goes_on ho with h | ⟨rfl, h⟩
    · exact same h
    · exact ⟨_, h, rfl, ready.closed_eq⟩
  | resolved h =>
    cases h with
    | replay => exact same ho
    | fresh _ _ usable added _ cancelled =>
      rcases cancelled.goes_on (added.keeps ho) with h | ⟨rfl, h⟩
      · exact same h
      · exact ⟨_, h, rfl, fun hu => absurd hu (by simp [usable_unresolved usable])⟩

/-- One turn in the life of an operation. -/
inductive Turn (account : Int) (c : Conn Tables) (o : Operation) : Operation → Prop
  | attempted {id now : Int} (alone : c.undo = []) (due : o.due account id now = true) :
      Turn account c o (o.attempted now)
  | recorded {id : Int} {r : Outcome} (alone : c.undo = []) (fits : r.fits account id o = true) :
      Turn account c o (r.record o)
  | acknowledged {id : Int} (ready : Acknowledgeable account id c.now o) :
      Turn account c o (o.closed .acknowledged)
  | cancelled {id : Int} (ready : Cancellable account id o) :
      Turn account c o (o.closed .cancelled)

theorem Turn.id_eq {o x : Operation} (h : Turn account c o x) : x.id = o.id := by
  cases h <;> rfl

theorem Turn.intent_eq {o x : Operation} (h : Turn account c o x) : x.intent = o.intent := by
  cases h <;> rfl

/-- A closed operation is not reopened. -/
theorem Turn.unresolved {o x : Operation} (h : Turn account c o x) (hx : x.unresolved = true) :
    o.unresolved = true := by
  cases h with
  | attempted _ due => exact due_unresolved due
  | recorded _ fits => exact fits_unresolved fits
  | acknowledged => cases hx
  | cancelled => cases hx

/-- A row that a move inserts: an edit pinned to the base of its resource, or the successor of a
conflict. -/
inductive Inserted (account : Int) (c : Conn Tables) : Operation → Prop
  | enqueued {i : Intent} (pinned : i.pinned (findBase account i.resourceKey c.now) = true) :
      Inserted account c
        (i.row account (newRowid c.now.operations) (findBase account i.resourceKey c.now))
  | resolved {d : Decision} {old : Operation} (mem : old ∈ c.now.operations)
      (account_eq : old.account = account) (usable : d.usable old = true) :
      Inserted account c (d.row account (newRowid c.now.operations) old)

theorem Inserted.queued {x : Operation} (h : Inserted account c x) :
    x.state = .queued ∧ x.id = newRowid c.now.operations := by
  cases h <;> exact ⟨rfl, rfl⟩

/-- The operations found after a move: the old ones, an inserted one, or one that took a turn. -/
theorem Move.source (h : Move account c t) {x : Operation} (hx : x ∈ t.operations) :
    x ∈ c.now.operations ∨ Inserted account c x ∨
      ∃ o ∈ c.now.operations, Turn account c o x := by
  have turned : ∀ {ops : Table Operation.id Operation.change} {o o' : Operation},
      Table.Rewrote c.now.operations ops o o' → Turn account c o o' → x ∈ ops →
      x ∈ c.now.operations ∨ Inserted account c x ∨
        ∃ o ∈ c.now.operations, Turn account c o x := by
    intro ops o o' hr ht hx
    rcases (hr.mem_iff x).1 hx with rfl | ⟨hx, -⟩
    · exact .inr (.inr ⟨o, hr.mem, ht⟩)
    · exact .inl hx
  cases h with
  | rest | base | attention | mirrored => exact .inl hx
  | enqueued h =>
    cases h with
    | replay => exact .inl hx
    | fresh _ _ pinned added =>
      rcases (added.mem_iff x).1 hx with hx | rfl
      · exact .inl hx
      · exact .inr (.inl (.enqueued pinned))
  | attempted alone due rewrote => exact turned rewrote (.attempted alone due) hx
  | recorded alone fits rewrote => exact turned rewrote (.recorded alone fits) hx
  | acknowledged ready rewrote => exact turned rewrote (.acknowledged ready) hx
  | cancelled ready rewrote => exact turned rewrote (.cancelled ready) hx
  | resolved h =>
    cases h with
    | replay => exact .inl hx
    | fresh found _ usable added _ cancelled =>
      obtain ⟨hm, ha, hi⟩ := findOperation_some found
      rcases (cancelled.mem_iff x).1 hx with rfl | ⟨hx, -⟩
      · exact .inr (.inr ⟨_, hm, .cancelled ⟨ha, hi, .inr (.inl (usable_conflict usable))⟩⟩)
      · rcases (added.mem_iff x).1 hx with hx | rfl
        · exact .inl hx
        · exact .inr (.inl (.resolved hm ha usable))

/-- Where the operations found after a move come from. -/
theorem Move.origin (h : Move account c t) {x : Operation} (hx : x ∈ t.operations) :
    x ∈ c.now.operations ∨ (x.state = .queued ∧ x.id = newRowid c.now.operations) ∨
      ∃ o ∈ c.now.operations, Turn account c o x := by
  rcases h.source hx with hx | hx | hx
  · exact .inl hx
  · exact .inr (.inl hx.queued)
  · exact .inr (.inr hx)

/-- A resolution stays, at most its mirror is marked committed. -/
theorem Move.resolution (h : Move account c t) {r : Resolution} (hr : r ∈ c.now.resolutions) :
    r ∈ t.resolutions ∨ r.mirrored ∈ t.resolutions := by
  cases h with
  | enqueued h => cases h <;> exact .inl hr
  | resolved h =>
    cases h with
    | replay => exact .inl hr
    | fresh _ _ _ _ linked _ => exact .inl (linked.keeps hr)
  | mirrored _ _ rewrote =>
    rcases rewrote.goes_on hr with h | ⟨rfl, h⟩
    · exact .inl h
    · exact .inr h
  | _ => exact .inl hr

/-- `r` links the conflict `old`, decided by `d` in this very move, to its new successor. -/
structure Decided (account : Int) (c : Conn Tables) (t : Tables) (d : Decision) (old : Operation)
    (r : Resolution) : Prop where
  mem : old ∈ c.now.operations
  account_eq : old.account = account
  usable : d.usable old = true
  operation : r.operation = old.id
  successor : r.successor = newRowid c.now.operations
  receipt : r.receipt = d.receipt
  cancelled : old.closed .cancelled ∈ t.operations
  inserted : d.row account (newRowid c.now.operations) old ∈ t.operations

theorem Resolved.decided {id : Int} {d : Decision} {old : Operation}
    {mid ops : Table Operation.id Operation.change}
    (rs : Table Resolution.operation Resolution.successor)
    (found : findOperation account id c.now = some old) (usable : d.usable old = true)
    (added : Table.Added c.now.operations mid (d.row account (newRowid c.now.operations) old))
    (cancelled : Table.Rewrote mid ops old (old.closed .cancelled)) :
    Decided account c (deleteAttention id { c.now with operations := ops, resolutions := rs }) d old
      ⟨id, newRowid c.now.operations, d.receipt, false⟩ := by
  obtain ⟨hm, ha, hi⟩ := findOperation_some found
  refine ⟨hm, ha, usable, hi.symm, rfl, rfl, cancelled.mem_new, cancelled.keeps added.mem_new ?_⟩
  rintro he
  exact (added.fresh old hm).1 (congrArg Operation.id he.symm)

/-- Where the resolutions found after a move come from. -/
theorem Move.resolution_origin (h : Move account c t) {r : Resolution} (hr : r ∈ t.resolutions) :
    r ∈ c.now.resolutions ∨ (∃ r₀ ∈ c.now.resolutions, r = r₀.mirrored) ∨
      ∃ d old, Decided account c t d old r := by
  cases h with
  | rest | base | attention | attempted | recorded | acknowledged | cancelled => exact .inl hr
  | enqueued h => cases h <;> exact .inl hr
  | resolved h =>
    cases h with
    | replay => exact .inl hr
    | fresh found _ usable added linked cancelled =>
      rcases (linked.mem_iff r).1 hr with hr | rfl
      · exact .inl hr
      · exact .inr (.inr ⟨_, _, Resolved.decided _ found usable added cancelled⟩)
  | mirrored _ _ rewrote =>
    rcases (rewrote.mem_iff r).1 hr with rfl | ⟨hr, -⟩
    · exact .inr (.inl ⟨_, rewrote.mem, rfl⟩)
    · exact .inl hr

end

end Journal
