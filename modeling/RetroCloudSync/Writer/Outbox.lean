import RetroCloudSync.Writer.Attemptable
import Mathlib.Data.List.Perm.Subperm

/-!
# One outbox pass is bounded and backs off

`Pass`: rounds of `RCWriteJournalNext` and an attempt that reaches `BeginAttempt`, at one time `now`.
Whatever the server answers, whatever the engine refuses and wherever the attempt ends, its operation
is not due at `now` any more and the others are as they were (`Round.spent`), so that a pass visits
what is due once, in ascending order, and stops (`Pass.visits`).

`Outbox`: a journal with the attempts that began, newest first. The columns `attempts` and `retry_at`
count and delay them (`Paced`), in every contents that a connection holds: an attempt begins outside
any transaction, so that none is ever taken back. Hence the distances in the log (`Beat.spaced`).
-/

set_option autoImplicit false

namespace Writer

open Library Library.Tx Journal

variable {account id n now : Int} {type : Option Bytes} {c c' : Conn Tables} {t t' : Tables}

/-! ## One round -/

/-- The operation `id` is one that `Next` may hand out at `now`. -/
def Due (account now : Int) (t : Tables) (id : Int) : Prop :=
  ∃ o ∈ t.operations, o.due account id now = true

/-- The journal answers each call of the account, the engine refusing what it likes; the rest answers
anything. The flag is set once `BeginAttempt` has returned. -/
def Works (account : Int) (w : Conn Tables × Bool) :
    (q : Question) → q.Answer → Conn Tables × Bool → Prop
  | .journal q, a, w' => ∃ faults, a = answer (q.run account) w.1 faults ∧
      w'.1 = after (q.run account) w.1 faults ∧
      w'.2 = (w.2 || match q, a with | .beginAttempt .., .ok _ => true | _, _ => false)
  | _, _, w' => w' = w

/-- `Next` hands out the operation `n`, and an attempt of it comes to `BeginAttempt` and on. -/
def Round (account : Int) (type : Option Bytes) (now : Int) (c : Conn Tables) (n : Int)
    (c' : Conn Tables) : Prop :=
  (∃ faults, answer (Journal.next account now) c faults = .ok n) ∧ n ≠ 0 ∧
    ∃ x, Prog.Leads (Works account) (attempt n type now) (c, false) x (c', true)

/-- Rounds one after the other, with the operations that they visit. -/
inductive Pass (account : Int) (type : Option Bytes) (now : Int) :
    Conn Tables → List Int → Conn Tables → Prop
  | stop (c : Conn Tables) : Pass account type now c [] c
  | round {c c₁ c' : Conn Tables} {n : Int} {l : List Int} (round : Round account type now c n c₁)
      (rest : Pass account type now c₁ l c') : Pass account type now c (n :: l) c'

/-- Operation `n` is not due, and the others are as they were. -/
structure Spent (n now : Int) (t t' : Tables) : Prop where
  later : ∀ o ∈ t'.operations, o.id = n → now < o.retryAt
  others : ∀ o : Operation, o.id ≠ n → (o ∈ t'.operations ↔ o ∈ t.operations)

/-! ### What an attempt asks of the journal -/

/-- The calls of an attempt of `n` at `now`; a result is recorded once the attempt has begun. -/
def asksOf (n now : Int) (w : Conn Tables × Bool) : Question → Prop
  | .journal (.get _) => True
  | .journal (.beginAttempt id now') => id = n ∧ now' = now
  | .journal (.recordResult id ..) => id = n ∧ w.2 = true
  | .journal _ => False
  | _ => True

/-- Under way: the attempt has begun. -/
def Underway {α : Type} (account n now : Int) (x : WriterM α) : Prop :=
  ∀ c, Prog.wp (Works account) (asksOf n now) x (fun _ w => w.2 = true) (fun _ _ => True) (c, true)

theorem Underway.bind {α β : Type} {x : WriterM β} {f : β → WriterM α}
    (hx : Underway account n now x) (hf : ∀ b, Underway account n now (f b)) :
    Underway account n now (x >>= f) := by
  refine fun c => Prog.wp_bind (Prog.wp_mono (hx c) (fun b w hw => ?_) fun _ _ h => h)
  obtain ⟨c', flag⟩ := w
  obtain rfl : flag = true := hw
  exact hf b c'

theorem underway_orRaise {α : Type} {r : Except RCError α} :
    Underway account n now (orRaise r) := by
  intro c
  cases r with
  | ok a => exact rfl
  | error e => trivial

theorem underway_raise {α : Type} {e : RCError} : Underway account n now (.raise e : WriterM α) :=
  fun _ => trivial

theorem underway_get {href : Bytes} : Underway account n now (get href) := by
  refine .bind (fun c => Prog.wp_ask trivial fun a w hw => ?_) fun r => ?_
  · obtain rfl : w = (c, true) := hw
    exact underway_orRaise c
  · split
    · exact fun _ => rfl
    · exact underway_raise

theorem underway_record {state : OpState} {r : HTTPResponse} :
    Underway account n now (record n state r) := by
  refine fun c => Prog.wp_ask ⟨rfl, rfl⟩ fun a w hw => ?_
  obtain ⟨faults, -, -, hflag⟩ := hw
  obtain ⟨c', flag⟩ := w
  obtain rfl : flag = true := hflag
  exact underway_orRaise c'

theorem underway_send {m : Mutation} : Underway account n now (send m) := by
  refine fun c => Prog.wp_ask trivial fun a w hw => ?_
  obtain rfl : w = (c, true) := hw
  exact underway_orRaise c

theorem underway_conditionalRequest {method : Method} {url : Bytes} {type body ifMatch : Option Bytes}
    {ifNoneMatch : Bool} :
    Underway account n now (conditionalRequest method url type body ifMatch ifNoneMatch) := by
  unfold conditionalRequest
  split
  · exact underway_send
  · exact underway_raise

theorem underway_verify {o : Operation} {r : HTTPResponse} :
    Underway account n now (verify n o r) := by
  unfold verify
  split
  · exact .bind underway_get fun _ => underway_record
  · split
    · exact underway_record
    · refine .bind underway_get fun remote => ?_
      split
      · exact underway_record
      · exact underway_record

/-- What follows `BeginAttempt`. -/
theorem underway_begun {o : Operation} : Underway account n now (do
    let remote ← get o.href
    if achieved o remote then record n .applied remote
    else if remote.statusCode ≠ 200 ∧ remote.statusCode ≠ 404 then record n .uncertain remote
    else if moved o remote then record n .conflict remote
    else do
      let write ← conditionalRequest (if o.kind = .delete then .delete else .put) o.href type
        o.desiredBody (if o.kind = .create then none else o.baseETag) (o.kind = .create)
      verify n o write) := by
  refine .bind underway_get fun remote => ?_
  split
  · exact underway_record
  · split
    · exact underway_record
    · split
      · exact underway_record
      · exact .bind underway_conditionalRequest fun write => underway_verify

/-- An attempt asks of the journal what it may. -/
theorem attempt_asks (c : Conn Tables) :
    Prog.wp (Works account) (asksOf n now) (attempt n type now) (fun _ _ => True) (fun _ _ => True)
      (c, false) := by
  unfold attempt
  refine Prog.wp_bind (Prog.wp_ask trivial fun stop w hw => ?_)
  obtain rfl : w = (c, false) := hw
  cases (stop : Bool) with
  | true => trivial
  | false =>
    refine Prog.wp_bind (Prog.wp_ask trivial fun row w hw => ?_)
    cases row with
    | error e => trivial
    | ok o =>
      show Prog.wp _ _ (if unconditional o = true then _ else _) _ _ _
      split
      · trivial
      · refine Prog.wp_bind (Prog.wp_ask ⟨rfl, rfl⟩ fun a w' hw' => ?_)
        cases a with
        | error e => trivial
        | ok u =>
          obtain ⟨faults, -, -, hflag⟩ := hw'
          obtain ⟨c', flag⟩ := w'
          obtain rfl : flag = true := hflag.trans (Bool.or_true _)
          have hrest : Prog.wp (Works account) (asksOf n now) _ (fun _ _ => True) (fun _ _ => True)
              (c', true) :=
            Prog.wp_mono (@underway_begun account n now type o c') (fun _ _ _ => trivial)
              fun _ _ _ => trivial
          exact hrest

/-! ### What a round does -/

theorem Spent.rewrote {ops : Table Operation.id Operation.change} {o o' : Operation}
    (hr : Table.Rewrote t.operations ops o o') (hn : o.id = n) (hlate : now < o'.retryAt) :
    Spent n now t { t with operations := ops } where
  later x hx hid := by
    obtain rfl : x = o' := Table.eq_of_key hx hr.mem_new (hid.trans (hn.symm.trans hr.key_eq.symm))
    exact hlate
  others x hx := by
    refine hr.iff_of_ne (fun he => hx ?_) fun he => hx ?_
    · rw [he]
      exact hn
    · rw [he]
      exact hr.key_eq.trans hn

theorem Spent.trans {t₁ : Tables} (h : Spent n now t t₁) (h' : Spent n now t₁ t') :
    Spent n now t t' :=
  ⟨h'.later, fun o ho => (h'.others o ho).trans (h.others o ho)⟩

theorem Spent.refl_of {t : Tables} (h : ∀ o ∈ t.operations, o.id = n → now < o.retryAt) :
    Spent n now t t :=
  ⟨h, fun _ _ => .rfl⟩

/-- A call that fails leaves the connection as it was. -/
theorem after_error {α : Type} {x : JournalM α} {Q : α → Conn Tables → Prop}
    (h : Tx.wp x Q (fun _ c' => c' = c) c) {faults : List (Option String)} {e : RCError}
    (he : answer x c faults = .error e) : after x c faults = c := by
  have hf := h faults
  unfold answer at he
  unfold after
  cases hx : x ⟨c, faults⟩ with
  | ok a s =>
    rw [hx] at he
    cases he
  | error e' s =>
    rw [hx] at hf
    exact hf

/-- A call that returns did what its specification says. -/
theorem after_ok {α : Type} {x : JournalM α} {Q : α → Conn Tables → Prop}
    {E : RCError → Conn Tables → Prop} (h : Tx.wp x Q E c) {faults : List (Option String)} {a : α}
    (ha : answer x c faults = .ok a) : Q a (after x c faults) := by
  have hf := h faults
  unfold answer at ha
  unfold after
  cases hx : x ⟨c, faults⟩ with
  | ok a' s =>
    rw [hx] at hf ha
    cases ha
    exact hf
  | error e s =>
    rw [hx] at ha
    cases ha

theorem begun_spent {faults : List (Option String)}
    (h : answer (Journal.beginAttempt account n now) c faults = .ok ()) :
    Due account now c.now n ∧
      Spent n now c.now (after (Journal.beginAttempt account n now) c faults).now := by
  obtain ⟨-, -, o, ops, hdue, hr, he⟩ := after_ok beginAttempt_spec h
  have hid := hdue
  simp only [Operation.due, Bool.and_eq_true, decide_eq_true_iff] at hid
  refine ⟨⟨o, hr.mem, hdue⟩, ?_⟩
  have hd := five_le_retryDelay o.attempts
  rw [he]
  refine Spent.rewrote hr hid.1.1.2 ?_
  show now < now + retryDelay o.attempts
  omega

/-- The state of an attempt: nothing has changed until it begins, and then its operation is spent. -/
def Stage (account n now : Int) (c : Conn Tables) (w : Conn Tables × Bool) : Prop :=
  if w.2 then Due account now c.now n ∧ Spent n now c.now w.1.now else w.1 = c

theorem stage_step {w w' : Conn Tables × Bool} {q : Question} {a : q.Answer}
    (h : Stage account n now c w) (hq : asksOf n now w q) (ha : Works account w q a w') :
    Stage account n now c w' := by
  cases q with
  | journal q =>
    obtain ⟨faults, ha, hconn, hflag⟩ := ha
    cases q with
    | get id =>
      have hsame : w'.1 = w.1 := by
        rw [hconn]
        exact after_spec (P := (· = w.1)) (wp_get (fun _ _ => rfl) fun _ => rfl) faults
      have hflag : w'.2 = w.2 := hflag.trans (Bool.or_false _)
      unfold Stage
      rwa [hsame, hflag]
    | beginAttempt id now' =>
      obtain ⟨rfl, rfl⟩ := hq
      cases a with
      | error e =>
        have hsame : w'.1 = w.1 := hconn.trans (after_error beginAttempt_spec ha.symm)
        have hflag : w'.2 = w.2 := hflag.trans (Bool.or_false _)
        unfold Stage
        rwa [hsame, hflag]
      | ok u =>
        have hflag : w'.2 = true := hflag.trans (Bool.or_true _)
        obtain ⟨hdue, hspent⟩ := begun_spent ha.symm
        unfold Stage at h ⊢
        rw [hflag, if_pos rfl]
        by_cases hbegun : w.2 = true
        · -- an attempt that has begun does not begin again
          rw [if_pos hbegun] at h
          obtain ⟨o, ho, hp⟩ := hdue
          simp only [Operation.due, Bool.and_eq_true, decide_eq_true_iff] at hp
          have hlate := h.2.later o ho hp.1.1.2
          omega
        · rw [if_neg hbegun] at h
          subst h
          rw [hconn]
          exact ⟨hdue, hspent⟩
    | recordResult id state status etag body =>
      obtain ⟨rfl, hbegun⟩ := hq
      have hflag : w'.2 = true := hflag.trans (by simp [hbegun])
      unfold Stage at h ⊢
      rw [hbegun, if_pos rfl] at h
      rw [hflag, if_pos rfl, hconn]
      refine ⟨h.1, h.2.trans (after_spec (P := fun c' => Spent _ now w.1.now c'.now)
        (wp_mono recordResult_spec (fun _ c' hs => ?_) fun _ c' he => ?_) faults)⟩
      · obtain ⟨-, -, r, -, o, ops, hfits, hr, he⟩ := hs
        simp only [Outcome.fits, Bool.and_eq_true, decide_eq_true_iff] at hfits
        rw [he]
        exact Spent.rewrote hr hfits.1.1.2 (h.2.later o hr.mem hfits.1.1.2)
      · rw [he]
        exact Spent.refl_of h.2.later
    | _ => exact hq.elim
  | _ =>
    obtain rfl : w' = w := ha
    exact h

/-- **A round spends its operation**, which was due, and leaves the others alone. -/
theorem Round.spent (h : Round account type now c n c') :
    Due account now c.now n ∧ Spent n now c.now c'.now := by
  obtain ⟨-, -, x, hx⟩ := h
  have hstage := Prog.leads_invariant (J := Stage account n now c) (attempt_asks c) rfl
    (fun w q a w' hw hq ha => stage_step hw hq ha) hx
  exact hstage

/-! ### What a pass visits -/

theorem Spent.due_iff (h : Spent n now t t') (hid : id ≠ n) :
    Due account now t' id ↔ Due account now t id := by
  unfold Due
  refine exists_congr fun o => ?_
  constructor <;> intro ho <;> refine ⟨?_, ho.2⟩ <;> have hp := ho.2 <;>
    simp only [Operation.due, Bool.and_eq_true, decide_eq_true_iff] at hp
  · exact (h.others o (hp.1.1.2 ▸ hid)).1 ho.1
  · exact (h.others o (hp.1.1.2 ▸ hid)).2 ho.1

theorem Spent.not_due (h : Spent n now t t') : ¬ Due account now t' n := by
  intro hd
  obtain ⟨o, ho, hp⟩ := hd
  simp only [Operation.due, Bool.and_eq_true, decide_eq_true_iff] at hp
  have := h.later o ho hp.1.1.2
  omega

/-- What `Next` answers: the least operation that is due, or 0 when none is. -/
theorem next_least {faults : List (Option String)}
    (hpos : ∀ o ∈ c.now.operations, 0 < o.id)
    (h : answer (Journal.next account now) c faults = .ok n) :
    (n = 0 ∧ ∀ id, ¬ Due account now c.now id) ∨
      (n ≠ 0 ∧ Due account now c.now n ∧ ∀ id, Due account now c.now id → n ≤ id) := by
  let p (o : Operation) : Bool :=
    o.account = account && (o.state = .queued || o.state = .uncertain) && o.retryAt ≤ now
  have hdue (id : Int) : Due account now c.now id ↔
      id ∈ (c.now.operations.rows.filter p).map Operation.id := by
    rw [List.mem_map]
    constructor
    · intro hd
      obtain ⟨o, ho, hp⟩ := hd
      simp only [Operation.due, Bool.and_eq_true, decide_eq_true_iff] at hp
      refine ⟨o, List.mem_filter.2 ⟨ho, ?_⟩, hp.1.1.2⟩
      simp only [p, Bool.and_eq_true, decide_eq_true_iff]
      exact ⟨⟨hp.1.1.1, hp.1.2⟩, hp.2⟩
    · intro hd
      obtain ⟨o, ho, rfl⟩ := hd
      obtain ⟨ho, hp⟩ := List.mem_filter.1 ho
      simp only [p, Bool.and_eq_true, decide_eq_true_iff] at hp
      refine ⟨o, ho, ?_⟩
      simp only [Operation.due, Bool.and_eq_true, decide_eq_true_iff]
      exact ⟨⟨⟨hp.1.1, trivial⟩, hp.1.2⟩, hp.2⟩
  have hn : n = firstId p c.now :=
    answer_spec (P := (· = firstId p c.now)) (wp_query rfl fun _ => trivial) h
  unfold firstId at hn
  cases hm : ((c.now.operations.rows.filter p).map Operation.id).min? with
  | none =>
    rw [hm] at hn
    refine .inl ⟨hn, fun id hd => ?_⟩
    rw [hdue, List.min?_eq_none_iff.1 hm] at hd
    cases hd
  | some m =>
    rw [hm] at hn
    obtain rfl : n = m := hn
    have hmem := List.min?_mem hm
    have hd := (hdue n).2 hmem
    obtain ⟨o, ho, hp⟩ := hd
    have hid := hp
    simp only [Operation.due, Bool.and_eq_true, decide_eq_true_iff] at hid
    have hpos := hpos o ho
    refine .inr ⟨by omega, ⟨o, ho, hp⟩, fun id hid => ?_⟩
    exact (List.min?_eq_some_iff.1 hm).2 id ((hdue id).1 hid)

theorem Round.positive (h : Round account type now c n c')
    (hpos : ∀ o ∈ c.now.operations, 0 < o.id) : ∀ o ∈ c'.now.operations, 0 < o.id := by
  intro o ho
  obtain ⟨⟨x, hx, hp⟩, hspent⟩ := h.spent
  by_cases hid : o.id = n
  · simp only [Operation.due, Bool.and_eq_true, decide_eq_true_iff] at hp
    have := hpos x hx
    omega
  · exact hpos o ((hspent.others o hid).1 ho)

/-- **A pass visits in ascending order**, each operation once: those that were due and are due no
more, all of them before what is still due. -/
theorem Pass.visits {l : List Int} (h : Pass account type now c l c')
    (hpos : ∀ o ∈ c.now.operations, 0 < o.id) :
    l.Pairwise (· < ·) ∧
      (∀ id, Due account now c.now id ↔ id ∈ l ∨ Due account now c'.now id) ∧
      (∀ id, Due account now c'.now id → ∀ a ∈ l, a < id) ∧
      ∀ o ∈ c'.now.operations, 0 < o.id := by
  induction h with
  | stop c => exact ⟨.nil, fun _ => by simp, fun _ _ _ ha => (List.not_mem_nil ha).elim, hpos⟩
  | @round c c₁ c' n l round rest ih =>
    obtain ⟨hsorted, hdue, hafter, hpos'⟩ := ih (round.positive hpos)
    obtain ⟨hn, hspent⟩ := round.spent
    obtain ⟨⟨faults, hnext⟩, hne, -⟩ := round
    have hleast : ∀ id, Due account now c.now id → n ≤ id := by
      rcases next_least hpos hnext with ⟨h0, -⟩ | ⟨-, -, hleast⟩
      · exact absurd h0 hne
      · exact hleast
    have hlt : ∀ id, Due account now c₁.now id → n < id := by
      intro id hd
      have hid : id ≠ n := fun he => hspent.not_due (he ▸ hd)
      have := hleast id ((hspent.due_iff hid).1 hd)
      omega
    refine ⟨List.pairwise_cons.2 ⟨fun a ha => hlt a ((hdue a).2 (.inl ha)), hsorted⟩, fun id => ?_,
      fun id hd a ha => ?_, hpos'⟩
    · rw [List.mem_cons, or_assoc, ← hdue]
      by_cases hid : id = n
      · rw [hid]
        exact ⟨fun _ => .inl rfl, fun _ => hn⟩
      · rw [← hspent.due_iff hid]
        exact ⟨.inr, fun h => h.resolve_left hid⟩
    · rcases List.mem_cons.1 ha with rfl | ha
      · exact hlt id ((hdue id).2 (.inr hd))
      · exact hafter id hd a ha

/-- There are no more rounds than operations. -/
theorem Pass.bounded {l : List Int} (h : Pass account type now c l c')
    (hpos : ∀ o ∈ c.now.operations, 0 < o.id) : l.length ≤ c.now.operations.rows.length := by
  obtain ⟨hsorted, hdue, -, -⟩ := h.visits hpos
  have hnodup : l.Nodup := hsorted.imp fun hlt => Int.ne_of_lt hlt
  have hsub : l ⊆ c.now.operations.rows.map Operation.id := by
    intro id hid
    obtain ⟨o, ho, hp⟩ := (hdue id).2 (.inl hid)
    simp only [Operation.due, Bool.and_eq_true, decide_eq_true_iff] at hp
    exact List.mem_map.2 ⟨o, ho, hp.1.1.2⟩
  simpa using (hnodup.subperm hsub).length_le

/-! ### A pass goes on -/

/-- A round is made of steps of the journal, inside the transactions that were open. -/
theorem Round.reached {past : List (Conn Tables)} (h : Round account type now c n c')
    (hc : Reached c past) : (∃ past', Reached c' past') ∧ c'.undo = c.undo := by
  obtain ⟨-, -, x, hx⟩ := h
  refine Prog.leads_invariant (J := fun w => (∃ past', Reached w.1 past') ∧ w.1.undo = c.undo)
    (Prog.wp_any _ _) ⟨⟨past, hc⟩, rfl⟩ (fun w q a w' hw _ ha => ?_) hx
  cases q with
  | journal q =>
    obtain ⟨faults, -, hconn, -⟩ := ha
    obtain ⟨⟨past', hr⟩, hu⟩ := hw
    rw [hconn]
    exact ⟨⟨_, hr.next (.call w.1 account q faults)⟩, (call_cases account q w.1 faults).1.trans hu⟩
  | _ =>
    obtain rfl : w' = w := ha
    exact hw

theorem Pass.reached {l : List Int} {past : List (Conn Tables)}
    (h : Pass account type now c l c') (hc : Reached c past) :
    (∃ past', Reached c' past') ∧ c'.undo = c.undo := by
  induction h generalizing past with
  | stop c => exact ⟨⟨past, hc⟩, rfl⟩
  | round round rest ih =>
    obtain ⟨⟨past', hr⟩, hu⟩ := round.reached hc
    obtain ⟨hreached, hu'⟩ := ih hr
    exact ⟨hreached, hu'.trans hu⟩

/-- `BeginAttempt` of what is due returns, when nothing is refused. -/
theorem begin_returns (hvalid : 0 ≤ now ∧ now ≤ LLONG_MAX - 3600) (hu : c.undo = [])
    (hd : Due account now c.now n) :
    answer (Journal.beginAttempt account n now) c [] = .ok () := by
  have hone : c.now.operations.count (Operation.due account n now) = 1 := by
    obtain ⟨o, ho, hp⟩ := hd
    have hid : ∀ o, Operation.due account n now o = true → o.id = n := fun o ho => by
      simp only [Operation.due, Bool.and_eq_true, decide_eq_true_iff] at ho
      exact ho.1.1.2
    have hle := Table.count_le_one (t := c.now.operations) (p := Operation.due account n now)
      (one_row hid)
    have hpos : 0 < c.now.operations.count (Operation.due account n now) :=
      List.countP_pos_iff.2 ⟨o, ho, hp⟩
    omega
  have hidle : c.autocommit = true := Conn.autocommit_iff.2 hu
  have hrun : Journal.beginAttempt account n now ⟨c, []⟩ = .ok () ⟨{ c with now :=
      (updateOperations (Operation.due account n now) (Operation.attempted now) (fun _ => rfl)
        (fun _ => rfl) c.now).2 }, []⟩ := by
    unfold Journal.beginAttempt
    rw [if_neg (by omega)]
    have hout : (outsideTransaction : JournalM Unit) ⟨c, []⟩ = .ok () ⟨c, []⟩ := by
      show (if c.autocommit = true then pure () else throw _ : JournalM Unit) ⟨c, []⟩ = _
      rw [if_pos hidle]
      rfl
    show (EStateM.bind outsideTransaction fun _ => _) ⟨c, []⟩ = _
    unfold EStateM.bind
    rw [hout]
    show (if c.now.operations.count (Operation.due account n now) = 1 then pure () else throw _ :
      JournalM Unit) _ = _
    rw [if_pos hone]
    rfl
  unfold answer
  rw [hrun]

/-- What `Next` hands out can be attempted. -/
theorem round_of_due {past : List (Conn Tables)} {faults : List (Option String)}
    (hc : Reached c past) (hvalid : 0 ≤ now ∧ now ≤ LLONG_MAX - 3600) (hu : c.undo = [])
    (hnext : answer (Journal.next account now) c faults = .ok n) (hne : n ≠ 0)
    (hd : Due account now c.now n) : ∃ c', Round account type now c n c' := by
  obtain ⟨o, ho, hp⟩ := hd
  have hid := hp
  simp only [Operation.due, Bool.and_eq_true, decide_eq_true_iff] at hid
  have hget : Journal.get account n ⟨c, []⟩ = .ok o ⟨c, []⟩ := by
    have hfind : findOperation account n c.now = some o := by
      have := findOperation_eq ho
      rwa [hid.1.1.1, hid.1.1.2] at this
    exact runs_get hfind
  have hbegin := begin_returns hvalid hu ⟨o, ho, hp⟩
  let c' := after (Journal.beginAttempt account n now) c []
  have hstart : Prog.Leads (Works account) checkCancellation (c, false) (.ret ()) (c, false) :=
    Prog.leads_ask (a := false) rfl Prog.leads_refl
  have hread : Prog.Leads (Works account) (call (.get n)) (c, false) (.ret o) (c, false) := by
    refine Prog.leads_ask (a := .ok o) ⟨[], ?_, ?_, rfl⟩ Prog.leads_refl
    · show Except.ok o = answer (Journal.get account n) c []
      unfold answer
      rw [hget]
    · show c = after (Journal.get account n) c []
      unfold after
      rw [hget]
  have hcall : Prog.Leads (Works account) (call (.beginAttempt n now)) (c, false) (.ret ())
      (c', true) :=
    Prog.leads_ask (a := .ok ()) ⟨[], hbegin.symm, rfl, rfl⟩ Prog.leads_refl
  have hready : ¬ unconditional o = true := by
    rw [conditional_of_attemptable (hc.stocked o ho).1]
    exact Bool.false_ne_true
  refine ⟨c', ⟨faults, hnext⟩, hne, _, Prog.leads_then hstart (Prog.leads_then hread
    ((Prog.leads_of_eq (if_neg hready)).trans (Prog.leads_then hcall Prog.leads_refl)))⟩

/-! ## Backing off -/

/-- A journal, and the attempts that began with their times, newest first. -/
structure Outbox where
  conn : Conn Tables
  log : List (Int × Int)

/-- A statement on the enclosing transaction. -/
inductive Control : Conn Tables → Conn Tables → Prop
  | push (c : Conn Tables) : Control c c.push
  | release (c : Conn Tables) : Control c c.release
  | commit (c : Conn Tables) : Control c c.commit
  | restore (c : Conn Tables) : Control c c.restore
  | rollback (c : Conn Tables) : Control c c.rollback

/-- One step of the process; a `BeginAttempt` that returns is noted. -/
inductive Beat : Outbox → Outbox → Prop
  | begun (w : Outbox) (account id now : Int) (faults : List (Option String))
      (returns : answer (Journal.beginAttempt account id now) w.conn faults = .ok ()) :
      Beat w ⟨after (Journal.beginAttempt account id now) w.conn faults, (id, now) :: w.log⟩
  | refused (w : Outbox) (account id now : Int) (faults : List (Option String)) (e : RCError)
      (fails : answer (Journal.beginAttempt account id now) w.conn faults = .error e) :
      Beat w { w with conn := after (Journal.beginAttempt account id now) w.conn faults }
  | call (w : Outbox) (account : Int) (q : Journal.Call) (faults : List (Option String))
      (other : ∀ id now, q ≠ .beginAttempt id now) :
      Beat w { w with conn := after (q.run account) w.conn faults }
  | control {w : Outbox} {c : Conn Tables} (h : Control w.conn c) : Beat w { w with conn := c }

def Outbox.init : Outbox := ⟨⟨Tables.empty, []⟩, []⟩

/-- The times at which an operation was attempted, newest first. -/
def times (log : List (Int × Int)) (id : Int) : List Int :=
  (log.filter fun e => e.1 = id).map Prod.snd

/-- When an operation is due again, after these attempts. -/
def retryTime : List Int → Int
  | [] => 0
  | t₁ :: older => t₁ + retryDelay older.length

/-- The columns of the operations are those of the log. -/
structure Paced (log : List (Int × Int)) (t : Tables) : Prop where
  counted : ∀ o ∈ t.operations, o.attempts = (times log o.id).length
  delayed : ∀ o ∈ t.operations, o.retryAt = retryTime (times log o.id)
  present : ∀ e ∈ log, ∃ o ∈ t.operations, o.id = e.1

/-- Each attempt comes as late as the one before asks, and at a valid time. -/
def Spaced (l : List Int) : Prop :=
  (∀ pre t₂ t₁ older, l = pre ++ t₂ :: t₁ :: older → t₁ + retryDelay older.length ≤ t₂) ∧
    ∀ t ∈ l, 0 ≤ t ∧ t ≤ LLONG_MAX - 3600

/-! ### Calls that begin nothing -/

/-- The operations keep their ids, counts and delays; new ones were not attempted. -/
structure Steady (t t' : Tables) : Prop where
  stays : ∀ o ∈ t.operations, ∃ o' ∈ t'.operations, o'.id = o.id
  comes : ∀ o' ∈ t'.operations,
    (∃ o ∈ t.operations, o'.id = o.id ∧ o'.attempts = o.attempts ∧ o'.retryAt = o.retryAt) ∨
      o'.id = newRowid t.operations ∧ o'.attempts = 0 ∧ o'.retryAt = 0

theorem Steady.of_eq (h : t'.operations = t.operations) : Steady t t' := by
  refine ⟨fun o ho => ⟨o, h ▸ ho, rfl⟩, fun o ho => .inl ⟨o, h ▸ ho, rfl, rfl, rfl⟩⟩

theorem Steady.rewrote {ops : Table Operation.id Operation.change} {o o' : Operation}
    (hr : Table.Rewrote t.operations ops o o') (hn : o'.attempts = o.attempts)
    (hd : o'.retryAt = o.retryAt) : Steady t { t with operations := ops } where
  stays x hx := by
    rcases hr.goes_on hx with h | ⟨rfl, h⟩
    · exact ⟨x, h, rfl⟩
    · exact ⟨o', h, hr.key_eq⟩
  comes x hx := by
    rcases (hr.mem_iff x).1 hx with rfl | ⟨hx, -⟩
    · exact .inl ⟨o, hr.mem, hr.key_eq, hn, hd⟩
    · exact .inl ⟨x, hx, rfl, rfl, rfl⟩

theorem Steady.added {ops : Table Operation.id Operation.change} {o : Operation}
    (ha : Table.Added t.operations ops o) (hid : o.id = newRowid t.operations)
    (hn : o.attempts = 0) (hd : o.retryAt = 0) : Steady t { t with operations := ops } where
  stays x hx := ⟨x, ha.keeps hx, rfl⟩
  comes x hx := by
    rcases (ha.mem_iff x).1 hx with hx | rfl
    · exact .inl ⟨x, hx, rfl, rfl, rfl⟩
    · exact .inr ⟨hid, hn, hd⟩

theorem Enqueued.steady {i : Intent} (h : Enqueued account i t n t') : Steady t t' := by
  cases h with
  | replay => exact .of_eq rfl
  | fresh _ _ _ added => exact .added added rfl rfl rfl

theorem Resolved.steady {d : Decision} (h : Resolved account id d t n t') : Steady t t' := by
  cases h with
  | replay => exact .of_eq rfl
  | fresh found _ _ added _ cancelled =>
    refine ⟨fun x hx => ?_, fun x hx => ?_⟩
    · rcases cancelled.goes_on (added.keeps hx) with hx' | ⟨rfl, hx'⟩
      · exact ⟨x, hx', rfl⟩
      · exact ⟨_, hx', rfl⟩
    · rcases (cancelled.mem_iff x).1 hx with rfl | ⟨hx, -⟩
      · exact .inl ⟨_, (findOperation_some found).1, rfl, rfl, rfl⟩
      · rcases (added.mem_iff x).1 hx with hx | rfl
        · exact .inl ⟨x, hx, rfl, rfl, rfl⟩
        · exact .inr ⟨rfl, rfl, rfl⟩

/-- Every call but `BeginAttempt` leaves the counts and the delays alone. -/
theorem call_steady (q : Journal.Call) (h : ∀ id now, q ≠ .beginAttempt id now) :
    wp (q.run account) (fun _ c' => Steady c.now c'.now) (fun _ c' => c' = c) c := by
  cases q with
  | setBase key href etag body revision =>
    exact wp_mono setBase_spec (fun _ _ hs => .of_eq hs.1) fun _ _ h => h
  | enqueue change key href kind revision body =>
    refine wp_mono enqueue_spec (fun n c' hs => ?_) fun _ _ h => h
    obtain ⟨-, i, -, hs⟩ := hs
    exact Enqueued.steady hs
  | get id => exact wp_get (fun _ _ => .of_eq rfl) fun _ => rfl
  | next now => exact wp_query (.of_eq rfl) fun _ => rfl
  | nextConflict => exact wp_query (.of_eq rfl) fun _ => rfl
  | recoveryNext after => exact wp_query (.of_eq rfl) fun _ => rfl
  | beginAttempt id now => exact absurd rfl (h id now)
  | recordResult id state status etag body =>
    refine wp_mono recordResult_spec (fun _ c' hs => ?_) fun _ _ h => h
    obtain ⟨-, -, r, -, o, ops, -, hr, he⟩ := hs
    rw [he]
    exact .rewrote hr rfl rfl
  | acknowledge id =>
    exact wp_acknowledge (fun o ops _ hr => .rewrote hr rfl rfl) fun _ => rfl
  | cancel id => exact wp_cancel (fun o ops _ hr => .rewrote hr rfl rfl) fun _ => rfl
  | resolveConflict id kind body receipt =>
    refine wp_mono resolve_spec (fun n c' hs => ?_) fun _ _ h => h
    obtain ⟨-, d, -, hs⟩ := hs
    exact Resolved.steady hs
  | conflictAttention id reason =>
    refine wp_mono conflictAttention_spec (fun _ c' hs => ?_) fun _ _ h => h
    obtain ⟨-, att, he⟩ := hs
    exact .of_eq (by rw [he])
  | resolutionReceipt id =>
    refine wp_bind (wp_gate (wp_bind (wp_select ?_ fun _ => rfl)) fun _ => rfl)
    split
    · exact wp_throw rfl
    · exact wp_bind (wp_gate (wp_pure (.of_eq rfl)) fun _ => rfl)
  | resolutionMirrored id =>
    refine wp_mono resolutionMirrored_spec (fun _ c' hs => ?_) fun _ _ h => h
    obtain ⟨-, -, r, rs, -, -, he⟩ := hs
    exact .of_eq (by rw [he])

/-! ### Every step -/

theorem times_cons (e : Int × Int) (log : List (Int × Int)) (id : Int) :
    times (e :: log) id = if e.1 = id then e.2 :: times log id else times log id := by
  unfold times
  by_cases h : e.1 = id <;> simp [h]

theorem times_absent {log : List (Int × Int)} (h : ∀ e ∈ log, e.1 ≠ id) : times log id = [] := by
  unfold times
  rw [List.filter_eq_nil_iff.2 fun e he => by simpa using h e he]
  rfl

namespace Paced

variable {log : List (Int × Int)}

theorem empty : Paced [] Tables.empty where
  counted _ h := absurd h (Table.not_mem_empty _)
  delayed _ h := absurd h (Table.not_mem_empty _)
  present _ h := absurd h List.not_mem_nil

/-- A new operation has an id that was not attempted. -/
theorem steady (h : Paced log t) (hs : Steady t t') : Paced log t' := by
  have hnew : times log (newRowid t.operations) = [] := by
    refine times_absent fun e he => ?_
    obtain ⟨o, ho, hid⟩ := h.present e he
    have := lt_newRowid ho
    omega
  refine ⟨fun o ho => ?_, fun o ho => ?_, fun e he => ?_⟩
  · rcases hs.comes o ho with ⟨x, hx, hid, hn, -⟩ | ⟨hid, hn, -⟩
    · rw [hid, hn]
      exact h.counted x hx
    · rw [hid, hn, hnew]
      rfl
  · rcases hs.comes o ho with ⟨x, hx, hid, -, hd⟩ | ⟨hid, -, hd⟩
    · rw [hid, hd]
      exact h.delayed x hx
    · rw [hid, hd, hnew]
      rfl
  · obtain ⟨o, ho, hid⟩ := h.present e he
    obtain ⟨o', ho', hid'⟩ := hs.stays o ho
    exact ⟨o', ho', hid'.trans hid⟩

/-- An attempt is counted and delays the next one. -/
theorem begun (h : Paced log t) {o : Operation} {ops : Table Operation.id Operation.change}
    (hid : o.id = id) (hr : Table.Rewrote t.operations ops o (o.attempted now)) :
    Paced ((id, now) :: log) { t with operations := ops } := by
  subst hid
  have hown : times ((o.id, now) :: log) o.id = now :: times log o.id :=
    (times_cons ..).trans (if_pos rfl)
  have hother (x : Operation) (hx : x ∈ ops) (hne : x ≠ o.attempted now) :
      x ∈ t.operations ∧ o.id ≠ x.id := by
    rcases (hr.mem_iff x).1 hx with he | ⟨hxm, hxo⟩
    · exact absurd he hne
    · exact ⟨hxm, fun he => hxo (Table.eq_of_key hxm hr.mem he.symm)⟩
  refine ⟨fun x hx => ?_, fun x hx => ?_, fun e he => ?_⟩
  · by_cases hxo : x = o.attempted now
    · rw [hxo]
      show o.attempts + 1 = (times ((o.id, now) :: log) o.id).length
      rw [hown, List.length_cons, h.counted o hr.mem]
    · obtain ⟨hxm, hne⟩ := hother x hx hxo
      rw [times_cons, if_neg hne]
      exact h.counted x hxm
  · by_cases hxo : x = o.attempted now
    · rw [hxo]
      show now + retryDelay o.attempts = retryTime (times ((o.id, now) :: log) o.id)
      rw [hown, retryTime, h.counted o hr.mem]
    · obtain ⟨hxm, hne⟩ := hother x hx hxo
      rw [times_cons, if_neg hne]
      exact h.delayed x hxm
  · rcases List.mem_cons.1 he with rfl | he
    · exact ⟨_, hr.mem_new, rfl⟩
    · obtain ⟨x, hx, hid⟩ := h.present e he
      rcases hr.goes_on hx with hx' | ⟨rfl, hx'⟩
      · exact ⟨x, hx', hid⟩
      · exact ⟨_, hx', hid⟩

end Paced

/-- An attempt that begins at the right time. -/
theorem Spaced.cons {l : List Int} (h : Spaced l) (hlate : retryTime l ≤ now)
    (hvalid : 0 ≤ now ∧ now ≤ LLONG_MAX - 3600) : Spaced (now :: l) := by
  refine ⟨fun pre t₂ t₁ older he => ?_, fun t ht => ?_⟩
  · cases pre with
    | nil =>
      obtain ⟨rfl, rfl⟩ : now = t₂ ∧ l = t₁ :: older := by simpa using he
      exact hlate
    | cons x pre =>
      obtain ⟨-, he⟩ : now = x ∧ l = pre ++ t₂ :: t₁ :: older := by simpa using he
      exact h.1 pre t₂ t₁ older he
  · rcases List.mem_cons.1 ht with rfl | ht
    · exact hvalid
    · exact h.2 t ht

/-- Every contents that the connection holds is paced, and the log is spaced. -/
structure Timed (w : Outbox) : Prop where
  paced : ∀ t ∈ w.conn.images, Paced w.log t
  spaced : ∀ id, Spaced (times w.log id)

theorem control_images (h : Control c c') : ∀ t ∈ c'.images, t ∈ c.images := by
  cases h with
  | push => exact fun _ => Conn.images_push
  | release => exact fun _ => Conn.images_release
  | commit => exact fun _ => Conn.images_commit
  | restore => exact fun _ => Conn.images_restore
  | rollback => exact fun _ => Conn.images_rollback

theorem begun_valid {faults : List (Option String)}
    (h : answer (Journal.beginAttempt account id now) c faults = .ok ()) :
    0 ≤ now ∧ now ≤ LLONG_MAX - 3600 := by
  by_contra hbad
  have hrefused : Tx.wp (Journal.beginAttempt account id now) (fun _ _ => False)
      (fun _ _ => True) c := by
    unfold Journal.beginAttempt
    rw [if_pos (by omega)]
    exact wp_throw trivial
  exact after_ok hrefused h

/-- **Every step keeps the pace.** -/
theorem Beat.timed {w w' : Outbox} (h : Beat w w') (hw : Timed w) : Timed w' := by
  cases h with
  | begun account id now faults returns =>
    obtain ⟨hu, hu', o, ops, hdue, hr, he⟩ := after_ok beginAttempt_spec returns
    simp only [Operation.due, Bool.and_eq_true, decide_eq_true_iff] at hdue
    have hpaced := hw.paced _ w.conn.now_mem_images
    refine ⟨fun t ht => ?_, fun i => ?_⟩
    · -- no transaction is open, so that there is one image
      rcases Conn.mem_images.1 ht with rfl | ht
      · rw [he]
        exact hpaced.begun hdue.1.1.2 hr
      · rw [hu'] at ht
        cases ht
    · show Spaced (times ((id, now) :: w.log) i)
      rw [times_cons]
      split
      · rename_i hid
        have hid : id = i := hid
        refine (hw.spaced i).cons ?_ (begun_valid returns)
        rw [← hid, ← hdue.1.1.2, ← hpaced.delayed o hr.mem]
        exact hdue.2
      · exact hw.spaced i
  | refused account id now faults e fails =>
    rw [after_error beginAttempt_spec fails]
    exact hw
  | call account q faults other =>
    refine ⟨fun t ht => ?_, hw.spaced⟩
    have hundo := (call_cases account q w.conn faults).1
    rcases Conn.mem_images.1 ht with rfl | ht
    · refine (hw.paced _ w.conn.now_mem_images).steady ?_
      refine after_spec (P := fun c' => Steady w.conn.now c'.now)
        (wp_mono (call_steady q other) (fun _ _ h => h) fun _ c' he => ?_) faults
      rw [he]
      exact .of_eq rfl
    · exact hw.paced t (Conn.mem_images.2 (.inr (hundo ▸ ht)))
  | control h => exact ⟨fun t ht => hw.paced t (control_images h t ht), hw.spaced⟩

theorem retryDelay_le (k : Nat) : retryDelay k ≤ 3600 := by
  unfold retryDelay
  split
  · rename_i hk
    have hall : ∀ k < 10, (5 : Int) * 2 ^ k ≤ 3600 := by decide
    exact hall k hk
  · exact Int.le_refl _

/-- A step of the outbox is one of the journal. -/
theorem Beat.step {w w' : Outbox} (h : Beat w w') : Journal.Step w.conn w'.conn := by
  cases h with
  | begun account id now faults returns => exact .call w.conn account (.beginAttempt id now) faults
  | refused account id now faults e fails => exact .call w.conn account (.beginAttempt id now) faults
  | call account q faults other => exact .call w.conn account q faults
  | control h =>
    cases h with
    | push => exact .push _
    | release => exact .release _
    | commit => exact .commit _
    | restore => exact .restore _
    | rollback => exact .rollback _

/-! ## The main theorem -/

/-- **A pass is bounded and attempts back off**, in every run of the journal. A pass at any time
visits operations that are due, in ascending order, each once, and no more of them than there are
rows; when `Next` answers none, it has visited all that were due, and before that `Next` answers one
that it has not visited and that can be attempted. In the log of the run each attempt of an operation
comes as late as the one before asks, and no `retry_at` leaves the range of a signed 64-bit
integer. -/
theorem outbox_bounded {w : Outbox} {past : List Outbox}
    (h : Run (· = Outbox.init) Beat (w :: past)) :
    (∀ account type now l c', Pass account type now w.conn l c' →
      l.Pairwise (· < ·) ∧ l.length ≤ w.conn.now.operations.rows.length ∧
      (∀ id ∈ l, Due account now w.conn.now id ∧ ¬ Due account now c'.now id) ∧
      ∀ n faults, answer (Journal.next account now) c' faults = .ok n →
        if n = 0 then ∀ id, id ∈ l ↔ Due account now w.conn.now id
        else Due account now w.conn.now n ∧ (∀ id ∈ l, id < n) ∧
          (w.conn.undo = [] → 0 ≤ now ∧ now ≤ LLONG_MAX - 3600 →
            ∃ c'', Round account type now c' n c'')) ∧
    (∀ id pre t₂ t₁ older, times w.log id = pre ++ t₂ :: t₁ :: older →
      t₁ + retryDelay older.length ≤ t₂) ∧
    ∀ t ∈ w.conn.images, ∀ o ∈ t.operations, 0 ≤ o.retryAt ∧ o.retryAt ≤ LLONG_MAX := by
  have hboth : Timed w ∧ ∃ past', Reached w.conn past' := by
    refine Run.invariant (P := fun w => Timed w ∧ ∃ past', Reached w.conn past') ?_
      (fun w w' hw hs => ?_) h
    · intro w hw
      subst hw
      refine ⟨⟨fun t ht => ?_, fun id => ⟨fun pre t₂ t₁ older he => ?_, fun t ht => ?_⟩⟩, [],
        .start rfl⟩
      · rw [show t = Tables.empty by simpa [Conn.images, Outbox.init] using ht]
        exact .empty
      · simp [Outbox.init, times] at he
      · exact absurd ht List.not_mem_nil
    · obtain ⟨past', hr⟩ := hw.2
      exact ⟨hs.timed hw.1, _, hr.next hs.step⟩
  obtain ⟨htimed, past', hreached⟩ := hboth
  have hpos : ∀ o ∈ w.conn.now.operations, 0 < o.id := fun o ho => (hreached.stocked o ho).2
  refine ⟨fun account type now l c' hpass => ?_, fun id => (htimed.spaced id).1, fun t ht o ho => ?_⟩
  · obtain ⟨hsorted, hdue, hafter, hpos'⟩ := hpass.visits hpos
    refine ⟨hsorted, hpass.bounded hpos, fun id hid => ⟨(hdue id).2 (.inl hid), fun hd => ?_⟩,
      fun n faults hn => ?_⟩
    · have := hafter id hd id hid
      omega
    · obtain ⟨⟨past'', hreached'⟩, hundo⟩ := hpass.reached hreached
      rcases next_least hpos' hn with ⟨rfl, hnone⟩ | ⟨hne, hd, -⟩
      · rw [if_pos rfl]
        exact fun id => ⟨fun hid => (hdue id).2 (.inl hid), fun hid => ((hdue id).1 hid).resolve_right
          (hnone id)⟩
      · rw [if_neg hne]
        exact ⟨(hdue n).2 (.inr hd), fun id hid => hafter n hd id hid, fun hu hvalid =>
          round_of_due hreached' hvalid (hundo.trans hu) hn hne hd⟩
  · rw [(htimed.paced t ht).delayed o ho]
    have hvalid := (htimed.spaced o.id).2
    cases htimes : times w.log o.id with
    | nil => exact ⟨by decide, by decide⟩
    | cons t₁ older =>
      rw [htimes] at hvalid
      obtain ⟨hlow, hhigh⟩ := hvalid t₁ List.mem_cons_self
      have hdelay := retryDelay_le older.length
      have hfive := five_le_retryDelay older.length
      show 0 ≤ t₁ + retryDelay older.length ∧ t₁ + retryDelay older.length ≤ LLONG_MAX
      omega

/-! ### A waiting edit -/

/-- The edit waits, was attempted at once, and again five seconds later. -/
def waitingOutbox : Outbox := ⟨perform 7 waitingCalls ⟨Tables.empty, []⟩, []⟩

def retriedOutbox : Outbox :=
  ⟨after (Journal.beginAttempt 7 1 5) (after (Journal.beginAttempt 7 1 0) waitingOutbox.conn []) [],
    [(1, 5), (1, 0)]⟩

theorem run_waiting : ∃ past, Run (· = Outbox.init) Beat (waitingOutbox :: past) := by
  refine ⟨_, .next (.next (.start rfl) (.call Outbox.init 7 (waitingCalls.get ⟨0, by decide⟩) []
    fun _ _ h => by cases h)) (.call _ 7 (waitingCalls.get ⟨1, by decide⟩) [] fun _ _ h => by cases h)⟩

theorem run_retried : ∃ past, Run (· = Outbox.init) Beat (retriedOutbox :: past) := by
  obtain ⟨past, h⟩ := run_waiting
  have hfirst : answer (Journal.beginAttempt 7 1 0) waitingOutbox.conn [] = .ok () := rfl
  have hsecond : answer (Journal.beginAttempt 7 1 5)
      (after (Journal.beginAttempt 7 1 0) waitingOutbox.conn []) [] = .ok () := rfl
  exact ⟨_, (h.next (.begun waitingOutbox 7 1 0 [] hfirst)).next (.begun _ 7 1 5 [] hsecond)⟩

/-- The edit is handed out and can be attempted; its second attempt came five seconds later. -/
theorem outbox_bounded_waiting :
    (Due 7 0 waitingOutbox.conn.now 1 ∧ ∃ c', Round 7 none 0 waitingOutbox.conn 1 c') ∧
    (times retriedOutbox.log 1 = [5, 0] ∧ (0 : Int) + retryDelay 0 ≤ 5) := by
  obtain ⟨past, h⟩ := run_waiting
  obtain ⟨past', h'⟩ := run_retried
  have hnext : answer (Journal.next 7 0) waitingOutbox.conn [] = .ok 1 := rfl
  have hpass := ((outbox_bounded h).1 7 none 0 [] _ (.stop _)).2.2.2 1 [] hnext
  rw [if_neg (by decide)] at hpass
  exact ⟨⟨hpass.1, hpass.2.2 rfl ⟨by decide, by decide⟩⟩, rfl,
    (outbox_bounded h').2.1 1 [] 5 0 [] rfl⟩

end Writer
