import RetroCloudSync.Library.Run
import RetroCloudSync.Journal.Reach
import RetroCloudSync.Writer.Attempt

/-!
# Attempts racing other clients

`World`: the journal's database, the resource an operation writes to, the mutations that were ever
sent for it, and the attempt that is running. A mutation that was sent may reach the server at any
later time, more than once or never, whatever its sender was told. The process may crash between
any two questions, other clients may change the resource at any moment, and GETs may be answered
by anything.

The proof has two halves. `attempt_guarded`: an attempt only ever sends the mutation of the
operation's own intent, under the operation's own precondition (`Proper`). `Sound`, kept by every
step: therefore every change of ours found what the precondition asks for; the rest is the theory
of the register.
-/

set_option autoImplicit false

namespace Writer

open Library Journal

/-- Who changed the resource: a mutation of the operation, or another client. -/
inductive Author
  | own (m : Mutation)
  | other

def Author.isOwn : Author → Bool
  | own _ => true
  | other => false

abbrev Resource := Register Bytes Author Bytes

structure World where
  conn : Conn Tables
  server : Resource
  sent : List Mutation
  running : Option (Int × WriterM Unit)

/-- How the surroundings answer an attempt that works for `account`. -/
def answers (account : Int) (w : World) : (q : Question) → q.Answer → World → Prop
  | .cancelled, _, w' => w' = w
  | .journal q, a, w' => ∃ faults, a = answer (q.run account) w.conn faults ∧
      w' = { w with conn := after (q.run account) w.conn faults }
  | .get _, _, w' => w' = w
  | .send m, _, w' => w' = { w with sent := m :: w.sent }

/-- What a mutation leaves when it takes effect; the server may normalize what it stores. -/
def Mutation.leaves (m : Mutation) (v : Option (Version Bytes Bytes)) : Prop :=
  if m.method = .delete then v = none else ∃ u, v = some u ∧ etagIsStrong (some u.tag) = true

/-- One step of the journal's process, of the server, or of another client. -/
inductive Step (id : Int) (href : Bytes) : World → World → Prop
  | start (w : World) (account : Int) (type : Option Bytes) (now : Int)
      (idle : w.running = none) :
      Step id href w { w with running := some (account, attempt id type now) }
  | turn {w w' : World} {account : Int} {x y : WriterM Unit}
      (running : w.running = some (account, x))
      (turn : Prog.Turn (answers account) (x, w) (y, w')) :
      Step id href w { w' with running := some (account, y) }
  | finish (w : World) : Step id href w { w with running := none }
  | crash (w : World) : Step id href w { w with running := none, conn := w.conn.rollback }
  | journal {w : World} {c : Conn Tables} (step : Journal.Step w.conn c) :
      Step id href w { w with conn := c }
  | deliver {w : World} {m : Mutation} {v : Option (Version Bytes Bytes)} (sent : m ∈ w.sent)
      (here : m.url = href) (holds : m.cond.holds w.server.current) (leaves : m.leaves v)
      (fresh : ∀ u, v = some u → u.tag ∉ w.server.used) :
      Step id href w { w with server := w.server.change (.own m) v fresh }
  | edit {w : World} {v : Option (Version Bytes Bytes)}
      (fresh : ∀ u, v = some u → u.tag ∉ w.server.used) :
      Step id href w { w with server := w.server.change .other v fresh }

/-- Operation `o` is committed and nothing was tried yet; the resource is in any state. -/
structure Start (o : Operation) (w : World) : Prop where
  committed : w.conn.undo = [] ∧ o ∈ w.conn.now.operations
  idle : w.running = none
  unsent : w.sent = []
  untouched : w.server.history = []

/-! ## What an attempt sends -/

/-- The mutation that carries out `o`, under the precondition of `o`. -/
structure Proper (o : Operation) (m : Mutation) : Prop where
  url : m.url = o.href
  method : m.method = if o.kind = .delete then .delete else .put
  body : m.body = o.desiredBody
  cond : if o.kind = .create then m.cond = .absent
    else ∃ t, o.baseETag = some t ∧ m.cond = .tagged t

/-- A journal that answers for `o.id` answers with the intent of `o`. -/
def trusted (o : Operation) (_ : Unit) : (q : Question) → q.Answer → Unit → Prop
  | .journal (.get id), a, _ => ∀ o' : Operation, a = (.ok o' : Except RCError Operation) →
      id = o.id → o'.intent = o.intent
  | _, _, _ => True

/-- Only proper mutations may be sent. -/
def allowed (o : Operation) (_ : Unit) : Question → Prop
  | .send m => Proper o m
  | _ => True

/-- `x` sends nothing but the mutation of `o`. -/
def Guarded {α : Type} (o : Operation) (x : WriterM α) (post : α → Prop) : Prop :=
  Prog.wp (trusted o) (allowed o) x (fun a _ => post a) (fun _ _ => True) ()

section
variable {α β : Type} {o : Operation}

theorem Guarded.bind {x : WriterM β} {f : β → WriterM α} {mid : β → Prop} {post : α → Prop}
    (hx : Guarded o x mid) (hf : ∀ b, mid b → Guarded o (f b) post) :
    Guarded o (x >>= f) post :=
  Prog.wp_bind (Prog.wp_mono hx (fun b _ hb => hf b hb) fun _ _ h => h)

theorem Guarded.pure {a : α} {post : α → Prop} (h : post a) : Guarded o (pure a) post := h

theorem Guarded.raise {e : RCError} {post : α → Prop} : Guarded o (.raise e) post := trivial

theorem guarded_orRaise {r : Except RCError α} {post : α → Prop} (h : ∀ a, r = .ok a → post a) :
    Guarded o (orRaise r) post := by
  cases r with
  | ok a => exact h a rfl
  | error e => exact trivial

theorem guarded_call (q : Call) : Guarded o (call q) fun _ => True :=
  ⟨trivial, fun _ _ _ => guarded_orRaise fun _ _ => trivial⟩

theorem guarded_fetch (url : Bytes) : Guarded o (fetch url) fun _ => True :=
  ⟨trivial, fun _ _ _ => guarded_orRaise fun _ _ => trivial⟩

/-- The row an attempt reads has the intent of `o`. -/
theorem guarded_row : Guarded o (call (.get o.id)) fun o' : Operation => o'.intent = o.intent :=
  ⟨trivial, fun _ _ h => guarded_orRaise fun o' ho' => h o' ho' rfl⟩

theorem guarded_get (href : Bytes) : Guarded o (get href) fun _ => True := by
  refine (guarded_fetch href).bind fun r _ => ?_
  split
  · exact .pure trivial
  · exact .raise

theorem guarded_record (id : Int) (s : OpState) (r : HTTPResponse) :
    Guarded o (record id s r) fun _ => True := guarded_call _

theorem guarded_verify (id : Int) (o' : Operation) (write : HTTPResponse) :
    Guarded o (verify id o' write) fun _ => True := by
  unfold verify
  split
  · exact (guarded_get _).bind fun _ _ => guarded_record _ _ _
  · split
    · exact guarded_record _ _ _
    · refine (guarded_get _).bind fun _ _ => ?_
      split
      · exact guarded_record _ _ _
      · exact guarded_record _ _ _

theorem guarded_conditionalRequest {method : Method} {url : Bytes}
    {type body ifMatch : Option Bytes} {ifNoneMatch : Bool}
    (h : Proper o ⟨method, url, type, body, condition ifMatch⟩) :
    Guarded o (conditionalRequest method url type body ifMatch ifNoneMatch) fun _ => True := by
  unfold conditionalRequest
  split
  · exact ⟨h, fun _ _ _ => guarded_orRaise fun _ _ => trivial⟩
  · exact .raise

/-- The mutation built from a row with the intent of `o` is the one of `o`. -/
theorem proper_of_intent {o' : Operation} (hi : o'.intent = o.intent)
    (hu : unconditional o' = false) (type : Option Bytes) :
    Proper o ⟨if o'.kind = .delete then .delete else .put, o'.href, type, o'.desiredBody,
      condition (if o'.kind = .create then none else o'.baseETag)⟩ := by
  have hs := Operation.same_of_intent hi
  refine ⟨hs.href, by rw [hs.kind], hs.desiredBody, ?_⟩
  rw [← hs.kind, ← hs.baseETag]
  by_cases hc : o'.kind = .create
  · rw [if_pos hc, if_pos hc]
    rfl
  · rw [if_neg hc, if_neg hc]
    have hstrong : etagIsStrong o'.baseETag = true := by
      simp only [unconditional, Bool.or_eq_false_iff] at hu
      simpa [hc] using hu.1
    obtain ⟨t, ht⟩ := etagIsStrong_some hstrong
    exact ⟨t, ht, by rw [ht]; rfl⟩

theorem attempt_guarded (type : Option Bytes) (now : Int) :
    Guarded o (attempt o.id type now) fun _ => True := by
  unfold attempt
  refine Guarded.bind (show Guarded o checkCancellation fun _ => True from ?_) fun _ _ => ?_
  · refine ⟨trivial, fun stop _ _ => ?_⟩
    cases stop <;> exact trivial
  refine guarded_row.bind fun o' hi => ?_
  split
  · exact .raise
  rename_i hu
  refine (guarded_call _).bind fun _ _ => (guarded_get _).bind fun remote _ => ?_
  split
  · exact guarded_record _ _ _
  split
  · exact guarded_record _ _ _
  split
  · exact guarded_record _ _ _
  have hp := proper_of_intent hi (by simpa using hu) type
  exact (guarded_conditionalRequest hp).bind fun write _ => guarded_verify _ _ _

end

/-! ## What the race keeps -/

/-- Some row of the tables has the intent of `o`, hence its id. -/
def Holds (o : Operation) (t : Tables) : Prop := ∃ o' ∈ t.operations, o'.intent = o.intent

structure Sound (o : Operation) (w : World) : Prop where
  row : Everywhere (Holds o) w.conn
  sent : ∀ m ∈ w.sent, Proper o m
  running : ∀ account x, w.running = some (account, x) → Guarded o x fun _ => True
  own : ∀ c ∈ w.server.history, ∀ m, c.author = .own m →
    Proper o m ∧ m.cond.holds c.before ∧ m.leaves c.after

theorem holds_step {o : Operation} {c c' : Conn Tables} (h : Everywhere (Holds o) c)
    (hs : Journal.Step c c') : Everywhere (Holds o) c' := by
  refine h.step (fun account c t hc hm => ?_) hs
  obtain ⟨o', ho', hi⟩ := hc.now
  obtain ⟨o'', ho'', hi', -⟩ := hm.operation ho'
  exact ⟨o'', ho'', hi'.trans hi⟩

/-- The journal's answers may be trusted while it holds the row. -/
theorem trusted_of_answers {o : Operation} {account : Int} {w w' : World} {q : Question}
    {a : q.Answer} (hr : Holds o w.conn.now) (ha : answers account w q a w') :
    trusted o () q a () := by
  unfold trusted
  split
  · rename_i id a
    rintro o' rfl rfl
    obtain ⟨faults, hans, -⟩ := ha
    have hget : findOperation account o.id w.conn.now = some o' :=
      answer_spec (P := fun b : Operation => findOperation account o.id w.conn.now = some b)
        (wp_get (fun b hb => hb) fun _ => trivial) hans.symm
    obtain ⟨hm, -, hid⟩ := findOperation_some hget
    obtain ⟨o'', ho'', hi⟩ := hr
    rw [Table.eq_of_key hm ho'' (hid.trans (Operation.same_of_intent hi).id.symm)]
    exact hi
  · exact trivial

/-- Answering a question keeps the rows and the server, and sends only what was asked for. -/
theorem answers_frame {o : Operation} {account : Int} {w w' : World} {q : Question}
    {a : q.Answer} (ha : answers account w q a w') (hrow : Everywhere (Holds o) w.conn)
    (hq : allowed o () q) (hsent : ∀ m ∈ w.sent, Proper o m) :
    Everywhere (Holds o) w'.conn ∧ (∀ m ∈ w'.sent, Proper o m) ∧ w'.server = w.server := by
  cases q with
  | cancelled =>
    obtain rfl : w' = w := ha
    exact ⟨hrow, hsent, rfl⟩
  | journal q =>
    obtain ⟨faults, -, rfl⟩ := ha
    exact ⟨holds_step hrow (.call _ account q faults), hsent, rfl⟩
  | get url =>
    obtain rfl : w' = w := ha
    exact ⟨hrow, hsent, rfl⟩
  | send m =>
    obtain rfl : w' = { w with sent := m :: w.sent } := ha
    refine ⟨hrow, fun m' hm' => ?_, rfl⟩
    rcases List.mem_cons.1 hm' with rfl | hm'
    · exact hq
    · exact hsent m' hm'

theorem Sound.step {o : Operation} {w w' : World} (h : Sound o w) (hs : Step o.id o.href w w') :
    Sound o w' := by
  cases hs with
  | start account type now idle =>
    refine ⟨h.row, h.sent, fun account' x hx => ?_, h.own⟩
    obtain ⟨-, rfl⟩ := Prod.mk.inj (Option.some.inj hx)
    exact attempt_guarded type now
  | turn running turn =>
    cases turn with
    | answer ha =>
      have hg := h.running _ _ running
      obtain ⟨hrow, hsent, hserver⟩ := answers_frame ha h.row hg.1 h.sent
      refine ⟨hrow, hsent, fun account' x hx => ?_, hserver ▸ h.own⟩
      obtain ⟨-, rfl⟩ := Prod.mk.inj (Option.some.inj hx)
      exact hg.2 _ () (trusted_of_answers h.row.now ha)
  | finish => exact ⟨h.row, h.sent, fun _ _ hx => (nomatch hx), h.own⟩
  | crash => exact ⟨holds_step h.row (.rollback _), h.sent, fun _ _ hx => (nomatch hx), h.own⟩
  | journal step => exact ⟨holds_step h.row step, h.sent, h.running, h.own⟩
  | deliver sent here holds leaves fresh =>
    refine ⟨h.row, h.sent, h.running, fun c hc m hm => ?_⟩
    rcases List.mem_cons.1 hc with rfl | hc
    · obtain rfl := Author.own.inj hm
      exact ⟨h.sent _ sent, holds, leaves⟩
    · exact h.own c hc m hm
  | edit fresh =>
    refine ⟨h.row, h.sent, h.running, fun c hc m hm => ?_⟩
    rcases List.mem_cons.1 hc with rfl | hc
    · cases hm
    · exact h.own c hc m hm

theorem Start.sound {o : Operation} {w : World} (h : Start o w) : Sound o w where
  row t ht := by
    have hnow : t = w.conn.now := by simpa [Conn.images, h.committed.1] using ht
    exact ⟨o, hnow ▸ h.committed.2, rfl⟩
  sent m hm := by rw [h.unsent] at hm; cases hm
  running _ _ hx := by rw [h.idle] at hx; cases hx
  own c hc := by rw [h.untouched] at hc; cases hc

/-! ## No lost update -/

/-- What a change of ours replaced: nothing for a create, else the version of the base. -/
def Replaced (o : Operation) (c : Change Bytes Author Bytes) : Prop :=
  if o.kind = .create then c.before = none
  else ∃ v, c.before = some v ∧ o.baseETag = some v.tag

theorem Sound.replaced {o : Operation} {w : World} (h : Sound o w)
    {c : Change Bytes Author Bytes} (hc : c ∈ w.server.history) {m : Mutation}
    (hm : c.author = .own m) : Replaced o c := by
  obtain ⟨hp, hcond, -⟩ := h.own c hc m hm
  have hpc := hp.cond
  unfold Replaced
  split at hpc
  · rename_i hk
    rw [hpc] at hcond
    rw [if_pos hk]
    exact hcond
  · rename_i hk
    obtain ⟨t, ht, htag⟩ := hpc
    rw [if_neg hk]
    rw [htag] at hcond
    cases hb : c.before with
    | none => rw [hb] at hcond; exact hcond.elim
    | some v =>
      rw [hb] at hcond
      obtain rfl : v.tag = t := hcond
      exact ⟨v, rfl, ht⟩

/-- **No lost update, at most once.** Whatever the attempts are told, wherever they crash and
whatever other clients do meanwhile: a change of ours carried out the intent of the operation and
replaced the version of its base, or nothing for a create; an update or delete took effect at most
once; and between two effects of a create another client removed the resource. -/
theorem no_lost_update {o : Operation} {w : World} {past : List World}
    (h : Library.Run (Start o) (Step o.id o.href) (w :: past)) :
    (∀ c ∈ w.server.history, ∀ m, c.author = .own m →
      (m.method = if o.kind = .delete then .delete else .put) ∧ m.body = o.desiredBody ∧
        Replaced o c) ∧
    (o.kind ≠ .create → w.server.history.countP (fun c => c.author.isOwn) ≤ 1) ∧
    (o.kind = .create → ∀ newer later mid earlier older,
      w.server.history = newer ++ later :: (mid ++ earlier :: older) →
      later.author.isOwn = true → earlier.author.isOwn = true →
        ∃ e ∈ mid, e.author = .other ∧ e.before ≠ none ∧ e.after = none) := by
  have hs : Sound o w := Run.invariant (P := Sound o) (fun _ hs => hs.sound) (fun _ _ hs => hs.step) h
  have own_mutation : ∀ c : Change Bytes Author Bytes, c.author.isOwn = true →
      ∃ m, c.author = .own m := by
    intro c hc
    cases ha : c.author with
    | own m => exact ⟨m, rfl⟩
    | other => rw [ha] at hc; cases hc
  refine ⟨fun c hc m hm => ?_, fun hk => ?_, fun hk newer later mid earlier older hh hl he => ?_⟩
  · have hp := (hs.own c hc m hm).1
    exact ⟨hp.method, hp.body, hs.replaced hc hm⟩
  · cases hb : o.baseETag with
    | none =>
      -- no change of ours can have replaced a version without a tag
      rw [List.countP_eq_zero.2 fun c hc ho => ?_]
      · exact Nat.zero_le 1
      obtain ⟨m, hm⟩ := own_mutation c ho
      have hr := hs.replaced hc hm
      rw [Replaced, if_neg hk] at hr
      obtain ⟨v, -, ht⟩ := hr
      rw [hb] at ht
      cases ht
    | some t =>
      refine Register.at_most_once w.server.known w.server.timeline (t := t) fun c hc ho => ?_
      obtain ⟨m, hm⟩ := own_mutation c ho
      have hr := hs.replaced hc hm
      rw [Replaced, if_neg hk] at hr
      obtain ⟨v, hv, ht⟩ := hr
      exact ⟨v, hv, Option.some.inj (ht.symm.trans hb)⟩
  · have hmem : ∀ c, c = later ∨ c ∈ mid ∨ c = earlier → c ∈ w.server.history := by
      intro c hc
      rw [hh]
      rcases hc with rfl | hc | rfl <;> simp [*]
    -- a mutation of a create leaves the resource there
    have leaves : ∀ c ∈ w.server.history, c.author.isOwn = true → c.after ≠ none := by
      intro c hc ho
      obtain ⟨m, hm⟩ := own_mutation c ho
      obtain ⟨hp, -, hleft⟩ := hs.own c hc m hm
      have hput : m.method ≠ .delete := by
        rw [hp.method, hk]
        decide
      rw [Mutation.leaves, if_neg hput] at hleft
      obtain ⟨u, hu, -⟩ := hleft
      rw [hu]
      simp
    obtain ⟨ml, hml⟩ := own_mutation later hl
    have hnone := hs.replaced (hmem later (.inl rfl)) hml
    rw [Replaced, if_pos hk] at hnone
    obtain ⟨e, hem, hbefore, hafter⟩ :=
      Register.removed_between hh (leaves earlier (hmem earlier (.inr (.inr rfl))) he) hnone
    refine ⟨e, hem, ?_, hbefore, hafter⟩
    cases ha : e.author with
    | other => rfl
    | own m => exact absurd hafter (leaves e (hmem e (.inr (.inl hem))) (by rw [ha]; rfl))

/-- The database after an edit was enqueued against version `"v1"`. -/
def edited : Conn Tables :=
  perform 7 [.setBase (some (ascii "k")) (some (ascii "https://dav/k")) (some (ascii "\"v1\""))
      (.data (ascii "old")) 1,
    .enqueue (some (ascii "c1")) (some (ascii "k")) (some (ascii "https://dav/k"))
      (some (ascii "update")) 1 (.data (ascii "new"))] ⟨Tables.empty, []⟩

def editedRow : Operation where
  id := 1
  account := 7
  changeID := ascii "c1"
  resourceKey := ascii "k"
  href := ascii "https://dav/k"
  kind := .update
  state := .queued
  localRevision := 1
  baseETag := some (ascii "\"v1\"")
  baseBody := some (ascii "old")
  desiredBody := some (ascii "new")
  attempts := 0
  retryAt := 0
  httpStatus := none
  resultETag := none
  resultBody := none

def published : Version Bytes Bytes := ⟨ascii "\"v1\"", ascii "old"⟩

/-- The server as the edit found it. -/
def untouched : Resource where
  seen := [published.tag]
  init := some published
  history := []
  known v hv := by simp [← Option.some.inj hv]
  timeline := .start

theorem edited_start : Start editedRow ⟨edited, untouched, [], none⟩ where
  committed := by
    have hrow : edited.now.operations.rows.head? = some editedRow := by decide +kernel
    have hundo : edited.undo.length = 0 := by decide +kernel
    exact ⟨List.length_eq_zero_iff.1 hundo, List.mem_of_mem_head? hrow⟩
  idle := rfl
  unsent := rfl
  untouched := rfl

theorem answer_row :
    answer (Call.run 7 (.get 1)) edited [] = (.ok editedRow : Except RCError Operation) := by
  have h : findOperation 7 1 edited.now = some editedRow := by decide +kernel
  have hg : Tx.runs (Journal.get 7 1) edited editedRow edited := runs_get h
  show answer (Journal.get 7 1) edited [] = _
  unfold answer
  rw [hg]

theorem answer_begun :
    answer (Call.run 7 (.beginAttempt 1 0)) edited [] = (.ok () : Except RCError Unit) := by
  have h : (match answer (Call.run 7 (.beginAttempt 1 0)) edited [] with
    | .ok _ => true
    | .error _ => false) = true := by decide +kernel
  cases ha : answer (Call.run 7 (.beginAttempt 1 0)) edited [] with
  | ok _ => rfl
  | error _ => rw [ha] at h; cases h

/-- A turn of the attempt that is running. -/
theorem run_turn {id : Int} {href : Bytes} {o : Operation} {w : World} {past : List World}
    {account : Int} {q : Question} {k : q.Answer → WriterM Unit}
    (h : Library.Run (Start o) (Step id href) (w :: past))
    (hr : w.running = some (account, .ask q k)) (a : q.Answer) (w' : World)
    (ha : answers account w q a w') :
    Library.Run (Start o) (Step id href)
      ({ w' with running := some (account, k a) } :: w :: past) :=
  h.next (.turn hr (.answer ha))

def observed : HTTPResponse :=
  ⟨200, some (ascii "https://dav/k"), some published.tag, some published.body⟩

def upload : Mutation :=
  ⟨.put, ascii "https://dav/k", none, some (ascii "new"), .tagged published.tag⟩

/-- The upload is sent, its sender hears nothing and crashes, and only then the server acts. -/
theorem no_lost_update_delivered :
    ∃ w past, Library.Run (Start editedRow) (Step editedRow.id editedRow.href) (w :: past) ∧
      w.server.history.length = 1 ∧ w.server.history.countP (fun c => c.author.isOwn) ≤ 1 ∧
      ∀ c ∈ w.server.history, Replaced editedRow c := by
  have h1 := Run.next (.start edited_start)
    (@Step.start editedRow.id editedRow.href _ 7 none 0 rfl)
  have h2 := run_turn (q := .cancelled) h1 rfl false _ rfl
  have h3 := run_turn (q := .journal (.get 1)) h2 rfl (.ok editedRow) _ ⟨[], answer_row.symm, rfl⟩
  have h4 := run_turn (q := .journal (.beginAttempt 1 0)) h3 rfl (.ok ()) _
    ⟨[], answer_begun.symm, rfl⟩
  have h5 := run_turn (q := .get editedRow.href) h4 rfl (.ok observed) _ rfl
  have h6 := run_turn (q := .send upload) h5 rfl (.error ⟨28, "DAV request failed: timeout"⟩) _ rfl
  have h7 := h6.next (.crash _)
  have h8 := h7.next (.deliver (m := upload) (v := some ⟨ascii "\"v2\"", ascii "new"⟩)
    List.mem_cons_self rfl (by exact (rfl : published.tag = published.tag))
    ⟨_, rfl, by decide⟩ (by
      intro u hu
      rw [← Option.some.inj hu]
      decide))
  obtain ⟨hown, honce, -⟩ := no_lost_update h8
  refine ⟨_, _, h8, rfl, honce (by decide), fun c hc => (hown c hc upload ?_).2.2⟩
  rw [List.mem_singleton.1 hc]

end Writer
