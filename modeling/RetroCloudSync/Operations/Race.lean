import RetroCloudSync.Library.Run
import RetroCloudSync.Operations.Run

/-!
# Moves racing other clients

`World`: the database, the resources of the server, the MOVE requests that were ever sent, and the
pass that is running. A request that was sent may arrive at any later time, more than once or never,
whatever its sender was told; when it arrives, the server honours `If-Match` and `Overwrite: F` in
one step with the move. The process may crash between any two questions, and other clients may
change any resource at any moment. Between two passes the rest of the daemon does what it likes,
but of the operations it only adds new ones and retires rejected ones.

A GET that is answered with 200 or 404 shows the resource as it is at that moment (`Shows`); any
other answer may be anything. `Trace` notes what the pass has read, since it began with an action or
last sent a request.
-/

set_option autoImplicit false

namespace Operations

open Library Native Exchange
open Journal (Bytes RCError etagIsStrong)

/-! ## The world -/

/-- Who changed a resource: a MOVE of ours, or another client. -/
inductive Author
  | own (m : MoveRequest)
  | other

abbrev Resource := Register Bytes Author Bytes

/-- The rows of a pass and its reads, newest first, and whether it was just told that no transaction
is open. -/
structure Trace where
  rows : List Action
  reads : List (String × Response)
  alone : Bool

def Trace.empty : Trace := ⟨[], [], false⟩

/-- The reads with another one, of a response that is about this address. -/
def noteRead (url : String) (r : Option Response) (reads : List (String × Response)) :
    List (String × Response) :=
  match r with
  | some r => if r.effectiveURL = some url then (url, r) :: reads else reads
  | none => reads

/-- What is noted of an answer. -/
def Trace.after (t : Trace) : (q : Question) → q.Answer → Trace
  | .autocommit, a => { t with alone := a }
  | .queued, some rows => ⟨rows, [], false⟩
  | .cancelled, _ => { t with reads := [], alone := false }
  | .move _, _ => { t with reads := [], alone := false }
  | .get url, r => { t with reads := noteRead url r t.reads, alone := false }
  | _, _ => { t with alone := false }

structure World (V : Type) where
  conn : Conn (Tables V)
  server : Bytes → Resource
  sent : List MoveRequest
  running : Option (Int × OperationsM (Bool × Nat))
  trace : Trace
  error : RCError

/-- A response that is about the version there is. -/
structure Shows (v : Option (Version Bytes Bytes)) (r : Response) : Prop where
  absent : r.statusCode = 404 → v = none
  present : r.statusCode = 200 → ∃ u, v = some u ∧ r.body.getD [] = u.body ∧
    ∀ e, r.etag = some e → cstring e = u.tag

section
variable {V : Type} [Value V]

/-- How the surroundings answer a pass for `account`. -/
def answers (account : Int) (w : World V) : (q : Question) → q.Answer → World V → Prop
  | .autocommit, a, w' => a = w.conn.autocommit ∧ w' = w
  | .queued, a, w' => w' = w ∧
      ∀ l, a = (some l : Option (List Action)) → l <+: queuedActions account w.conn.now.actions
  | .get url, a, w' => (∃ e, w' = { w with error := e }) ∧
      ∀ r, a = (some r : Option Response) → r.effectiveURL = some url →
        Shows (w.server (cstring url)).current r
  | .move m, _, w' => ∃ e, w' = { w with sent := m :: w.sent, error := e }
  | .commitMove root source target etag body, a, w' => ∃ r c e,
      Tx.Ends (commitVerifiedMove account root source target etag body) w.conn r c ∧
        a = r.isSome ∧ w' = { w with conn := c, error := e }
  | .commitCreated x, a, w' => ∃ r c e, Tx.Ends (commitCreated account x) w.conn r c ∧
      a = r.isSome ∧ w' = { w with conn := c, error := e }
  | .rollbackOpen, _, w' => w' = w ∨ w' = { w with conn := w.conn.rollback }
  | .markConflict native, _, w' => ∃ r c e, Tx.Ends (recordConflict account native) w.conn r c ∧
      w' = { w with conn := c, error := e }
  | .errorSet, a, w' => a = decide (w.error.code ≠ 0) ∧ w' = w
  | .setError e, _, w' => w' = { w with error := e }
  | .clearError, _, w' => w' = { w with error := ⟨0, ""⟩ }
  | _, _, w' => ∃ e, w' = { w with error := e }

/-- What the rest of the daemon does to the operations: new ones are queued, and rejected ones
retired (`Exchange.collectOperations`). -/
inductive Collected : Actions → Actions → Prop
  | refl (t : Actions) : Collected t t
  | added {t t' : Actions} (h : Collected t t') (a : Action) (queued : a.state = .queued) :
      Collected t (addAction a t')
  | retired {t t' : Actions} (h : Collected t t') (account : Int) (native : String) :
      Collected t (retire account native t')

/-- The server after the request `m` moved its source to the version `u` at its destination. -/
def moveResource (server : Bytes → Resource) (m : MoveRequest) (u : Version Bytes Bytes)
    (fresh : u.tag ∉ (server m.destination).used) : Bytes → Resource :=
  Function.update
    (Function.update server m.source ((server m.source).change (.own m) none fun _ h => by cases h))
    m.destination ((server m.destination).change (.own m) (some u) fun v h => by
      cases h
      exact fresh)

/-- The server after another client stored `v`, or removed what there was. -/
def editResource (server : Bytes → Resource) (url : Bytes) (v : Option (Version Bytes Bytes))
    (fresh : ∀ u, v = some u → u.tag ∉ (server url).used) : Bytes → Resource :=
  Function.update server url ((server url).change .other v fresh)

/-- What happens in a step: the pass goes on, the daemon does something else, a request arrives, or
another client stores or removes a resource. -/
inductive Event
  | pass
  | daemon
  | arrive (m : MoveRequest)
  | edit (url : Bytes) (v : Option (Version Bytes Bytes))

inductive Step (valid : String → Bool) : Event → World V → World V → Prop
  | start (w : World V) (account : Int) (idle : w.running = none) :
      Step valid .pass w { w with running := some (account, runOperations valid)
                                  trace := .empty }
  | turn {w w' : World V} {account : Int} {q : Question}
      {k : q.Answer → OperationsM (Bool × Nat)} {a : q.Answer}
      (running : w.running = some (account, .ask q k)) (answer : answers account w q a w') :
      Step valid .pass w { w' with running := some (account, k a), trace := w.trace.after q a }
  | finish (w : World V) : Step valid .pass w { w with running := none, trace := .empty }
  | crash (w : World V) :
      Step valid .pass w { w with running := none, trace := .empty, conn := w.conn.rollback }
  | daemon {w : World V} {t : Tables V} (idle : w.running = none)
      (collected : Collected w.conn.now.actions t.actions) :
      Step valid .daemon w { w with conn := ⟨t, []⟩ }
  | arrive {w : World V} {m : MoveRequest} {v u : Version Bytes Bytes} (sent : m ∈ w.sent)
      (source : (w.server m.source).current = some v) (holds : m.ifMatch.holds (some v))
      (absent : m.overwrite = false → (w.server m.destination).current = none)
      (body : u.body = v.body) (fresh : u.tag ∉ (w.server m.destination).used) :
      Step valid (.arrive m) w { w with server := moveResource w.server m u fresh }
  | edit {w : World V} {url : Bytes} {v : Option (Version Bytes Bytes)}
      (fresh : ∀ u, v = some u → u.tag ∉ (w.server url).used) :
      Step valid (.edit url v) w { w with server := editResource w.server url v fresh }

/-- No pass was ever made; the tables and the resources are in any state. -/
structure Start (w : World V) : Prop where
  idle : w.running = none
  unread : w.trace = .empty
  unsent : w.sent = []
  untouched : ∀ url, (w.server url).history = []

/-- A run that is at `w` and has been through `past`. -/
def Reached (valid : String → Bool) (w : World V) (past : List (World V)) : Prop :=
  Run Start (fun w w' => ∃ e, Step valid e w w') (w :: past)

end

/-! ## What a pass asks -/

/-- The request of an action that moves. -/
def request (a : Action) : Option MoveRequest :=
  a.source.bind fun source => a.etag.map fun etag =>
    ⟨cstring source, cstring a.target, .tagged (cstring etag), false⟩

/-- The last two reads found the source gone and the target with these bytes. -/
structure Verified (reads : List (String × Response)) (source target etag : String)
    (body : Option Bytes) : Prop where
  strong : etagIsStrong (some (cstring etag)) = true
  last : ∃ before response rest, reads = (target, response) :: (source, before) :: rest ∧
    before.statusCode = 404 ∧ response.statusCode = 200 ∧ response.etag = some etag ∧
      response.body.getD [] = body.getD []

/-- The source was read as present. -/
def ReadPresent (reads : List (String × Response)) (source : String) : Prop :=
  ∃ before, (source, before) ∈ reads ∧ before.statusCode = 200

/-- A move of the pass. -/
def Trace.Moves (t : Trace) (a : Action) : Prop := a ∈ t.rows ∧ a.kind = .move

/-- What a pass may ask when it has read `t`. -/
def allowed (t : Trace) : Question → Prop
  | .queued => t.alone = true
  | .move m => ∃ a, t.Moves a ∧ request a = some m
  | .commitMove root source target etag body => ∃ a, t.Moves a ∧ a.native = root ∧
      a.source = some source ∧ a.target = target ∧ a.body = body ∧
        Verified t.reads source target etag body
  | .markConflict native => ∃ a source, t.Moves a ∧ a.native = native ∧ a.source = some source ∧
      ReadPresent t.reads source
  | _ => True

def traced (t : Trace) (q : Question) (a : q.Answer) (t' : Trace) : Prop := t' = t.after q a

/-- From `t` the program only asks what it may, and returns in `post`. -/
def Guarded {α : Type} (x : OperationsM α) (post : α → Trace → Prop) (t : Trace) : Prop :=
  Prog.wp traced allowed x post (fun _ _ => True) t

section
variable {α β : Type} {t : Trace} {a : Action} {source target : String}

theorem Guarded.bind {x : OperationsM β} {f : β → OperationsM α} {mid : β → Trace → Prop}
    {post : α → Trace → Prop} (hx : Guarded x mid t)
    (hf : ∀ b t', mid b t' → Guarded (f b) post t') : Guarded (x >>= f) post t :=
  Prog.wp_bind (Prog.wp_mono hx (fun b t' hb => hf b t' hb) fun _ _ h => h)

theorem Guarded.mono {x : OperationsM α} {post post' : α → Trace → Prop} (hx : Guarded x post t)
    (h : ∀ b t', post b t' → post' b t') : Guarded x post' t :=
  Prog.wp_mono hx h fun _ _ h => h

theorem Guarded.pure {b : α} {post : α → Trace → Prop} (h : post b t) :
    Guarded (pure b) post t := h

theorem Guarded.ask {q : Question} {k : q.Answer → OperationsM α} {post : α → Trace → Prop}
    (hq : allowed t q) (hk : ∀ b, Guarded (k b) post (t.after q b)) : Guarded (.ask q k) post t :=
  ⟨hq, fun b _ ht => ht ▸ hk b⟩

theorem guarded_setError (e : RCError) : Guarded (setError e) (fun _ t' => t'.rows = t.rows) t :=
  .ask trivial fun _ => rfl

theorem guarded_get (url : String) : Guarded (get url) (fun r t' => t'.rows = t.rows ∧
    ∀ response, r = some response → t'.reads = (url, response) :: t.reads) t := by
  refine .ask trivial fun r => ?_
  refine ⟨rfl, fun response h => ?_⟩
  show noteRead url r t.reads = (url, response) :: t.reads
  obtain ⟨rfl, hurl⟩ := Option.filter_eq_some_iff.1 h
  exact if_pos (by simpa using hurl)

/-- The reads that a pair of responses stands for. -/
def Trace.Read (t : Trace) (source target : String) (before response : Response) : Prop :=
  ∃ rest, t.reads = (target, response) :: (source, before) :: rest

theorem guarded_readBoth : Guarded (readBoth source target) (fun r t' => t'.rows = t.rows ∧
    ∀ before response, r = some (before, response) → t'.Read source target before response) t := by
  refine (guarded_get source).bind fun before t₁ h₁ => ?_
  cases before with
  | none => exact .pure ⟨h₁.1, fun _ _ h => by cases h⟩
  | some before =>
    refine (guarded_get target).bind fun response t₂ h₂ => ?_
    cases response with
    | none => exact .pure ⟨h₂.1.trans h₁.1, fun _ _ h => by cases h⟩
    | some response =>
      refine .pure ⟨h₂.1.trans h₁.1, fun _ _ h => ?_⟩
      cases h
      exact ⟨t.reads, by rw [h₂.2 response rfl, h₁.2 before rfl]⟩

/-- A verdict of conflict goes with a read of the source as present. -/
def Judged (rows : List Action) (source : String) (outcome : Outcome) (t : Trace) : Prop :=
  t.rows = rows ∧ (outcome.conflict = true → ReadPresent t.reads source)

theorem guarded_judge {read : Option (Response × Response)} (ha : t.Moves a)
    (hs : a.source = some source)
    (hr : ∀ before response, read = some (before, response) →
      t.Read source a.target before response) :
    Guarded (judge a source read) (Judged t.rows source) t := by
  cases read with
  | none => exact .pure ⟨rfl, fun h => by cases h⟩
  | some read =>
    obtain ⟨before, response⟩ := read
    obtain ⟨rest, hreads⟩ := hr before response rfl
    by_cases harrived : arrived a before response = true
    · rw [judge, if_pos harrived]
      simp only [arrived, holdsBody, Bool.and_eq_true, decide_eq_true_iff] at harrived
      obtain ⟨⟨⟨hbefore, hresponse⟩, hstrong⟩, hbody⟩ := harrived
      refine .ask ⟨a, ha, rfl, hs, rfl, rfl, ?_⟩ fun done => .pure ⟨rfl, fun h => by cases h⟩
      -- a strong entity tag is there
      cases hetag : response.etag with
      | none =>
        rw [hetag] at hstrong
        cases hstrong
      | some etag =>
        rw [hetag] at hstrong
        exact ⟨hstrong, before, response, rest, hreads, hbefore, hresponse, hetag, hbody⟩
    · rw [judge, if_neg harrived]
      refine .pure ⟨rfl, fun h => ⟨before, ?_, ?_⟩⟩
      · rw [hreads]
        exact List.mem_cons_of_mem _ List.mem_cons_self
      · simp only [Bool.and_eq_true, decide_eq_true_iff] at h
        exact h.2

theorem guarded_clientMove {valid : String → Bool} {etag : String} (ha : t.Moves a)
    (hs : a.source = some source) (he : a.etag = some etag) :
    Guarded (clientMove valid source a.target etag) (fun _ t' => t'.rows = t.rows) t := by
  unfold clientMove
  split
  · refine .ask ⟨a, ha, ?_⟩ fun _ => rfl
    rw [request, hs, he]
    rfl
  · exact guarded_setError _

theorem guarded_tryMove {valid : String → Bool} {before response : Response} (ha : t.Moves a)
    (hs : a.source = some source) (hr : t.Read source a.target before response) :
    Guarded (tryMove valid a source before response) (Judged t.rows source) t := by
  unfold tryMove
  split
  · rename_i h200
    split
    · rename_i hsame
      simp only [unchanged, Bool.and_eq_true, decide_eq_true_iff] at hsame
      have hetag : a.etag = some (a.etag.getD "") := by
        rw [← hsame.1]
        rfl
      refine (guarded_clientMove ha hs hetag).bind fun _ t₁ h₁ => ?_
      refine guarded_readBoth.bind fun read t₂ h₂ => ?_
      have hrows : t₂.rows = t.rows := h₂.1.trans h₁
      rw [← hrows]
      exact guarded_judge ⟨hrows ▸ ha.1, ha.2⟩ hs h₂.2
    · obtain ⟨rest, hreads⟩ := hr
      refine .pure ⟨rfl, fun _ => ⟨before, ?_, h200.1⟩⟩
      rw [hreads]
      exact List.mem_cons_of_mem _ List.mem_cons_self
  · refine guarded_judge ha hs fun b r h => ?_
    cases h
    exact hr

/-- What an action of the pass leaves. -/
def Ran (rows : List Action) (a : Action) (outcome : Outcome) (t : Trace) : Prop :=
  t.rows = rows ∧ (outcome.conflict = true →
    a.kind = .move ∧ ∃ source, a.source = some source ∧ ReadPresent t.reads source)

theorem guarded_runMove {valid : String → Bool} (ha : t.Moves a) :
    Guarded (runMove valid a) (Ran t.rows a) t := by
  unfold runMove
  split
  · exact .pure ⟨rfl, fun h => by cases h⟩
  · rename_i source hs
    refine guarded_readBoth.bind fun read t₁ h₁ => ?_
    cases read with
    | none => exact .pure ⟨h₁.1, fun h => by cases h⟩
    | some read =>
      rw [← h₁.1]
      refine (guarded_tryMove ⟨h₁.1 ▸ ha.1, ha.2⟩ hs (h₁.2 _ _ rfl)).mono fun outcome t' h => ?_
      exact ⟨h.1, fun hc => ⟨ha.2, source, hs, h.2 hc⟩⟩

theorem guarded_created : Guarded (created a) (fun _ t' => t'.rows = t.rows) t :=
  .ask trivial fun _ => rfl

theorem guarded_mkcalendar : Guarded (mkcalendar a) (fun _ t' => t'.rows = t.rows) t := by
  unfold mkcalendar
  generalize Writer.validMutation .mkcalendar (some (creationBody a)) none true = ok
  cases ok with
  | true =>
    rw [if_pos rfl]
    exact .ask trivial fun _ => rfl
  | false =>
    rw [if_neg (by simp)]
    exact guarded_setError _

theorem guarded_createCalendar : Guarded (createCalendar a) (fun _ t' => t'.rows = t.rows) t := by
  unfold createCalendar
  refine Guarded.bind guarded_created fun there t₁ h₁ => ?_
  cases there with
  | true => exact .pure h₁
  | false =>
    refine Guarded.bind guarded_mkcalendar fun _ t₂ h₂ => ?_
    exact guarded_created.mono fun _ t' h => h.trans (h₂.trans h₁)

theorem guarded_runCreation : Guarded (runCreation a) (fun _ t' => t'.rows = t.rows) t := by
  unfold runCreation
  refine Guarded.bind guarded_createCalendar fun there t₁ h₁ => ?_
  cases there with
  | true => exact .ask trivial fun _ => h₁
  | false => exact .pure h₁

theorem guarded_runAction {valid : String → Bool} (ha : a ∈ t.rows) :
    Guarded (runAction valid a) (Ran t.rows a) t := by
  unfold runAction
  split
  · exact guarded_runCreation.bind fun done t₁ h₁ => .pure ⟨h₁, fun h => by cases h⟩
  · rename_i hk
    refine guarded_runMove ⟨ha, ?_⟩
    cases h : a.kind with
    | create => exact absurd h hk
    | move => rfl

theorem guarded_settle {outcome : Outcome} {rows : List Action} (ha : a ∈ rows)
    (h : Ran rows a outcome t) : Guarded (settle a outcome) (fun _ t' => t'.rows = rows) t := by
  refine .ask trivial fun _ => ?_
  split
  · rename_i hc
    obtain ⟨hk, source, hs, hread⟩ := h.2 hc
    exact .ask ⟨a, source, ⟨h.1 ▸ ha, hk⟩, rfl, hs, hread⟩ fun _ => h.1
  · exact h.1

theorem guarded_finish (all : Bool) : Guarded (finish all) (fun _ _ => True) t := by
  unfold finish
  split
  · exact .ask trivial fun _ => trivial
  · refine .ask trivial fun set => ?_
    split
    · exact trivial
    · exact (guarded_setError _).mono fun _ _ _ => trivial

theorem guarded_runActions {valid : String → Bool} (l : List Action) (all : Bool) (verified : Nat)
    (hl : ∀ a ∈ l, a ∈ t.rows) : Guarded (runActions valid l all verified) (fun _ _ => True) t := by
  induction l generalizing t all verified with
  | nil =>
    exact (guarded_finish all).bind fun _ _ _ => .pure trivial
  | cons a l ih =>
    refine .ask trivial fun stop => ?_
    have hrows : (t.after .cancelled stop).rows = t.rows := rfl
    split
    · exact trivial
    · refine (guarded_runAction (hrows ▸ hl a List.mem_cons_self)).bind fun outcome t₁ h₁ => ?_
      refine (guarded_settle (hl a List.mem_cons_self) h₁).bind fun _ t₂ h₂ => ?_
      exact ih _ _ fun b hb => h₂ ▸ hl b (List.mem_cons_of_mem a hb)

/-- **What a pass asks**: it moves, commits and rejects only actions of its own, a commit after the
two reads that verify it and a conflict after a read of the source as present. -/
theorem runOperations_guarded (valid : String → Bool) :
    Guarded (runOperations valid) (fun _ _ => True) t := by
  refine .ask trivial fun ready => ?_
  split
  · refine .ask trivial fun idle => ?_
    split
    · rename_i hidle
      refine .ask hidle fun actions => ?_
      cases actions with
      | none => exact trivial
      | some actions => exact guarded_runActions actions true 0 fun a ha => ha
    · exact trivial
  · exact trivial

end

/-! ## Parts of a pass -/

section
variable {V : Type}

def World.note (t : Trace) (w : World V) : World V := { w with trace := t }

def World.send (m : MoveRequest) (w : World V) : World V := { w with sent := m :: w.sent }

def World.pass (r : Option (Int × OperationsM (Bool × Nat))) (w : World V) : World V :=
  { w with running := r }

end

/-- An answer, and what is noted of it. -/
def noted {V : Type} [Value V] (account : Int) (w : World V) (q : Question) (a : q.Answer)
    (w' : World V) : Prop :=
  ∃ u, answers account w q a u ∧ w' = u.note (w.trace.after q a)

section
variable {V : Type} [Value V] {valid : String → Bool} {w w' u : World V} {account : Int}

/-- What is asked does not depend on who asks. -/
theorem answers_running {q : Question} {a : q.Answer} (h : answers account w q a w')
    (r : Option (Int × OperationsM (Bool × Nat))) :
    answers account (w.pass r) q a (w'.pass r) := by
  cases q with
  | move m =>
    obtain ⟨e, rfl⟩ := h
    exact ⟨e, rfl⟩
  | commitMove root source target etag body =>
    obtain ⟨v, c, e, hends, ha, rfl⟩ := h
    exact ⟨v, c, e, hends, ha, rfl⟩
  | commitCreated x =>
    obtain ⟨v, c, e, hends, ha, rfl⟩ := h
    exact ⟨v, c, e, hends, ha, rfl⟩
  | markConflict native =>
    obtain ⟨v, c, e, hends, rfl⟩ := h
    exact ⟨v, c, e, hends, rfl⟩
  | rollbackOpen =>
    obtain rfl | rfl := h
    · exact .inl rfl
    · exact .inr rfl
  | autocommit | errorSet =>
    obtain ⟨ha, rfl⟩ := h
    exact ⟨ha, rfl⟩
  | queued =>
    obtain ⟨rfl, ha⟩ := h
    exact ⟨rfl, ha⟩
  | get url =>
    obtain ⟨⟨e, rfl⟩, ha⟩ := h
    exact ⟨⟨e, rfl⟩, ha⟩
  | setError e | clearError =>
    obtain rfl := h
    rfl
  | actionTables | cancelled | created | mkcalendar =>
    obtain ⟨e, rfl⟩ := h
    exact ⟨e, rfl⟩

/-- A part of a pass is a part of a run. -/
theorem steps_of_leads {x y : OperationsM (Bool × Nat)} {R : World V → World V → Prop}
    (h : Prog.Leads (noted account) x w y w') (hR : ∀ w w', Step valid .pass w w' → R w w') :
    Relation.ReflTransGen R (w.pass (some (account, x))) (w'.pass (some (account, y))) := by
  refine Relation.ReflTransGen.lift (fun s : OperationsM (Bool × Nat) × World V =>
    s.2.pass (some (account, s.1))) ?_ _ _ h
  intro s t hturn
  cases hturn with
  | @answer w w' q k a ha =>
    obtain ⟨u, hu, rfl⟩ := ha
    have hstep : Step valid .pass (w.pass (some (account, .ask q k)))
        { u.pass (some (account, .ask q k)) with
          running := some (account, k a), trace := w.trace.after q a } :=
      .turn rfl (answers_running hu (some (account, .ask q k)))
    exact hR _ _ hstep

/-- One answer. -/
theorem leads_note {α : Type} {q : Question} {k : q.Answer → OperationsM α} {y : OperationsM α}
    (a : q.Answer) (ha : answers account w q a u)
    (h : Prog.Leads (noted account) (k a) (u.note (w.trace.after q a)) y w') :
    Prog.Leads (noted account) (.ask q k) w y w' :=
  Prog.leads_ask ⟨u, ha, rfl⟩ h

/-- A reply to a GET. -/
theorem leads_get {url : String} {r : Response} (hr : r.effectiveURL = some url)
    (shows : Shows (w.server (cstring url)).current r) :
    Prog.Leads (noted account) (get url) w (.ret (some r))
      (w.note ⟨w.trace.rows, (url, r) :: w.trace.reads, false⟩) := by
  have hanswer : answers account w (.get url) (some r : Option Response) w :=
    ⟨⟨w.error, rfl⟩, fun r' h _ => by cases h; exact shows⟩
  have hreads : noteRead url (some r) w.trace.reads = (url, r) :: w.trace.reads := if_pos hr
  have hfilter : (some r).filter (fun r => r.effectiveURL = some url) = some r := by
    rw [Option.filter_some, if_pos (by simpa using hr)]
  refine leads_note _ hanswer ?_
  rw [← hreads, hfilter]
  exact Prog.leads_refl

theorem leads_readBoth {source target : String} {before response : Response}
    (hb : before.effectiveURL = some source) (hr : response.effectiveURL = some target)
    (shows : Shows (w.server (cstring source)).current before)
    (shows' : Shows (w.server (cstring target)).current response) :
    Prog.Leads (noted account) (readBoth source target) w (.ret (some (before, response)))
      (w.note ⟨w.trace.rows, (target, response) :: (source, before) :: w.trace.reads, false⟩) :=
  Prog.leads_then (leads_get hb shows) (Prog.leads_then (leads_get hr shows') Prog.leads_refl)

/-- A move whose source is unchanged and whose target is absent is sent. -/
theorem leads_sent {a : Action} {source etag : String} {m : MoveRequest}
    {before response : Response} (hs : a.source = some source) (he : a.etag = some etag)
    (hb : before.effectiveURL = some source) (hr : response.effectiveURL = some a.target)
    (shows : Shows (w.server (cstring source)).current before)
    (shows' : Shows (w.server (cstring a.target)).current response)
    (h200 : before.statusCode = 200) (h404 : response.statusCode = 404)
    (hsame : unchanged a before = true)
    (hsend : clientMove valid source a.target etag = .ask (.move m) .ret) :
    Prog.Leads (noted account) (runMove valid a) w (readBoth source a.target >>= judge a source)
      ((w.send m).note ⟨w.trace.rows, [], false⟩) := by
  have htry : tryMove valid a source before response =
      clientMove valid source a.target etag >>= fun _ => readBoth source a.target >>=
        judge a source := by
    rw [tryMove, if_pos ⟨h200, h404⟩, if_pos hsame, he]
    rfl
  rw [runMove, hs]
  refine Prog.leads_then (leads_readBoth hb hr shows shows') ?_
  show Prog.Leads _ (tryMove valid a source before response) _ _ _
  rw [htry, hsend]
  exact leads_note (q := .move m) () ⟨w.error, rfl⟩ Prog.leads_refl

/-- What is left of a pass after its first action. -/
def afterFirst (valid : String → Bool) (a : Action) (rest : List Action) (outcome : Outcome) :
    OperationsM (Bool × Nat) := do
  settle a outcome
  runActions valid rest (true && outcome.done) (if outcome.done then 0 + 1 else 0)

/-- The beginning of a pass whose first action is `a`. -/
theorem leads_first {a : Action} {rest : List Action} (hidle : w.conn.undo = [])
    (ha : queuedActions account w.conn.now.actions = a :: rest) :
    Prog.Leads (noted account) (runOperations valid) w
      (runAction valid a >>= afterFirst valid a rest) (w.note ⟨a :: rest, [], false⟩) := by
  refine leads_note (q := .actionTables) true ⟨w.error, rfl⟩ ?_
  refine leads_note (q := .autocommit) true ⟨(Conn.autocommit_iff.2 hidle).symm, rfl⟩ ?_
  refine leads_note (q := .queued) (some (a :: rest)) ⟨rfl, ?_⟩ ?_
  · intro l hl
    cases hl
    show a :: rest <+: queuedActions account w.conn.now.actions
    exact ha ▸ List.prefix_rfl
  · exact leads_note (q := .cancelled) false ⟨w.error, rfl⟩ Prog.leads_refl

end

end Operations
