import RetroCloudSync.Operations.Race

/-!
# Moves are safe

`Sound w past`: in a run that is at `w` and has been through `past`, what the running pass holds was
queued at some moment, each of its reads shows the resource as it was at some moment, every MOVE
that was ever sent is the request of an action that was queued, and what is left of the pass asks
only what it may. A step keeps this (`Sound.step`), so it holds along every run (`sound_of_reached`).

`move_safety` reads off it, for every run: a MOVE that takes effect moves the version tagged in its
action to an absent target; a pass commits a move only after it read the source as gone and the
target with the saved bytes; and the commit does everything or nothing.
-/

set_option autoImplicit false

namespace Operations

open Library Native Exchange
open Journal (Bytes ascii etagIsStrong)

section
variable {V : Type}

/-- The action was queued in one of these states. -/
def Queued (past : List (World V)) (a : Action) : Prop :=
  ∃ s ∈ past, a ∈ s.conn.now.actions ∧ a.state = .queued

/-- The response was given in one of these states. -/
def Seen (past : List (World V)) (url : String) (r : Response) : Prop :=
  ∃ s ∈ past, Shows (s.server (cstring url)).current r

/-- The request of an action that was queued. -/
def Requested (past : List (World V)) (m : MoveRequest) : Prop :=
  ∃ a, Queued past a ∧ a.kind = .move ∧ request a = some m

/-- The pass holds nothing it was not given. -/
structure Sound (w : World V) (past : List (World V)) : Prop where
  rows : ∀ a ∈ w.trace.rows, Queued (w :: past) a
  reads : ∀ read ∈ w.trace.reads, Seen (w :: past) read.1 read.2
  sent : ∀ m ∈ w.sent, Requested (w :: past) m
  running : ∀ account x, w.running = some (account, x) → Guarded x (fun _ _ => True) w.trace

variable {past : List (World V)} {w w' s : World V} {a : Action} {m : MoveRequest}

theorem Queued.cons (h : Queued past a) : Queued (s :: past) a := by
  obtain ⟨u, hu, hq⟩ := h
  exact ⟨u, List.mem_cons_of_mem s hu, hq⟩

theorem Seen.cons {url : String} {r : Response} (h : Seen past url r) :
    Seen (s :: past) url r := by
  obtain ⟨u, hu, hs⟩ := h
  exact ⟨u, List.mem_cons_of_mem s hu, hs⟩

theorem Requested.cons (h : Requested past m) : Requested (s :: past) m := by
  obtain ⟨a, hq, hk, hr⟩ := h
  exact ⟨a, hq.cons, hk, hr⟩

/-- A state with the same trace and requests and another pass. -/
theorem Sound.next (h : Sound w past) (ht : w'.trace = w.trace) (hs : w'.sent = w.sent)
    (hr : w'.running = w.running) : Sound w' (w :: past) where
  rows a ha := (h.rows a (ht ▸ ha)).cons
  reads read hread := (h.reads read (ht ▸ hread)).cons
  sent m hm := (h.sent m (hs ▸ hm)).cons
  running account x hx := ht ▸ h.running account x (hr ▸ hx)

/-- A state in which no pass is running. -/
theorem Sound.idle (h : Sound w past) (ht : w'.trace = .empty) (hs : w'.sent = w.sent)
    (hr : w'.running = none) : Sound w' (w :: past) where
  rows a ha := by
    rw [ht] at ha
    cases ha
  reads read hread := by
    rw [ht] at hread
    cases hread
  sent m hm := (h.sent m (hs ▸ hm)).cons
  running account x hx := by
    rw [hr] at hx
    cases hx

end

section
variable {V : Type} [Value V] {past : List (World V)} {w w' : World V} {account : Int}

/-! ## One answer -/

/-- The rows after an answer. -/
theorem Sound.rows_after (h : Sound w past) {q : Question} {a : q.Answer}
    (ha : answers account w q a w') : ∀ x ∈ (w.trace.after q a).rows, Queued (w :: past) x := by
  intro x hx
  cases q with
  | queued =>
    cases a with
    | none => exact h.rows x hx
    | some rows =>
      have hrows : x ∈ queuedActions account w.conn.now.actions :=
        (ha.2 rows rfl).subset hx
      obtain ⟨hmem, hstate⟩ := List.mem_filter.1 hrows
      simp only [Bool.and_eq_true, decide_eq_true_iff] at hstate
      exact ⟨w, List.mem_cons_self, hmem, hstate.2⟩
  | _ => exact h.rows x hx

/-- The reads after an answer. -/
theorem Sound.reads_after (h : Sound w past) {q : Question} {a : q.Answer}
    (ha : answers account w q a w') :
    ∀ read ∈ (w.trace.after q a).reads, Seen (w :: past) read.1 read.2 := by
  intro read hread
  cases q with
  | queued =>
    cases a with
    | none => exact h.reads read hread
    | some rows => cases hread
  | cancelled => cases hread
  | move m => cases hread
  | get url =>
    have hread : read ∈ noteRead url a w.trace.reads := hread
    cases a with
    | none => exact h.reads read hread
    | some r =>
      by_cases hr : r.effectiveURL = some url
      · rw [show noteRead url (some r) w.trace.reads = (url, r) :: w.trace.reads from
          if_pos hr] at hread
        rcases List.mem_cons.1 hread with rfl | hread
        · exact ⟨w, List.mem_cons_self, ha.2 r rfl hr⟩
        · exact h.reads read hread
      · rw [show noteRead url (some r) w.trace.reads = w.trace.reads from if_neg hr] at hread
        exact h.reads read hread
  | _ => exact h.reads read hread

/-- An answer to anything but a MOVE leaves the requests that were sent. -/
theorem sent_of_answer {q : Question} {a : q.Answer} (ha : answers account w q a w') :
    w'.sent = w.sent ∨ ∃ m, q = .move m ∧ w'.sent = m :: w.sent := by
  cases q with
  | move m =>
    obtain ⟨e, rfl⟩ := ha
    exact .inr ⟨m, rfl, rfl⟩
  | commitMove root source target etag body =>
    obtain ⟨r, c, e, -, -, rfl⟩ := ha
    exact .inl rfl
  | commitCreated x =>
    obtain ⟨r, c, e, -, -, rfl⟩ := ha
    exact .inl rfl
  | markConflict native =>
    obtain ⟨r, c, e, -, rfl⟩ := ha
    exact .inl rfl
  | rollbackOpen =>
    obtain rfl | rfl := ha
    · exact .inl rfl
    · exact .inl rfl
  | autocommit | errorSet =>
    obtain ⟨-, rfl⟩ := ha
    exact .inl rfl
  | queued =>
    obtain ⟨rfl, -⟩ := ha
    exact .inl rfl
  | get url =>
    obtain ⟨⟨e, rfl⟩, -⟩ := ha
    exact .inl rfl
  | setError e | clearError =>
    obtain rfl := ha
    exact .inl rfl
  | actionTables | cancelled | created | mkcalendar =>
    obtain ⟨e, rfl⟩ := ha
    exact .inl rfl

/-- **One answer.** -/
theorem Sound.turn (h : Sound w past) {q : Question} {k : q.Answer → OperationsM (Bool × Nat)}
    {a : q.Answer} (running : w.running = some (account, .ask q k))
    (ha : answers account w q a w') :
    Sound { w' with running := some (account, k a), trace := w.trace.after q a } (w :: past) where
  rows x hx := (h.rows_after ha x hx).cons
  reads read hread := (h.reads_after ha read hread).cons
  sent m hm := by
    refine Requested.cons ?_
    have hm : m ∈ w'.sent := hm
    rcases sent_of_answer ha with hs | ⟨m', rfl, hs⟩
    · exact h.sent m (hs ▸ hm)
    · rw [hs] at hm
      rcases List.mem_cons.1 hm with rfl | hm
      · -- the request is one the pass may send
        obtain ⟨b, ⟨hb, hk⟩, hr⟩ := (h.running account _ running).1
        exact ⟨b, h.rows b hb, hk, hr⟩
      · exact h.sent m hm
  running account' x hx := by
    cases hx
    exact (h.running account _ running).2 a _ rfl

/-- **One step.** -/
theorem Sound.step {valid : String → Bool} {e : Event} (h : Sound w past)
    (hs : Step valid e w w') : Sound w' (w :: past) := by
  cases hs with
  | start account idle =>
    refine ⟨?_, ?_, fun m hm => (h.sent m hm).cons, ?_⟩
    · intro a ha
      cases ha
    · intro read hread
      cases hread
    · intro account' x hx
      cases hx
      exact runOperations_guarded valid
  | turn running answer => exact h.turn running answer
  | finish => exact h.idle rfl rfl rfl
  | crash => exact h.idle rfl rfl rfl
  | daemon => exact h.next rfl rfl rfl
  | arrive => exact h.next rfl rfl rfl
  | edit => exact h.next rfl rfl rfl

theorem sound_of_reached {valid : String → Bool} (h : Reached valid w past) : Sound w past := by
  refine Run.history (fun s hs => ?_) (fun s t past h hst => ?_) h
  · refine ⟨?_, ?_, ?_, ?_⟩
    · intro a ha
      rw [hs.unread] at ha
      cases ha
    · intro read hread
      rw [hs.unread] at hread
      cases hread
    · intro m hm
      rw [hs.unsent] at hm
      cases hm
    · intro account x hx
      rw [hs.idle] at hx
      cases hx
  · obtain ⟨e, he⟩ := hst
    exact h.step he

end

/-! ## What moves do -/

section
variable {V : Type}

/-- `m` moved the version tagged `tag` to a target that was absent, and nothing else. -/
structure MovedExactly (m : MoveRequest) (tag : Bytes) (w w' : World V) : Prop where
  found : ∃ v u, (w.server m.source).current = some v ∧ v.tag = tag ∧
    (w'.server m.source).current = none ∧ (w'.server m.destination).current = some u ∧
      u.body = v.body
  absent : (w.server m.destination).current = none
  others : ∀ url, url ≠ m.source → url ≠ m.destination → w'.server url = w.server url
  database : w'.conn = w.conn

/-- The source was gone at some moment, and the target had these bytes at some moment. -/
structure Witnessed (past : List (World V)) (source target etag : String) (body : Option Bytes) :
    Prop where
  source : ∃ s ∈ past, (s.server (cstring source)).current = none
  target : ∃ s ∈ past, ∃ u, (s.server (cstring target)).current = some u ∧
    u.tag = cstring etag ∧ u.body = body.getD []

variable {past : List (World V)} {source target etag : String} {body : Option Bytes}

theorem Verified.witnessed {reads : List (String × Response)}
    (h : Verified reads source target etag body)
    (hr : ∀ read ∈ reads, Seen past read.1 read.2) : Witnessed past source target etag body := by
  obtain ⟨before, response, rest, rfl, hbefore, hresponse, hetag, hbody⟩ := h.last
  obtain ⟨s, hs, hsource⟩ := hr (source, before) (by simp)
  obtain ⟨t, ht, htarget⟩ := hr (target, response) (by simp)
  obtain ⟨u, hu, hub, hut⟩ := htarget.present hresponse
  exact ⟨⟨s, hs, hsource.absent hbefore⟩, t, ht, u, hu, (hut etag hetag).symm, hub.symm.trans hbody⟩

/-- Every part of a move is committed, or every image is one there was. -/
def AllOrNothing [Value V] (account : Int) (root source target etag : String)
    (body : Option Bytes) (c : Conn (Tables V)) : Option Unit → Conn (Tables V) → Prop
  | some _, c' => c'.undo = [] ∧ ∃ collection,
      Committed account root source target etag body collection c.now c'.now
  | none, c' => ∀ t ∈ c'.images, t ∈ c.images

theorem all_or_nothing [Value V] {account : Int} {root : String} {c c' : Conn (Tables V)}
    {r : Option Unit}
    (h : Tx.Ends (commitVerifiedMove account root source target etag body) c r c') :
    AllOrNothing account root source target etag body c r c' := by
  have hspec := @commit_spec V _ account root source target etag body c (· ∈ c.images)
    fun t ht => ht
  cases r with
  | some u =>
    obtain ⟨hcommitted, hundo⟩ := Tx.ends_ok hspec h
    exact ⟨hundo, hcommitted⟩
  | none =>
    obtain ⟨e, himages⟩ := Tx.ends_error hspec h
    exact himages

/-- An arrival that takes effect. -/
theorem arrive_exactly [Value V] {valid : String → Bool} {w w' : World V} {m : MoveRequest}
    {tag : Bytes} (hm : m.ifMatch = .tagged tag) (ho : m.overwrite = false)
    (h : Step valid (.arrive m) w w') : MovedExactly m tag w w' := by
  cases h with
  | @arrive _ _ v u sent source holds absent body fresh =>
    have hne : m.source ≠ m.destination := by
      intro he
      have habsent := absent ho
      rw [← he, source] at habsent
      cases habsent
    have htag : v.tag = tag := by
      rw [hm] at holds
      exact holds
    refine ⟨⟨v, u, source, htag, ?_, ?_, body⟩, absent ho, ?_, rfl⟩
    · show (moveResource w.server m u fresh m.source).current = none
      unfold moveResource
      rw [Function.update_of_ne hne, Function.update_self]
      rfl
    · show (moveResource w.server m u fresh m.destination).current = some u
      unfold moveResource
      rw [Function.update_self]
      rfl
    · intro url hs hd
      show moveResource w.server m u fresh url = w.server url
      unfold moveResource
      rw [Function.update_of_ne hd, Function.update_of_ne hs]

end

theorem request_some {a : Action} {m : MoveRequest} (h : request a = some m) :
    ∃ source etag, a.source = some source ∧ a.etag = some etag ∧
      m = ⟨cstring source, cstring a.target, .tagged (cstring etag), false⟩ := by
  unfold request at h
  cases hs : a.source with
  | none =>
    rw [hs] at h
    cases h
  | some source =>
    cases he : a.etag with
    | none =>
      rw [hs, he] at h
      cases h
    | some etag =>
      rw [hs, he] at h
      cases h
      exact ⟨source, etag, rfl, rfl, rfl⟩

/-- **Moves are safe.** In every run of passes among lost replies, other clients and crashes: a MOVE
that takes effect moves exactly the version tagged in a queued action to a target that was absent;
a pass commits the move of a queued action, and only after it read the source as gone and the target
with the saved bytes and a strong entity tag; and the commit does everything or nothing. -/
theorem move_safety {V : Type} [Value V] {valid : String → Bool} {w : World V}
    {past : List (World V)} (h : Reached valid w past) :
    (∀ m w', Step valid (.arrive m) w w' → ∃ a etag, Queued (w :: past) a ∧ a.kind = .move ∧
      request a = some m ∧ a.etag = some etag ∧ MovedExactly m (cstring etag) w w') ∧
    ∀ account root source target etag body k,
      w.running = some (account, .ask (.commitMove root source target etag body) k) →
      (∃ a, Queued (w :: past) a ∧ a.kind = .move ∧ a.native = root ∧ a.source = some source ∧
        a.target = target ∧ a.body = body) ∧
      Verified w.trace.reads source target etag body ∧
      Witnessed (w :: past) source target etag body ∧
      ∀ r c, Tx.Ends (commitVerifiedMove account root source target etag body) w.conn r c →
        AllOrNothing account root source target etag body w.conn r c := by
  have hsound := sound_of_reached h
  refine ⟨fun m w' hstep => ?_, ?_⟩
  · have hsent : m ∈ w.sent := by
      cases hstep with
      | arrive sent => exact sent
    obtain ⟨a, hqueued, hkind, hrequest⟩ := hsound.sent m hsent
    obtain ⟨source, etag, -, hetag, rfl⟩ := request_some hrequest
    exact ⟨a, etag, hqueued, hkind, hrequest, hetag, arrive_exactly rfl rfl hstep⟩
  · intro account root source target etag body k hrunning
    obtain ⟨a, ⟨hrow, hkind⟩, hnative, hsource, htarget, hbody, hverified⟩ :=
      (hsound.running account _ hrunning).1
    refine ⟨⟨a, hsound.rows a hrow, hkind, hnative, hsource, htarget, hbody⟩, hverified, ?_, ?_⟩
    · exact hverified.witnessed hsound.reads
    · exact fun r c hends => all_or_nothing hends

/-! ### A lunch that is moved -/

/-- The lunch of one calendar, to be moved to another one. -/
def lunchMove : Action :=
  ⟨1, "lunch", .move, some "/a/l", "/b/l", some "\"1\"", some (ascii "L"), none, none, none, .queued⟩

def lunchRequest : MoveRequest :=
  ⟨cstring "/a/l", cstring "/b/l", .tagged (cstring "\"1\""), false⟩

def lunchVersion (tag : String) : Version Bytes Bytes := ⟨cstring tag, ascii "L"⟩

def emptyResource : Resource where
  seen := []
  init := none
  history := []
  known _ h := by cases h
  timeline := .start

def lunchResource : Resource where
  seen := [cstring "\"1\""]
  init := some (lunchVersion "\"1\"")
  history := []
  known v h := by
    cases h
    exact List.mem_cons_self
  timeline := .start

def lunchServer (url : Bytes) : Resource :=
  if url = cstring "/a/l" then lunchResource else emptyResource

def lunchTables : Tables Plist :=
  ⟨.empty, ⟨[lunchMove], List.nodup_singleton _, List.nodup_singleton _⟩, .empty, .empty, none⟩

/-- Before the first pass. -/
def lunchStart : World Plist := ⟨⟨lunchTables, []⟩, lunchServer, [], none, .empty, ⟨0, ""⟩⟩

/-- The request was sent, and its reply was lost. -/
def lunchSent : World Plist := (lunchStart.send lunchRequest).note ⟨[lunchMove], [], false⟩

/-- The pass that is waiting for the reply. -/
def lunchPass : OperationsM (Bool × Nat) :=
  (readBoth "/a/l" "/b/l" >>= judge lunchMove "/a/l") >>= afterFirst (fun _ => true) lunchMove []

def found (url tag : String) : Response := ⟨200, some url, some tag, some (ascii "L")⟩

def notFound (url : String) : Response := ⟨404, some url, none, none⟩

theorem shows_found {v : Version Bytes Bytes} {url tag : String} (ht : v.tag = cstring tag)
    (hb : v.body = ascii "L") : Shows (some v) (found url tag) where
  absent h := by cases h
  present _ := ⟨v, rfl, hb.symm, fun e he => by cases he; exact ht.symm⟩

theorem shows_notFound {url : String} : Shows none (notFound url) where
  absent _ := rfl
  present h := by cases h

theorem lunch_source : (lunchServer (cstring "/a/l")).current = some (lunchVersion "\"1\"") := by
  rw [lunchServer, if_pos rfl]
  rfl

theorem lunch_target : (lunchServer (cstring "/b/l")).current = none := by
  have hne : cstring "/b/l" ≠ cstring "/a/l" := by decide +kernel
  rw [lunchServer, if_neg hne]
  rfl

theorem lunch_sent :
    Prog.Leads (noted 1) (runOperations fun _ => true) lunchStart lunchPass lunchSent := by
  have hqueued : queuedActions 1 lunchStart.conn.now.actions = [lunchMove] := by decide +kernel
  have hfirst : Prog.Leads (noted 1) (runOperations fun _ => true) lunchStart
      (runAction (fun _ => true) lunchMove >>= afterFirst (fun _ => true) lunchMove [])
      (lunchStart.note ⟨[lunchMove], [], false⟩) := leads_first rfl hqueued
  refine hfirst.trans (Prog.leads_bind ?_)
  have hsame : unchanged lunchMove (found "/a/l" "\"1\"") = true := by decide +kernel
  have hvalid : (etagIsStrong (some (cstring "\"1\"")) && !(cstring "/b/l").contains 0x0d &&
      !(cstring "/b/l").contains 0x0a && true) = true := by decide +kernel
  have hsend : clientMove (fun _ => true) "/a/l" "/b/l" "\"1\"" =
      .ask (.move lunchRequest) .ret := if_pos hvalid
  have hsource : Shows (lunchServer (cstring "/a/l")).current (found "/a/l" "\"1\"") := by
    rw [lunch_source]
    exact shows_found rfl rfl
  have htarget : Shows (lunchServer (cstring "/b/l")).current (notFound "/b/l") := by
    rw [lunch_target]
    exact shows_notFound
  exact leads_sent rfl rfl rfl rfl hsource htarget rfl rfl hsame hsend

theorem lunch_elsewhere : lunchServer lunchRequest.destination = emptyResource := by
  have hne : lunchRequest.destination ≠ cstring "/a/l" := by decide +kernel
  rw [lunchServer, if_neg hne]

/-- The version that the move leaves is new. -/
theorem lunch_fresh : (lunchVersion "\"2\"").tag ∉ (lunchServer lunchRequest.destination).used := by
  rw [lunch_elsewhere]
  exact List.not_mem_nil

/-- The request arrived. -/
def lunchArrived : World Plist :=
  { lunchSent with
    server := moveResource lunchServer lunchRequest (lunchVersion "\"2\"") lunch_fresh }

theorem lunch_arrived (r : Option (Int × OperationsM (Bool × Nat))) :
    Step (fun _ => true) (.arrive lunchRequest) (lunchSent.pass r) (lunchArrived.pass r) := by
  have hholds : lunchRequest.ifMatch.holds (some (lunchVersion "\"1\"")) := rfl
  exact .arrive (u := lunchVersion "\"2\"") List.mem_cons_self lunch_source hholds
    (fun _ => lunch_target) rfl lunch_fresh

theorem lunch_reached :
    ∃ past, Reached (fun _ => true) (lunchArrived.pass (some (1, lunchPass))) past := by
  have huntouched : ∀ url, (lunchServer url).history = [] := by
    intro url
    unfold lunchServer
    split
    · rfl
    · rfl
  have hstart : Reached (fun _ => true) lunchStart [] := .start ⟨rfl, rfl, rfl, huntouched⟩
  have hbegun := Run.next hstart ⟨.pass, .start lunchStart 1 rfl⟩
  obtain ⟨past, hsent⟩ := hbegun.extend (steps_of_leads lunch_sent fun _ _ h => ⟨.pass, h⟩)
  exact ⟨_, hsent.next ⟨_, lunch_arrived _⟩⟩

theorem lunch_kept :
    (lunchArrived.server (cstring "/b/l")).current = some (lunchVersion "\"2\"") := by
  show (moveResource _ _ _ _ lunchRequest.destination).current = _
  unfold moveResource
  rw [Function.update_self]
  rfl

/-- The moved lunch is read back. -/
theorem lunch_read :
    Prog.Leads (noted 1) (readBoth "/a/l" "/b/l") lunchArrived
      (.ret (some (notFound "/a/l", found "/b/l" "\"2\"")))
      (lunchArrived.note ⟨[lunchMove], [("/b/l", found "/b/l" "\"2\""), ("/a/l", notFound "/a/l")],
        false⟩) := by
  have hmoved : MovedExactly lunchRequest (cstring "\"1\"") (lunchSent.pass none)
      (lunchArrived.pass none) := arrive_exactly rfl rfl (lunch_arrived none)
  obtain ⟨v, u, -, -, hsource, htarget, -⟩ := hmoved.found
  refine leads_readBoth rfl rfl ?_ ?_
  · rw [show (lunchArrived.server (cstring "/a/l")).current = none from hsource]
    exact shows_notFound
  · rw [lunch_kept]
    exact shows_found rfl rfl

theorem move_safety_lunch : ∃ w past k,
    w.running = some (1, .ask (.commitMove "lunch" "/a/l" "/b/l" "\"2\"" (some (ascii "L"))) k) ∧
    Reached (V := Plist) (fun _ => true) w past ∧
    Witnessed (w :: past) "/a/l" "/b/l" "\"2\"" (some (ascii "L")) := by
  have harrived : arrived lunchMove (notFound "/a/l") (found "/b/l" "\"2\"") = true := by
    decide +kernel
  have hjudge : ∃ k, judge lunchMove "/a/l" (some (notFound "/a/l", found "/b/l" "\"2\"")) =
      .ask (.commitMove "lunch" "/a/l" "/b/l" "\"2\"" (some (ascii "L"))) k := by
    rw [judge, if_pos harrived]
    exact ⟨_, rfl⟩
  obtain ⟨k, hk⟩ := hjudge
  obtain ⟨past, hreached⟩ := lunch_reached
  have hleads : Prog.Leads (noted 1) lunchPass lunchArrived
      (judge lunchMove "/a/l" (some (notFound "/a/l", found "/b/l" "\"2\"")) >>=
        afterFirst (fun _ => true) lunchMove []) _ :=
    Prog.leads_bind (Prog.leads_then lunch_read Prog.leads_refl)
  rw [hk] at hleads
  obtain ⟨past', hcommit⟩ := hreached.extend (steps_of_leads hleads fun _ _ h => ⟨.pass, h⟩)
  exact ⟨_, past', _, rfl, hcommit, ((move_safety hcommit).2 1 _ _ _ _ _ _ rfl).2.2.1⟩

end Operations
