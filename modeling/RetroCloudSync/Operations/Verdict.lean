import RetroCloudSync.Operations.Safety

/-!
# What a rejected move did

A move is rejected when its source is read as present and its target too, or when the source is not
the version that was saved. From the moment an action is queued (`Opened`) its MOVE must not have
taken effect when it is rejected; `rejected_unmoved` says when that is so: if, once the MOVE took
effect, nothing is stored at its source again, and if the MOVE does not arrive after the read of the
source as present on which a verdict rests (`Fits`).

`Clean` is what such runs keep: a source that was moved away is absent, so it is not read as present
any more, and no image of the tables has the action rejected. `rejected_moved` is a run in which
another client stores a new resource at the source before it is read.
-/

set_option autoImplicit false

namespace Operations

open Library Library.Tx Native Exchange
open Journal (Bytes ascii)

section
variable {V : Type}

/-- A MOVE `m` took effect. -/
def Moved (m : MoveRequest) (w : World V) : Prop :=
  ∃ c ∈ (w.server m.source).history, c.author = .own m

/-- The tables, or an image of them, have the action rejected. -/
def Rejected (o : Action) (w : World V) : Prop :=
  ∃ t ∈ w.conn.images, inState .conflict o ∈ t.actions

/-- The source of the action was read as present. -/
def SourceRead (o : Action) (w : World V) : Prop :=
  ∃ source, o.source = some source ∧ ReadPresent w.trace.reads source

/-- The action `o` with the request `m` has just been queued. -/
structure Opened (o : Action) (m : MoveRequest) (w : World V) : Prop where
  row : o ∈ w.conn.now.actions
  queued : o.state = .queued
  request : request o = some m
  closed : w.conn.undo = []
  idle : w.running = none
  unread : w.trace = .empty
  unmoved : ¬Moved m w

/-- The MOVE takes effect neither after a read of its source as present nor once the action is
rejected, and nothing is stored at the source after it took effect. -/
def Fits (o : Action) (m : MoveRequest) (w : World V) : Event → Prop
  | .arrive m' => (m' = m → ¬SourceRead o w ∧ ¬Rejected o w) ∧
      (m'.destination = m.source → ¬Moved m w)
  | .edit url v => url = m.source → v ≠ none → ¬Moved m w
  | _ => True

/-- A run since the action was queued, with the events of `P`. -/
def Since [Value V] (P : World V → Event → Prop) (valid : String → Bool) (o : Action)
    (m : MoveRequest) (w : World V) (past : List (World V)) : Prop :=
  Run (Opened o m) (fun w w' => ∃ e, Step valid e w w' ∧ P w e) (w :: past)

/-- The rows of the tables are those of the pass, up to their states, and the action is rejected
only if `free`. -/
structure Held (rows : List Action) (o : Action) (free : Prop) (t : Tables V) : Prop where
  same : ∀ a ∈ rows, ∀ r ∈ t.actions, r.key = a.key → r.source = a.source
  free : inState .conflict o ∈ t.actions → free

variable {rows rows' : List Action} {o a : Action} {m : MoveRequest} {free free' : Prop}
  {t t' : Tables V}
  {w w' : World V} {account : Int} {native : String}

/-! ## Statements -/

theorem Held.of_subset (h : Held rows o free t) (hs : ∀ r ∈ t'.actions, r ∈ t.actions) :
    Held rows o free t' :=
  ⟨fun a ha r hr hk => h.same a ha r (hs r hr) hk, fun hr => h.free (hs _ hr)⟩

theorem Held.imp (h : Held rows o free t) (hr : ∀ a ∈ rows', a ∈ rows) (hf : free → free') :
    Held rows' o free' t :=
  ⟨fun a ha => h.same a (hr a ha), fun hc => hf (h.free hc)⟩

/-- A row after a change of states. -/
theorem mem_setState {state : ActionState} {r : Action}
    (hr : r ∈ (setState account native state t).actions) :
    r ∈ t.actions ∨ ∃ s ∈ t.actions, s.account = account ∧ s.native = native ∧
      r = inState state s := by
  simp only [setState] at hr
  obtain ⟨s, hs, he⟩ := (Table.mem_update r).1 hr
  split at he
  · rename_i hp
    simp only [Bool.and_eq_true, decide_eq_true_iff] at hp
    exact .inr ⟨s, hs, hp.1, hp.2, he⟩
  · exact .inl (he ▸ hs)

theorem mem_setState_of {state : ActionState} {r : Action} (hr : r ∈ t.actions)
    (ha : r.account = account) (hn : r.native = native) :
    inState state r ∈ (setState account native state t).actions := by
  simp only [setState]
  refine (Table.mem_update _).2 ⟨r, hr, ?_⟩
  rw [if_pos (by simp [ha, hn])]

theorem Held.setState (h : Held rows o free t) {state : ActionState}
    (hfree : state = .conflict → ∀ s ∈ t.actions, s.account = account → s.native = native →
      s.source = o.source → free) :
    Held rows o free (setState account native state t) where
  same a ha r hr hk := by
    rcases mem_setState hr with hr | ⟨s, hs, -, -, rfl⟩
    · exact h.same a ha r hr hk
    · exact h.same a ha s hs hk
  free hr := by
    rcases mem_setState hr with hr | ⟨s, hs, hacc, hnat, he⟩
    · exact h.free hr
    · have hstate : state = .conflict := (congrArg Action.state he).symm
      exact hfree hstate s hs hacc hnat (congrArg Action.source he).symm

theorem stays_recordConflict (hfree : ∀ t : Tables V, Held rows o free t →
    ∀ s ∈ t.actions, s.account = account → s.native = native → s.source = o.source → free) :
    Tx.stays (Held rows o free) (recordConflict (V := V) account native) := by
  refine stays_bind (stays_stmt fun t a t' ht he => ?_) fun _ => stays_stmt fun t a t' ht he => ?_
  · cases he
    exact ht.setState fun _ => hfree t ht
  · cases he
    exact ht.of_subset fun _ hr => hr

theorem stays_commitCreated (x : Action) :
    Tx.stays (Held rows o free) (commitCreated (V := V) account x) := by
  refine stays_bind stays_begin fun _ => stays_bind (stays_stmt fun t a t' ht he => ?_) fun _ =>
    stays_bind (stays_stmt fun t a t' ht he => ?_) fun _ =>
      stays_bind (stays_stmt fun t a t' ht he => ?_) fun _ => stays_commit
  · cases he
    exact ht.of_subset fun _ hr => hr
  · cases he
    have hactions : (aliasCalendar account (cstring x.target) x.native t).actions = t.actions := by
      unfold aliasCalendar
      split
      · rfl
      · rfl
    exact ht.of_subset fun r hr => hactions ▸ hr
  · cases he
    exact ht.setState fun hs => by cases hs

/-- What a call leaves. -/
theorem all_of_ends {α : Type} {x : TablesM V α} {P : Tables V → Prop} (hx : Tx.stays P x)
    {c c' : Conn (Tables V)} {r : Option α} (h : Tx.Ends x c r c') (hc : c.All P) : c'.All P := by
  cases r with
  | some v => exact ends_ok (Q := fun _ c' => c'.All P) (hx c hc) h
  | none =>
    obtain ⟨e, he⟩ := ends_error (hx c hc) h
    exact he

theorem all_of_commitMove [Value V] {root source target etag : String} {body : Option Bytes}
    {c c' : Conn (Tables V)} {r : Option Unit}
    (h : Tx.Ends (commitVerifiedMove account root source target etag body) c r c')
    (hc : c.All (Held rows o free)) : c'.All (Held rows o free) := by
  have hall := all_or_nothing h
  cases r with
  | none => exact fun t ht => hc t (hall t ht)
  | some v =>
    obtain ⟨hundo, collection, hcommitted⟩ := hall
    refine Conn.all_single (hc.now.of_subset fun r hr => ?_) hundo
    rw [hcommitted.actions] at hr
    exact ((Table.mem_delete r).1 hr).1

/-! ## The invariant -/

/-- What holds since the action `o` was queued. -/
structure Clean (o : Action) (m : MoveRequest) (w : World V) : Prop where
  /-- The source is absent once it was moved away. -/
  gone : Moved m w → (w.server m.source).current = none
  unread : SourceRead o w → ¬Moved m w
  held : w.conn.All (Held w.trace.rows o (¬Moved m w))
  rows : ∀ account x, w.running = some (account, x) → ∀ a ∈ w.trace.rows, a.account = account
  alone : w.trace.alone = true → w.conn.undo = []
  idle : w.running = none → w.trace = .empty
  guarded : ∀ account x, w.running = some (account, x) → Guarded x (fun _ _ => True) w.trace

theorem Clean.rejected (h : Clean o m w) (hr : Rejected o w) : ¬Moved m w := by
  obtain ⟨t, ht, hrow⟩ := hr
  exact (h.held t ht).free hrow

section
variable [Value V] {q : Question} {b : q.Answer}

theorem server_of_answer (h : answers account w q b w') : w'.server = w.server := by
  cases q with
  | commitMove root source target etag body =>
    obtain ⟨r, c, e, -, -, rfl⟩ := h
    rfl
  | commitCreated x =>
    obtain ⟨r, c, e, -, -, rfl⟩ := h
    rfl
  | markConflict native =>
    obtain ⟨r, c, e, -, rfl⟩ := h
    rfl
  | rollbackOpen =>
    obtain rfl | rfl := h
    · rfl
    · rfl
  | autocommit | errorSet =>
    obtain ⟨-, rfl⟩ := h
    rfl
  | queued =>
    obtain ⟨rfl, -⟩ := h
    rfl
  | get url =>
    obtain ⟨⟨e, rfl⟩, -⟩ := h
    rfl
  | setError e | clearError =>
    obtain rfl := h
    rfl
  | actionTables | cancelled | created | mkcalendar | move =>
    obtain ⟨e, rfl⟩ := h
    rfl

/-- What an answer leaves of the tables. -/
theorem Clean.held_after (h : Clean o m w) {k : q.Answer → OperationsM (Bool × Nat)}
    (running : w.running = some (account, .ask q k)) (ha : answers account w q b w') :
    w'.conn.All (Held w.trace.rows o (¬Moved m w)) := by
  cases q with
  | commitMove root source target etag body =>
    obtain ⟨r, c, e, hends, -, rfl⟩ := ha
    exact all_of_commitMove hends h.held
  | commitCreated x =>
    obtain ⟨r, c, e, hends, -, rfl⟩ := ha
    exact all_of_ends (stays_commitCreated x) hends h.held
  | markConflict native =>
    obtain ⟨r, c, e, hends, rfl⟩ := ha
    obtain ⟨x, source, ⟨hx, -⟩, hnative, hsource, hread⟩ := (h.guarded account _ running).1
    refine all_of_ends (stays_recordConflict fun t ht s hs hacc hnat he => ?_) hends h.held
    -- the row that is rejected is one the pass read, and its source was read as present
    have hkey : s.key = x.key := by
      rw [Action.key, Action.key, hacc, hnat, h.rows account _ running x hx, hnative]
    have hs' : o.source = some source := he.symm.trans ((ht.same x hx s hs hkey).trans hsource)
    exact h.unread ⟨source, hs', hread⟩
  | rollbackOpen =>
    obtain rfl | rfl := ha
    · exact h.held
    · exact fun t ht => h.held t (Conn.images_rollback ht)
  | autocommit | errorSet =>
    obtain ⟨-, rfl⟩ := ha
    exact h.held
  | queued =>
    obtain ⟨rfl, -⟩ := ha
    exact h.held
  | get url =>
    obtain ⟨⟨e, rfl⟩, -⟩ := ha
    exact h.held
  | setError e | clearError =>
    obtain rfl := ha
    exact h.held
  | actionTables | cancelled | created | mkcalendar | move =>
    obtain ⟨e, rfl⟩ := ha
    exact h.held

/-- The rows after an answer are those of the tables. -/
theorem Clean.held_turn (h : Clean o m w) {k : q.Answer → OperationsM (Bool × Nat)}
    (running : w.running = some (account, .ask q k)) (ha : answers account w q b w') :
    w'.conn.All (Held (w.trace.after q b).rows o (¬Moved m w)) := by
  have hafter := h.held_after running ha
  cases q with
  | queued =>
    cases b with
    | none => exact hafter
    | some rows =>
      obtain ⟨rfl, hrows⟩ := ha
      have hclosed : w'.conn.undo = [] := h.alone (h.guarded account _ running).1
      refine Conn.all_single ⟨fun a ha r hr hk => ?_, hafter.now.free⟩ hclosed
      have hmem : a ∈ queuedActions account w'.conn.now.actions := (hrows rows rfl).subset ha
      rw [Table.eq_of_key hr (List.mem_filter.1 hmem).1 hk]
  | _ => exact hafter

theorem Clean.rows_turn (h : Clean o m w) {k : q.Answer → OperationsM (Bool × Nat)}
    (running : w.running = some (account, .ask q k)) (ha : answers account w q b w') :
    ∀ a ∈ (w.trace.after q b).rows, a.account = account := by
  have hrows := h.rows account _ running
  cases q with
  | queued =>
    cases b with
    | none => exact hrows
    | some rows =>
      intro a hmem
      have hqueued : a ∈ queuedActions account w.conn.now.actions := (ha.2 rows rfl).subset hmem
      have hstate := (List.mem_filter.1 hqueued).2
      simp only [Bool.and_eq_true, decide_eq_true_iff] at hstate
      exact hstate.1
  | _ => exact hrows

/-- A pass that was just told that no transaction is open is in none. -/
theorem alone_turn (ha : answers account w q b w') (halone : (w.trace.after q b).alone = true) :
    w'.conn.undo = [] := by
  cases q with
  | autocommit =>
    obtain ⟨hb, rfl⟩ := ha
    have hb' : b = true := halone
    exact Conn.autocommit_iff.1 (hb.symm.trans hb')
  | queued =>
    cases b with
    | none => cases halone
    | some rows => cases halone
  | _ => cases halone

/-- A source that is read as present was not moved away. -/
theorem Clean.unread_turn (h : Clean o m w) (hm : request o = some m)
    (ha : answers account w q b w') {source : String} (hs : o.source = some source)
    (hread : ReadPresent (w.trace.after q b).reads source) : ¬Moved m w := by
  obtain ⟨before, hmem, h200⟩ := hread
  have hold : (source, before) ∈ w.trace.reads → ¬Moved m w :=
    fun hmem => h.unread ⟨source, hs, before, hmem, h200⟩
  cases q with
  | queued =>
    cases b with
    | none => exact hold hmem
    | some rows => cases hmem
  | cancelled => cases hmem
  | move m' => cases hmem
  | get url =>
    have hmem : (source, before) ∈ noteRead url b w.trace.reads := hmem
    cases b with
    | none => exact hold hmem
    | some r =>
      by_cases hr : r.effectiveURL = some url
      · rw [show noteRead url (some r) w.trace.reads = (url, r) :: w.trace.reads from
          if_pos hr] at hmem
        rcases List.mem_cons.1 hmem with he | hmem
        · cases he
          -- the response shows the source as it is
          obtain ⟨source', etag, hs', -, rfl⟩ := request_some hm
          obtain rfl : source = source' := Option.some.inj (hs.symm.trans hs')
          obtain ⟨u, hu, -⟩ := (ha.2 before rfl hr).present h200
          intro hmoved
          have hgone := h.gone hmoved
          rw [show (w.server (cstring source)).current = some u from hu] at hgone
          cases hgone
        · exact hold hmem
      · rw [show noteRead url (some r) w.trace.reads = w.trace.reads from if_neg hr] at hmem
        exact hold hmem
  | _ => exact hold hmem

end

/-! ## Events -/

theorem moveResource_history {server : Bytes → Resource} {m' : MoveRequest}
    {u : Version Bytes Bytes} {fresh : u.tag ∉ (server m'.destination).used} {url : Bytes}
    {c : Change Bytes Author Bytes} (h : c ∈ (moveResource server m' u fresh url).history) :
    c.author = .own m' ∨ c ∈ (server url).history := by
  unfold moveResource at h
  by_cases hd : url = m'.destination
  · subst hd
    rw [Function.update_self] at h
    rcases List.mem_cons.1 h with rfl | h
    · exact .inl rfl
    · exact .inr h
  · rw [Function.update_of_ne hd] at h
    by_cases hs : url = m'.source
    · subst hs
      rw [Function.update_self] at h
      rcases List.mem_cons.1 h with rfl | h
      · exact .inl rfl
      · exact .inr h
    · rw [Function.update_of_ne hs] at h
      exact .inr h

theorem editResource_history {server : Bytes → Resource} {url url' : Bytes}
    {v : Option (Version Bytes Bytes)} {fresh : ∀ u, v = some u → u.tag ∉ (server url').used}
    {c : Change Bytes Author Bytes} (h : c ∈ (editResource server url' v fresh url).history) :
    c.author = .other ∨ c ∈ (server url).history := by
  unfold editResource at h
  by_cases hu : url = url'
  · subst hu
    rw [Function.update_self] at h
    rcases List.mem_cons.1 h with rfl | h
    · exact .inl rfl
    · exact .inr h
  · rw [Function.update_of_ne hu] at h
    exact .inr h

section
variable [Value V] {valid : String → Bool}

/-- No step but its own arrival makes a MOVE take effect. -/
theorem moved_of_step {e : Event} (hs : Step valid e w w') (h : Moved m w') :
    e = .arrive m ∨ Moved m w := by
  obtain ⟨c, hc, hown⟩ := h
  cases hs with
  | start | finish | crash | daemon => exact .inr ⟨c, hc, hown⟩
  | @turn _ u _ q k b running answer =>
    have hc : c ∈ (u.server m.source).history := hc
    rw [server_of_answer answer] at hc
    exact .inr ⟨c, hc, hown⟩
  | @arrive _ m' v u sent source holds absent body fresh =>
    have hc : c ∈ (moveResource w.server m' u fresh m.source).history := hc
    rcases moveResource_history hc with ha | hc
    · obtain rfl : m' = m := Author.own.inj (ha.symm.trans hown)
      exact .inl rfl
    · exact .inr ⟨c, hc, hown⟩
  | @edit _ url v fresh =>
    have hc : c ∈ (editResource w.server url v fresh m.source).history := hc
    rcases editResource_history hc with ha | hc
    · cases ha.symm.trans hown
    · exact .inr ⟨c, hc, hown⟩

/-- The rest of the daemon rejects nothing. -/
theorem Collected.rejected {t t' : Actions} (h : Collected t t') {r : Action} (hr : r ∈ t')
    (hc : r.state = .conflict) : r ∈ t := by
  induction h with
  | refl => exact hr
  | @added t' _ x queued ih =>
    refine ih ?_
    unfold addAction at hr
    cases hi : t'.insert x with
    | none => rwa [hi] at hr
    | some t'' =>
      rw [hi] at hr
      rcases (Table.mem_insert hi r).1 hr with hr | rfl
      · exact hr
      · cases queued.symm.trans hc
  | retired _ account native ih => exact ih ((Table.mem_delete r).1 hr).1

/-- The source stays absent. -/
theorem Clean.gone_step (h : Clean o m w) (hm : m.overwrite = false) {e : Event}
    (hs : Step valid e w w') (hfits : Fits o m w e) (hmoved : Moved m w') :
    (w'.server m.source).current = none := by
  rcases moved_of_step hs hmoved with rfl | hold
  · cases hs with
    | @arrive _ _ v u sent source holds absent body fresh =>
      have hne : m.source ≠ m.destination := by
        intro he
        have habsent := absent hm
        rw [← he, source] at habsent
        cases habsent
      show (moveResource w.server m u fresh m.source).current = none
      unfold moveResource
      rw [Function.update_of_ne hne, Function.update_self]
      rfl
  · have hgone := h.gone hold
    cases hs with
    | start | finish | crash | daemon => exact hgone
    | @turn _ u _ q k b running answer =>
      show (u.server m.source).current = none
      rw [server_of_answer answer]
      exact hgone
    | @arrive _ m' v u sent source holds absent body fresh =>
      have hd : m.source ≠ m'.destination := fun he => hfits.2 he.symm hold
      show (moveResource w.server m' u fresh m.source).current = none
      unfold moveResource
      rw [Function.update_of_ne hd]
      by_cases hsource : m.source = m'.source
      · rw [hsource, Function.update_self]
        rfl
      · rw [Function.update_of_ne hsource]
        exact hgone
    | @edit _ url v fresh =>
      show (editResource w.server url v fresh m.source).current = none
      unfold editResource
      by_cases hu : m.source = url
      · subst hu
        rw [Function.update_self]
        cases v with
        | none => rfl
        | some u => exact absurd hold (hfits rfl (Option.some_ne_none u))
      · rw [Function.update_of_ne hu]
        exact hgone

omit [Value V] in
/-- Between two passes nothing was read. -/
theorem clean_between (hmoved : Moved m w' → Moved m w)
    (hgone : Moved m w' → (w'.server m.source).current = none) (ht : w'.trace = .empty)
    (hc : w'.conn.All (Held [] o (¬Moved m w)))
    (hg : ∀ account x, w'.running = some (account, x) → Guarded x (fun _ _ => True) .empty) :
    Clean o m w' where
  gone := hgone
  unread := by
    rintro ⟨source, -, before, hmem, -⟩
    rw [ht] at hmem
    cases hmem
  held := by
    rw [ht]
    exact hc.mono fun t h => h.imp (fun _ h => h) fun hn hm => hn (hmoved hm)
  rows account x _ a ha := by
    rw [ht] at ha
    cases ha
  alone ha := by
    rw [ht] at ha
    cases ha
  idle _ := ht
  guarded account x hx := by
    rw [ht]
    exact hg account x hx

omit [Value V] in
/-- Something happened at the server. -/
theorem Clean.remote (h : Clean o m w) (hc : w'.conn = w.conn) (ht : w'.trace = w.trace)
    (hr : w'.running = w.running) (hgone : Moved m w' → (w'.server m.source).current = none)
    (hread : SourceRead o w → ¬Moved m w') (hrejected : Rejected o w → ¬Moved m w') :
    Clean o m w' where
  gone := hgone
  unread hs := by
    refine hread ?_
    rw [SourceRead, ht] at hs
    exact hs
  held := by
    rw [hc, ht]
    exact fun t hmem => ⟨(h.held t hmem).same, fun hrow => hrejected ⟨t, hmem, hrow⟩⟩
  rows := by
    rw [hr, ht]
    exact h.rows
  alone := by
    rw [hc, ht]
    exact h.alone
  idle := by
    rw [hr, ht]
    exact h.idle
  guarded := by
    rw [hr, ht]
    exact h.guarded

/-- **One step.** -/
theorem Clean.step (h : Clean o m w) (hreq : request o = some m) {e : Event}
    (hs : Step valid e w w') (hfits : Fits o m w e) : Clean o m w' := by
  obtain ⟨source, etag, hsource, -, hm⟩ := request_some hreq
  have hgone := h.gone_step (by rw [hm]) hs hfits
  have hmoved := moved_of_step (m := m) hs
  have hheld : w.conn.All (Held [] o (¬Moved m w)) :=
    h.held.mono fun t ht => ht.imp (fun _ h => by cases h) fun hn => hn
  cases hs with
  | start account idle =>
    refine clean_between (fun hm => (hmoved hm).resolve_left nofun) hgone rfl hheld ?_
    intro account' x hx
    cases hx
    exact runOperations_guarded valid
  | finish =>
    exact clean_between (fun hm => (hmoved hm).resolve_left nofun) hgone rfl hheld nofun
  | crash =>
    refine clean_between (fun hm => (hmoved hm).resolve_left nofun) hgone rfl ?_ nofun
    exact fun t ht => hheld t (Conn.images_rollback ht)
  | @daemon _ t idle collected =>
    have hempty := h.idle idle
    refine clean_between (fun hm => (hmoved hm).resolve_left nofun) hgone hempty ?_ ?_
    · refine Conn.all_single ⟨fun a ha => ?_, fun hr => ?_⟩ rfl
      · cases ha
      · exact hheld.now.free (collected.rejected hr rfl)
    · intro account x hx
      cases idle.symm.trans hx
  | @turn _ u account q k b running answer =>
    have hback : Moved m { u with running := some (account, k b), trace := w.trace.after q b } →
        Moved m w := fun hm => (hmoved hm).resolve_left nofun
    refine ⟨hgone, ?_, ?_, ?_, ?_, nofun, ?_⟩
    · rintro ⟨source', hs', hread⟩ hm
      exact h.unread_turn hreq answer hs' hread (hback hm)
    · exact (h.held_turn running answer).mono fun t ht => ht.imp (fun _ h => h) fun hn hm =>
        hn (hback hm)
    · intro account' x hx
      cases hx
      exact h.rows_turn running answer
    · intro ha
      have hclosed := alone_turn answer ha
      exact hclosed
    · intro account' x hx
      cases hx
      exact (h.guarded account _ running).2 b _ rfl
  | @arrive _ m' =>
    refine h.remote rfl rfl rfl hgone (fun hread hm => ?_) fun hrow hm => ?_
    · rcases hmoved hm with he | hold
      · cases he
        exact (hfits.1 rfl).1 hread
      · exact h.unread hread hold
    · rcases hmoved hm with he | hold
      · cases he
        exact (hfits.1 rfl).2 hrow
      · exact h.rejected hrow hold
  | edit =>
    refine h.remote rfl rfl rfl hgone (fun hread hm => ?_) fun hrow hm => ?_
    · exact h.unread hread ((hmoved hm).resolve_left nofun)
    · exact h.rejected hrow ((hmoved hm).resolve_left nofun)

omit [Value V] in
theorem Opened.clean (h : Opened o m w) : Clean o m w where
  gone hm := absurd hm h.unmoved
  unread _ := h.unmoved
  held := by
    refine Conn.all_single ⟨fun a ha => ?_, fun _ => h.unmoved⟩ h.closed
    rw [h.unread] at ha
    cases ha
  rows account x hx := by
    cases h.idle.symm.trans hx
  alone _ := h.closed
  idle _ := h.unread
  guarded account x hx := by
    cases h.idle.symm.trans hx

/-- **When a rejected move did nothing.** In every run since an action was queued: if nothing is
stored at its source once its MOVE took effect, and the MOVE takes effect neither after a read of
its source as present nor once the action is rejected, then no MOVE of an action that is rejected
has taken effect. -/
theorem rejected_unmoved {past : List (World V)} (h : Since (Fits o m) valid o m w past)
    (hr : inState .conflict o ∈ w.conn.now.actions) : ¬Moved m w := by
  have hclean : Clean o m w ∧ request o = some m := by
    refine Run.invariant (P := fun w => Clean o m w ∧ request o = some m) ?_ ?_ h
    · exact fun w hw => ⟨hw.clean, hw.request⟩
    · intro w w' hc hs
      obtain ⟨e, hstep, hfits⟩ := hs
      exact ⟨hc.1.step hc.2 hstep hfits, hc.2⟩
  exact hclean.1.rejected ⟨_, w.conn.now_mem_images, hr⟩

end

end

/-! ## Rejected lunches -/

section
variable {V : Type} [Value V] {valid : String → Bool} {w : World V}

def World.store (c : Conn (Tables V)) (w : World V) : World V := { w with conn := c }

/-- The tables with a move rejected. -/
def recorded (account : Int) (native : String) (c : Conn (Tables V)) : Conn (Tables V) :=
  let rejected := setState account native .conflict c.now
  { c with now := addAttention ⟨account, native, "calendar-move-conflict"⟩ rejected }

/-- A verdict of conflict is recorded. -/
theorem leads_settle {account : Int} {a : Action} :
    Prog.Leads (noted account) (settle a ⟨false, true⟩) w (.ret ())
      ((w.store (recorded account a.native w.conn)).note ⟨w.trace.rows, w.trace.reads, false⟩) := by
  refine leads_note (q := .rollbackOpen) () (.inl rfl) ?_
  have hruns : Tx.runs (recordConflict account a.native) w.conn ()
      (recorded account a.native w.conn) := runs_bind (runs_stmt rfl) (runs_stmt rfl)
  exact leads_note (q := .markConflict a.native) ()
    ⟨some (), recorded account a.native w.conn, w.error, .ok hruns, rfl⟩ Prog.leads_refl

end

theorem lunch_opened : Opened lunchMove lunchRequest lunchStart where
  row := List.mem_cons_self
  queued := rfl
  request := rfl
  closed := rfl
  idle := rfl
  unread := rfl
  unmoved := by
    rintro ⟨c, hc, -⟩
    have hempty : (lunchServer (cstring "/a/l")).history = [] := by
      rw [lunchServer, if_pos rfl]
      rfl
    rw [show (lunchStart.server lunchRequest.source).history = [] from hempty] at hc
    cases hc

theorem lunch_judged (tag tag' : String) :
    judge lunchMove "/a/l" (some (found "/a/l" tag, found "/b/l" tag')) = .ret ⟨false, true⟩ := by
  have harrived : arrived lunchMove (found "/a/l" tag) (found "/b/l" tag') = false := rfl
  rw [judge, if_neg (by rw [harrived]; exact Bool.false_ne_true)]
  rfl

/-- There is a lunch at both places. -/
theorem lunch_readBoth {w : World Plist} {tag tag' : String}
    (hs : (w.server (cstring "/a/l")).current = some (lunchVersion tag))
    (ht : (w.server (cstring "/b/l")).current = some (lunchVersion tag')) :
    Prog.Leads (noted 1) (readBoth "/a/l" "/b/l") w
      (.ret (some (found "/a/l" tag, found "/b/l" tag'))) (w.note ⟨w.trace.rows,
        ("/b/l", found "/b/l" tag') :: ("/a/l", found "/a/l" tag) :: w.trace.reads, false⟩) := by
  refine leads_readBoth rfl rfl ?_ ?_
  · rw [hs]
    exact shows_found rfl rfl
  · rw [ht]
    exact shows_found rfl rfl

/-- A pass that decided on a conflict records it. -/
theorem lunch_rejected {w w' : World Plist} {x : OperationsM Outcome}
    (h : Prog.Leads (noted 1) x w (.ret ⟨false, true⟩) w') (htables : w'.conn = ⟨lunchTables, []⟩) :
    ∃ y u, Prog.Leads (noted 1) (x >>= afterFirst (fun _ => true) lunchMove []) w y u ∧
      inState .conflict lunchMove ∈ u.conn.now.actions ∧ u.server = w'.server ∧ u.sent = w'.sent := by
  refine ⟨_, _, Prog.leads_then h (Prog.leads_bind leads_settle), ?_, rfl, rfl⟩
  show inState .conflict lunchMove ∈ (setState 1 "lunch" .conflict w'.conn.now).actions
  rw [htables]
  exact mem_setState_of List.mem_cons_self rfl rfl

/-- While the request is on its way, somebody else's lunch is stored where it would go. -/
def lunchTaken : World Plist :=
  { lunchSent with
    server := editResource lunchServer (cstring "/b/l") (some (lunchVersion "\"2\"")) fun u h => by
      cases h
      exact lunch_fresh }

theorem lunch_taken :
    (lunchTaken.server (cstring "/a/l")).current = some (lunchVersion "\"1\"") ∧
      (lunchTaken.server (cstring "/b/l")).current = some (lunchVersion "\"2\"") := by
  have hne : cstring "/a/l" ≠ cstring "/b/l" := by decide +kernel
  constructor
  · show (editResource _ _ _ _ _).current = _
    unfold editResource
    rw [Function.update_of_ne hne]
    exact lunch_source
  · show (editResource _ _ _ _ _).current = _
    unfold editResource
    rw [Function.update_self]
    rfl

/-- A lunch whose MOVE was sent, and which is rejected before it takes effect. -/
theorem rejected_unmoved_lunch : ∃ w past,
    Since (V := Plist) (Fits lunchMove lunchRequest) (fun _ => true) lunchMove lunchRequest w past ∧
      lunchRequest ∈ w.sent ∧ inState .conflict lunchMove ∈ w.conn.now.actions ∧
      ¬Moved lunchRequest w := by
  have hstart : Since (Fits lunchMove lunchRequest) (fun _ => true) lunchMove lunchRequest
      lunchStart [] := .start lunch_opened
  have hbegun := Run.next hstart ⟨.pass, .start lunchStart 1 rfl, trivial⟩
  obtain ⟨past, hsent⟩ := hbegun.extend
    (steps_of_leads lunch_sent fun _ _ h => ⟨.pass, h, trivial⟩)
  have htaken (r) : Step (fun _ => true)
      (.edit (cstring "/b/l") (some (lunchVersion "\"2\""))) (lunchSent.pass r)
      (lunchTaken.pass r) := .edit (w := lunchSent.pass r) _
  have hne : cstring "/b/l" ≠ cstring "/a/l" := by decide +kernel
  have hread := lunch_readBoth lunch_taken.1 lunch_taken.2
  have hjudged := Prog.leads_then hread (Prog.leads_of_eq (lunch_judged _ _))
  obtain ⟨y, u, hleads, hrow, hafter⟩ := lunch_rejected hjudged rfl
  obtain ⟨past', hrun⟩ := (hsent.next ⟨_, htaken _, fun h => absurd h hne⟩).extend
    (steps_of_leads hleads fun _ _ h => ⟨.pass, h, trivial⟩)
  refine ⟨_, past', hrun, ?_, hrow, rejected_unmoved hrun hrow⟩
  show lunchRequest ∈ u.sent
  rw [hafter.2]
  exact List.mem_cons_self

theorem lunch_left : ∃ h, lunchArrived.server (cstring "/a/l") =
    lunchResource.change (.own lunchRequest) none h := by
  have hne : lunchRequest.source ≠ lunchRequest.destination := by decide +kernel
  have hsource : lunchServer lunchRequest.source = lunchResource := if_pos rfl
  show ∃ h, moveResource lunchServer lunchRequest (lunchVersion "\"2\"") lunch_fresh
    lunchRequest.source = _
  unfold moveResource
  rw [Function.update_of_ne hne, Function.update_self]
  exact hsource ▸ ⟨_, rfl⟩

/-- Another client stores a lunch where the moved one was. -/
theorem lunch_again_fresh (u : Version Bytes Bytes) (h : some (lunchVersion "\"3\"") = some u) :
    u.tag ∉ (lunchArrived.server (cstring "/a/l")).used := by
  cases h
  obtain ⟨hfresh, he⟩ := lunch_left
  rw [he]
  show cstring "\"3\"" ∉ [cstring "\"1\""]
  decide +kernel

def lunchAgain : World Plist :=
  { lunchArrived with
    server := editResource lunchArrived.server (cstring "/a/l") (some (lunchVersion "\"3\""))
      lunch_again_fresh }

theorem lunch_again :
    (lunchAgain.server (cstring "/a/l")).current = some (lunchVersion "\"3\"") ∧
      (lunchAgain.server (cstring "/b/l")).current = some (lunchVersion "\"2\"") := by
  have hne : cstring "/b/l" ≠ cstring "/a/l" := by decide +kernel
  constructor
  · show (editResource _ _ _ _ _).current = _
    unfold editResource
    rw [Function.update_self]
    rfl
  · show (editResource _ _ _ _ _).current = _
    unfold editResource
    rw [Function.update_of_ne hne]
    exact lunch_kept

theorem lunch_again_moved : Moved lunchRequest lunchAgain := by
  obtain ⟨hfresh, he⟩ := lunch_left
  refine ⟨⟨.own lunchRequest, some (lunchVersion "\"1\""), none⟩, ?_, rfl⟩
  show _ ∈ (editResource lunchArrived.server (cstring "/a/l") _ lunch_again_fresh
    (cstring "/a/l")).history
  unfold editResource
  rw [Function.update_self, Register.change_history, he]
  exact List.mem_cons_of_mem _ List.mem_cons_self

/-- A lunch that was moved, and then rejected. -/
theorem rejected_moved : ¬∀ (w : World Plist) (past : List (World Plist)) (o : Action)
    (m : MoveRequest), Since (fun _ _ => True) (fun _ => true) o m w past →
      inState .conflict o ∈ w.conn.now.actions → ¬Moved m w := by
  intro h
  have hstart : Since (fun _ _ => True) (fun _ => true) lunchMove lunchRequest lunchStart [] :=
    .start lunch_opened
  have hbegun := Run.next hstart ⟨.pass, .start lunchStart 1 rfl, trivial⟩
  obtain ⟨past, hsent⟩ := hbegun.extend
    (steps_of_leads lunch_sent fun _ _ h => ⟨.pass, h, trivial⟩)
  have harrived := hsent.next ⟨_, lunch_arrived (some (1, lunchPass)), trivial⟩
  have hagain (r) : Step (fun _ => true)
      (.edit (cstring "/a/l") (some (lunchVersion "\"3\""))) (lunchArrived.pass r)
      (lunchAgain.pass r) := .edit (w := lunchArrived.pass r) lunch_again_fresh
  have hread := lunch_readBoth lunch_again.1 lunch_again.2
  have hjudged := Prog.leads_then hread (Prog.leads_of_eq (lunch_judged _ _))
  obtain ⟨y, u, hleads, hrow, hserver, -⟩ := lunch_rejected hjudged rfl
  obtain ⟨past', hrun⟩ := (harrived.next ⟨_, hagain _, trivial⟩).extend
    (steps_of_leads hleads fun _ _ h => ⟨.pass, h, trivial⟩)
  refine h _ past' lunchMove lunchRequest hrun hrow ?_
  obtain ⟨c, hc, hown⟩ := lunch_again_moved
  have hserver : u.server = lunchAgain.server := hserver
  exact ⟨c, by rw [← hserver] at hc; exact hc, hown⟩

end Operations
