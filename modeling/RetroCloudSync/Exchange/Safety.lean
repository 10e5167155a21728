import RetroCloudSync.Exchange.Pass

/-!
# No local edit is overwritten

`Allowed`: what a two-way pass may ask, at the moment it asks it. A resource it owns is published
over, or removed, only if the last readback shows nothing that was not uploaded (`Publishable`,
`Removable`), and whatever the loops write is pinned to the saved resource whose readback it
carries (`Pinned`).

`Inv` is what the loops keep: the owned resources, `calendarBusy`, and that every move under way is
in `calendarBusy` or is of a root that does not come again (`Covered`). For the move of an event it
queues itself the pass does not keep `calendarBusy`, so this needs `Single`: the mirror must not
have a second resource for such an event (`published_over_move`). The stages are taken in the order
of the source; `safe_pass` puts them together.
-/

set_option autoImplicit false

namespace Exchange

open Library Journal Native TwoWay Calendar Value

variable {V : Type} [GraphValue V]

/-! ## What a pass may ask -/

/-- A move of the account that is under way. -/
def Moves (c : Context V) (a : Action) : Prop :=
  a.account = c.account ∧ a.kind = .move ∧ a.live = true

/-- `root` is not busy with a calendar operation: the pass does not hold it for busy, and no move of
it is under way. -/
structure Unbusy (c : Context V) (w : World V) (root : String) : Prop where
  listed : root ∉ w.calendarBusy
  moves : c.isEvent = true → ∀ a ∈ w.actions, Moves c a → a.native ≠ root

/-- The native store holds nothing of `old` that was not uploaded, and `r` may replace it. -/
structure Publishable (c : Context V) (w : World V) (old r : Wire V) : Prop where
  readback : ∃ truth, w.readback = some (old, truth) ∧ graphsEqual old.graph truth = true
  settled : nativeBusy c.account r.href w.conn.now = false
  unbusy : Unbusy c w r.root
  single : recurring old.graph r.root = false ∧ recurring r.graph r.root = false

/-- The native store holds nothing of `saved` that was not uploaded, or nothing at all. -/
structure Removable (c : Context V) (w : World V) (saved : Wire V) : Prop where
  owned : w.saved.lookup saved.root = some saved
  readback : ∃ truth, w.readback = some (saved, truth) ∧
    (truth.keys = [] ∨ graphsEqual saved.graph truth = true)
  settled : nativeBusy c.account saved.href w.conn.now = false
  unbusy : Unbusy c w saved.root
  single : recurring saved.graph saved.root = false

/-- The owned resource whose readback is being reconciled. -/
def Current (w : World V) (old : Wire V) : Prop :=
  ∃ truth, w.readback = some (old, truth) ∧ w.saved.lookup old.root = some old

/-- A write starts from the saved resource it was read back for; only a resource the native store
created starts from nothing. -/
def Pinned (w : World V) (o : Operation) : Prop :=
  if o.kind = .create then w.discovered ≠ [] ∧ o.baseETag = none ∧ o.baseBody = none
  else ∃ old, Current w old ∧ o.baseETag = old.etag.map cstring ∧ o.baseBody = some old.body

/-- A move starts from the saved resource it was read back for. -/
def PinnedMove (w : World V) (a : Action) : Prop :=
  ∃ old, Current w old ∧ a.native = old.root ∧ a.source = some old.href ∧ a.etag = old.etag ∧
    a.body = some old.body

/-- What the pass may ask in `w`. -/
def Allowed (c : Context V) (w : World V) : Question V → Prop
  | .publishResource r => ∀ old, w.saved.lookup r.root = some old → Publishable c w old r
  | .removeResource saved => Removable c w saved
  | .journal q => ∀ a w', answers c w (.journal q) a w' → ∀ o ∈ w'.conn.now.operations,
      o ∉ w.conn.now.operations → Pinned w o
  | .addAction a => a.kind = .move → PinnedMove w a
  | _ => True

/-- The roots of the mirror's resources under the aliases of a pass. -/
def mirrorRoots (c : Context V) (aliases : Dict String String) : List String :=
  c.resources.map fun r => (mapResource r aliases).root

/-- An event that the last readback shows in another calendar is that of one resource of the mirror
at most. -/
def Single (c : Context V) (w : World V) : Prop :=
  c.isEvent = true → ∀ saved truth, w.readback = some (saved, truth) →
    relocated saved truth saved.root = true → (mirrorRoots c w.aliases).count saved.root ≤ 1

/-- The surroundings answer, and what they show is single. -/
def meets (c : Context V) (w : World V) (q : Question V) (a : q.Answer) (w' : World V) : Prop :=
  answers c w q a w' ∧ Single c w'

/-- From `w` the program asks only what it may. -/
abbrev Safe (c : Context V) {α : Type} (x : ExchangeM V α) (post : α → World V → Prop)
    (exc : Stop → World V → Prop) (w : World V) : Prop :=
  Prog.wp (meets c) (Allowed c) x post exc w

section
variable {c : Context V} {α β : Type} {post : α → World V → Prop} {exc : Stop → World V → Prop}
  {w : World V}

/-! ## Calls that change nothing -/

/-- A program that leaves the world as it is, whatever it is told. -/
def Quiet (c : Context V) (x : ExchangeM V α) : Prop :=
  ∀ (post : α → World V → Prop) (exc : Stop → World V → Prop) (w : World V),
    (∀ a, post a w) → (∀ s, exc s w) → Safe c x post exc w

theorem safe_orStop {x : Except Stop α} (h : ∀ a, x = .ok a → post a w)
    (hE : ∀ s, x = .error s → exc s w) : Safe c (orStop x) post exc w := by
  cases x with
  | ok a => exact h a rfl
  | error s => exact hE s rfl

theorem quiet_pure (a : α) : Quiet c (pure a) := fun _ _ _ h _ => h a

theorem quiet_raise (s : Stop) : Quiet c (.raise s : ExchangeM V α) := fun _ _ _ _ hE => hE s

theorem quiet_orStop (x : Except Stop α) : Quiet c (orStop x) :=
  fun _ _ _ h hE => safe_orStop (fun a _ => h a) fun s _ => hE s

theorem Quiet.bind {x : ExchangeM V β} {f : β → ExchangeM V α} (hx : Quiet c x)
    (hf : ∀ b, Quiet c (f b)) : Quiet c (x >>= f) :=
  fun post exc w h hE => Prog.wp_bind (hx _ _ w (fun b => hf b post exc w h hE) hE)

theorem quiet_other {q : Request V} {k : q.Answer → ExchangeM V α} (hk : ∀ a, Quiet c (k a)) :
    Quiet c (.ask (.other q) k) := by
  refine fun post exc w h hE => ⟨trivial, fun a w' ha => ?_⟩
  obtain rfl : w' = w := ha.1
  exact hk a post exc w' h hE

theorem quiet_act {q : Request V} (h : q.Answer = Except Stop Unit) : Quiet c (act q h) :=
  quiet_other fun _ => quiet_orStop _

theorem Quiet.orElse {x : ExchangeM V α} {f : RCError → ExchangeM V α} (hx : Quiet c x)
    (hf : ∀ e, Quiet c (f e)) : Quiet c (orElse x f) := by
  refine fun post exc w h hE => Prog.wp_rescue (hx _ _ w h fun s => ?_)
  cases s with
  | failed e => exact hf e post exc w h hE
  | thrown name => exact hE _

theorem Quiet.foldlM {γ : Type} {f : α → γ → ExchangeM V α} (hf : ∀ a x, Quiet c (f a x))
    (l : List γ) (a : α) : Quiet c (l.foldlM f a) := by
  induction l generalizing a with
  | nil => exact quiet_pure a
  | cons x l ih =>
    rw [List.foldlM_cons]
    exact (hf a x).bind ih

theorem quiet_checkCancellation : Quiet c (checkCancellation : ExchangeM V Unit) :=
  quiet_other fun (stop : Bool) => by
    cases stop with
    | true => exact quiet_raise _
    | false => exact quiet_pure ()

theorem quiet_attention (root reason : String) :
    Quiet c (attention root reason : ExchangeM V Unit) := quiet_act rfl

theorem quiet_clearAttention (root : String) (names : List String) (series : Bool) :
    Quiet c (clearAttention root names series : ExchangeM V Unit) := quiet_act rfl

theorem quiet_nativeCollectionURL (native : String) :
    Quiet c (nativeCollectionURL native : ExchangeM V (Option String)) := quiet_other quiet_pure

theorem quiet_overtaken (truth : Graph V) (move : String × String) :
    Quiet c (overtaken truth move) := by
  unfold overtaken
  split
  · refine (quiet_nativeCollectionURL _).bind fun collection => ?_
    split <;> exact quiet_pure _
  · exact quiet_pure _

theorem Quiet.onlyIf {x : ExchangeM V Unit} (p : Bool) (hx : Quiet c x) :
    Quiet c (onlyIf p x) := by
  unfold Exchange.onlyIf
  split
  · exact hx
  · exact quiet_pure ()

theorem quiet_reconcileSeries (old r : Wire V) : Quiet c (reconcileSeries old r) := by
  refine Quiet.bind (quiet_other fun _ => quiet_orStop _) fun found =>
    (quiet_clearAttention _ _ _).bind fun _ => ?_
  split
  · exact (quiet_attention _ _).bind fun _ => quiet_pure _
  · exact ((quiet_act rfl).onlyIf _).bind fun _ => quiet_pure _

theorem quiet_pendingFields (root : String) : Quiet c (pendingFields root : ExchangeM V Bool) :=
  quiet_other fun _ => quiet_orStop _

theorem quiet_recheckPending (twoWay : Bool) (old : Wire V) (truth : Graph V) (root : String) :
    Quiet c (recheckPending c twoWay old truth root) := by
  unfold recheckPending
  split
  · exact quiet_pure _
  refine (quiet_pendingFields root).bind fun pending => ?_
  split
  · split
    · exact quiet_pure _
    · split
      · exact (quiet_act rfl).bind fun _ => (quiet_pendingFields root).bind fun _ => quiet_pure _
      · exact quiet_pure _
  · exact quiet_pure _

theorem quiet_canPublish (r : Wire V) : Quiet c (canPublish r) :=
  ((quiet_act rfl).bind fun _ => quiet_pure _).orElse fun _ =>
    (quiet_attention _ _).bind fun _ => quiet_pure _

/-! ## Calendar operations -/

theorem mem_addAction {a x : Action} {t : Actions} (h : x ∈ addAction a t) : x ∈ t ∨ x = a := by
  unfold addAction at h
  cases hi : t.insert a with
  | none => exact .inl (by simpa [hi] using h)
  | some t' => exact (Table.mem_insert hi x).1 (by simpa [hi] using h)

omit [GraphValue V] in
theorem mem_retire {native : String} {x : Action} {t : Actions} :
    x ∈ retire c.account native t ↔ x ∈ t ∧ rejected c.account native x = false :=
  Table.mem_delete x

/-- The readback that is being reconciled. -/
structure Reading (w : World V) (old : Wire V) (truth : Graph V) : Prop where
  readback : w.readback = some (old, truth)
  owned : w.saved.lookup old.root = some old

omit [GraphValue V] in
theorem Reading.current {old : Wire V} {truth : Graph V} (h : Reading w old truth) :
    Current w old := ⟨truth, h.readback, h.owned⟩

/-- Every move under way is known to the pass, or of a root that is past. -/
def Covered (c : Context V) (past : String → Prop) (w : World V) (t : Actions) : Prop :=
  ∀ a ∈ t, Moves c a → a.native ∈ w.calendarBusy ∨ past a.native

/-- `w` is `w₀` but for its calendar operations, which satisfy `P`. -/
def Acting (w₀ : World V) (P : Actions → Prop) (w : World V) : Prop :=
  ∃ t, w = { w₀ with actions := t } ∧ P t

theorem safe_insertAction {a : Action} {post : Unit → World V → Prop}
    (hmay : a.kind = .move → PinnedMove w a)
    (h : post () { w with actions := addAction a w.actions }) (hE : ∀ s, exc s w)
    (hE' : ∀ s, exc s { w with actions := addAction a w.actions }) :
    Safe c (insertAction a) post exc w := by
  refine ⟨hmay, fun r w' hr => safe_orStop ?_ ?_⟩
  · intro u hu
    rcases hr.1 with rfl | ⟨hne, -⟩
    · exact h
    · exact absurd hu hne
  · intro s _
    rcases hr.1 with rfl | ⟨-, rfl⟩
    · exact hE' s
    · exact hE s

section
variable {w₀ : World V} {old : Wire V} {truth : Graph V} {past : String → Prop}

omit [GraphValue V] in
theorem covered_add {a : Action} {t : Actions}
    (ha : Moves c a → a.native ∈ w₀.calendarBusy ∨ past a.native) (h : Covered c past w₀ t) :
    Covered c past w₀ (addAction a t) := by
  intro x hx hm
  rcases mem_addAction hx with hx | rfl
  · exact h x hx hm
  · exact ha hm

theorem safe_collectCreation {first : Bool} {baseline : List String} {graph : Graph V}
    {identifier : String} (h : Acting w₀ (Covered c past w₀) w) :
    Safe c (collectCreation c first baseline graph truth identifier)
      (fun _ => Acting w₀ (Covered c past w₀)) (fun _ => Acting w₀ (Covered c past w₀)) w := by
  unfold collectCreation
  split
  · exact h
  split
  · exact h
  split
  · exact quiet_act rfl _ _ _ (fun _ => h) fun _ => h
  split
  · exact h
  refine Prog.wp_bind (quiet_nativeCollectionURL _ _ _ _ (fun url => ?_) fun _ => h)
  split
  · exact h
  refine Prog.wp_bind (quiet_other (fun _ => quiet_orStop _) _ _ _ (fun urls => ?_) fun _ => h)
  split
  · refine Prog.wp_bind (quiet_other quiet_pure _ _ _ (fun marker => ?_) fun _ => h)
    obtain ⟨t, rfl, ht⟩ := h
    have hadd : ∀ a : Action, a.kind = .create → Acting w₀ (Covered c past w₀)
        { w₀ with actions := addAction a t } := fun a ha =>
      ⟨_, rfl, covered_add (fun hm => by rw [hm.2.1] at ha; cases ha) ht⟩
    exact safe_insertAction (fun hk => nomatch hk) (hadd _ rfl) (fun _ => ⟨t, rfl, ht⟩) fun _ =>
      hadd _ rfl
  · exact h

/-- What the loop over the rejected moves has found. -/
theorem safe_collectOvertaken (moves : List (String × String)) (h : exc = fun _ w' => w' = w) :
    Safe c (moves.foldlM (collectOvertaken truth) [])
      (fun cancelled w' => w' = w ∧ ∀ n ∈ cancelled, ∃ m ∈ moves, m.1 = n) exc w := by
  subst h
  refine Prog.wp_foldlM (fun cancelled w' => w' = w ∧ ∀ n ∈ cancelled, ∃ m ∈ moves, m.1 = n) ?_
    ⟨rfl, by simp⟩
  rintro move hmove cancelled _ ⟨rfl, hc⟩
  refine Prog.wp_bind (quiet_overtaken _ _ _ _ _ (fun o => ?_) fun _ => rfl)
  split
  · refine ⟨rfl, fun n hn => ?_⟩
    rcases List.mem_cons.1 hn with rfl | hn
    · exact ⟨move, hmove, rfl⟩
    · exact hc n hn
  · exact ⟨rfl, hc⟩

/-- `busy'` still holds the records of `busy` with a move under way. -/
def Kept (c : Context V) (busy busy' : List String) (t : Actions) : Prop :=
  ∀ a ∈ t, Moves c a → a.native ∈ busy → a.native ∈ busy'

/-- Retiring rejected moves frees their records and no others. -/
theorem safe_retireMoves {cancelled busy : List String} {t : Actions} (ht : Covered c past w₀ t)
    (hc : ∀ n ∈ cancelled, ∀ a ∈ t, a.account = c.account → a.native = n → a.state = .conflict) :
    Safe c (cancelled.foldlM retireMove busy)
      (fun busy' => Acting w₀ fun t' => Covered c past w₀ t' ∧ Kept c busy busy' t')
      (fun _ => Acting w₀ (Covered c past w₀)) { w₀ with actions := t } := by
  refine Prog.wp_mono (Prog.wp_foldlM (fun busy' => Acting w₀ fun t' => (∀ a ∈ t', a ∈ t) ∧
    Kept c busy busy' t') ?_ ⟨t, rfl, fun _ h => h, fun _ _ _ h => h⟩) ?_ fun _ _ h => h
  · rintro n hn busy' _ ⟨t', rfl, hsub, hbusy⟩
    have hcov : ∀ t'' : Actions, (∀ a ∈ t'', a ∈ t') → Acting w₀ (Covered c past w₀)
        { w₀ with actions := t'' } := fun t'' h'' =>
      ⟨t'', rfl, fun a ha hm => ht a (hsub a (h'' a ha)) hm⟩
    refine Prog.wp_bind ⟨trivial, fun r w' hr => safe_orStop ?_ ?_⟩
    · intro u hu
      rcases hr.1 with rfl | ⟨hne, -⟩
      · refine ⟨_, rfl, fun a ha => hsub a (mem_retire.1 ha).1, fun a ha hm hb => ?_⟩
        obtain ⟨hat, hrej⟩ := mem_retire.1 ha
        refine List.mem_filter.2 ⟨hbusy a hat hm hb, ?_⟩
        -- a row of this record could only be the rejected one, which is gone
        have hne : a.native ≠ n := by
          rintro rfl
          simp [rejected, hm.1, hc _ hn a (hsub a hat) hm.1 rfl] at hrej
        simpa using hne
      · exact absurd hu hne
    · intro s _
      rcases hr.1 with rfl | ⟨-, rfl⟩
      · exact hcov _ fun a ha => (mem_retire.1 ha).1
      · exact hcov _ fun _ h => h
  · rintro busy' _ ⟨t', rfl, hsub, hb⟩
    exact ⟨t', rfl, fun a ha hm => ht a (hsub a ha) hm, hb⟩

omit [GraphValue V] in
theorem moveInto_some {resource : Wire V} {collection : String} {a : Action}
    (h : moveInto c resource collection = some a) :
    a.native = resource.root ∧ a.source = some resource.href ∧ a.etag = resource.etag ∧
      a.body = some resource.body := by
  unfold moveInto at h
  split at h
  · cases h
  · obtain ⟨url, -, rfl⟩ := Option.map_eq_some_iff.1 h
    exact ⟨rfl, rfl, rfl, rfl⟩

theorem safe_collectMove {busy busy' : List String} (hr : Reading w₀ old truth)
    (hmoved : relocated old truth old.root = true → old.root ∈ w₀.calendarBusy ∨ past old.root)
    (h : Acting w₀ (fun t => Covered c past w₀ t ∧ Kept c busy busy' t) w) :
    Safe c (collectMove c truth busy' old)
      (fun busy'' => Acting w₀ fun t => Covered c past w₀ t ∧ Kept c busy busy'' t)
      (fun _ => Acting w₀ (Covered c past w₀)) w := by
  unfold collectMove
  split
  · exact h
  rename_i hrel
  simp only [Bool.or_eq_true, not_or, Bool.not_eq_true', Bool.not_eq_false] at hrel
  obtain ⟨t, rfl, ht, hk⟩ := h
  split
  · refine Prog.wp_bind (quiet_nativeCollectionURL _ _ _ _ (fun url => ?_) fun _ => ⟨t, rfl, ht⟩)
    split
    · exact ⟨t, rfl, ht, hk⟩
    rename_i move hmove
    obtain ⟨collection, -, hinto⟩ := Option.bind_eq_some_iff.1 hmove
    obtain ⟨hnative, hsource, hetag, hbody⟩ := moveInto_some hinto
    have hcov : Covered c past w₀ (addAction move t) :=
      covered_add (fun _ => hnative ▸ hmoved hrel.2) ht
    refine Prog.wp_bind (safe_insertAction (fun _ => ⟨old, hr.current, hnative, hsource, hetag,
      hbody⟩) ⟨_, rfl, hcov, fun a ha hm hb => ?_⟩ (fun _ => ⟨t, rfl, ht⟩) fun _ => ⟨_, rfl, hcov⟩)
    rcases mem_addAction ha with hat | rfl
    · exact List.mem_cons_of_mem _ (hk a hat hm hb)
    · exact hnative ▸ List.mem_cons_self
  · exact ⟨t, rfl, ht, hk⟩

/-- **Collecting operations** keeps every move under way known, and frees only records without
one. -/
theorem safe_collectOperations {busy : List String} {graph : Graph V} (hr : Reading w₀ old truth)
    (hmoved : relocated old truth old.root = true → old.root ∈ w₀.calendarBusy ∨ past old.root)
    (h : Covered c past w₀ w₀.actions) :
    Safe c (collectOperations c truth graph [old] busy)
      (fun busy' => Acting w₀ fun t => Covered c past w₀ t ∧ Kept c busy busy' t)
      (fun _ => Acting w₀ (Covered c past w₀)) w₀ := by
  have hstart : Acting w₀ (Covered c past w₀) w₀ := ⟨_, rfl, h⟩
  refine Prog.wp_bind (quiet_act rfl _ _ _ (fun _ => ?_) fun _ => hstart)
  refine Prog.wp_bind (quiet_other (fun _ => quiet_orStop _) _ _ _ (fun first => ?_) fun _ => hstart)
  refine Prog.wp_bind (quiet_other (fun _ => quiet_orStop _) _ _ _ (fun baseline => ?_)
    fun _ => hstart)
  refine Prog.wp_bind (Prog.wp_mono (Prog.wp_foldlM (fun _ => Acting w₀ (Covered c past w₀))
    (fun _ _ _ _ hw => safe_collectCreation hw) hstart) (fun _ _ hw => ?_) fun _ _ hw => hw)
  refine Prog.wp_bind ((quiet_act rfl).onlyIf first _ _ _ (fun _ => ?_) fun _ => hw)
  obtain ⟨t, rfl, ht⟩ := hw
  refine Prog.wp_bind ⟨trivial, fun moves w' hm => safe_orStop (fun moves hmoves => ?_) fun _ _ => ?_⟩
  · obtain ⟨rfl, hfirst⟩ := hm.1
    refine Prog.wp_bind (Prog.wp_mono (safe_collectOvertaken moves rfl) ?_ ?_)
    · rintro cancelled _ ⟨rfl, hsub⟩
      refine Prog.wp_bind (Prog.wp_mono (safe_retireMoves ht fun n hn a ha hacc hna => ?_) ?_
        fun _ _ h => h)
      · obtain ⟨m, hm, rfl⟩ := hsub n hn
        obtain ⟨a', ha', rfl⟩ := List.mem_map.1 ((hfirst _ hmoves).subset hm)
        simp only [List.mem_filter, Bool.and_eq_true, decide_eq_true_iff] at ha'
        obtain rfl : a = a' := Table.eq_of_key ha ha'.1 (by
          rw [Action.key, Action.key, hacc, ha'.2.1.1, hna])
        exact ha'.2.2
      · intro busy' w' hw'
        rw [List.foldlM_cons]
        exact Prog.wp_bind (Prog.wp_mono (safe_collectMove hr hmoved hw') (fun _ _ h => h)
          fun _ _ h => h)
    · rintro _ _ rfl
      exact ⟨t, rfl, ht⟩
  · obtain ⟨rfl, -⟩ := hm.1
    exact ⟨t, rfl, ht⟩

end

/-! ## The invariant of the loops -/

/-- What the loops keep, with the owned resources `saved`, the aliases, the native creations `found`,
the roots that are past and the busy records `busy`. -/
structure Inv (c : Context V) (saved : Dict String (Wire V)) (aliases : Dict String String)
    (found : List (Untracked V)) (past : String → Prop) (busy : List String) (w : World V) :
    Prop where
  keyed : ∀ root s, saved.lookup root = some s → s.root = root
  own : w.saved = saved
  named : w.aliases = aliases
  new : w.discovered = found
  held : w.calendarBusy = busy
  event : busy ≠ [] → c.isEvent = true
  covered : c.isEvent = true → Covered c past w w.actions

section
variable {saved : Dict String (Wire V)} {aliases : Dict String String}
  {found : List (Untracked V)} {past past' : String → Prop} {busy : List String}

omit [GraphValue V] in
theorem Inv.conn (h : Inv c saved aliases found past busy w) (x : Conn Tables) :
    Inv c saved aliases found past busy { w with conn := x } :=
  ⟨h.keyed, h.own, h.named, h.new, h.held, h.event, h.covered⟩

omit [GraphValue V] in
theorem Inv.acting {w' : World V} (h : Inv c saved aliases found past busy w)
    {P : Actions → Prop} (hP : ∀ t, P t → Covered c past w t) (ha : Acting w P w') :
    Inv c saved aliases found past busy w' := by
  obtain ⟨t, rfl, ht⟩ := ha
  exact ⟨h.keyed, h.own, h.named, h.new, h.held, h.event, fun _ => hP t ht⟩

omit [GraphValue V] in
/-- Roots may go by. -/
theorem Inv.mono (h : Inv c saved aliases found past busy w) (hle : ∀ n, past n → past' n) :
    Inv c saved aliases found past' busy w :=
  ⟨h.keyed, h.own, h.named, h.new, h.held, h.event, fun he a ha hm =>
    (h.covered he a ha hm).imp_right (hle _)⟩

omit [GraphValue V] in
/-- A resource that is neither in `busy` nor past is not busy. -/
theorem Inv.unbusy (h : Inv c saved aliases found past busy w) {root : String} (hb : root ∉ busy)
    (hp : ¬ past root) : Unbusy c w root where
  listed := by rw [h.held]; exact hb
  moves he a ha hm hn := by
    rcases h.covered he a ha hm with hc | hr
    · rw [h.held, hn] at hc
      exact hb hc
    · exact hp (hn ▸ hr)

/-! ## Queueing -/

/-- A call of the journal, by its specification. -/
theorem safe_journal {q : Call} {post : q.Answer → World V → Prop}
    {Q : q.Answer → Conn Tables → Prop}
    (hq : Tx.wp (q.run c.account) Q (fun _ x => x = w.conn) w.conn)
    (hmay : ∀ a x, Q a x → ∀ o ∈ x.now.operations, o ∉ w.conn.now.operations → Pinned w o)
    (h : ∀ a x, Q a x → post a { w with conn := x }) (hE : ∀ s, exc s w) :
    Safe c (journal q) post exc w := by
  have hrun : ∀ a w', answers c w (.journal q) a w' →
      (∃ e, a = .error e ∧ w' = w) ∨ ∃ b x, a = .ok b ∧ Q b x ∧ w' = { w with conn := x } := by
    rintro a w' ⟨faults, rfl, rfl⟩
    have hf := hq faults
    unfold answer after
    cases hx : q.run c.account ⟨w.conn, faults⟩ with
    | ok b s =>
      rw [hx] at hf
      exact .inr ⟨b, s.conn, rfl, hf, rfl⟩
    | error e s =>
      rw [hx] at hf
      exact .inl ⟨e, rfl, congrArg (fun x => ({ w with conn := x } : World V)) hf⟩
  refine ⟨fun a w' ha => ?_, fun a w' ha => ?_⟩
  · rcases hrun a w' ha with ⟨e, -, rfl⟩ | ⟨b, x, -, hQ, rfl⟩
    · exact fun o ho hn => absurd ho hn
    · exact hmay b x hQ
  · rcases hrun a w' ha.1 with ⟨e, rfl, rfl⟩ | ⟨b, x, rfl, hQ, rfl⟩
    · exact hE _
    · exact h b x hQ

/-- Where a write may come from: the owned resource that was read back, or a resource the native
store created. -/
def Origin (w : World V) : Option (Wire V) → Prop
  | some old => ∃ truth, Reading w old truth
  | none => w.discovered ≠ []

/-- The base of a write is the saved resource. -/
theorem safe_pinBase {base : Option (Wire V)} {desired : Outgoing V} {post : Unit → World V → Prop}
    (h : ∀ x : Conn Tables, (∀ old, base = some old → ∃ b,
        findBase c.account (cstring desired.resource.key) x.now = some b ∧
          b.etag = old.etag.map cstring ∧ b.body = old.body) → post () { w with conn := x })
    (hE : ∀ s, exc s w) : Safe c (pinBase base desired) post exc w := by
  unfold pinBase
  split
  · rename_i old
    refine safe_journal (Q := fun _ x => x.now.operations = w.conn.now.operations ∧ ∃ b,
      findBase c.account (cstring desired.resource.key) x.now = some b ∧
        b.etag = old.etag.map cstring ∧ b.body = old.body) ?_ ?_ ?_ hE
    · show Tx.wp (setBase c.account (some (cstring desired.resource.key))
        (some (cstring desired.resource.href)) (old.etag.map cstring) (.data old.body)
          old.revision) _ _ _
      refine Tx.wp_mono setBase_spec ?_ fun _ _ h => h
      rintro _ x ⟨hops, k, hr, b, hk, -, hb, hfind⟩
      obtain rfl := Option.some.inj hk
      obtain rfl := Buf.data.inj hb
      exact ⟨hops, _, hfind, rfl, rfl⟩
    · rintro _ x ⟨hops, -⟩ o ho hn
      exact absurd (hops ▸ ho) hn
    · rintro _ x ⟨-, hb⟩
      exact h x fun old' ho => Option.some.inj ho ▸ hb
  · exact h w.conn fun old ho => nomatch ho

/-- Whatever `Enqueue` inserts is pinned to that base. -/
theorem safe_enqueue {base : Option (Wire V)} {truth : Graph V} {root key : String}
    {change href : Option Bytes} {revision : Int} {body : Buf} {post : Int → World V → Prop}
    (ho : Origin w base)
    (hbase : ∀ old, base = some old → ∃ b, findBase c.account (cstring key) w.conn.now = some b ∧
      b.etag = old.etag.map cstring ∧ b.body = old.body)
    (h : ∀ n x, post n { w with conn := x }) (hE : ∀ s, exc s w) :
    Safe c (journal (.enqueue change (some (cstring key)) href
      (some (uploadKind base truth root).name) revision body)) post exc w := by
  refine safe_journal (Q := fun n x => ∃ i, Intent.check change (some (cstring key)) href
    (some (uploadKind base truth root).name) revision body = .ok i ∧
      Enqueued c.account i w.conn.now n x.now) ?_ ?_ (fun n x _ => h n x) hE
  · exact Tx.wp_mono enqueue_spec (fun _ _ h => h.2) fun _ _ h => h
  rintro n x ⟨i, hi, hx⟩ o hmem hnew
  obtain ⟨hkey, hkind⟩ := Intent.check_ok hi
  replace hkey := Option.some.inj hkey
  replace hkind := Kind.name_inj (Option.some.inj hkind)
  generalize hc : x.now = t at hx hmem
  cases hx with
  | replay found same => exact absurd hmem hnew
  | fresh new free pinned added =>
    rcases (added.mem_iff o).1 hmem with hold | rfl
    · exact absurd hold hnew
    rw [← hkey] at pinned ⊢
    unfold Pinned
    cases base with
    | none =>
      have hk : i.kind = .create := hkind ▸ rfl
      cases hf : findBase c.account (cstring key) w.conn.now with
      | none => exact (if_pos hk).symm ▸ ⟨ho, rfl, rfl⟩
      | some b => simp [hf, Intent.pinned, hk] at pinned
    | some old =>
      have hk : i.kind ≠ .create := by
        rw [← hkind]
        unfold uploadKind
        split <;> simp_all
      obtain ⟨b, hb, hetag, hbody⟩ := hbase old rfl
      obtain ⟨truth', hr⟩ := ho
      rw [if_neg (show ¬ (i.row c.account _ _).kind = .create from hk), hb]
      exact ⟨old, hr.current, hetag, congrArg some hbody⟩

/-- `w'` is `w` but for the journal. -/
def Journaled (w w' : World V) : Prop := ∃ x : Conn Tables, w' = { w with conn := x }

theorem safe_begin {post : Unit → World V → Prop} (h : ∀ w', Journaled w w' → post () w')
    (hE : ∀ s w', Journaled w w' → exc s w') : Safe c begin post exc w := by
  refine ⟨trivial, fun a w' ha => safe_orStop ?_ ?_⟩
  · rintro ⟨⟩ rfl
    exact h w' ⟨_, ha.1.2⟩
  · rintro s rfl
    exact hE s w' ⟨w.conn, ha.1⟩

theorem safe_commit {post : Unit → World V → Prop} (h : ∀ w', Journaled w w' → post () w')
    (hE : ∀ s w', Journaled w w' → exc s w') : Safe c commit post exc w := by
  refine ⟨trivial, fun a w' ha => safe_orStop ?_ ?_⟩
  · rintro ⟨⟩ rfl
    exact h w' ⟨_, ha.1⟩
  · rintro s rfl
    exact hE s w' ⟨w.conn, ha.1⟩

theorem safe_rollback {post : Unit → World V → Prop} (h : ∀ w', Journaled w w' → post () w') :
    Safe c rollback post exc w := by
  refine ⟨trivial, fun a w' ha => ?_⟩
  rcases ha.1 with rfl | rfl
  · exact h _ ⟨_, rfl⟩
  · exact h _ ⟨w'.conn, rfl⟩

theorem safe_writeUpload {base : Option (Wire V)} {truth : Graph V} {root : String}
    {observed : Option (Untracked V)} {desired : Outgoing V} (ho : Origin w base) :
    Safe c (writeUpload base truth root observed desired) (fun _ => Journaled w)
      (fun _ => Journaled w) w := by
  refine Prog.wp_bind (safe_pinBase (fun x hx => ?_) fun _ => ⟨w.conn, rfl⟩)
  have hj : Journaled w { w with conn := x } := ⟨x, rfl⟩
  have ho' : Origin { w with conn := x } base := by
    cases base with
    | none => exact ho
    | some old =>
      obtain ⟨t, hr⟩ := ho
      exact ⟨t, hr.readback, hr.owned⟩
  refine Prog.wp_bind (quiet_other quiet_pure _ _ _ (fun change => ?_) fun _ => hj)
  refine Prog.wp_bind (safe_enqueue ho' hx (fun n y => ?_) fun _ => hj)
  have hy : Journaled w { w with conn := y } := ⟨y, rfl⟩
  refine Prog.wp_bind (quiet_act rfl _ _ _ (fun _ => ?_) fun _ => hy)
  refine Prog.wp_bind (quiet_act rfl _ _ _ (fun _ => ?_) fun _ => hy)
  refine Prog.wp_bind (quiet_act rfl _ _ _ (fun _ => ?_) fun _ => hy)
  refine Prog.wp_bind ((quiet_act rfl).onlyIf _ _ _ _ (fun _ => ?_) fun _ => hy)
  refine Prog.wp_bind (quiet_clearAttention _ _ _ _ _ _ (fun _ => ?_) fun _ => hy)
  refine safe_commit ?_ ?_
  · rintro _ ⟨z, rfl⟩
    exact ⟨z, rfl⟩
  · rintro _ _ ⟨z, rfl⟩
    exact ⟨z, rfl⟩

/-- An upload, a refusal and a move all keep the invariant. -/
theorem safe_queue {base : Option (Wire V)} {truth : Graph V} {root : String}
    {observed : Option (Untracked V)} (hi : Inv c saved aliases found past busy w)
    (ho : ∀ old, base = some old → Reading w old truth)
    (hp : c.isEvent = true → ∀ old, base = some old → relocated old truth old.root = true →
      past old.root)
    (hn : base = none → w.discovered ≠ []) :
    Safe c (queue c base truth root observed) (fun _ => Inv c saved aliases found past busy)
      (fun _ => Inv c saved aliases found past busy) w := by
  have hj : ∀ w', Journaled w w' → Inv c saved aliases found past busy w' := by
    rintro _ ⟨x, rfl⟩
    exact hi.conn x
  have horigin : Origin w base := by
    cases base with
    | none => exact hn rfl
    | some old => exact ⟨truth, ho old rfl⟩
  unfold queue
  split
  · exact hi
  split
  · exact hi
  split
  · rename_i hmove
    obtain ⟨old, rfl, hcond⟩ := (Option.any_eq_true _ _).1 hmove
    simp only [Bool.and_eq_true] at hcond
    dsimp only
    unfold queueMove
    split
    · exact hi
    refine Prog.wp_bind (Prog.wp_mono (safe_collectOperations (ho old rfl)
      (fun hm => .inr (hp hcond.1.2 old rfl hm)) (hi.covered hcond.1.2))
      (fun moved w' hw' => ?_) fun _ w' hw' => hi.acting (fun _ h => h) hw')
    have hi' : Inv c saved aliases found past busy w' := hi.acting (fun _ h => h.1) hw'
    split
    · exact hi'
    · exact hi'
  split
  · exact hi
  rename_i desired _
  refine Prog.wp_bind (quiet_act rfl _ _ _ (fun _ => ?_) fun _ => hi)
  split
  · exact hi
  refine Prog.wp_bind (safe_begin (fun w₁ h₁ => ?_) fun _ w₁ h₁ => hj w₁ h₁)
  obtain ⟨x, rfl⟩ := h₁
  have horigin' : Origin { w with conn := x } base := by
    cases base with
    | none => exact horigin
    | some old =>
      obtain ⟨t, hr⟩ := horigin
      exact ⟨t, hr.readback, hr.owned⟩
  refine Prog.wp_rescue (Prog.wp_mono (safe_writeUpload horigin') ?_ ?_)
  · rintro _ _ ⟨y, rfl⟩
    exact hi.conn y
  · rintro s _ ⟨y, rfl⟩
    cases s with
    | thrown name => exact hi.conn y
    | failed e =>
      refine Prog.wp_bind (safe_rollback ?_)
      rintro _ ⟨z, rfl⟩
      exact hi.conn z

/-! ## The resources of the mirror -/

theorem safe_orElse {x : ExchangeM V α} {f : RCError → ExchangeM V α} (hE : ∀ s w, exc s w)
    (h : Safe c x post (fun s w => ∀ e, s = .failed e → Safe c (f e) post exc w) w) :
    Safe c (orElse x f) post exc w := by
  refine Prog.wp_rescue (Prog.wp_mono h (fun _ _ h => h) fun s w hs => ?_)
  cases s with
  | failed e => exact hs e rfl
  | thrown name => exact hE _ _

theorem safe_readResource {saved : Wire V} {post : Graph V → World V → Prop}
    (h : ∀ truth, Single c (w.observe saved truth) → post truth (w.observe saved truth))
    (hE : ∀ s, exc s w) : Safe c (readResource saved) post exc w := by
  refine ⟨trivial, fun a w' ha => safe_orStop ?_ ?_⟩
  · rintro truth rfl
    obtain ⟨hw, hs⟩ := ha
    obtain rfl : w' = _ := hw
    exact h truth hs
  · rintro s rfl
    obtain rfl : w' = w := ha.1
    exact hE s

theorem safe_busy {href : String} {post : Bool → World V → Prop}
    (h : post (nativeBusy c.account href w.conn.now) w) (hE : ∀ s, exc s w) :
    Safe c (Exchange.busy href) post exc w := by
  refine ⟨trivial, fun a w' ha => safe_orStop ?_ fun s _ => ha.1.1 ▸ hE s⟩
  rintro b rfl
  rw [ha.1.1, ha.1.2 b rfl]
  exact h

omit [GraphValue V] in
theorem Inv.read (hi : Inv c saved aliases found past busy w) (r : Wire V) (truth : Graph V) :
    Inv c saved aliases found past busy (w.observe r truth) :=
  ⟨hi.keyed, hi.own, hi.named, hi.new, hi.held, hi.event, hi.covered⟩

omit [GraphValue V] in
theorem Inv.forget (hi : Inv c saved aliases found past busy w) :
    Inv c saved aliases found past busy { w with readback := none } :=
  ⟨hi.keyed, hi.own, hi.named, hi.new, hi.held, hi.event, hi.covered⟩

omit [GraphValue V] in
/-- The readback of an owned resource that was just made. -/
theorem Inv.reading (hi : Inv c saved aliases found past busy w) {root : String} {old : Wire V}
    (ho : saved.lookup root = some old) (truth : Graph V) :
    Reading (w.observe old truth) old truth where
  readback := rfl
  owned := by
    show w.saved.lookup old.root = some old
    rw [hi.own, hi.keyed root old ho]
    exact ho

/-- Publishing what may be published. -/
theorem safe_publish {r : Wire V} (hi : Inv c saved aliases found past busy w)
    (hmay : Allowed c w (.publishResource r)) :
    Safe c (publish r) (fun _ => Inv c saved aliases found past busy) (fun _ _ => True) w := by
  refine Prog.wp_bind (quiet_canPublish r _ _ _ (fun ready => ?_) fun _ => trivial)
  split
  · refine Prog.wp_bind (safe_orElse (fun _ _ => trivial) ⟨hmay, fun a w' ha => ?_⟩)
    obtain rfl : w' = _ := ha.1
    refine safe_orStop (fun _ _ => ?_) fun _ _ e _ => ?_
    · refine Prog.wp_bind (quiet_clearAttention _ _ _ _ _ _ (fun _ => ?_) fun _ => trivial)
      exact hi.forget
    · exact Prog.wp_bind (((quiet_attention _ _).orElse fun _ => quiet_pure _) _ _ _
        (fun _ => trivial) fun _ => trivial)
  · exact hi

/-- An owned resource that is no series: its readback decides. A move that is queued for it is of a
root that is past from there on. -/
theorem safe_reconcileOwned {old r : Wire V} (hi : Inv c saved aliases found past busy w)
    (ho : saved.lookup r.root = some old) (hb : r.root ∉ busy) (hp : ¬ past r.root)
    (hle : ∀ n, past n → past' n)
    (hlast : (mirrorRoots c aliases).count r.root ≤ 1 → past' r.root)
    (hs : nativeBusy c.account r.href w.conn.now = false)
    (hseries : recurring old.graph r.root = false ∧ recurring r.graph r.root = false) :
    Safe c (reconcileOwned c true old r) (fun _ => Inv c saved aliases found past' busy)
      (fun _ _ => True) w := by
  refine Prog.wp_bind (safe_readResource (fun truth hsingle => ?_) fun _ => trivial)
  have hi' := hi.read old truth
  have hr := hi.reading ho truth
  have hs' : nativeBusy c.account r.href (w.observe old truth).conn.now = false := hs
  have hroot : old.root = r.root := hi.keyed r.root old ho
  have hmoved : c.isEvent = true → relocated old truth old.root = true → past' old.root := by
    intro he hrel
    have hone := hsingle he old truth hr.readback hrel
    rw [hi'.named, hroot] at hone
    exact hroot ▸ hlast hone
  generalize w.observe old truth = w' at hi' hr hs'
  split
  · refine Prog.wp_bind (safe_orElse (fun _ _ => trivial) (Prog.wp_mono
      (safe_queue (hi'.mono hle) (fun old' ho' => Option.some.inj ho' ▸ hr)
        (fun he old' ho' => Option.some.inj ho' ▸ hmoved he) fun hn => nomatch hn)
      (fun _ _ hw => hw) fun s w₁ hw e _ => ?_))
    exact quiet_attention _ _ _ _ _ (fun _ => hw) fun _ => trivial
  rename_i hequal
  refine Prog.wp_bind (quiet_recheckPending _ _ _ _ _ _ _ (fun settled => ?_) fun _ => trivial)
  split
  · exact hi'.mono hle
  split
  · exact Prog.wp_bind (quiet_clearAttention _ _ _ _ _ _ (fun _ => hi'.mono hle) fun _ => trivial)
  refine Prog.wp_mono (safe_publish hi' fun old' hold' => ?_) (fun _ _ hw => hw.mono hle)
    fun _ _ _ => trivial
  obtain rfl : old = old' := by
    rw [hi'.own, ho] at hold'
    exact Option.some.inj hold'
  exact ⟨⟨truth, hr.readback, by simpa using hequal⟩, hs', hi'.unbusy hb hp, hseries⟩

theorem safe_reconcileFree {r : Wire V} (hi : Inv c saved aliases found past busy w)
    (hb : r.root ∉ busy) (hp : ¬ past r.root) (hle : ∀ n, past n → past' n)
    (hlast : (mirrorRoots c aliases).count r.root ≤ 1 → past' r.root)
    (hs : nativeBusy c.account r.href w.conn.now = false) :
    Safe c (reconcileFree c true (saved.lookup r.root) r)
      (fun _ => Inv c saved aliases found past' busy) (fun _ _ => True) w := by
  cases ho : saved.lookup r.root with
  | none =>
    refine Prog.wp_mono (safe_publish hi fun old hold => ?_) (fun _ _ hw => hw.mono hle)
      fun _ _ _ => trivial
    rw [hi.own, ho] at hold
    cases hold
  | some old =>
    unfold reconcileFree
    dsimp only
    split
    · exact quiet_reconcileSeries _ _ _ _ _ (fun _ => hi.mono hle) fun _ => trivial
    · rename_i hseries
      exact safe_reconcileOwned hi ho hb hp hle hlast hs (by simpa using hseries)

/-- The set that is left holds every move of a root that is not past: one that is collected here is
of a root the set had. -/
theorem safe_recollect {root : String} (hi : Inv c saved aliases found past busy w) :
    Safe c (recollect c true (saved.lookup root) root busy)
      (fun busy' => Inv c saved aliases found past busy') (fun _ _ => True) w := by
  cases ho : saved.lookup root with
  | none => exact hi
  | some old =>
    unfold recollect
    dsimp only
    split
    · rename_i hbusy
      refine Prog.wp_bind (safe_readResource (fun truth _ => ?_) fun _ => trivial)
      have hi' := hi.read old truth
      have hr := hi.reading ho truth
      generalize w.observe old truth = w' at hi' hr
      have he : c.isEvent = true := hi.event fun hn => by simp_all
      have hin : old.root ∈ w'.calendarBusy := by
        rw [hi'.held, hi.keyed root old ho]
        simpa using hbusy
      refine Prog.wp_bind (Prog.wp_mono (safe_collectOperations hr (fun _ => .inl hin)
        (hi'.covered he)) ?_ fun _ _ _ => trivial)
      rintro busy' _ ⟨t, rfl, ht, hk⟩
      refine Prog.wp_bind ⟨trivial, fun _ w₂ h₂ => ?_⟩
      obtain rfl : w₂ = _ := h₂.1
      refine ⟨hi'.keyed, hi'.own, hi'.named, hi'.new, rfl, fun _ => he, fun _ a ha hm => ?_⟩
      exact (ht a ha hm).imp_left fun hb => hk a ha hm (hi'.held ▸ hb)
    · exact hi

/-- **One resource of the mirror** keeps the invariant. -/
theorem safe_reconcile {p : Pass} {resource : Wire V}
    (hi : Inv c saved aliases found past p.busy w) (hp : ¬ past (mapResource resource aliases).root)
    (hle : ∀ n, past n → past' n)
    (hlast : (mirrorRoots c aliases).count (mapResource resource aliases).root ≤ 1 →
      past' (mapResource resource aliases).root) :
    Safe c (reconcile c true saved aliases p resource)
      (fun p' w' => Inv c saved aliases found past' p'.busy w' ∧
        p'.present = (mapResource resource aliases).root :: p.present) (fun _ _ => True) w := by
  refine Prog.wp_bind (quiet_checkCancellation _ _ _ (fun _ => ?_) fun _ => trivial)
  refine Prog.wp_bind (Prog.wp_mono (safe_recollect hi) (fun now w' hi' => ?_) fun _ _ _ => trivial)
  dsimp only
  split
  · exact ⟨hi'.mono hle, rfl⟩
  rename_i hb
  refine Prog.wp_bind (safe_busy ?_ fun _ => trivial)
  split
  · exact ⟨hi'.mono hle, rfl⟩
  rename_i hs
  refine Prog.wp_bind (Prog.wp_mono (safe_reconcileFree hi' (by simpa using hb) hp hle hlast
    (by simpa using hs)) (fun _ _ h => ⟨h, rfl⟩) fun _ _ _ => trivial)

/-- The roots of `l`, as far as no other resource of the mirror has them. -/
def Gone (c : Context V) (aliases : Dict String String) (l : List (Wire V)) (n : String) : Prop :=
  n ∈ l.map (fun r => (mapResource r aliases).root) ∧ (mirrorRoots c aliases).count n ≤ 1

/-- A root that is still to come is not gone. -/
theorem Gone.not_next {l₁ l₂ : List (Wire V)} {r : Wire V} (hl : c.resources = l₁ ++ r :: l₂) :
    ¬ Gone c aliases l₁ (mapResource r aliases).root := by
  rintro ⟨hmem, hcount⟩
  rw [mirrorRoots, hl, List.map_append, List.map_cons, List.count_append, List.count_cons_self]
    at hcount
  have hpos := List.count_pos_iff.2 hmem
  omega

/-- **The loop over the mirror.** -/
theorem safe_reconciles {p : Pass} (hi : Inv c saved aliases found (fun _ => False) p.busy w) :
    Safe c (c.resources.foldlM (reconcile c true saved aliases) p)
      (fun p' w' => Inv c saved aliases found (· ∈ p'.present) p'.busy w') (fun _ _ => True) w := by
  let P : List (Wire V) → Pass → World V → Prop := fun l₁ p' w' =>
    Inv c saved aliases found (Gone c aliases l₁) p'.busy w' ∧
      ∀ r ∈ l₁, (mapResource r aliases).root ∈ p'.present
  have hloop : Safe c (c.resources.foldlM (reconcile c true saved aliases) p) (P c.resources)
      (fun _ _ => True) w := by
    refine Prog.wp_foldlM_split P ?_ ⟨hi.mono fun _ h => h.elim, nofun⟩
    rintro l₁ r l₂ hl p' w' ⟨hi', hpresent⟩
    have hle : ∀ n, Gone c aliases l₁ n → Gone c aliases (l₁ ++ [r]) n := by
      intro n hn
      refine ⟨?_, hn.2⟩
      rw [List.map_append]
      exact List.mem_append_left _ hn.1
    refine Prog.wp_mono (safe_reconcile hi' (Gone.not_next hl) hle fun hone => ⟨by simp, hone⟩) ?_
      fun _ _ h => h
    rintro p₂ w₂ ⟨hi₂, hp₂⟩
    refine ⟨hi₂, fun x hx => ?_⟩
    rw [hp₂]
    rcases List.mem_append.1 hx with hx | hx
    · exact List.mem_cons_of_mem _ (hpresent x hx)
    · rw [List.mem_singleton.1 hx]
      exact List.mem_cons_self
  refine Prog.wp_mono hloop ?_ fun _ _ _ => trivial
  rintro p' w' ⟨hi', hpresent⟩
  refine hi'.mono fun n hn => ?_
  obtain ⟨r, hr, rfl⟩ := List.mem_map.1 hn.1
  exact hpresent r hr

/-! ## The resources the mirror no longer has -/

/-- **One owned resource** keeps the invariant. -/
theorem safe_reconcileAbsent {p : Pass} {resource : Wire V}
    (ho : saved.lookup resource.root = some resource)
    (hi : Inv c saved aliases found past p.busy w)
    (hp : resource.root ∉ p.present → ¬ past resource.root)
    (hle : ∀ n, past n → past' n) (hlast : past' resource.root) :
    Safe c (reconcileAbsent c true p resource)
      (fun p' w' => Inv c saved aliases found past' p'.busy w' ∧ p'.present = p.present)
      (fun _ _ => True) w := by
  unfold reconcileAbsent
  dsimp only
  split
  · exact ⟨hi.mono hle, rfl⟩
  rename_i hpresent
  replace hp := hp (by simpa using hpresent)
  refine Prog.wp_bind (quiet_checkCancellation _ _ _ (fun _ => ?_) fun _ => trivial)
  split
  · exact ⟨hi.mono hle, rfl⟩
  rename_i hb
  refine Prog.wp_bind (quiet_other (fun _ => quiet_orStop _) _ _ _ (fun retained => ?_)
    fun _ => trivial)
  split
  · exact ⟨hi.mono hle, rfl⟩
  refine Prog.wp_bind (safe_busy ?_ fun _ => trivial)
  split
  · exact ⟨hi.mono hle, rfl⟩
  rename_i hs
  split
  · exact Prog.wp_bind (quiet_attention _ _ _ _ _ (fun _ => ⟨hi.mono hle, rfl⟩) fun _ => trivial)
  rename_i hseries
  refine Prog.wp_bind (safe_readResource (fun truth _ => ?_) fun _ => trivial)
  have hi' := hi.read resource truth
  have hr := hi.reading ho truth
  have hs' : nativeBusy c.account resource.href (w.observe resource truth).conn.now = false := by
    rw [Bool.not_eq_true] at hs
    exact hs
  generalize w.observe resource truth = w' at hi' hr hs'
  split
  · refine Prog.wp_bind (safe_orElse (fun _ _ => trivial) (Prog.wp_mono
      (safe_queue (hi'.mono hle) (fun old' ho' => Option.some.inj ho' ▸ hr)
        (fun _ old' ho' _ => Option.some.inj ho' ▸ hlast) fun hn => nomatch hn)
      (fun _ _ hw => ⟨hw, rfl⟩) fun s w₁ hw e _ => ?_))
    exact quiet_attention _ _ _ _ _ (fun _ => ⟨hw, rfl⟩) fun _ => trivial
  rename_i hequal
  have hsame : truth.keys = [] ∨ graphsEqual resource.graph truth = true := by
    by_cases ht : truth.keys = []
    · exact .inl ht
    · exact .inr (by simpa [ht] using hequal)
  refine Prog.wp_bind ⟨⟨hr.owned, ⟨truth, hr.readback, hsame⟩, hs',
    hi'.unbusy (by simpa using hb) hp, by simpa using hseries⟩, fun a w₁ h₁ => ?_⟩
  obtain rfl : w₁ = _ := h₁.1
  exact safe_orStop (fun _ _ => ⟨(hi'.forget).mono hle, rfl⟩) fun _ _ => trivial

/-- **The loop over the owned resources.** Each has a root of its own. -/
theorem safe_reconcileAbsents {p : Pass}
    (hi : Inv c saved aliases found (· ∈ p.present) p.busy w) :
    Safe c ((saved.entries.map Sigma.snd).foldlM (reconcileAbsent c true) p)
      (fun p' w' => ∃ past, Inv c saved aliases found past p'.busy w') (fun _ _ => True) w := by
  have hroots : (saved.entries.map Sigma.snd).map Wire.root = saved.keys := by
    rw [List.map_map]
    refine List.map_congr_left fun e he => ?_
    exact hi.keyed _ _ (AList.mem_lookup_iff.2 he)
  have hnodup : ((saved.entries.map Sigma.snd).map Wire.root).Nodup := hroots ▸ saved.keys_nodup
  let past : List (Wire V) → String → Prop := fun l₁ n => n ∈ p.present ∨ n ∈ l₁.map Wire.root
  let P : List (Wire V) → Pass → World V → Prop := fun l₁ p' w' =>
    Inv c saved aliases found (past l₁) p'.busy w' ∧ p'.present = p.present
  suffices hloop : Safe c ((saved.entries.map Sigma.snd).foldlM (reconcileAbsent c true) p)
      (P (saved.entries.map Sigma.snd)) (fun _ _ => True) w from
    Prog.wp_mono hloop (fun _ _ h => ⟨_, h.1⟩) fun _ _ _ => trivial
  refine Prog.wp_foldlM_split P ?_ ⟨hi.mono fun _ h => .inl h, rfl⟩
  rintro l₁ r l₂ hl p' w' ⟨hi', hpresent⟩
  have hr : r ∈ saved.entries.map Sigma.snd := by
    rw [hl]
    exact List.mem_append_right _ List.mem_cons_self
  have ho : saved.lookup r.root = some r := by
    obtain ⟨e, he, rfl⟩ := List.mem_map.1 hr
    have hkey := hi.keyed _ _ (AList.mem_lookup_iff.2 he)
    rw [hkey]
    exact AList.mem_lookup_iff.2 he
  have hnew : r.root ∉ p'.present → ¬ past l₁ r.root := by
    rw [hpresent]
    rintro hp (hn | hn)
    · exact hp hn
    · rw [hl, List.map_append, List.map_cons] at hnodup
      exact (List.nodup_append.1 hnodup).2.2 _ hn _ List.mem_cons_self rfl
  have hle : ∀ n, past l₁ n → past (l₁ ++ [r]) n := by
    rintro n (hn | hn)
    · exact .inl hn
    · refine .inr ?_
      rw [List.map_append]
      exact List.mem_append_left _ hn
  exact Prog.wp_mono (safe_reconcileAbsent ho hi' hnew hle (.inr (by simp)))
    (fun p₂ w₂ h => ⟨h.1, h.2.trans hpresent⟩) fun _ _ h => h

/-! ## The resources of the native store -/

theorem safe_reconcileNew {u : Unit} {resource : Untracked V}
    (hi : Inv c saved aliases found past busy w) (hf : found ≠ []) :
    Safe c (reconcileNew c u resource) (fun _ => Inv c saved aliases found past busy)
      (fun _ _ => True) w := by
  unfold reconcileNew
  split
  · exact quiet_attention _ _ _ _ _ (fun _ => hi) fun _ => trivial
  · refine safe_orElse (fun _ _ => trivial) (Prog.wp_mono (safe_queue hi
      (fun _ ho => nomatch ho) (fun _ _ ho => nomatch ho) fun _ => hi.new ▸ hf)
      (fun _ _ h => h) fun s w₁ hw e _ => ?_)
    exact quiet_attention _ _ _ _ _ (fun _ => hw) fun _ => trivial

theorem safe_collectDeleted {kept deleted : List String} {root : String} :
    Quiet c (collectDeleted kept deleted root : ExchangeM V (List String)) := by
  refine quiet_checkCancellation.bind fun _ => ?_
  split
  · exact quiet_pure _
  refine Quiet.bind (quiet_other fun _ => quiet_orStop _) fun absent => ?_
  split <;> exact quiet_pure _

theorem safe_clearDeletedCreations {discovered : List (Untracked V)} {post : Unit → World V → Prop}
    (h : ∀ w, post () w) (hE : ∀ s w, exc s w) :
    Safe c (clearDeletedCreations saved discovered) post exc w := by
  refine Prog.wp_bind (quiet_other (fun _ => quiet_orStop _) _ _ _ (fun candidates => ?_)
    fun s => hE s w)
  split
  · exact h w
  refine Prog.wp_bind (quiet_other (fun _ => quiet_orStop _) _ _ _ (fun roots => ?_) fun s => hE s w)
  split
  · exact h w
  refine Prog.wp_bind (Quiet.foldlM (fun _ _ => safe_collectDeleted) _ _ _ _ _ (fun deleted => ?_)
    fun s => hE s w)
  split
  · exact h w
  refine Prog.wp_bind (quiet_checkCancellation _ _ _ (fun _ => ?_) fun s => hE s w)
  refine Prog.wp_bind (safe_begin (fun w' _ => ?_) fun s w' _ => hE s w')
  refine Prog.wp_bind (Quiet.foldlM (fun _ _ => quiet_clearAttention _ _ _) _ _ _ _ _ (fun _ => ?_)
    fun s => hE s w')
  exact safe_commit (fun w' _ => h w') fun s w' _ => hE s w'

theorem safe_reconcileCreated (hi : Inv c saved aliases found past busy w) :
    Safe c (reconcileCreated c true saved) (fun _ _ => True) (fun _ _ => True) w := by
  refine Prog.wp_bind ⟨trivial, fun a w' ha => safe_orStop ?_ fun _ _ => trivial⟩
  rintro records rfl
  obtain rfl : w' = _ := ha.1
  have hi' : Inv c saved aliases records past busy { w with discovered := records } :=
    ⟨hi.keyed, hi.own, hi.named, rfl, hi.held, hi.event, hi.covered⟩
  have hloop : Safe c (records.foldlM (reconcileNew c) ())
      (fun _ => Inv c saved aliases records past busy) (fun _ _ => True)
        { w with discovered := records } :=
    Prog.wp_foldlM (fun _ => Inv c saved aliases records past busy)
      (fun _ hr _ _ hw => safe_reconcileNew hw (List.ne_nil_of_mem hr)) hi'
  refine Prog.wp_bind (Prog.wp_mono hloop (fun _ _ _ => ?_) fun _ _ _ => trivial)
  exact Prog.wp_bind (safe_clearDeletedCreations (fun _ => trivial) fun _ _ => trivial)

end

/-! ## The pass -/

/-- Protecting an operation only adds, and adds its own record. -/
theorem safe_protectAction {busy : List String} {a : String × String × String} :
    Safe c (protectAction c busy a) (fun busy' w' => w' = w ∧ ∀ n, n ∈ busy ∨ n = a.1 → n ∈ busy')
      (fun _ _ => True) w := by
  refine Prog.wp_foldlM (fun busy' w' => w' = w ∧ ∀ n, n ∈ busy ∨ n = a.1 → n ∈ busy') ?_
    ⟨rfl, fun n hn => ?_⟩
  · rintro identifier - busy' _ ⟨rfl, hb⟩
    split
    · refine Prog.wp_bind (quiet_nativeCollectionURL _ _ _ _ (fun collection => ?_)
        fun _ => trivial)
      split
      · refine ⟨rfl, fun n hn => ?_⟩
        split
        · exact List.mem_cons_of_mem _ (hb n hn)
        · exact hb n hn
      · exact ⟨rfl, hb⟩
    · exact ⟨rfl, hb⟩
  · rcases hn with hn | rfl
    · exact List.mem_append_right _ hn
    · exact List.mem_cons_self

theorem safe_protectActions (live : List (String × String × String)) (busy : List String) :
    Safe c (live.foldlM (protectAction c) busy)
      (fun busy' w' => w' = w ∧ ∀ n, n ∈ busy ∨ n ∈ live.map Prod.fst → n ∈ busy')
      (fun _ _ => True) w := by
  induction live generalizing busy with
  | nil => exact ⟨rfl, fun n hn => by simpa using hn⟩
  | cons a live ih =>
    rw [List.foldlM_cons]
    refine Prog.wp_bind (Prog.wp_mono safe_protectAction ?_ fun _ _ _ => trivial)
    rintro busy₁ _ ⟨rfl, h₁⟩
    refine Prog.wp_mono (ih busy₁) ?_ fun _ _ _ => trivial
    rintro busy₂ w₂ ⟨hw, h₂⟩
    refine ⟨hw, fun n hn => h₂ n ?_⟩
    rw [List.map_cons, List.mem_cons, ← or_assoc] at hn
    exact hn.imp_left (h₁ n)

/-- `calendarBusy` starts with every operation that is not done. -/
theorem safe_protect :
    Safe c (protect c) (fun busy w' => w' = w ∧ (busy ≠ [] → c.isEvent = true) ∧
      (c.isEvent = true → ∀ a ∈ w.actions, Moves c a → a.native ∈ busy)) (fun _ _ => True) w := by
  unfold protect
  split
  · rename_i he
    refine Prog.wp_bind (quiet_act rfl _ _ _ (fun _ => ?_) fun _ => trivial)
    refine Prog.wp_bind ⟨trivial, fun a w' ha => safe_orStop ?_ fun _ _ => trivial⟩
    rintro live rfl
    obtain ⟨rfl, hl⟩ := ha.1
    refine Prog.wp_mono (safe_protectActions live []) ?_ fun _ _ _ => trivial
    rintro busy _ ⟨rfl, hb⟩
    refine ⟨rfl, fun _ => he, fun _ a ha hm => hb _ (.inr ?_)⟩
    rw [hl live rfl, liveActions, List.map_map, List.mem_map]
    exact ⟨a, List.mem_filter.2 ⟨ha, by simp [hm.1, hm.2.2]⟩, rfl⟩
  · rename_i he
    exact ⟨rfl, fun h => absurd rfl h, fun h => absurd h he⟩

/-- **The pass** asks only what it may. -/
theorem safe_pass (w : World V) : Safe c (pass c true) (fun _ _ => True) (fun _ _ => True) w := by
  refine Prog.wp_bind (quiet_act rfl _ _ _ (fun _ => ?_) fun _ => trivial)
  refine Prog.wp_bind (quiet_act rfl _ _ _ (fun _ => ?_) fun _ => trivial)
  refine Prog.wp_bind (quiet_other (fun _ => quiet_orStop _) _ _ _ (fun known => ?_)
    fun _ => trivial)
  refine Prog.wp_bind ⟨trivial, fun _ w₁ h₁ => safe_orStop ?_ fun _ _ => trivial⟩
  rintro aliases rfl
  obtain ⟨conn, actions, rfl⟩ := h₁.1
  refine Prog.wp_bind ⟨trivial, fun _ w₂ h₂ => safe_orStop ?_ fun _ _ => trivial⟩
  rintro saved rfl
  obtain ⟨hkeyed, rfl⟩ := h₂.1
  refine Prog.wp_bind (Prog.wp_mono safe_protect ?_ fun _ _ _ => trivial)
  rintro busy _ ⟨rfl, hevent, hbusy⟩
  refine Prog.wp_bind ⟨trivial, fun _ w₃ h₃ => ?_⟩
  obtain rfl : w₃ = _ := h₃.1
  refine Prog.wp_bind (Prog.wp_mono (safe_reconciles (p := ⟨true, [], busy⟩) ⟨hkeyed, rfl, rfl, rfl,
    rfl, hevent, fun he a ha hm => .inl (hbusy he a ha hm)⟩) (fun p w₄ h₄ => ?_)
      fun _ _ _ => trivial)
  refine Prog.wp_bind (Prog.wp_mono (safe_reconcileAbsents h₄) (fun p w₅ h₅ => ?_)
    fun _ _ _ => trivial)
  obtain ⟨past, h₅⟩ := h₅
  refine Prog.wp_bind (Prog.wp_mono (safe_reconcileCreated h₅) (fun created w₆ _ => ?_)
    fun _ _ _ => trivial)
  exact Prog.wp_bind (quiet_other (fun _ => quiet_orStop _) _ _ _ (fun _ => trivial)
    fun _ => trivial)

theorem safe_rollbackOpen {post : Unit → World V → Prop} (h : ∀ w, post () w) :
    Safe c rollbackOpen post exc w := by
  refine ⟨trivial, fun (autocommit : Bool) w' _ => ?_⟩
  cases autocommit with
  | true => exact h w'
  | false => exact safe_rollback fun w₁ _ => h w₁

theorem safe_exchange (w : World V) :
    Safe c (exchange c true) (fun _ _ => True) (fun _ _ => True) w := by
  refine safe_orElse (fun _ _ => trivial) ?_
  refine Prog.wp_bind (quiet_act rfl _ _ _ (fun _ => ?_) fun _ _ _ => trivial)
  have hpass : Safe c (outcome (pass c true)) (fun _ _ => True) (fun _ _ => True) w := by
    refine Prog.wp_rescue (Prog.wp_bind (Prog.wp_mono (safe_pass w) (fun _ _ _ => trivial) ?_))
    rintro (e | name) w' -
    · exact trivial
    · exact trivial
  refine Prog.wp_bind (Prog.wp_mono hpass (fun result w' _ => ?_) fun _ _ _ _ _ => trivial)
  exact Prog.wp_bind (safe_rollbackOpen fun _ => trivial)

end

/-! ## Two passes that publish -/

/-- A contact with a nickname. -/
def card (name : String) : Graph Plist :=
  Dict.ofList [("c", Dict.ofList [(entityKey, .text "com.apple.contacts.Contact"),
    ("nickname", .text name)])]

def version (etag name : String) : Wire Plist where
  key := "k"
  href := "https://dav/k"
  etag := some etag
  body := ascii name
  revision := 1
  root := "c"
  graph := card name
  paths := ∅

/-- The mirror has a newer version of the one contact. -/
def contacts : Context Plist where
  account := 7
  rootEntity := "com.apple.contacts.Contact"
  resources := [version "\"v2\"" "Ada"]
  graph := ∅
  encoder := fun _ _ _ => .error ⟨1, "Contact edit cannot be represented safely"⟩
  host := fun _ => none

/-- One owned resource. -/
def owned (r : Wire Plist) : Dict String (Wire Plist) := Dict.ofList [(r.root, r)]

def before : World Plist where
  conn := ⟨Tables.empty, []⟩
  actions := .empty
  saved := ∅
  readback := none
  aliases := ∅
  discovered := []
  calendarBusy := []

section
variable {ans : World Plist → (q : Question Plist) → q.Answer → World Plist → Prop}
  {c : Context Plist}

/-- The pass gets from `before` to `x` in `w`. -/
def Reaches (ans : World Plist → (q : Question Plist) → q.Answer → World Plist → Prop)
    (c : Context Plist) (x : ExchangeM Plist (Except RCError Bool)) (w : World Plist) : Prop :=
  Relation.ReflTransGen (Prog.Turn ans) (exchange c true, before) (x, w)

theorem Reaches.turn {x : ExchangeM Plist (Except RCError Bool)} {w : World Plist}
    {q : Question Plist} {k : q.Answer → ExchangeM Plist (Except RCError Bool)}
    (h : Reaches ans c x w) (hx : x = .ask q k) (a : q.Answer) (w' : World Plist)
    (ha : ans w q a w') : Reaches ans c (k a) w' := by
  subst hx
  exact h.tail (.answer ha)

end

/-- An event of a calendar. -/
def event (root href etag calendar name : String) : Wire Plist where
  key := href
  href
  etag := some etag
  body := ascii name
  revision := 1
  root
  graph := Dict.ofList [(root, Dict.ofList [(entityKey, .text "com.apple.calendars.Event"),
    ("calendar", .list [calendar])])]
  paths := ∅

/-- The mirror has two resources. -/
def calendars : Context Plist where
  account := 7
  rootEntity := "com.apple.calendars.Event"
  resources := [event "cal-1" "https://dav/home/a" "\"v1\"" "home" "Lunch",
    event "cal-2" "https://dav/home/b" "\"v2\"" "home" "Dinner"]
  graph := ∅
  encoder := fun _ _ _ => .error ⟨1, "Calendar edit cannot be represented safely"⟩
  host := fun _ => some "dav"

/-- One native event stands for both. -/
def merged : Dict String String := Dict.ofList [("cal-1", "native"), ("cal-2", "native")]

def lunch : Wire Plist := event "native" "https://dav/home/a" "\"v1\"" "home" "Lunch"

end Exchange
