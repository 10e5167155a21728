import Mathlib.Data.List.Chain
import Mathlib.Data.List.Perm.Subperm
import RetroCloudSync.Journal.Refused

/-!
# The lineage of a conflict

`Link r old next`: the resolution `r` leads from a cancelled conflict to a younger operation on
the same resource, pinned to the version the conflict observed. Every resolution of a reachable
journal is such a link (`Linked`).

`Settled account id d n t`: in tables `t` the conflict `id` was decided by `d` in favour of `n`.
No move unsettles it (`Settled.move`), and where it holds `ResolveConflict` can only answer `n` to
that decision and must refuse every other (`Settled.resolve`, `Settled.replay`).
-/

set_option autoImplicit false

namespace Journal

open Library Library.Tx

variable {account id n : Int} {c c' : Conn Tables} {t : Tables} {d : Decision}

/-! ## Links -/

/-- `next` starts from the remote state that `old` observed: the version it saw, or, after a 404,
no version for a create and its own base for a delete. -/
def Pinned (old next : Operation) : Prop :=
  if old.status = 404 then
    (next.kind = .create ∧ next.baseETag = none ∧ next.baseBody = none) ∨
      (next.kind = .delete ∧ next.baseETag = old.baseETag ∧ next.baseBody = old.baseBody)
  else old.status = 200 ∧ next.kind ≠ .create ∧ next.baseETag = old.resultETag ∧
    next.baseBody = old.resultBody

/-- `next` is the successor of the conflict `old`. -/
structure Succession (old next : Operation) : Prop where
  younger : old.id < next.id
  account : next.account = old.account
  resourceKey : next.resourceKey = old.resourceKey
  href : next.href = old.href
  pinned : Pinned old next

structure Link (r : Resolution) (old next : Operation) : Prop extends Succession old next where
  operation : r.operation = old.id
  successor : r.successor = next.id
  cancelled : old.state = .cancelled

theorem usable_pinned {old : Operation} (h : d.usable old = true) :
    Pinned old (d.row account n old) := by
  simp only [Decision.usable, Bool.and_eq_true, decide_eq_true_iff] at h
  unfold Pinned
  by_cases h404 : old.status = 404
  · have hk := h.2
    rw [if_pos h404, Bool.or_eq_true, decide_eq_true_iff, decide_eq_true_iff] at hk
    rw [if_pos h404]
    rcases hk with hk | hk
    · exact .inl ⟨hk, by simp [Decision.row, Decision.base, h404, hk],
        by simp [Decision.row, Decision.base, h404, hk]⟩
    · exact .inr ⟨hk, by simp [Decision.row, Decision.base, h404, hk],
        by simp [Decision.row, Decision.base, h404, hk]⟩
  · have hk := h.2
    rw [if_neg h404] at hk
    simp only [Bool.and_eq_true, decide_eq_true_iff] at hk
    rw [if_neg h404]
    exact ⟨hk.1.1.1, hk.2, by simp [Decision.row, Decision.base, h404],
      by simp [Decision.row, Decision.base, h404]⟩

/-- Being a successor depends on the intent alone. -/
theorem Succession.of_intent {old next next' : Operation} (h : Succession old next)
    (hi : next'.intent = next.intent) : Succession old next' := by
  have hs := Operation.same_of_intent hi
  refine ⟨hs.id ▸ h.younger, hs.account.trans h.account, hs.resourceKey.trans h.resourceKey,
    hs.href.trans h.href, ?_⟩
  have hp := h.pinned
  unfold Pinned at hp ⊢
  rwa [hs.kind, hs.baseETag, hs.baseBody]

theorem Decided.succession {old : Operation} {r : Resolution} (h : Decided account c t d old r) :
    Succession old (d.row account (newRowid c.now.operations) old) where
  younger := lt_newRowid h.mem
  account := h.account_eq.symm
  resourceKey := rfl
  href := rfl
  pinned := usable_pinned h.usable

/-- The cancellation of the conflict does not touch what the successor is pinned to. -/
theorem Succession.closed {old next : Operation} {s : OpState} (h : Succession old next) :
    Succession (old.closed s) next :=
  ⟨h.younger, h.account, h.resourceKey, h.href, h.pinned⟩

/-- Every resolution is a link. -/
def Linked (t : Tables) : Prop :=
  ∀ r ∈ t.resolutions, ∃ old ∈ t.operations, ∃ next ∈ t.operations, Link r old next

/-- A link outlives every move: the conflict is closed, the successor keeps its intent. -/
theorem Link.move {r : Resolution} {old next : Operation} (h : Link r old next)
    (hold : old ∈ c.now.operations) (hnext : next ∈ c.now.operations) (hm : Move account c t) :
    old ∈ t.operations ∧ ∃ next' ∈ t.operations, Link r old next' := by
  obtain ⟨old', hold', -, he⟩ := hm.operation hold
  obtain ⟨next', hnext', hi, -⟩ := hm.operation hnext
  have hclosed : old.unresolved = false := by
    simp [Operation.unresolved, OpState.unresolved, h.cancelled]
  exact ⟨he hclosed ▸ hold', next', hnext', h.toSuccession.of_intent hi, h.operation,
    h.successor.trans (Operation.same_of_intent hi).id.symm, h.cancelled⟩

theorem Linked.move (hc : Everywhere Linked c) (h : Move account c t) : Linked t := by
  have old_link : ∀ r ∈ c.now.resolutions,
      ∃ old ∈ t.operations, ∃ next ∈ t.operations, Link r old next := by
    intro r hr
    obtain ⟨old, hold, next, hnext, hl⟩ := hc.now r hr
    obtain ⟨hold', next', hnext', hl'⟩ := hl.move hold hnext h
    exact ⟨old, hold', next', hnext', hl'⟩
  intro r hr
  rcases h.resolution_origin hr with hr | ⟨r₀, hr₀, rfl⟩ | ⟨d, old, hd⟩
  · exact old_link r hr
  · obtain ⟨old, hold, next, hnext, hl⟩ := old_link r₀ hr₀
    exact ⟨old, hold, next, hnext, hl.toSuccession, hl.operation, hl.successor, hl.cancelled⟩
  · exact ⟨_, hd.cancelled, _, hd.inserted, hd.succession.closed, hd.operation, hd.successor,
      rfl⟩

theorem Reached.linked {past : List (Conn Tables)} (h : Reached c past) : Linked c.now :=
  (h.images (fun _ hr => absurd hr (Table.not_mem_empty _)) fun _ _ _ => Linked.move).now

/-! ## Settled conflicts -/

/-- In `t` the conflict `id` of the account was decided by `d`, with `n` as its successor. -/
def Settled (account id : Int) (d : Decision) (n : Int) (t : Tables) : Prop :=
  (∃ old ∈ t.operations, old.account = account ∧ old.id = id) ∧
  (∃ r ∈ t.resolutions, r.operation = id ∧ r.successor = n ∧ r.receipt = d.receipt) ∧
  ∃ next ∈ t.operations, next.account = account ∧ next.id = n ∧ d.matches next = true

theorem Settled.move {account' : Int} (hs : Settled account id d n c.now)
    (h : Move account' c t) : Settled account id d n t := by
  obtain ⟨⟨old, hold, ha, hi⟩, ⟨r, hr, hro, hrs, hrr⟩, next, hnext, hna, hni, hm⟩ := hs
  obtain ⟨old', hold', hoi, -⟩ := h.operation hold
  obtain ⟨next', hnext', hni', -⟩ := h.operation hnext
  have ho := Operation.same_of_intent hoi
  have hn := Operation.same_of_intent hni'
  refine ⟨⟨old', hold', ho.account.trans ha, ho.id.trans hi⟩, ?_, next', hnext',
    hn.account.trans hna, hn.id.trans hni, ?_⟩
  · rcases h.resolution hr with hr' | hr'
    · exact ⟨r, hr', hro, hrs, hrr⟩
    · exact ⟨r.mirrored, hr', hro, hrs, hrr⟩
  · unfold Decision.matches at hm ⊢
    rwa [hn.kind, hn.desiredBody]

/-- A decision that went through is settled from then on. -/
theorem Resolved.settled (h : Resolved account id d c.now n t) : Settled account id d n t := by
  cases h with
  | replay found linked receipt successor same =>
    obtain ⟨hm, ha, hi⟩ := findOperation_some found
    obtain ⟨hr, hri⟩ := findResolution_some linked
    obtain ⟨hn, hna, hni⟩ := findOperation_some successor
    exact ⟨⟨_, hm, ha, hi⟩, ⟨_, hr, hri, rfl, receipt⟩, _, hn, hna, hni, same⟩
  | fresh found unlinked usable added linked cancelled =>
    have hd := Resolved.decided ‹_› found usable added cancelled
    obtain ⟨-, ha, hi⟩ := findOperation_some found
    refine ⟨⟨_, hd.cancelled, ha, hi⟩, ⟨_, linked.mem_new, rfl, rfl, rfl⟩, _, hd.inserted, rfl, rfl,
      ?_⟩
    simp [Decision.matches, Decision.row]

/-- Two decisions that match the same row and carry the same receipt are the same decision. -/
theorem Decision.eq_of_matches {d d' : Decision} {o : Operation} (hr : d.receipt = d'.receipt)
    (h : d.matches o = true) (h' : d'.matches o = true) : d = d' := by
  simp only [Decision.matches, Bool.and_eq_true, decide_eq_true_iff] at h h'
  have hk : d.kind = d'.kind := h.1.symm.trans h'.1
  have hb : d.desiredBody = d'.desiredBody := by
    have hg := h.2.symm.trans h'.2
    have h1 := d.bodied
    have h2 := d'.bodied
    cases hd : d.desiredBody with
    | none => rw [(h2.1.2 (hk ▸ h1.1.1 hd))]
    | some b =>
      cases hd' : d'.desiredBody with
      | none => rw [h1.1.2 (hk ▸ h2.1.1 hd')] at hd; cases hd
      | some b' => rw [hd, hd'] at hg; exact congrArg some hg
  obtain ⟨k, b, r, _, _⟩ := d
  obtain ⟨k', b', r', _, _⟩ := d'
  simp only at hk hb hr
  subst hk hb hr
  rfl

/-- Once settled, `ResolveConflict` changes nothing, and answers only the decision made. -/
theorem Settled.resolve {account' : Int} {kind : Option Bytes} {body receipt : Buf}
    (hs : Settled account id d n c.now) :
    wp (resolveConflict account' id kind body receipt)
      (fun m c' => c' = c ∧ account' = account ∧ m = n ∧ Decision.check kind body receipt = .ok d)
      (fun _ c' => c' = c) c := by
  refine wp_mono resolve_spec ?_ fun _ _ h => h
  rintro m ⟨now', undo'⟩ ⟨hu, d', hd', hres⟩
  obtain ⟨⟨old, hold, ha, hi⟩, ⟨r, hr, hro, hrs, hrr⟩, next, hnext, hna, hni, hm⟩ := hs
  have hfr : findResolution id c.now = some r := hro ▸ findResolution_eq hr
  cases hres with
  | replay found linked receipt successor same =>
    rename_i old' next' r'
    obtain rfl : r = r' := Option.some.inj (hfr.symm.trans linked)
    obtain ⟨hm', ha', hi'⟩ := findOperation_some found
    obtain ⟨hn', -, hni'⟩ := findOperation_some successor
    obtain rfl : old = old' := Table.eq_of_key hold hm' (hi.trans hi'.symm)
    obtain rfl : next = next' := Table.eq_of_key hnext hn' (hni.trans (hrs.symm.trans hni'.symm))
    refine ⟨?_, ha'.symm.trans ha, hrs, ?_⟩
    · cases hu; rfl
    · rw [hd', Decision.eq_of_matches (hrr.symm.trans receipt) hm same]
  | fresh _ unlinked => rw [hfr] at unlinked; cases unlinked

/-- With nothing refused, repeating the decision returns the same successor. -/
theorem Settled.replay {kind : Option Bytes} {body receipt : Buf}
    (hs : Settled account id d n c.now) (hd : Decision.check kind body receipt = .ok d) :
    resolveConflict account id kind body receipt ⟨c, []⟩ = .ok n ⟨c, []⟩ := by
  obtain ⟨⟨old, hold, ha, hi⟩, ⟨r, hr, hro, hrs, hrr⟩, next, hnext, hna, hni, hm⟩ := hs
  have hfr : findResolution id c.now = some r := hro ▸ findResolution_eq hr
  have hget : ∀ {o : Operation}, o ∈ c.now.operations →
      runs (get o.account o.id) c.push o c.push := by
    intro o ho
    refine runs_bind runs_gate (runs_bind (runs_select _) ?_)
    rw [Conn.push_now, findOperation_eq ho]
    exact runs_bind runs_gate (runs_pure o)
  suffices h : runs (resolveConflict account id kind body receipt) c n c from h
  unfold resolveConflict
  rw [hd]
  show runs _ c n c.push.release
  refine runs_savepoint (runs_bind (ha ▸ hi ▸ hget hold) ?_)
  refine runs_bind (runs_bind runs_gate (runs_select _)) ?_
  rw [Conn.push_now, hfr]
  dsimp only
  rw [if_pos hrr]
  refine runs_bind (runs_mapError (hrs ▸ hna ▸ hni ▸ hget hnext)) ?_
  rw [if_pos hm, hrs]
  exact runs_pure n

/-- The arguments a decision was read from. -/
theorem Decision.check_eq {kind : Option Bytes} {body receipt : Buf}
    (h : Decision.check kind body receipt = .ok d) :
    kind = some d.kind.name ∧ body = d.desiredBody.elim (.null 0) .data ∧
      receipt = .data d.receipt := by
  unfold Decision.check at h
  split at h
  · rename_i k r hk
    split at h
    · split at h
      · rename_i b hb
        cases h
        obtain ⟨s, rfl, hs⟩ := Option.bind_eq_some_iff.1 hk
        exact ⟨congrArg some (Kind.ofName_some hs), Kind.desired_eq hb, rfl⟩
      · cases h
    · cases h
  · cases h

/-! ## Later states -/

/-- A step that brings no earlier image back. -/
inductive Onward : Conn Tables → Conn Tables → Prop
  | call (c : Conn Tables) (account : Int) (q : Call) (faults : List (Option String)) :
      Onward c (after (q.run account) c faults)
  | push (c : Conn Tables) : Onward c c.push
  | release (c : Conn Tables) : Onward c c.release
  | commit (c : Conn Tables) : Onward c c.commit

/-- `c'` comes after `c`: nothing is rolled back until the transaction that `c` is in has
committed; from then on anything may happen, crashes included. -/
def Later (c c' : Conn Tables) : Prop :=
  ∃ m, Relation.ReflTransGen Onward c m ∧
    (m = c' ∨ m.undo = [] ∧ Relation.ReflTransGen Step m c')

/-- What every move keeps holds at every later time. -/
theorem Later.stable {P : Tables → Prop}
    (hP : ∀ account c t, P c.now → Move account c t → P t) (h : Later c c') (hc : P c.now) :
    P c'.now := by
  obtain ⟨m, hcm, hm⟩ := h
  have hpm : P m.now := by
    clear hm
    induction hcm with
    | refl => exact hc
    | tail _ ho ih =>
      cases ho with
      | call account q faults => exact hP account _ _ ih (call_cases account q _ faults).2
      | push => exact ih
      | release => exact ih
      | commit => exact ih
  rcases hm with rfl | ⟨hu, hmc⟩
  · exact hpm
  · -- with no transaction open, every image there is can only be a later one
    have hall : Everywhere P m := fun t ht => by
      rcases Conn.mem_images.1 ht with rfl | ht
      · exact hpm
      · rw [hu] at ht; cases ht
    have hall' : Everywhere P c' := by
      clear hcm
      induction hmc with
      | refl => exact hall
      | tail _ ho ih => exact ih.step (fun account c t hc hmove => hP account c t hc.now hmove) ho
    exact hall'.now

theorem Settled.later (hs : Settled account id d n c.now) (h : Later c c') :
    Settled account id d n c'.now :=
  h.stable (fun _ _ _ hc hmove => hc.move hmove) hs

/-! ## Chains of successors -/

/-- `next` was enqueued to resolve the conflict `old`. -/
def Succeeds (t : Tables) (old next : Operation) : Prop :=
  ∃ r ∈ t.resolutions, r.operation = old.id ∧ r.successor = next.id

/-- An operation has one successor at most. -/
theorem Succeeds.unique {old next next' : Operation} (hn : next ∈ t.operations)
    (hn' : next' ∈ t.operations) (h : Succeeds t old next) (h' : Succeeds t old next') :
    next = next' := by
  obtain ⟨r, hr, hro, hrs⟩ := h
  obtain ⟨r', hr', hro', hrs'⟩ := h'
  obtain rfl : r = r' := Table.eq_of_key hr hr' (hro.trans hro'.symm)
  exact Table.eq_of_key hn hn' (hrs.symm.trans hrs')

theorem Linked.succeeds (hl : Linked t) {old next : Operation} (ho : old ∈ t.operations)
    (hn : next ∈ t.operations) (h : Succeeds t old next) :
    old.id < next.id ∧ old.state = .cancelled := by
  obtain ⟨r, hr, hro, hrs⟩ := h
  obtain ⟨old', ho', next', hn', hlink⟩ := hl r hr
  obtain rfl : old = old' := Table.eq_of_key ho ho' (hro.symm.trans hlink.operation)
  obtain rfl : next = next' := Table.eq_of_key hn hn' (hrs.symm.trans hlink.successor)
  exact ⟨hlink.younger, hlink.cancelled⟩

/-- What a chain of successors looks like in tables where every resolution is a link. -/
theorem Linked.chain (hl : Linked t) {l : List Operation} (hm : ∀ o ∈ l, o ∈ t.operations)
    (hc : l.IsChain (Succeeds t)) :
    l.Pairwise (fun o o' => o.id < o'.id) ∧ ∀ o ∈ l.dropLast, o.state = .cancelled := by
  have hlt : l.IsChain fun o o' => o.id < o'.id := by
    induction hc with
    | nil => exact .nil
    | singleton => exact .singleton _
    | cons_cons h _ ih =>
      exact .cons_cons (hl.succeeds (hm _ (by simp)) (hm _ (by simp)) h).1
        (ih fun o ho => hm o (List.mem_cons_of_mem _ ho))
  refine ⟨List.isChain_iff_pairwise.1 hlt, ?_⟩
  clear hlt
  induction hc with
  | nil => simp
  | singleton => simp
  | cons_cons h _ ih =>
    intro o ho
    rw [List.dropLast_cons_cons, List.mem_cons] at ho
    rcases ho with rfl | ho
    · exact (hl.succeeds (hm _ (by simp)) (hm _ (by simp)) h).2
    · exact ih (fun o ho => hm o (List.mem_cons_of_mem _ ho)) o ho

/-! ## The lineage theorem -/

/-- What a decision that went through leaves behind: the conflict cancelled and otherwise as it
was, and its successor. -/
theorem Resolved.lineage (hl : Linked c.now) (h : Resolved account id d c.now n t) :
    ∃ old ∈ c.now.operations, old.id = id ∧ old.account = account ∧
      old.closed .cancelled ∈ t.operations ∧
      ∃ next ∈ t.operations, next.id = n ∧ Succession old next := by
  cases h with
  | replay found linked receipt successor same =>
    obtain ⟨hm, ha, hi⟩ := findOperation_some found
    obtain ⟨hr, hro⟩ := findResolution_some linked
    obtain ⟨old, hold, next, hnext, hlink⟩ := hl _ hr
    obtain rfl := Table.eq_of_key hm hold (hi.trans (hro.symm.trans hlink.operation))
    refine ⟨_, hm, hi, ha, ?_, next, hnext, hlink.successor.symm, hlink.toSuccession⟩
    rw [Operation.closed, ← hlink.cancelled]
    exact hm
  | fresh found unlinked usable added linked cancelled =>
    have hd := Resolved.decided ‹_› found usable added cancelled
    obtain ⟨hm, ha, hi⟩ := findOperation_some found
    exact ⟨_, hm, hi, ha, hd.cancelled, _, hd.inserted, rfl, hd.succession⟩

end Journal
