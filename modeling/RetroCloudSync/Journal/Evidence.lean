import RetroCloudSync.Journal.Reach

/-!
# The evidence behind an applied write

An operation counts as applied only on what the server answered for its kind
(`Operation.Evidence`), after an attempt was committed as `uncertain`; a successor is acknowledged
only once its mirror was committed; and a closed operation is never reopened.

Two inductions carry this. `Evident` speaks of one image and is kept by every move.
`Attempted` speaks of an image and the past of the run: `BeginAttempt` and `RecordResult` only
run in autocommit, so the state before a result is recorded is one the run has committed.
-/

set_option autoImplicit false

namespace Journal

open Library Library.Tx

/-- What the server answered to a write that took effect. -/
def Operation.Evidence (o : Operation) : Prop :=
  match o.kind with
  | .delete => o.httpStatus = some 404
  | .create | .update =>
    o.httpStatus = some 200 ∧ etagIsStrong o.resultETag = true ∧
      ∃ b, o.resultBody = some b ∧ b ≠ []

/-- `applied` or `acknowledged`. -/
def Operation.Done (o : Operation) : Prop := o.state = .applied ∨ o.state = .acknowledged

/-- An outcome that is recorded as applied is evidence for the operation it fits. -/
theorem Outcome.evidence {account id : Int} {r : Outcome} {o : Operation}
    (hf : r.fits account id o = true) (ha : r.state = .applied) : (r.record o).Evidence := by
  simp only [Outcome.fits, Bool.and_eq_true, Bool.or_eq_true, decide_eq_true_iff] at hf
  rcases hf.2 with (hn | ⟨hk, hs⟩) | ⟨hk, hs⟩
  · exact absurd ha hn
  · show match o.kind with | .delete => _ | .create | .update => _
    rw [hk]
    exact congrArg some hs
  · obtain ⟨he, hb, hb'⟩ := r.evident ha (by omega)
    obtain ⟨b, hb⟩ := Option.ne_none_iff_exists'.1 hb
    have hev : some r.status = some 200 ∧ etagIsStrong r.etag = true ∧
        ∃ b, r.body = some b ∧ b ≠ [] :=
      ⟨congrArg some hs, he, b, hb, fun h => hb' (h ▸ hb)⟩
    show match o.kind with | .delete => _ | .create | .update => _
    cases hkind : o.kind with
    | delete => exact absurd hkind hk
    | create => exact hev
    | update => exact hev

/-! ## One image -/

/-- Applied operations have their evidence; acknowledged successors have their mirror. -/
structure Evident (t : Tables) : Prop where
  evidence : ∀ o ∈ t.operations, o.Done → o.Evidence
  mirror : ∀ o ∈ t.operations, o.state = .acknowledged → ∀ r ∈ t.resolutions,
    r.successor = o.id → r.mirrorCommitted = true

theorem Evident.empty : Evident Tables.empty where
  evidence _ ho := absurd ho (Table.not_mem_empty _)
  mirror _ ho := absurd ho (Table.not_mem_empty _)

/-- Evidence survives a turn, and a result recorded as applied brings it. -/
theorem Turn.evidence {account : Int} {c : Conn Tables} {o x : Operation}
    (h : Turn account c o x) (ho : o.Done → o.Evidence) (hx : x.Done) : x.Evidence := by
  cases h with
  | attempted => rcases hx with hx | hx <;> cases hx
  | recorded _ fits =>
    rename_i r _
    rcases hx with hx | hx
    · exact Outcome.evidence fits hx
    · obtain hp | hp | hp := r.proper <;> cases hp.symm.trans hx
  | acknowledged ready => exact ho ready.2.2.1
  | cancelled => rcases hx with hx | hx <;> cases hx

theorem Evident.move {account : Int} {c : Conn Tables} {t : Tables}
    (hc : Everywhere Evident c) (h : Move account c t) : Evident t := by
  have hnow := hc.now
  refine ⟨fun x hx hd => ?_, fun x hx hack r hr hs => ?_⟩
  · rcases h.origin hx with hx | ⟨hq, -⟩ | ⟨o, ho, ht⟩
    · exact hnow.evidence x hx hd
    · rcases hd with hd | hd <;> cases hq.symm.trans hd
    · exact ht.evidence (hnow.evidence o ho) hd
  · -- the resolution is an old one: a new one has a queued successor
    rcases h.origin hx with hx | ⟨hq, -⟩ | ⟨o, ho, ht⟩
    · rcases h.resolution_origin hr with hr | ⟨r₀, -, rfl⟩ | ⟨d, old, hn⟩
      · exact hnow.mirror x hx hack r hr hs
      · rfl
      · exact absurd (hs.symm.trans hn.successor) (Int.ne_of_lt (lt_newRowid hx))
    · cases hq.symm.trans hack
    · rcases h.resolution_origin hr with hr | ⟨r₀, -, rfl⟩ | ⟨d, old, hn⟩
      · cases ht with
        | attempted => cases hack
        | recorded =>
          rename_i r' _ _
          obtain hp | hp | hp := r'.proper <;> cases hp.symm.trans hack
        | acknowledged ready =>
          have hf := Table.any_false.1 ready.2.2.2 r hr
          simpa [hs.trans ready.2.1] using hf
        | cancelled => cases hack
      · rfl
      · exact absurd (ht.id_eq.symm.trans (hs.symm.trans hn.successor))
          (Int.ne_of_lt (lt_newRowid ho))

/-! ## The past of a run -/

/-- The run went through a committed state in which `o` was `uncertain`. -/
def Attempted (past : List (Conn Tables)) (o : Operation) : Prop :=
  ∃ c₀ ∈ past, c₀.undo = [] ∧ ∃ o₀ ∈ c₀.now.operations, o₀.intent = o.intent ∧
    o₀.state = .uncertain

theorem Attempted.cons {past : List (Conn Tables)} {o : Operation} (c : Conn Tables)
    (h : Attempted past o) : Attempted (c :: past) o := by
  obtain ⟨c₀, hc₀, h⟩ := h
  exact ⟨c₀, List.mem_cons_of_mem _ hc₀, h⟩

theorem Attempted.of_intent {past : List (Conn Tables)} {o x : Operation}
    (h : Attempted past o) (hi : x.intent = o.intent) : Attempted past x := by
  obtain ⟨c₀, hc₀, hu, o₀, ho₀, he, hs⟩ := h
  exact ⟨c₀, hc₀, hu, o₀, ho₀, he.trans hi.symm, hs⟩

/-- A turn that ends applied or acknowledged follows an attempt. -/
theorem Turn.attempted_of_done {account : Int} {c : Conn Tables} {past : List (Conn Tables)}
    {o x : Operation} (ho : o ∈ c.now.operations) (h : Turn account c o x)
    (hd : o.Done → Attempted past o) (hx : x.Done) : Attempted (c :: past) x := by
  cases h with
  | attempted => rcases hx with hx | hx <;> cases hx
  | recorded alone fits =>
    simp only [Outcome.fits, Bool.and_eq_true, decide_eq_true_iff] at fits
    exact ⟨c, List.mem_cons_self, alone, o, ho, rfl, fits.1.2⟩
  | acknowledged ready => exact ((hd ready.2.2.1).cons c).of_intent rfl
  | cancelled => rcases hx with hx | hx <;> cases hx

theorem attempted_of_done {c : Conn Tables} {past : List (Conn Tables)} (h : Reached c past) :
    Everywhere (fun t => ∀ o ∈ t.operations, o.Done → Attempted past o) c := by
  refine Run.history (P := fun c past =>
    Everywhere (fun t => ∀ o ∈ t.operations, o.Done → Attempted past o) c) ?_ ?_ h
  · rintro _ rfl t ht o ho
    rw [show t = Tables.empty by simpa [Conn.images] using ht] at ho
    exact absurd ho (Table.not_mem_empty _)
  · intro c c' past hc hs
    have hold : ∀ t ∈ c.images, ∀ o ∈ t.operations, o.Done → Attempted (c :: past) o :=
      fun t ht o ho hd => (hc t ht o ho hd).cons c
    rcases step_cases hs with ⟨account, hu, hm⟩ | hi
    · intro t ht x hx hd
      rcases Conn.mem_images.1 ht with rfl | ht
      · rcases hm.origin hx with hx | ⟨hq, -⟩ | ⟨o, ho, hturn⟩
        · exact hold _ c.now_mem_images x hx hd
        · rcases hd with hd | hd <;> cases hq.symm.trans hd
        · exact hturn.attempted_of_done ho (hc _ c.now_mem_images o ho) hd
      · exact hold t (Conn.mem_images.2 (.inr (hu ▸ ht))) x hx hd
    · exact fun t ht => hold t (hi t ht)

/-! ## The invariant -/

/-- **Evidence invariant.** In every reachable journal an applied or acknowledged operation was
attempted in a committed state and carries the server's answer for its kind, an acknowledged
successor has its mirror committed, and no call touches a closed operation. -/
theorem evidence_invariant {c : Conn Tables} {past : List (Conn Tables)} (h : Reached c past) :
    (∀ o ∈ c.now.operations, o.Done → Attempted past o ∧ o.Evidence) ∧
    (∀ o ∈ c.now.operations, o.state = .acknowledged → ∀ r ∈ c.now.resolutions,
      r.successor = o.id → r.mirrorCommitted = true) ∧
    (∀ (account : Int) (q : Call) (faults : List (Option String)), ∀ o ∈ c.now.operations,
      o.state = .acknowledged ∨ o.state = .cancelled →
        o ∈ (after (q.run account) c faults).now.operations) := by
  have hev : Evident c.now := (h.images Evident.empty fun _ _ _ => Evident.move).now
  refine ⟨fun o ho hd => ⟨(attempted_of_done h).now o ho hd, hev.evidence o ho hd⟩, hev.mirror, ?_⟩
  intro account q faults o ho hs
  obtain ⟨o', ho', -, he⟩ := (call_cases account q c faults).2.operation ho
  have hu : o.unresolved = false := by
    rcases hs with hs | hs <;> simp [Operation.unresolved, OpState.unresolved, hs]
  exact he hu ▸ ho'

/-- An edit of a published event, from its base to the acknowledged upload. -/
def uploadedCalls : List Call :=
  [.setBase (some (ascii "k")) (some (ascii "https://dav/k")) (some (ascii "\"v1\""))
      (.data (ascii "old")) 1,
    .enqueue (some (ascii "c1")) (some (ascii "k")) (some (ascii "https://dav/k"))
      (some (ascii "update")) 1 (.data (ascii "new")),
    .beginAttempt 1 0,
    .recordResult 1 (some (ascii "applied")) 200 (some (ascii "\"v2\"")) (.data (ascii "new")),
    .acknowledge 1]

theorem evidence_invariant_uploaded :
    ∃ past, (perform 7 uploadedCalls ⟨Tables.empty, []⟩).now.operations.rows.map Operation.state =
        [.acknowledged] ∧
      ∀ o ∈ (perform 7 uploadedCalls ⟨Tables.empty, []⟩).now.operations,
        Attempted past o ∧ o.Evidence := by
  obtain ⟨past, h⟩ := reached_empty.perform 7 uploadedCalls
  have hstates : (perform 7 uploadedCalls ⟨Tables.empty, []⟩).now.operations.rows.map
      Operation.state = [.acknowledged] := by decide +kernel
  refine ⟨past, hstates, fun o ho => (evidence_invariant h).1 o ho (.inr ?_)⟩
  have hm : o.state ∈ [OpState.acknowledged] := hstates ▸ List.mem_map_of_mem ho
  exact List.mem_singleton.1 hm

end Journal
