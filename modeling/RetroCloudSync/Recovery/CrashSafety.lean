import RetroCloudSync.Recovery.Complete

/-!
# Completion is crash safe

`Sound`: in the committed image the effect of `saveMirror` and its checkpoint are there together,
and an open transaction has not touched the operations. It survives every answer to a question
that `may` allows (`Sound.answer`), and a completion asks nothing else (`complete_careful`): it
commits only when both are in the image, accepts the local edit only when both are committed, and
acknowledges only after that was accepted. What a crash leaves is the committed image.
-/

set_option autoImplicit false

namespace Recovery

open Library Library.Tx Journal

variable {account id : Int} {c : Conn Tables} {t t' : Tables} {w w' : Site}

/-! ## The checkpoint -/

theorem mirrored_iff :
    mirrored id t = true ↔ ∃ r ∈ t.resolutions, r.successor = id ∧ r.mirrorCommitted = true := by
  simp [mirrored, Table.any_iff]

theorem mirrored_congr (h : t'.resolutions = t.resolutions) : mirrored id t' = mirrored id t := by
  unfold mirrored
  rw [h]

theorem acknowledged_congr (h : t'.operations = t.operations) :
    acknowledged id t' = acknowledged id t := by
  unfold acknowledged
  rw [h]

/-- The receipt of a successor carries the checkpoint. -/
theorem mirrored_receipt {r : Resolution} (h : findReceipt account id t = some r) :
    mirrored id t = r.mirrorCommitted := by
  obtain ⟨hr, hp⟩ := Table.find?_some h
  obtain ⟨o, -, ho⟩ := Table.any_iff.1 hp
  simp only [Bool.and_eq_true, decide_eq_true_iff] at ho
  have hs : r.successor = id := ho.1.1.symm.trans ho.2
  rw [Bool.eq_iff_iff, mirrored_iff]
  constructor
  · rintro ⟨x, hx, hxs, hm⟩
    obtain rfl : x = r := Table.eq_of_uniq hx hr (hxs.trans hs.symm)
    exact hm
  · exact fun hm => ⟨r, hr, hs, hm⟩

/-- Marking a resolution of `id` sets the checkpoint. -/
theorem mirrored_marked {r : Resolution} {rs : Table Resolution.operation Resolution.successor}
    (h : Table.Rewrote t.resolutions rs r r.mirrored) (hm : mirrorable account id t r = true) :
    mirrored id { t with resolutions := rs } = true := by
  obtain ⟨o, -, ho⟩ := Table.any_iff.1 hm
  simp only [Bool.and_eq_true, decide_eq_true_iff] at ho
  exact mirrored_iff.2 ⟨r.mirrored, h.mem_new, ho.1.1.1.symm.trans ho.1.2, rfl⟩

/-! ## Answers of the journal -/

/-- What a call that leaves the database alone answers. -/
theorem answer_reads {α : Type} {x : JournalM α} {P : α → Prop}
    (h : wp x (fun a c' => P a ∧ c' = c) (fun _ c' => c' = c) c) (faults : List (Option String)) :
    after x c faults = c ∧ ∀ a, answer x c faults = .ok a → P a := by
  refine ⟨after_spec (wp_mono h (fun _ _ hw => hw.2) fun _ _ hw => hw) faults, fun a ha => ?_⟩
  exact answer_spec (wp_mono h (fun _ _ hw => hw.1) fun _ _ _ => trivial) ha

theorem get_reads (faults : List (Option String)) :
    after (Journal.get account id) c faults = c ∧
      ∀ o, answer (Journal.get account id) c faults = .ok o → o.id = id :=
  answer_reads (wp_get (fun _ h => ⟨(findOperation_some h).2.2, rfl⟩) fun _ => rfl) faults

theorem receipt_reads (faults : List (Option String)) :
    after (resolutionReceipt account id) c faults = c ∧
      ∀ r, answer (resolutionReceipt account id) c faults = .ok r → r.2 = mirrored id c.now := by
  refine answer_reads ?_ faults
  refine wp_bind (wp_gate (wp_bind (wp_select ?_ fun _ => rfl)) fun _ => rfl)
  cases hf : findReceipt account id c.now with
  | none => exact wp_throw rfl
  | some r => exact wp_bind (wp_gate (wp_pure ⟨(mirrored_receipt hf).symm, rfl⟩) fun _ => rfl)

/-- `ResolutionMirrored` leaves the operations alone and, when it answers, set the checkpoint. -/
theorem mirrored_after (faults : List (Option String)) :
    (after (resolutionMirrored account id) c faults).undo = c.undo ∧
    (after (resolutionMirrored account id) c faults).now.operations = c.now.operations ∧
    (mirrored id c.now = true →
      mirrored id (after (resolutionMirrored account id) c faults).now = true) ∧
    (answer (resolutionMirrored account id) c faults = .ok () →
      mirrored id (after (resolutionMirrored account id) c faults).now = true) := by
  have h := @resolutionMirrored_spec account id c faults
  unfold after answer
  cases hx : resolutionMirrored account id ⟨c, faults⟩ with
  | error e s =>
    rw [hx] at h
    obtain rfl : s.conn = c := h
    exact ⟨rfl, rfl, fun h => h, fun h => by cases h⟩
  | ok u s =>
    rw [hx] at h
    obtain ⟨-, hu, r, rs, hm, hw, he⟩ := h
    have hset : mirrored id s.conn.now = true := he ▸ mirrored_marked hw hm
    exact ⟨hu, by rw [he], fun _ => hset, fun _ => hset⟩

/-- `Acknowledge` leaves the resolutions alone. -/
theorem acknowledge_after (faults : List (Option String)) :
    (after (Journal.acknowledge account id) c faults).undo = c.undo ∧
      (after (Journal.acknowledge account id) c faults).now.resolutions = c.now.resolutions := by
  refine after_spec (P := fun c' => c'.undo = c.undo ∧ c'.now.resolutions = c.now.resolutions)
    (wp_mono (wp_acknowledge (Q := fun _ c' => c'.undo = c.undo ∧
      c'.now.resolutions = c.now.resolutions) (E := fun _ c' => c' = c) ?_ ?_) ?_ ?_) faults
  · exact fun _ _ _ _ => ⟨rfl, rfl⟩
  · exact fun _ => rfl
  · exact fun _ _ h => h
  · rintro _ _ rfl
    exact ⟨rfl, rfl⟩

/-! ## What a completion may ask -/

/-- No transaction is open. -/
def Site.Closed (w : Site) : Prop := w.conn.undo = [] ∧ w.saves.undo = []

/-- The effect and the checkpoint are committed. -/
def Site.Saved (id : Int) (w : Site) : Prop := w.Closed ∧ mirrored id w.conn.now = true

/-- What a careful completion of `id` asks. -/
def may (id : Int) (w : Site) : Question → Prop
  | .autocommit | .rollback | .journal (.get _) | .journal (.resolutionReceipt _) => True
  | .journal (.resolutionMirrored n) => n = id ∧ w.conn.undo ≠ []
  | .journal (.acknowledge n) => n = id ∧ w.Saved id ∧ w.accepted = true
  | .journal _ => False
  | .begin => True
  | .commit => w.conn.undo ≠ [] ∧ Together id w.conn.now w.saves.now
  | .saveMirror o => o.id = id ∧ w.conn.undo ≠ []
  | .acceptLocal .. => w.Saved id

/-- The committed image is consistent; an open transaction has neither touched the operations nor
taken the checkpoint back. -/
structure Sound (id : Int) (w : Site) : Prop where
  together : Together id w.conn.rollback.now w.saves.rollback.now
  shape : w.Closed ∨ ∃ t l, w.conn.undo = [t] ∧ w.saves.undo = [l] ∧
    w.conn.now.operations = t.operations ∧
    (mirrored id t = true → mirrored id w.conn.now = true)

/-- What one answer may change in the committed image: the checkpoint stays, and an
acknowledgement comes after the accepted local edit. -/
structure Progress (id : Int) (w w' : Site) : Prop where
  mirrored : mirrored id w.conn.rollback.now = true → mirrored id w'.conn.rollback.now = true
  acknowledged : acknowledged id w'.conn.rollback.now = true →
    acknowledged id w.conn.rollback.now = true ∨ (w.Saved id ∧ w.accepted = true)

theorem Progress.of_eq (h : w'.conn.rollback.now = w.conn.rollback.now) : Progress id w w' :=
  ⟨fun hm => h ▸ hm, fun ha => .inl (h ▸ ha)⟩

theorem Site.Closed.durable (h : w.Closed) :
    w.conn.rollback.now = w.conn.now ∧ w.saves.rollback.now = w.saves.now := by
  simp [Conn.rollback, h.1, h.2]

/-- A transaction that is open holds the committed image. -/
theorem Sound.open (h : Sound id w) (hu : w.conn.undo ≠ []) :
    ∃ t l, w.conn.undo = [t] ∧ w.saves.undo = [l] ∧ w.conn.now.operations = t.operations ∧
      (mirrored id t = true → mirrored id w.conn.now = true) ∧ Together id t l := by
  rcases h.shape with hc | ⟨t, l, ht, hl, ho, hm⟩
  · exact absurd hc.1 hu
  · refine ⟨t, l, ht, hl, ho, hm, ?_⟩
    simpa [Conn.rollback, ht, hl] using h.together

theorem Sound.closed (h : Sound id w) (hu : w.conn.undo = []) : w.Closed := by
  rcases h.shape with hc | ⟨t, l, ht, -⟩
  · exact hc
  · simp [ht] at hu

/-- A statement inside the transaction that leaves the operations and the checkpoint. -/
theorem Sound.inside (h : Sound id w) (hu : w.conn.undo ≠ []) (hc : w'.conn.undo = w.conn.undo)
    (hs : w'.saves.undo = w.saves.undo)
    (ho : w'.conn.now.operations = w.conn.now.operations)
    (hm : mirrored id w.conn.now = true → mirrored id w'.conn.now = true) :
    Sound id w' ∧ Progress id w w' := by
  obtain ⟨t, l, ht, hl, hto, htm, htog⟩ := h.open hu
  have hu' : w'.conn.undo = [t] := hc.trans ht
  have hl' : w'.saves.undo = [l] := hs.trans hl
  refine ⟨⟨?_, .inr ⟨t, l, hu', hl', ho.trans hto, fun hx => hm (htm hx)⟩⟩, .of_eq ?_⟩
  · simpa [Conn.rollback, hu', hl'] using htog
  · simp [Conn.rollback, ht, hu']

theorem Sound.rollback (h : Sound id w) : Sound id w.rollback ∧ Progress id w w.rollback :=
  ⟨⟨h.together, .inl ⟨rfl, rfl⟩⟩, .of_eq rfl⟩

/-- The effect and the checkpoint become durable together. -/
theorem Sound.commit (h : Sound id w) (hu : w.conn.undo ≠ [])
    (ht : Together id w.conn.now w.saves.now) : Sound id w.commit ∧ Progress id w w.commit := by
  obtain ⟨t, l, hut, -, hto, htm, -⟩ := h.open hu
  have hdur : w.conn.rollback.now = t := by simp [Conn.rollback, hut]
  refine ⟨⟨ht, .inl ⟨rfl, rfl⟩⟩, fun hm => htm (hdur ▸ hm), fun ha => .inl ?_⟩
  rw [hdur, ← acknowledged_congr hto]
  exact ha

theorem Sound.begin (h : Sound id w) (hu : w.conn.undo = []) :
    Sound id w.push ∧ Progress id w w.push := by
  obtain ⟨hc, hs⟩ := h.closed hu
  obtain ⟨hd, hd'⟩ := (h.closed hu).durable
  have htog := h.together
  rw [hd, hd'] at htog
  refine ⟨⟨?_, .inr ⟨w.conn.now, w.saves.now, ?_, ?_, rfl, fun hm => hm⟩⟩, .of_eq ?_⟩
  · simpa [Conn.rollback, Site.push, hc, hs] using htog
  · simp [Site.push, hc]
  · simp [Site.push, hs]
  · simp [Conn.rollback, Site.push, hc]

/-- **One answer.** Whatever a careful completion asks, the committed image stays consistent. -/
theorem Sound.answer {q : Question} {a : q.Answer} (h : Sound id w) (hm : may id w q)
    (ha : answers account w q a w') : Sound id w' ∧ Progress id w w' := by
  have rest : Sound id w ∧ Progress id w w := ⟨h, .of_eq rfl⟩
  cases q with
  | autocommit =>
    obtain ⟨-, rfl⟩ := ha
    exact rest
  | begin =>
    cases a with
    | error m =>
      obtain rfl : w' = w := ha
      exact rest
    | ok u =>
      obtain ⟨hu, rfl⟩ := ha
      exact h.begin hu
  | commit =>
    cases a with
    | ok u =>
      obtain rfl : w' = w.commit := ha
      exact h.commit hm.1 hm.2
    | error m =>
      obtain rfl | rfl : w' = w ∨ w' = w.rollback := ha
      · exact rest
      · exact h.rollback
  | rollback =>
    obtain rfl | rfl : w' = w ∨ w' = w.rollback := ha
    · exact rest
    · exact h.rollback
  | saveMirror o =>
    obtain ⟨bs, rfl | ⟨-, rfl⟩⟩ := ha
    · exact h.inside hm.2 rfl rfl rfl fun hx => hx
    · exact h.inside hm.2 rfl rfl rfl fun hx => hx
  | acceptLocal o receipt =>
    cases a with
    | ok u =>
      obtain rfl : w' = { w with accepted := true } := ha
      exact ⟨⟨h.together, h.shape⟩, .of_eq rfl⟩
    | error e =>
      obtain rfl : w' = w := ha
      exact rest
  | journal q =>
    obtain ⟨faults, -, rfl⟩ := ha
    cases q with
    | get n =>
      rw [show after (Call.run account (.get n)) w.conn faults = w.conn from
        (get_reads faults).1]
      exact rest
    | resolutionReceipt n =>
      rw [show after (Call.run account (.resolutionReceipt n)) w.conn faults = w.conn from
        (receipt_reads faults).1]
      exact rest
    | resolutionMirrored n =>
      obtain ⟨rfl, hu⟩ := hm
      obtain ⟨hundo, hops, hkeep, -⟩ := @mirrored_after account n w.conn faults
      exact h.inside hu hundo rfl hops hkeep
    | acknowledge n =>
      obtain ⟨rfl, ⟨hclosed, hsaved⟩, hacc⟩ := hm
      obtain ⟨hundo, hres⟩ := @acknowledge_after account n w.conn faults
      have hclosed' : Site.Closed
          { w with conn := after (Call.run account (.acknowledge n)) w.conn faults } :=
        ⟨hundo.trans hclosed.1, hclosed.2⟩
      obtain ⟨hd, hd'⟩ := hclosed.durable
      obtain ⟨he, he'⟩ := hclosed'.durable
      have hmir := @mirrored_congr n _ _ hres
      have htog := h.together
      refine ⟨⟨?_, .inl hclosed'⟩, fun _ => ?_, fun _ => .inr ⟨⟨hclosed, hsaved⟩, hacc⟩⟩
      · rw [he, he']
        rw [hd, hd'] at htog
        unfold Together at htog ⊢
        rwa [show mirrored n (after (Call.run account (.acknowledge n)) w.conn faults).now =
          mirrored n w.conn.now from hmir]
      · rw [he]
        exact hmir.trans hsaved
    | _ => exact hm.elim

/-! ## A completion is careful -/

/-- `x` asks only what it may, and returns in `post`. -/
def Careful {α : Type} (account id : Int) (x : CompleteM α) (post : α → Site → Prop) (w : Site) :
    Prop :=
  Prog.wp (answers account) (may id) x post (fun _ _ => True) w

section
variable {α β : Type}

theorem Careful.bind {x : CompleteM β} {f : β → CompleteM α} {mid : β → Site → Prop}
    {post : α → Site → Prop} (hx : Careful account id x mid w)
    (hf : ∀ b w, mid b w → Careful account id (f b) post w) :
    Careful account id (x >>= f) post w :=
  Prog.wp_bind (Prog.wp_mono hx (fun b w hb => hf b w hb) fun _ _ h => h)

theorem Careful.raise {e : RCError} {post : α → Site → Prop} :
    Careful account id (.raise e) post w := trivial

theorem careful_orRaise {r : Except RCError α} {post : α → Site → Prop}
    (h : ∀ a, r = .ok a → post a w) : Careful account id (orRaise r) post w := by
  cases r with
  | ok a => exact h a rfl
  | error e => exact trivial

end

theorem careful_get :
    Careful account id (call (.get id)) (fun (o : Operation) w' => o.id = id ∧ w' = w) w := by
  refine Prog.wp_ask trivial fun a w' ⟨faults, ha, hw⟩ => careful_orRaise fun o ho => ?_
  obtain ⟨hread, hid⟩ := @get_reads account id w.conn faults
  refine ⟨hid o (ha.symm.trans ho), ?_⟩
  rw [hw]
  exact congrArg (fun c => ({ w with conn := c } : Site)) hread

theorem careful_receipt :
    Careful account id (call (.resolutionReceipt id))
      (fun (r : Bytes × Bool) w' => r.2 = mirrored id w.conn.now ∧ w' = w) w := by
  refine Prog.wp_ask trivial fun a w' ⟨faults, ha, hw⟩ => careful_orRaise fun r hr => ?_
  obtain ⟨hread, hid⟩ := @receipt_reads account id w.conn faults
  refine ⟨hid r (ha.symm.trans hr), ?_⟩
  rw [hw]
  exact congrArg (fun c => ({ w with conn := c } : Site)) hread

/-- The effect and the checkpoint, both in the open transaction. -/
theorem careful_checkpoint {o : Operation} (ho : o.id = id) (hu : w.conn.undo ≠ [])
    (hnone : w.saves.now.count id = 0) :
    Careful account id (checkpoint id o)
      (fun _ w' => w'.conn.undo ≠ [] ∧ w'.saves.now.count id = 1 ∧
        mirrored id w'.conn.now = true) w := by
  refine Prog.wp_rescue (Prog.wp_bind (Prog.wp_ask ⟨ho, hu⟩ fun a w' ha => ?_))
  cases a with
  | error e => exact Prog.wp_ask trivial fun _ _ _ => trivial
  | ok u =>
    obtain ⟨bs, rfl | ⟨hne, -⟩⟩ := ha
    · refine Prog.wp_ask ⟨rfl, hu⟩ fun a w' ⟨faults, ha, hw⟩ => ?_
      cases a with
      | error e => exact Prog.wp_ask trivial fun _ _ _ => trivial
      | ok u =>
        obtain ⟨hundo, -, -, hset⟩ := @mirrored_after account id { w.conn with now.bases := bs } faults
        subst hw
        refine ⟨fun he => hu (hundo.symm.trans he), ?_, hset ha.symm⟩
        show (o.id :: w.saves.now).count id = 1
        rw [ho, List.count_cons_self, hnone]
    · exact absurd rfl hne

theorem careful_commit (hu : w.conn.undo ≠ []) (hone : w.saves.now.count id = 1)
    (hm : mirrored id w.conn.now = true) :
    Careful account id commit (fun _ w' => w'.Saved id) w := by
  refine Prog.wp_ask ⟨hu, by simp [Together, hone, hm]⟩ fun a w' ha => ?_
  cases a with
  | ok u =>
    obtain rfl : w' = w.commit := ha
    exact ⟨⟨rfl, rfl⟩, hm⟩
  | error m => exact Prog.wp_ask trivial fun _ _ _ => trivial

theorem careful_saveMirror {o : Operation} (ho : o.id = id) (hw : Sound id w) (hc : w.Closed) :
    Careful account id (saveMirror id o (mirrored id w.conn.now)) (fun _ w' => w'.Saved id) w := by
  unfold saveMirror
  split
  · rename_i hm
    exact ⟨hc, hm⟩
  · rename_i hm
    have hnone : w.saves.now.count id = 0 := by
      have htog := hw.together
      obtain ⟨hd, hd'⟩ := hc.durable
      simpa [Together, hd, hd', hm] using htog
    refine Prog.wp_bind (Prog.wp_ask trivial fun a w' ha => ?_)
    cases a with
    | error m => exact trivial
    | ok u =>
      obtain ⟨-, rfl⟩ := ha
      have hopen : w.push.conn.undo ≠ [] := by simp [Site.push]
      exact (careful_checkpoint ho hopen hnone).bind fun _ w' ⟨hu, hone, hm⟩ =>
        careful_commit hu hone hm

theorem careful_settle {o : Operation} {receipt : Bytes} {m : Bool} (ho : o.id = id)
    (hr : m = mirrored id w.conn.now) (hw : Sound id w) (hc : w.Closed) :
    Careful account id (settle id o receipt m) (fun _ _ => True) w := by
  subst hr
  unfold settle
  split
  · trivial
  · split
    · exact Careful.raise
    · refine (careful_saveMirror ho hw hc).bind fun _ w' hsaved => ?_
      refine Prog.wp_bind (Prog.wp_ask hsaved fun a w'' ha => ?_)
      cases a with
      | error e => exact trivial
      | ok u =>
        obtain rfl : w'' = { w' with accepted := true } := ha
        refine Prog.wp_ask ⟨rfl, hsaved, rfl⟩ fun a _ _ => ?_
        exact careful_orRaise fun _ _ => trivial

/-- **A completion asks nothing it may not ask.** -/
theorem complete_careful (callbacks : Bool) (hw : Sound id w) :
    Careful account id (complete callbacks id) (fun _ _ => True) w := by
  have hask : Careful account id (Prog.ask Question.autocommit .ret)
      (fun alone w' => alone = w.conn.autocommit ∧ w' = w) w := ⟨trivial, fun _ _ ha => ha⟩
  refine Careful.bind hask fun alone w' ha => ?_
  obtain ⟨rfl, rfl⟩ := ha
  split
  · exact Careful.raise
  · rename_i halone
    obtain ⟨hauto, -⟩ : w'.conn.autocommit = true ∧ callbacks = true := by simpa using halone
    have hc : w'.Closed := hw.closed (Conn.autocommit_iff.1 hauto)
    refine careful_get.bind fun o w hget => ?_
    obtain ⟨ho, rfl⟩ := hget
    refine careful_receipt.bind fun r w' hr => ?_
    obtain ⟨hr, rfl⟩ := hr
    exact careful_settle ho hr hw hc

/-! ## Runs -/

/-- The database is consistent and what is left of the running call is careful. -/
def Safe (account id : Int) (w : World) : Prop :=
  Sound id w.site ∧ ∀ x, w.running = some x → Careful account id x (fun _ _ => True) w.site

theorem Start.safe {w : World} (h : Start id w) : Safe account id w := by
  obtain ⟨hd, hd'⟩ := Site.Closed.durable h.committed
  refine ⟨⟨?_, .inl h.committed⟩, fun x hx => by rw [h.idle] at hx; cases hx⟩
  rw [hd, hd']
  exact h.together

/-- **One step.** -/
theorem Safe.step {w w' : World} (h : Safe account id w) (hs : Step account id w w') :
    Safe account id w' ∧ Progress id w.site w'.site := by
  obtain ⟨hw, hrun⟩ := h
  cases hs with
  | start callbacks _ =>
    have hw' : Sound id { w.site with accepted := false } := ⟨hw.together, hw.shape⟩
    refine ⟨⟨hw', fun x hx => ?_⟩, .of_eq rfl⟩
    cases hx
    exact complete_careful callbacks hw'
  | turn running turn =>
    have hx := hrun _ running
    have hy := Prog.wp_turn hx turn
    cases turn with
    | answer ha =>
      obtain ⟨hw', hp⟩ := hw.answer hx.1 ha
      refine ⟨⟨hw', fun y hy' => ?_⟩, hp⟩
      cases hy'
      exact hy
  | returned => exact ⟨⟨hw, fun x hx => by cases hx⟩, .of_eq rfl⟩
  | failed => exact ⟨⟨hw, fun x hx => by cases hx⟩, .of_eq rfl⟩
  | crash =>
    obtain ⟨hw', hp⟩ := hw.rollback
    exact ⟨⟨hw', fun x hx => by cases hx⟩, hp⟩

theorem safe_reached {w : World} {past : List World}
    (h : Run (Start id) (Step account id) (w :: past)) : Safe account id w :=
  Run.invariant (fun _ hs => hs.safe) (fun _ _ hs hst => (hs.step hst).1) h

/-- **Conflict completion is crash safe.** In every state of every run of completions, crashes and
restarts the effect of `saveMirror` is committed exactly when `mirror_committed` is, and then once;
the local edit is only offered for acceptance when both are committed. A step never takes the
checkpoint back, and the operation becomes acknowledged only when the checkpoint was durable and
`acceptLocal` had returned success in that call. -/
theorem completion_crash_safe {w : World} {past : List World}
    (h : Run (Start id) (Step account id) (w :: past)) :
    Together id w.durable w.durableSaves ∧
    (∀ o receipt k, w.running = some (.ask (.acceptLocal o receipt) k) →
      w.site.Closed ∧ mirrored id w.durable = true ∧ w.durableSaves.count id = 1) ∧
    ∀ w', Step account id w w' →
      (mirrored id w.durable = true → mirrored id w'.durable = true) ∧
      (acknowledged id w'.durable = true → acknowledged id w.durable = true ∨
        (mirrored id w.durable = true ∧ w.site.accepted = true)) := by
  have hsafe := safe_reached h
  refine ⟨hsafe.1.together, fun o receipt k hr => ?_, fun w' hs => ?_⟩
  · obtain ⟨hclosed, hm⟩ : w.site.Saved id := (hsafe.2 _ hr).1
    obtain ⟨hd, -⟩ := hclosed.durable
    have hdur : mirrored id w.durable = true := (congrArg (mirrored id) hd).trans hm
    refine ⟨hclosed, hdur, ?_⟩
    have htog : Together id w.durable w.durableSaves := hsafe.1.together
    simpa [Together, hdur] using htog
  · obtain ⟨-, hp⟩ := hsafe.step hs
    refine ⟨hp.mirrored, fun ha => (hp.acknowledged ha).imp_right fun ⟨⟨hclosed, hm⟩, hacc⟩ => ?_⟩
    obtain ⟨hd, -⟩ := hclosed.durable
    exact ⟨(congrArg (mirrored id) hd).trans hm, hacc⟩

/-- A conflict decided for the local text, and the successor verified on the server. -/
def verified : Conn Tables :=
  perform 7 (waitingCalls ++ [.beginAttempt 1 0,
    .recordResult 1 (some (ascii "conflict")) 200 (some (ascii "\"v2\"")) (.data (ascii "theirs")),
    .resolveConflict 1 (some (ascii "update")) (.data (ascii "new")) (.data (ascii "r1")),
    .beginAttempt 2 10,
    .recordResult 2 (some (ascii "applied")) 200 (some (ascii "\"v3\"")) (.data (ascii "new"))])
    ⟨Tables.empty, []⟩

def verifiedRow : Operation where
  id := 2
  account := 7
  changeID := ascii "resolution:1"
  resourceKey := ascii "k"
  href := ascii "https://dav/k"
  kind := .update
  state := .applied
  localRevision := 1
  baseETag := some (ascii "\"v2\"")
  baseBody := some (ascii "theirs")
  desiredBody := some (ascii "new")
  attempts := 1
  retryAt := 15
  httpStatus := some 200
  resultETag := some (ascii "\"v3\"")
  resultBody := some (ascii "new")

def verifiedWorld : World := ⟨⟨verified, ⟨[], []⟩, false⟩, none⟩

theorem verified_start : Start 2 verifiedWorld where
  committed := by
    have hundo : verified.undo.length = 0 := by decide +kernel
    exact ⟨List.length_eq_zero_iff.1 hundo, rfl⟩
  idle := rfl
  together := by
    have hm : mirrored 2 verified.now = false := by decide +kernel
    show [].count (2 : Int) = if mirrored 2 verified.now then 1 else 0
    rw [hm]
    rfl

theorem answer_verifiedRow :
    answer (Call.run 7 (.get 2)) verified [] = (.ok verifiedRow : Except RCError Operation) := by
  have h : findOperation 7 2 verified.now = some verifiedRow := by decide +kernel
  have hg : Tx.runs (Journal.get 7 2) verified verifiedRow verified := runs_get h
  show answer (Journal.get 7 2) verified [] = _
  unfold answer
  rw [hg]

theorem answer_verifiedReceipt :
    answer (Call.run 7 (.resolutionReceipt 2)) verified [] =
      (.ok (ascii "r1", false) : Except RCError (Bytes × Bool)) := by
  have h : findReceipt 7 2 verified.now = some ⟨1, 2, ascii "r1", false⟩ := by decide +kernel
  have hg : Tx.runs (resolutionReceipt 7 2) verified (ascii "r1", false) verified := by
    refine Tx.runs_bind Tx.runs_gate (Tx.runs_bind (Tx.runs_select _) ?_)
    rw [h]
    exact Tx.runs_bind Tx.runs_gate (Tx.runs_pure _)
  show answer (resolutionReceipt 7 2) verified [] = _
  unfold answer
  rw [hg]

/-- A turn of the completion that is running. -/
theorem run_turn {w : World} {past : List World} {q : Question} {k : q.Answer → CompleteM Unit}
    (h : Run (Start id) (Step account id) (w :: past)) (hr : w.running = some (.ask q k))
    (a : q.Answer) (s : Site) (ha : answers account w.site q a s) :
    Run (Start id) (Step account id) (⟨s, some (k a)⟩ :: w :: past) :=
  h.next (.turn hr (.answer ha))

/-- The database with the mirror and its bases as `saveMirror` left them. -/
def written : Conn Tables := { verified.push with now.bases := verified.now.bases }

theorem answer_checkpoint :
    answer (Call.run 7 (.resolutionMirrored 2)) written [] = (.ok () : Except RCError Unit) := by
  have h : (match answer (Call.run 7 (.resolutionMirrored 2)) written [] with
    | .ok _ => true
    | .error _ => false) = true := by decide +kernel
  cases ha : answer (Call.run 7 (.resolutionMirrored 2)) written [] with
  | ok _ => rfl
  | error _ => rw [ha] at h; cases h

/-- The first attempt dies after `saveMirror` wrote; the second one gets to `acceptLocal`. -/
theorem completion_crash_safe_restarted :
    ∃ w past, Run (Start 2) (Step 7 2) (w :: past) ∧
      (∃ k, w.running = some (.ask (.acceptLocal verifiedRow (ascii "r1")) k)) ∧
      w.durableSaves.count 2 = 1 := by
  have h1 := Run.next (.start verified_start) (@Step.start 7 2 verifiedWorld true rfl)
  have hauto : verified.autocommit = true := by decide +kernel
  have h2 := run_turn (q := .autocommit) h1 rfl true _ ⟨hauto.symm, rfl⟩
  have h3 := run_turn (q := .journal (.get 2)) h2 rfl (.ok verifiedRow) _
    ⟨[], answer_verifiedRow.symm, rfl⟩
  have h4 := run_turn (q := .journal (.resolutionReceipt 2)) h3 rfl (.ok (ascii "r1", false)) _
    ⟨[], answer_verifiedReceipt.symm, rfl⟩
  have h5 := run_turn (q := .begin) h4 rfl (.ok ()) _ ⟨verified_start.committed.1, rfl⟩
  have h6 := run_turn (q := .saveMirror verifiedRow) h5 rfl (.ok ()) _
    ⟨verified.now.bases, .inl rfl⟩
  have h7 := h6.next (.crash _)
  have h8 := h7.next (.start true rfl)
  have h9 := run_turn (q := .autocommit) h8 rfl true _ ⟨rfl, rfl⟩
  have h10 := run_turn (q := .journal (.get 2)) h9 rfl (.ok verifiedRow) _
    ⟨[], answer_verifiedRow.symm, rfl⟩
  have h11 := run_turn (q := .journal (.resolutionReceipt 2)) h10 rfl (.ok (ascii "r1", false)) _
    ⟨[], answer_verifiedReceipt.symm, rfl⟩
  have h12 := run_turn (q := .begin) h11 rfl (.ok ()) _ ⟨rfl, rfl⟩
  have h13 := run_turn (q := .saveMirror verifiedRow) h12 rfl (.ok ()) _
    ⟨verified.now.bases, .inl rfl⟩
  have h14 := run_turn (q := .journal (.resolutionMirrored 2)) h13 rfl (.ok ()) _
    ⟨[], answer_checkpoint.symm, rfl⟩
  have h15 := run_turn (q := .commit) h14 rfl (.ok ()) _ rfl
  exact ⟨_, _, h15, ⟨_, rfl⟩, ((completion_crash_safe h15).2.1 _ _ _ rfl).2.2⟩

end Recovery