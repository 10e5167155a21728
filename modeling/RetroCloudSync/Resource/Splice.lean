import RetroCloudSync.Resource.Scan

/-!
# The splice writes the reference

The patches, sorted, are the buckets of the marks one after the other (`sort_eq_lay`), so the
splice passes mark after mark: `Ready` says what it has written when it stands before a mark.

* `splice_reference`: what a successful splice writes are the lines of the reference.
-/

set_option autoImplicit false

namespace Resource

open Library Library.Text Journal

variable {base d : Bytes} {edits : List Edit} {ms before after : List Mark} {m : Mark} {e : Edit}
  {p : Patch} {ps qs : List Patch} {s s' : Nat × Bytes} {o : Nat}

/-! ## Sorting -/

/-- Patches in the order of their offsets. -/
def Ordered (ps : List Patch) : Prop := ps.Pairwise fun p q => p.start ≤ q.start

theorem mem_insertPatch {q : Patch} : q ∈ insertPatch p ps ↔ q = p ∨ q ∈ ps := by
  induction ps with
  | nil => simp [insertPatch]
  | cons x ps ih =>
    unfold insertPatch
    split_ifs
    · simp
    · simp only [List.mem_cons, ih]
      exact or_left_comm

theorem Ordered.insert (h : Ordered ps) : Ordered (insertPatch p ps) := by
  induction ps with
  | nil => simp [Ordered, insertPatch]
  | cons q ps ih =>
    obtain ⟨hq, hps⟩ := List.pairwise_cons.1 h
    unfold insertPatch
    split_ifs with hlt
    · refine List.pairwise_cons.2 ⟨?_, h⟩
      intro x hx
      obtain rfl | hx := List.mem_cons.1 hx
      · omega
      · have hle := hq x hx
        omega
    · refine List.pairwise_cons.2 ⟨?_, ih hps⟩
      intro x hx
      obtain rfl | hx := mem_insertPatch.1 hx
      · omega
      · exact hq x hx

theorem bucket_insert (h : Ordered ps) (k : Nat) :
    bucket Patch.start k (insertPatch p ps) =
      bucket Patch.start k ps ++ if p.start = k then [p] else [] := by
  induction ps with
  | nil => exact bucket_cons k p []
  | cons q ps ih =>
    obtain ⟨hq, hps⟩ := List.pairwise_cons.1 h
    unfold insertPatch
    split_ifs with hlt hk hk
    · have hnone : bucket Patch.start k (q :: ps) = [] := by
        refine bucket_eq_nil.2 fun x hx => ?_
        obtain rfl | hx := List.mem_cons.1 hx
        · omega
        · have hle := hq x hx
          omega
      rw [bucket_cons, if_pos hk, hnone, List.nil_append]
    · rw [bucket_cons, if_neg hk, List.append_nil]
    · rw [bucket_cons, bucket_cons, ih hps, if_pos hk]
      split_ifs <;> rfl
    · rw [bucket_cons, bucket_cons, ih hps, if_neg hk]
      simp only [List.append_nil]

/-- **The insertion sort is a stable sort.** -/
theorem sortPatches_spec (ps : List Patch) : Ordered (sortPatches ps) ∧
    ∀ k, bucket Patch.start k (sortPatches ps) = bucket Patch.start k ps := by
  have hfold : ∀ (ps sorted : List Patch), Ordered sorted →
      Ordered (ps.foldl (fun sorted p => insertPatch p sorted) sorted) ∧
      ∀ k, bucket Patch.start k (ps.foldl (fun sorted p => insertPatch p sorted) sorted) =
        bucket Patch.start k sorted ++ bucket Patch.start k ps := by
    intro ps
    induction ps with
    | nil =>
      intro sorted h
      exact ⟨h, fun k => by simp [bucket]⟩
    | cons p ps ih =>
      intro sorted h
      obtain ⟨ho, hb⟩ := ih _ (h.insert (p := p))
      refine ⟨ho, fun k => ?_⟩
      rw [List.foldl_cons, hb, bucket_insert h, bucket_cons, List.append_assoc]
      split_ifs <;> rfl
  obtain ⟨ho, hb⟩ := hfold ps [] List.Pairwise.nil
  exact ⟨ho, fun k => by rw [sortPatches, hb]; rfl⟩

/-! ## The patches laid along the marks -/

/-- The patches of one mark after the other. -/
def lay (ps : List Patch) : List Mark → List Mark → List Patch
  | _, [] => []
  | before, m :: ms => bucket Patch.start (offset before) ps ++ lay ps (before ++ [m]) ms

theorem mem_lay (h : p ∈ lay ps before after) : offset before ≤ p.start := by
  induction after generalizing before with
  | nil => cases h
  | cons m after ih =>
    obtain h | h := List.mem_append.1 h
    · have hp := (mem_bucket.1 h).2
      omega
    · have hle := ih h
      rw [offset_snoc] at hle
      omega

theorem lay_ordered : Ordered (lay ps before after) := by
  induction after generalizing before with
  | nil => exact List.Pairwise.nil
  | cons m after ih =>
    refine List.pairwise_append.2 ⟨?_, ih, ?_⟩
    · refine List.pairwise_iff_forall_sublist.2 fun {p q} h => ?_
      have hp := (mem_bucket.1 (h.subset List.mem_cons_self)).2
      have hq := (mem_bucket.1 (h.subset (List.mem_cons_of_mem _ List.mem_cons_self))).2
      omega
    · intro p hp q hq
      have h1 := (mem_bucket.1 hp).2
      have h2 := mem_lay hq
      rw [offset_snoc] at h2
      omega

theorem bucket_lay {k : Nat} (hne : ∀ m ∈ after, m.line.raw ≠ [])
    (hk : ∀ p ∈ ps, p.start = k → ∃ b m a, after = b ++ m :: a ∧ k = offset (before ++ b)) :
    bucket Patch.start k (lay ps before after) = bucket Patch.start k ps := by
  induction after generalizing before with
  | nil =>
    have hnone : bucket Patch.start k ps = [] := by
      refine bucket_eq_nil.2 fun p hp he => ?_
      obtain ⟨b, m, a, h, -⟩ := hk p hp he
      simp at h
    rw [hnone]
    rfl
  | cons m after ih =>
    have hpos : 0 < m.line.raw.length := List.length_pos_iff.2 (hne m List.mem_cons_self)
    rw [lay, bucket_append]
    by_cases ho : offset before = k
    · have hrest : bucket Patch.start k (lay ps (before ++ [m]) after) = [] := by
        refine bucket_eq_nil.2 fun p hp he => ?_
        have hle := mem_lay hp
        rw [offset_snoc] at hle
        omega
      rw [hrest, List.append_nil, ho]
      simp [bucket]
    · have hfirst : bucket Patch.start k (bucket Patch.start (offset before) ps) = [] := by
        refine bucket_eq_nil.2 fun p hp he => ?_
        have hp := (mem_bucket.1 hp).2
        omega
      rw [hfirst, List.nil_append]
      refine ih (fun x hx => hne x (List.mem_cons_of_mem _ hx)) fun p hp he => ?_
      obtain ⟨b, x, a, hb, hoff⟩ := hk p hp he
      cases b with
      | nil => exact absurd (by simpa using hoff.symm) ho
      | cons y b =>
        obtain ⟨rfl, hafter⟩ := List.cons.inj hb
        exact ⟨b, x, a, hafter, by simpa using hoff⟩

theorem patchAt_iff (hne : ∀ m ∈ ms, m.line.raw ≠ []) (hn : (closedNumbers ms).Nodup)
    {b a : List Mark} (h : ms = b ++ m :: a) (hp : Placed ms e p) :
    (p.start = offset b ↔ e.aims b m = true) ∧ (e.aims b m = true → PatchAt b m e p) := by
  obtain ⟨b', m', a', h', hat⟩ := hp
  have haims : e.aims b m = true → PatchAt b m e p := by
    intro ha
    obtain ⟨rfl, rfl, -⟩ := aims_unique hn h h' ha hat.aims
    exact hat
  refine ⟨⟨fun hs => ?_, fun ha => (haims ha).start⟩, haims⟩
  have hoff : offset b' = offset b := hat.start.symm.trans hs
  obtain ⟨rfl, rfl, -⟩ := @place_unique _ (fun xs _ => offset xs = offset b) ms
    (by
      intro b₁ m₁ x m₂ a₁ hms h1 h2
      have hpos := List.length_pos_iff.2 (hne m₁ (by simp [hms]))
      rw [offset_append] at h2
      simp only [offset, List.map_cons, join_cons, List.length_append] at h1 h2
      omega)
    b' a' b a m' m h' h hoff rfl
  exact hat.aims

theorem bucket_aims (hne : ∀ m ∈ ms, m.line.raw ≠ []) (hn : (closedNumbers ms).Nodup)
    {R : Edit → Patch → Prop} (hR : ∀ e p, R e p → Placed ms e p) {b a : List Mark}
    (h : ms = b ++ m :: a) (hps : List.Forall₂ R edits ps) :
    List.Forall₂ R (edits.filter fun e => e.aims b m) (bucket Patch.start (offset b) ps) := by
  induction hps with
  | nil => exact .nil
  | @cons e p es ps hep _ ih =>
    have hiff := (patchAt_iff hne hn h (hR e p hep)).1
    rw [List.filter_cons, bucket_cons]
    by_cases ha : e.aims b m = true
    · rw [if_pos ha, if_pos (hiff.2 ha)]
      exact .cons hep ih
    · rw [if_neg ha, if_neg fun hs => ha (hiff.1 hs)]
      exact ih

/-- **The sorted patches lie along the marks.** -/
theorem sort_eq_lay (hne : ∀ m ∈ ms, m.line.raw ≠ []) (hps : ∀ p ∈ ps, ∃ e, Placed ms e p) :
    sortPatches ps = lay ps [] ms := by
  obtain ⟨ho, hb⟩ := sortPatches_spec ps
  refine eq_of_buckets ho lay_ordered fun k => ?_
  rw [hb, bucket_lay hne]
  intro p hp hk
  obtain ⟨e, b, m, a, hms, hat⟩ := hps p hp
  exact ⟨b, m, a, hms, hk.symm.trans hat.start⟩

/-! ## The splice -/

/-- Before offset `o` of the base, the splice stands for the text `d`. -/
structure Ready (base : Bytes) (o : Nat) (s : Nat × Bytes) (d : Bytes) : Prop where
  le : s.1 ≤ o
  text : s.2 ++ (base.take o).drop s.1 = d

theorem Ready.skip {pre raw post : Bytes} (h : Ready base pre.length s d)
    (hbase : base = pre ++ raw ++ post) :
    Ready base (pre.length + raw.length) s (d ++ raw) := by
  refine ⟨Nat.le_add_right_of_le h.le, ?_⟩
  have hpre : base.take pre.length = pre := by
    rw [hbase, List.append_assoc, List.take_left]
  have hraw : base.take (pre.length + raw.length) = pre ++ raw := by
    rw [hbase, ← List.length_append, List.take_left]
  rw [← h.text, hpre, hraw, List.drop_append_of_le_length h.le, List.append_assoc]

theorem Ready.step (h : Ready base o s d) (hs : p.start = o)
    (hstep : spliceStep base s p = .ok s') : Ready base p.stop s' (d ++ p.replacement) := by
  unfold spliceStep at hstep
  split_ifs at hstep with hlt
  cases hadd : addAll s.2 [(base.take p.start).drop s.1, p.replacement] with
  | none => simp [hadd] at hstep
  | some out =>
    simp only [hadd] at hstep
    obtain rfl := Except.ok.inj hstep
    refine ⟨le_rfl, ?_⟩
    rw [addAll_eq hadd, hs, ← h.text]
    simp

theorem Ready.appends {b : List Mark} {es : List Edit} (hspan : m.role.span m.line.raw.length = 0)
    (hps : List.Forall₂ (PatchAt b m) es ps) : ∀ {s : Nat × Bytes} {d : Bytes},
    Ready base (offset b) s d → ps.foldlM (spliceStep base) s = .ok s' →
    Ready base (offset b) s' (d ++ join (es.flatMap fun e => e.lines m.role)) := by
  induction hps with
  | nil =>
    intro s d h hfold
    obtain rfl := Except.ok.inj hfold
    simpa [join] using h
  | @cons e p es ps hep _ ih =>
    intro s d h hfold
    obtain ⟨s₁, h₁, hfold⟩ := bind_ok.1 hfold
    have hready := h.step hep.start h₁
    rw [hep.stop, hspan, Nat.add_zero] at hready
    have hrest := ih hready hfold
    rwa [hep.replacement, List.append_assoc, ← join_append] at hrest

/-- **Past one mark** the splice writes what the reference puts there. -/
theorem Ready.mark {b a : List Mark} (hms : ms = b ++ m :: a) (hne : m.line.raw ≠ [])
    (hbase : base = join (ms.map Mark.line)) (h : Ready base (offset b) s d)
    (hps : List.Forall₂ (PatchAt b m) (edits.filter fun e => e.aims b m) ps)
    (hfold : ps.foldlM (spliceStep base) s = .ok s') :
    Ready base (offset (b ++ [m])) s' (d ++ join (rewrite edits b m)) ∧
      (m.role.closed = none → (edits.filter fun e => e.aims b m).length ≤ 1) := by
  have hskip : ∀ {s d}, Ready base (offset b) s d →
      Ready base (offset b + m.line.raw.length) s (d ++ m.line.raw) := by
    intro s d h
    have hparts : base = join (b.map Mark.line) ++ m.line.raw ++ join (a.map Mark.line) := by
      rw [hbase, hms, List.map_append, List.map_cons, join_append, join_cons, List.append_assoc]
    exact h.skip hparts
  have hmiss : (∀ e : Edit, e.hits m.role = false) → (edits.filter fun e => e.aims b m) = [] := by
    intro hnone
    refine List.filter_eq_nil_iff.2 fun e _ => ?_
    simp [Edit.aims, hnone e]
  have hkeep : (edits.filter fun e => e.aims b m) = [] →
      Ready base (offset b + m.line.raw.length) s' (d ++ join (rewrite edits b m)) := by
    intro hnone
    rw [hnone, List.forall₂_nil_left_iff] at hps
    rw [hps] at hfold
    obtain rfl := Except.ok.inj hfold
    have hrewrite : rewrite edits b m = [m.line] := by
      unfold rewrite
      rw [hnone]
      cases m.role <;> rfl
    rw [hrewrite]
    simpa [join] using hskip h
  rw [offset_snoc]
  cases hrole : m.role with
  | blank =>
    have hnone := hmiss fun e => by rw [hrole]; rfl
    exact ⟨hkeep hnone, fun _ => by simp [hnone]⟩
  | opens =>
    have hnone := hmiss fun e => by rw [hrole]; rfl
    exact ⟨hkeep hnone, fun _ => by simp [hnone]⟩
  | closes number kind =>
    refine ⟨?_, fun hc => by cases hc⟩
    have hready := hskip (h.appends (by rw [hrole]; rfl) hps hfold)
    have hrewrite : rewrite edits b m =
        ((edits.filter fun e => e.aims b m).flatMap fun e => e.lines m.role) ++ [m.line] := by
      unfold rewrite
      rw [hrole]
    rw [hrewrite, join_append, ← List.append_assoc]
    simpa [join] using hready
  | property number kind p =>
    have hspan : m.role.span m.line.raw.length = m.line.raw.length := by rw [hrole]; rfl
    cases haimed : edits.filter fun e => e.aims b m with
    | nil => exact ⟨hkeep haimed, fun _ => by simp⟩
    | cons e es =>
      rw [haimed] at hps
      obtain ⟨q, qs, hq, hqs, rfl⟩ := List.forall₂_cons_left_iff.1 hps
      obtain ⟨s₁, h₁, hfold⟩ := bind_ok.1 hfold
      have hready := h.step hq.start h₁
      cases hqs with
      | nil =>
        obtain rfl := Except.ok.inj hfold
        rw [hq.stop, hspan, hq.replacement] at hready
        have hrewrite : rewrite edits b m = e.lines m.role := by
          unfold rewrite
          rw [haimed, hrole]
        rw [hrewrite]
        exact ⟨hready, fun _ => by simp⟩
      | cons hq' _ =>
        -- a second edit of the line starts before the first one stops
        obtain ⟨s₂, h₂, -⟩ := bind_ok.1 hfold
        exfalso
        have hcursor : s₁.1 = q.stop := by
          unfold spliceStep at h₁
          split_ifs at h₁
          cases hadd : addAll s.2 [(base.take q.start).drop s.1, q.replacement] with
          | none => simp [hadd] at h₁
          | some out =>
            simp only [hadd] at h₁
            rw [← Except.ok.inj h₁]
        have hpos := List.length_pos_iff.2 hne
        unfold spliceStep at h₂
        rw [if_pos (by rw [hcursor, hq.stop, hspan, hq'.start]; omega)] at h₂
        cases h₂

/-- **Past all marks.** -/
theorem Ready.run (hbase : base = join (ms.map Mark.line)) (hne : ∀ m ∈ ms, m.line.raw ≠ [])
    (hb : ∀ b m a, ms = b ++ m :: a →
      List.Forall₂ (PatchAt b m) (edits.filter fun e => e.aims b m)
        (bucket Patch.start (offset b) ps)) :
    ∀ {after before : List Mark} {s : Nat × Bytes} {d : Bytes}, ms = before ++ after →
      Ready base (offset before) s d →
      (lay ps before after).foldlM (spliceStep base) s = .ok s' →
      Ready base (offset ms) s' (d ++ join (reference edits before after)) ∧
        ∀ b m a, after = b ++ m :: a → m.role.closed = none →
          (edits.filter fun e => e.aims (before ++ b) m).length ≤ 1
  | [], before, s, d, hms, h, hfold => by
    obtain rfl := Except.ok.inj hfold
    rw [List.append_nil] at hms
    exact ⟨by simpa [hms, reference, join] using h, fun b m a hx => by simp at hx⟩
  | m :: after, before, s, d, hms, h, hfold => by
    rw [lay, List.foldlM_append] at hfold
    obtain ⟨s₁, h₁, hfold⟩ := bind_ok.1 hfold
    obtain ⟨hready, hsingle⟩ := h.mark hms (hne m (by simp [hms])) hbase (hb before m after hms) h₁
    obtain ⟨hrun, hrest⟩ := Ready.run hbase hne hb (by simpa using hms) hready hfold
    rw [reference, join_append, ← List.append_assoc]
    refine ⟨hrun, fun b x a hx hc => ?_⟩
    cases b with
    | nil =>
      obtain ⟨rfl, -⟩ := List.cons.inj hx
      simpa using hsingle hc
    | cons y b =>
      obtain ⟨rfl, hafter⟩ := List.cons.inj hx
      simpa using hrest b x a hafter hc

/-- **The splice writes the lines of the reference**, and no line is replaced twice. -/
theorem splice_reference {out : Bytes} (hbase : base = join (ms.map Mark.line))
    (hne : ∀ m ∈ ms, m.line.raw ≠ []) (hn : (closedNumbers ms).Nodup)
    (hps : List.Forall₂ (Placed ms) edits ps) (h : splice base (sortPatches ps) = .ok out) :
    out = join (reference edits [] ms) ∧
      ∀ b m a, ms = b ++ m :: a → m.role.closed = none →
        (edits.filter fun e => e.aims b m).length ≤ 1 := by
  rw [sort_eq_lay hne (forall₂_mem hps)] at h
  obtain ⟨s, hs, h⟩ := bind_ok.1 h
  have hb : ∀ b m a, ms = b ++ m :: a → List.Forall₂ (PatchAt b m)
      (edits.filter fun e => e.aims b m) (bucket Patch.start (offset b) ps) := by
    intro b m a hms
    have hforall := bucket_aims hne hn (fun _ _ h => h) hms hps
    refine List.forall₂_iff_get.2 ⟨hforall.length_eq, fun i h1 h2 => ?_⟩
    have hplaced := (List.forall₂_iff_get.1 hforall).2 i h1 h2
    have haims := (List.mem_filter.1 (List.get_mem _ ⟨i, h1⟩)).2
    exact (patchAt_iff hne hn hms hplaced).2 haims
  have hstart : Ready base (offset []) (0, []) [] := ⟨Nat.zero_le _, by simp [offset, join]⟩
  obtain ⟨hready, hsingle⟩ := Ready.run hbase hne hb (List.nil_append ms).symm hstart hs
  refine ⟨?_, hsingle⟩
  cases hadd : add s.2 (base.drop s.1) with
  | none => simp [hadd] at h
  | some out' =>
    simp only [hadd] at h
    obtain rfl := Except.ok.inj h
    have hlen : base.take (offset ms) = base := by rw [hbase, offset, List.take_length]
    have htext := hready.text
    rw [hlen, List.nil_append] at htext
    rw [add_eq hadd, htext]

end Resource
