import RetroCloudSync.Resource.Splice

/-!
# What a patch does to the lines

`patch_lines`: the output is the lines of the reference, joined. Read back, it is these lines
unless two of them run together, and that happens in one way only (`Severs`): lines are removed
that stood between a line ending in a bare CR and a line starting with an LF.

* `patch_reordered`: the order of edits counts only among the appends to one component.
* `patch_reference`: a patch meets its reference semantics exactly when it does not sever a CR from
  an LF.
-/

set_option autoImplicit false

namespace Resource

open Library Library.Text Journal

/-- The lines of a resource in their component structure. -/
def structured (format : Format) (lines : List Line) : List Mark :=
  match marks format ⟨[], 0, false⟩ lines with
  | some (ms, _) => ms
  | none => []

def marked (format : Format) (base : Bytes) : List Mark := structured format (split base)

/-- The same edits in another order, with the appends to each component as they were. -/
structure Reordered (edits edits' : List Edit) : Prop where
  perm : edits.Perm edits'
  appends : ∀ n, (edits.filter fun e => e.appends n) = edits'.filter fun e => e.appends n

/-! ## Lines that run together -/

/-- No edit aims at the line. -/
def Untouched (edits : List Edit) (before : List Mark) (m : Mark) : Prop :=
  ∀ e ∈ edits, e.aims before m = false

/-- An edit removes the line. -/
def Removed (edits : List Edit) (before : List Mark) (m : Mark) : Prop :=
  m.role.closed = none ∧ ∃ e ∈ edits, e.aims before m = true ∧ e.value = none

/-- After removed lines an untouched line follows that starts with an LF. -/
def Bares (edits : List Edit) (before ms : List Mark) : Prop :=
  ∃ x m a, ms = x ++ m :: a ∧ (∀ c y d, x = c ++ y :: d → Removed edits (before ++ c) y) ∧
    Untouched edits (before ++ x) m ∧ startsLF m.line.raw = true

/-- Removed lines are all that stands between a line that stays and ends in a bare CR, and an
untouched line that starts with an LF. -/
def Severs (edits : List Edit) (before ms : List Mark) : Prop :=
  ∃ b m a, ms = b ++ m :: a ∧ (m.role.closed.isSome ∨ Untouched edits (before ++ b) m) ∧
    endsCR m.line.raw = true ∧ Bares edits (before ++ b ++ [m]) a

variable {parsers : Parsers} {format : Format} {base out : Bytes} {edits edits' : List Edit}
  {ms before : List Mark} {m : Mark} {ps : List Patch}

/-- At most one edit aims at a line that closes no component. -/
def Single (edits : List Edit) (before ms : List Mark) : Prop :=
  ∀ b m a, ms = b ++ m :: a → m.role.closed = none →
    (edits.filter fun e => e.aims (before ++ b) m).length ≤ 1

/-- What edits write can stand anywhere. -/
def Written (edits : List Edit) (before ms : List Mark) : Prop :=
  ∀ b m a, ms = b ++ m :: a → ∀ e ∈ edits, e.aims (before ++ b) m = true →
    ∀ l ∈ e.lines m.role, Fresh l

theorem Single.tail (h : Single edits before (m :: ms)) : Single edits (before ++ [m]) ms := by
  intro b x a hx
  have h' := h (m :: b) x a (by rw [hx]; rfl)
  simpa using h'

theorem Written.tail (h : Written edits before (m :: ms)) : Written edits (before ++ [m]) ms := by
  intro b x a hx
  have h' := h (m :: b) x a (by rw [hx]; rfl)
  simpa using h'

/-- **What becomes of a line**: it stays behind what is appended, it is replaced, or it is
removed. -/
theorem rewrite_fate (before : List Mark) (m : Mark) (hs : m.role.closed = none →
      (edits.filter fun e => e.aims before m).length ≤ 1) :
    (∃ news, rewrite edits before m = news ++ [m.line] ∧
      (m.role.closed.isSome ∨ Untouched edits before m) ∧
      (news = [] ↔ Untouched edits before m) ∧
      ∀ l ∈ news, ∃ e ∈ edits, e.aims before m = true ∧ l ∈ e.lines m.role) ∨
    (∃ l, rewrite edits before m = [l] ∧ ¬ Untouched edits before m ∧ m.role.closed = none ∧
      ¬ Removed edits before m ∧ ∃ e ∈ edits, e.aims before m = true ∧ l ∈ e.lines m.role) ∨
    (rewrite edits before m = [] ∧ Removed edits before m ∧ ¬ Untouched edits before m) := by
  have hun : Untouched edits before m ↔ (edits.filter fun e => e.aims before m) = [] := by
    simp [Untouched, List.filter_eq_nil_iff]
  have hmem : ∀ e, e ∈ (edits.filter fun e => e.aims before m) ↔
      e ∈ edits ∧ e.aims before m = true := fun e => List.mem_filter
  have hstay : (edits.filter fun e => e.aims before m) = [] →
      rewrite edits before m = [m.line] := by
    intro hnone
    unfold rewrite
    rw [hnone]
    cases m.role <;> rfl
  cases hrole : m.role with
  | blank | opens =>
    have hnone : (edits.filter fun e => e.aims before m) = [] := by
      refine List.filter_eq_nil_iff.2 fun e _ => ?_
      simp [Edit.aims, hrole, Edit.hits]
    have hu := hun.2 hnone
    exact Or.inl ⟨[], hstay hnone, Or.inr hu, by simp [hu], by simp⟩
  | closes number kind =>
    have hrewrite : rewrite edits before m =
        ((edits.filter fun e => e.aims before m).flatMap fun e => e.lines m.role) ++ [m.line] := by
      unfold rewrite
      rw [hrole]
    refine Or.inl ⟨_, hrewrite, Or.inl rfl, ?_, ?_⟩
    · rw [hun, hrole]
      cases edits.filter fun e => e.aims before m with
      | nil => simp
      | cons e es => simp [Edit.lines]
    · intro l hl
      obtain ⟨e, he, hl⟩ := List.mem_flatMap.1 hl
      obtain ⟨he, ha⟩ := (hmem e).1 he
      exact ⟨e, he, ha, by rwa [← hrole]⟩
  | property number kind p =>
    have hclosed : m.role.closed = none := by rw [hrole]; rfl
    have hlen := hs hclosed
    cases haimed : edits.filter fun e => e.aims before m with
    | nil =>
      have hu := hun.2 haimed
      exact Or.inl ⟨[], hstay haimed, Or.inr hu, by simp [hu], by simp⟩
    | cons e es =>
      obtain rfl : es = [] := by
        rw [haimed, List.length_cons] at hlen
        exact List.length_eq_zero_iff.1 (by omega)
      have hnot : ¬ Untouched edits before m := by simp [hun, haimed]
      have hrewrite : rewrite edits before m = e.lines m.role := by
        unfold rewrite
        rw [haimed, hrole]
      obtain ⟨he, ha⟩ := (hmem e).1 (by simp [haimed])
      cases hv : e.value with
      | none =>
        refine Or.inr (Or.inr ⟨?_, ⟨hclosed, e, he, ha, hv⟩, hnot⟩)
        simp [hrewrite, hrole, Edit.lines, hv]
      | some v =>
        have hlines : e.lines m.role = [e.line (e.replaceHead p)] := by
          rw [hrole, Edit.lines, if_pos (by simp [hv])]
        refine Or.inr (Or.inl ⟨_, hrewrite.trans hlines, hnot, rfl, ?_, e, he, ha, ?_⟩)
        · rintro ⟨-, e', he', ha', hv'⟩
          have hmem' := (hmem e').2 ⟨he', ha'⟩
          rw [haimed, List.mem_singleton] at hmem'
          rw [hmem', hv] at hv'
          cases hv'
        · rw [← hrole, hlines]
          exact List.mem_singleton_self _

theorem Removed.touched (h : Removed edits before m) : ¬ Untouched edits before m := by
  obtain ⟨-, e, he, ha, -⟩ := h
  intro hu
  rw [hu e he] at ha
  cases ha

theorem bares_cons : Bares edits before (m :: ms) ↔
    (Untouched edits before m ∧ startsLF m.line.raw = true) ∨
      (Removed edits before m ∧ Bares edits (before ++ [m]) ms) := by
  constructor
  · rintro ⟨x, m', a, hms, hr, hu, hlf⟩
    cases x with
    | nil =>
      obtain ⟨rfl, -⟩ := List.cons.inj hms
      exact Or.inl ⟨by simpa using hu, hlf⟩
    | cons y x =>
      obtain ⟨rfl, hafter⟩ := List.cons.inj hms
      refine Or.inr ⟨by simpa using hr [] m x rfl, x, m', a, hafter, ?_, by simpa using hu, hlf⟩
      intro c y d hx
      have hy := hr (m :: c) y d (by rw [hx]; rfl)
      simpa using hy
  · rintro (⟨hu, hlf⟩ | ⟨hm, x, m', a, rfl, hr, hu, hlf⟩)
    · exact ⟨[], m, ms, rfl, by simp, by simpa using hu, hlf⟩
    · refine ⟨m :: x, m', a, rfl, ?_, by simpa using hu, hlf⟩
      intro c y d hx
      cases c with
      | nil =>
        obtain ⟨rfl, -⟩ := List.cons.inj hx
        simpa using hm
      | cons z c =>
        obtain ⟨rfl, hrest⟩ := List.cons.inj hx
        simpa using hr c y d hrest

theorem severs_cons : Severs edits before (m :: ms) ↔
    ((m.role.closed.isSome ∨ Untouched edits before m) ∧ endsCR m.line.raw = true ∧
      Bares edits (before ++ [m]) ms) ∨ Severs edits (before ++ [m]) ms := by
  constructor
  · rintro ⟨b, x, a, hms, hstay, hcr, hb⟩
    cases b with
    | nil =>
      obtain ⟨rfl, rfl⟩ := List.cons.inj hms
      exact Or.inl ⟨by simpa using hstay, hcr, by simpa using hb⟩
    | cons y b =>
      obtain ⟨rfl, hafter⟩ := List.cons.inj hms
      exact Or.inr ⟨b, x, a, hafter, by simpa using hstay, hcr, by simpa using hb⟩
  · rintro (⟨hstay, hcr, hb⟩ | ⟨b, x, a, rfl, hstay, hcr, hb⟩)
    · exact ⟨[], m, ms, rfl, by simpa using hstay, hcr, by simpa using hb⟩
    · exact ⟨m :: b, x, a, rfl, by simpa using hstay, hcr, by simpa using hb⟩

/-- **When the reference starts with an LF.** -/
theorem reference_head (hs : Single edits before ms) (hw : Written edits before ms) :
    (∃ l ∈ (reference edits before ms).head?, startsLF l.raw = true) ↔ Bares edits before ms := by
  induction ms generalizing before with
  | nil =>
    constructor
    · rintro ⟨l, hl, -⟩
      cases hl
    · rintro ⟨x, m, a, hx, -⟩
      simp at hx
  | cons m ms ih =>
    have ih := ih hs.tail hw.tail
    have hw' : ∀ e ∈ edits, e.aims before m = true → ∀ l ∈ e.lines m.role, Fresh l := by
      intro e he ha
      exact hw [] m ms rfl e he (by simpa using ha)
    rw [reference, bares_cons, ← ih]
    obtain ⟨news, heq, hstay, hnews, hin⟩ | ⟨l, heq, hu, -, hr, e, he, ha, hl⟩ | ⟨heq, hr, hu⟩ :=
      rewrite_fate before m (by simpa using hs [] m ms rfl)
    · have hr : ¬ Removed edits before m := by
        intro hr
        obtain hc | hu := hstay
        · rw [hr.1] at hc
          cases hc
        · exact hr.touched hu
      rw [heq]
      cases news with
      | nil => simp [hnews.1 rfl, hr]
      | cons l news =>
        have hu : ¬ Untouched edits before m := fun hu => by cases hnews.2 hu
        obtain ⟨e, he, ha, hl⟩ := hin l List.mem_cons_self
        have hfresh := hw' e he ha l hl
        simp [hfresh.starts.2, hu, hr]
    · have hfresh := hw' e he ha l hl
      rw [heq]
      simp [hfresh.starts.2, hu, hr]
    · rw [heq]
      simp [hr, hu]

theorem chain_and {α : Type} {R S : α → α → Prop} {l : List α} (hr : l.IsChain R)
    (hs : l.IsChain S) : l.IsChain fun x y => R x y ∧ S x y := by
  induction hr with
  | nil => exact .nil
  | singleton x => exact .singleton x
  | cons_cons hxy _ ih =>
    obtain ⟨hxy', hs⟩ := List.isChain_cons_cons.1 hs
    exact .cons_cons ⟨hxy, hxy'⟩ (ih hs)

theorem chain_fresh {as bs : List Line} (has : ∀ l ∈ as, Fresh l) :
    (as ++ bs).IsChain (fun l m => ¬ Clash l.raw m.raw) ↔
      bs.IsChain fun l m => ¬ Clash l.raw m.raw := by
  induction as with
  | nil => rfl
  | cons l as ih =>
    have hl := (has l List.mem_cons_self).ends.2
    rw [List.cons_append, List.isChain_cons, ih fun x hx => has x (List.mem_cons_of_mem _ hx)]
    simp [Clash, hl]

/-- **Lines of the reference run together exactly where a CR and an LF are severed** from what
stood between them. -/
theorem reference_severs (hs : Single edits before ms) (hw : Written edits before ms) :
    (reference edits before ms).IsChain (fun l m => ¬ Clash l.raw m.raw) ↔
      ¬ Severs edits before ms := by
  induction ms generalizing before with
  | nil =>
    simp only [reference, List.IsChain.nil, true_iff]
    rintro ⟨b, m, a, hx, -⟩
    simp at hx
  | cons m ms ih =>
    have ih := ih hs.tail hw.tail
    have hhead := reference_head hs.tail hw.tail
    have hw' : ∀ e ∈ edits, e.aims before m = true → ∀ l ∈ e.lines m.role, Fresh l := by
      intro e he ha
      exact hw [] m ms rfl e he (by simpa using ha)
    rw [reference, severs_cons, not_or, ← ih]
    obtain ⟨news, heq, hstay, -, hin⟩ | ⟨l, heq, hu, hc, -, e, he, ha, hl⟩ | ⟨heq, hr, hu⟩ :=
      rewrite_fate before m (by simpa using hs [] m ms rfl)
    · have hnews : ∀ l ∈ news, Fresh l := by
        intro l hl
        obtain ⟨e, he, ha, hl⟩ := hin l hl
        exact hw' e he ha l hl
      rw [heq, List.append_assoc, chain_fresh hnews, List.singleton_append, List.isChain_cons]
      refine and_congr_left fun _ => ?_
      rw [← hhead]
      simp only [Clash]
      constructor
      · rintro h ⟨-, hcr, l, hl, hlf⟩
        exact h l hl ⟨hcr, hlf⟩
      · rintro h l hl ⟨hcr, hlf⟩
        exact h ⟨hstay, hcr, l, hl, hlf⟩
    · rw [heq, chain_fresh (by simpa using hw' e he ha l hl)]
      simp [hc, hu]
    · rw [heq, List.nil_append]
      simp [hr.1, hu]

/-! ## The output -/

/-- The facts about the base and the edits that the results share. -/
structure Sound (format : Format) (edits : List Edit) (ms : List Mark) (base : Bytes) : Prop where
  base : base = join (ms.map Mark.line)
  one : ∀ m ∈ ms, m.line.One
  fresh : ∀ m ∈ ms, startsBlank m.line.raw = false
  chain : (ms.map Mark.line).IsChain fun l m => Meets l.raw m.raw
  nodup : (closedNumbers ms).Nodup
  written : Written edits [] ms

theorem Success.sound (h : Success parsers format base edits ms ps out) :
    Sound format edits ms base := by
  obtain ⟨g, hms, -, -⟩ := h.structured
  have hlines := marks_lines hms
  have hmem : ∀ m ∈ ms, m.line ∈ split base := by
    intro m hm
    rw [← hlines]
    exact List.mem_map_of_mem hm
  have hn : (closedNumbers ms).Nodup := (closed_nodup ⟨by simp, by simp⟩ hms).1
  refine ⟨by rw [hlines, split_join], fun m hm => split_one _ (hmem m hm),
    fun m hm => startsBlank_of_mem (marks_fresh rfl hms) _ (hmem m hm), ?_, hn, ?_⟩
  · rw [hlines]
    exact (split_chain base).imp fun l m hlm => hlm.1
  · intro b m a hx e he ha
    have hm : m ∈ ms := by simp [hx]
    obtain ⟨f₁, f₂, hc⟩ := marks_classified hms m hm
    obtain ⟨p, b', m', a', hx', hat⟩ := forall₂_left h.placed e he
    obtain ⟨rfl, rfl, -⟩ := aims_unique hn hx hx' (by simpa using ha) hat.aims
    have hhit : e.hits m.role = true := by
      have haims := hat.aims
      simp only [Edit.aims, Bool.and_eq_true] at haims
      exact haims.1
    exact lines_fresh (h.proper _ he) hc (text_unbroken _ (hmem m hm)) hhit hat.lands

/-- **The output is the lines of the reference**, joined. -/
theorem Success.output (h : Success parsers format base edits ms ps out) :
    out = join (reference edits [] ms) ∧ Single edits [] ms := by
  have hsound := h.sound
  exact splice_reference hsound.base (fun m hm => (hsound.one m hm).ne_nil) hsound.nodup h.placed
    h.spliced

theorem Success.marked (h : Success parsers format base edits ms ps out) :
    marked format base = ms := by
  obtain ⟨g, hms, -, -⟩ := h.structured
  rw [Resource.marked, Resource.structured, hms]

/-- **Read back**, the output is the reference unless a CR and an LF are severed. -/
theorem Success.read (h : Success parsers format base edits ms ps out) :
    split out = reference edits [] ms ↔ ¬ Severs edits [] ms := by
  have hsound := h.sound
  obtain ⟨hout, hsingle⟩ := h.output
  have hwritten : ∀ b m a, [] ++ ms = b ++ m :: a → ∀ e ∈ edits, e.aims b m = true →
      ∀ l ∈ e.lines m.role, Fresh l := hsound.written
  have hone : ∀ l ∈ reference edits [] ms, l.One :=
    mem_reference (fun b m a hx e he ha l hl => (hwritten b m a hx e he ha l hl).one) hsound.one
  have hchain := reference_chain hsound.chain hsound.fresh hwritten
  rw [hout, split_eq_iff, ← reference_severs hsingle hsound.written]
  constructor
  · rintro ⟨-, hboth⟩
    exact hboth.imp fun l m hlm => hlm.2
  · intro hclean
    exact ⟨hone, chain_and hchain hclean⟩

/-! ## The order of the edits -/

theorem Reordered.aims (h : Reordered edits edits') (before : List Mark) (m : Mark)
    (hs : m.role.closed = none → (edits.filter fun e => e.aims before m).length ≤ 1) :
    (edits.filter fun e => e.aims before m) = edits'.filter fun e => e.aims before m := by
  cases hc : m.role.closed with
  | none =>
    have hperm := h.perm.filter fun e => e.aims before m
    have hlen := hs hc
    cases haimed : edits.filter fun e => e.aims before m with
    | nil =>
      rw [haimed] at hperm
      exact hperm.nil_eq
    | cons e es =>
      rw [haimed, List.length_cons] at hlen
      obtain rfl : es = [] := List.length_eq_zero_iff.1 (by omega)
      rw [haimed] at hperm
      exact (List.perm_singleton.1 hperm.symm).symm
  | some n =>
    have happends : ∀ e : Edit, e.aims before m = true → e.appends n = true := by
      intro e ha
      simp only [Edit.aims, Bool.and_eq_true] at ha
      cases hrole : m.role with
      | blank | opens | property => simp [hrole, Role.closed] at hc
      | closes number kind =>
        have hn : number = n := by simpa [hrole, Role.closed] using hc
        rw [hrole, hn] at ha
        exact ha.1
    have hfilter : ∀ es : List Edit, (es.filter fun e => e.aims before m) =
        (es.filter fun e => e.appends n).filter fun e => e.aims before m := by
      intro es
      rw [List.filter_filter]
      refine List.filter_congr fun e _ => ?_
      cases ha : e.aims before m with
      | false => rfl
      | true => simp [happends e ha]
    rw [hfilter edits, hfilter edits', h.appends n]

/-- Patches are determined by their edits. -/
theorem settled_unique {qs : List Patch}
    (hp : List.Forall₂ (fun e p => settle ms e = some p ∧ p.found = true) edits ps)
    (hq : List.Forall₂ (fun e p => settle ms e = some p ∧ p.found = true) edits qs) : ps = qs := by
  induction hp generalizing qs with
  | nil => exact (List.forall₂_nil_left_iff.1 hq).symm
  | cons hep _ ih =>
    obtain ⟨q, qs, heq, hqs, rfl⟩ := List.forall₂_cons_left_iff.1 hq
    rw [ih hqs, Option.some.inj (hep.1.symm.trans heq.1)]

/-- **The order of the edits does not matter**, except among the appends to one component. -/
theorem Success.reordered (h : Success parsers format base edits ms ps out)
    (hr : Reordered edits edits') : ∃ qs, Success parsers format base edits' ms qs out := by
  obtain ⟨qs, hqs, hperm⟩ := List.perm_comp_forall₂ hr.perm.symm h.settled
  have hsound := h.sound
  have hne : ∀ m ∈ ms, m.line.raw ≠ [] := fun m hm => (hsound.one m hm).ne_nil
  have hfound : ∀ q ∈ qs, q.found = true := fun q hq => h.found q (hperm.mem_iff.1 hq)
  have hsort : sortPatches qs = sortPatches ps := by
    obtain ⟨ho, hb⟩ := sortPatches_spec qs
    obtain ⟨ho', hb'⟩ := sortPatches_spec ps
    refine eq_of_buckets ho ho' fun k => ?_
    rw [hb, hb']
    by_cases hk : bucket Patch.start k ps = []
    · rw [hk]
      exact bucket_eq_nil.2 fun q hq => bucket_eq_nil.1 hk q (hperm.mem_iff.1 hq)
    · -- a patch at `k` shows the line that all edits with a patch at `k` aim at
      obtain ⟨p, hpk⟩ := List.exists_mem_of_ne_nil _ hk
      obtain ⟨hp, rfl⟩ := mem_bucket.1 hpk
      obtain ⟨e, b, m, a, hx, hat⟩ := forall₂_mem h.placed p hp
      have haims := hr.aims b m (h.output.2 b m a hx)
      have hspec : ∀ (e : Edit) (p : Patch), settle ms e = some p ∧ p.found = true →
          Placed ms e p := fun e p hp => settle_spec hp.1 hp.2
      have hps := bucket_aims hne hsound.nodup hspec hx h.each
      have hqs' := bucket_aims hne hsound.nodup hspec hx (forall₂_right hqs hfound)
      rw [← haims] at hqs'
      rw [hat.start]
      exact settled_unique hqs' hps
  obtain ⟨h1, h2, h3, h4⟩ := h.input
  exact ⟨qs, ⟨h1, h2, h3, hr.perm.length_eq ▸ h4⟩, h.accepted,
    fun e he => h.proper e (hr.perm.mem_iff.2 he), h.structured, hqs, hfound,
    hsort ▸ h.spliced, h.result⟩

/-! ## The reference semantics -/

theorem patch_reordered (h : patch parsers format base edits = .ok out)
    (hr : Reordered edits edits') : patch parsers format base edits' = .ok out := by
  obtain ⟨ms, ps, hs⟩ := patch_ok.1 h
  obtain ⟨qs, hqs⟩ := hs.reordered hr
  exact patch_ok.2 ⟨ms, qs, hqs⟩

/-- Without edits the base comes back byte for byte. -/
theorem patch_nothing (h : patch parsers format base [] = .ok out) : out = base := by
  obtain ⟨ms, ps, hs⟩ := patch_ok.1 h
  have hps : ps = [] := List.forall₂_nil_left_iff.1 hs.settled
  have hsplice : splice base [] = .ok out := by
    have hsp := hs.spliced
    rwa [hps] at hsp
  simp only [splice, List.foldlM_nil, pure_bind, List.drop_zero] at hsplice
  cases hbase : add [] base with
  | none => simp [hbase] at hsplice
  | some r =>
    simp only [hbase] at hsplice
    rw [← Except.ok.inj hsplice, add_eq hbase, List.nil_append]

/-- **A patch meets its reference semantics exactly when it severs no CR from an LF.** -/
theorem patch_reference (h : patch parsers format base edits = .ok out) :
    (split out = reference edits [] (marked format base) ∧ (edits = [] → out = base) ∧
      ∀ edits', Reordered edits edits' → patch parsers format base edits' = .ok out) ↔
    ¬ Severs edits [] (marked format base) := by
  obtain ⟨ms, ps, hs⟩ := patch_ok.1 h
  rw [hs.marked, ← hs.read]
  refine ⟨And.left, fun hread => ⟨hread, ?_, fun edits' hr => patch_reordered h hr⟩⟩
  rintro rfl
  exact patch_nothing h

/-! ## A note that runs into a name -/

/-- A card with a telephone number between a line that ends in a CR and an empty line. -/
def noteCard : Bytes :=
  [66, 69, 71, 73, 78, 58, 86, 67, 65, 82, 68, 13, 10,  -- BEGIN:VCARD
   86, 69, 82, 83, 73, 79, 78, 58, 51, 46, 48, 13, 10,  -- VERSION:3.0
   78, 58, 120, 59, 59, 59, 59, 13, 10,  -- N:x;;;;
   70, 78, 58, 120, 13,  -- FN:x, CR only
   84, 69, 76, 58, 50, 13, 10,  -- TEL:2
   10, 32, 78, 79, 84, 69, 58, 104, 105, 13, 10,  -- an empty line, folded: NOTE:hi
   69, 78, 68, 58, 86, 67, 65, 82, 68, 13, 10]  -- END:VCARD

/-- The removal of the telephone number. -/
def removeTel : Edit := ⟨0, some (ascii "TEL"), none, 0, none, none, none, none⟩

/-- Another telephone number. -/
def changeTel : Edit := ⟨0, some (ascii "TEL"), none, 0, some (ascii "3"), none, none, none⟩

/-- Reads unfolded cards from their first line to their last. -/
def cardParsers : Parsers where
  vcard b := startsWith (ascii "BEGIN:VCARD\n") b && b.drop (b.length - 10) = ascii "END:VCARD\n"
  calendar _ := false

def changedCard : Bytes :=
  [66, 69, 71, 73, 78, 58, 86, 67, 65, 82, 68, 13, 10,  -- BEGIN:VCARD
   86, 69, 82, 83, 73, 79, 78, 58, 51, 46, 48, 13, 10,  -- VERSION:3.0
   78, 58, 120, 59, 59, 59, 59, 13, 10,  -- N:x;;;;
   70, 78, 58, 120, 13,  -- FN:x, CR only
   84, 69, 76, 58, 51, 13, 10,  -- TEL:3
   10, 32, 78, 79, 84, 69, 58, 104, 105, 13, 10,  -- an empty line, folded: NOTE:hi
   69, 78, 68, 58, 86, 67, 65, 82, 68, 13, 10]  -- END:VCARD

def severedCard : Bytes :=
  [66, 69, 71, 73, 78, 58, 86, 67, 65, 82, 68, 13, 10,  -- BEGIN:VCARD
   86, 69, 82, 83, 73, 79, 78, 58, 51, 46, 48, 13, 10,  -- VERSION:3.0
   78, 58, 120, 59, 59, 59, 59, 13, 10,  -- N:x;;;;
   70, 78, 58, 120, 13, 10, 32, 78, 79, 84, 69, 58, 104, 105, 13, 10,  -- FN:x, folded: NOTE:hi
   69, 78, 68, 58, 86, 67, 65, 82, 68, 13, 10]  -- END:VCARD

theorem patch_reference_changed :
    (split changedCard = reference [changeTel] [] (marked .vcard noteCard) ∧
      ([changeTel] = [] → changedCard = noteCard) ∧
      ∀ edits', Reordered [changeTel] edits' →
        patch cardParsers .vcard noteCard edits' = .ok changedCard) ↔
    ¬ Severs [changeTel] [] (marked .vcard noteCard) :=
  @patch_reference cardParsers .vcard noteCard changedCard [changeTel] (by decide +kernel)

/-- The removal succeeds, and the output is not read as the lines of the reference: the note is
part of the name. -/
theorem patch_reference_severed :
    patch cardParsers .vcard noteCard [removeTel] = .ok severedCard ∧
      split severedCard ≠ reference [removeTel] [] (marked .vcard noteCard) :=
  ⟨by decide +kernel, by decide +kernel⟩

end Resource
