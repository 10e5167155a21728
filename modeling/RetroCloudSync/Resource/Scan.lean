import RetroCloudSync.Library.Fallible
import RetroCloudSync.Resource.Reference

/-!
# The scan finds the targets

The scan leads all edits past one line after the other. `scan_ok`: it can as well lead one edit
after the other past all lines (`track`), and `settle` is the patch that this finds. `settle_spec`:
the patch lies at the line the edit aims at and replaces it by what the reference puts there.

* `patch_ok`: when `RCResourcePatch` succeeds, without tasks and indices.
-/

set_option autoImplicit false

namespace Resource

open Library Library.Text Journal

variable {format : Format} {parsers : Parsers} {base out : Bytes} {edits : List Edit}
  {f g : Frame} {ms : List Mark} {ps : List Patch} {m : Mark} {e : Edit} {t t' : Task}
  {start stop : Nat} {role : Role}

theorem forall₂_comp {α β γ : Type} {R : α → β → Prop} {S : β → γ → Prop} :
    ∀ {as : List α} {cs : List γ}, List.Forall₂ (fun a c => ∃ b, R a b ∧ S b c) as cs ↔
      ∃ bs, List.Forall₂ R as bs ∧ List.Forall₂ S bs cs
  | [], cs => by simp
  | a :: as, cs => by
    simp only [List.forall₂_cons_left_iff]
    constructor
    · rintro ⟨c, cs, ⟨b, hab, hbc⟩, h, rfl⟩
      obtain ⟨bs, h1, h2⟩ := forall₂_comp.1 h
      exact ⟨b :: bs, ⟨b, bs, hab, h1, rfl⟩, .cons hbc h2⟩
    · rintro ⟨_, ⟨b, bs, hab, h1, rfl⟩, h2⟩
      obtain ⟨c, cs, hbc, h3, rfl⟩ := List.forall₂_cons_left_iff.1 h2
      exact ⟨c, cs, ⟨b, hab, hbc⟩, forall₂_comp.2 ⟨bs, h1, h3⟩, rfl⟩

theorem forall₂_right {α β : Type} {R : α → β → Prop} {P : β → Prop} {as : List α} {bs : List β}
    (h : List.Forall₂ R as bs) (hp : ∀ b ∈ bs, P b) :
    List.Forall₂ (fun a b => R a b ∧ P b) as bs := by
  induction h with
  | nil => exact .nil
  | cons hab _ ih =>
    rw [List.forall_mem_cons] at hp
    exact .cons ⟨hab, hp.1⟩ (ih hp.2)

theorem forall₂_left {α β : Type} {R : α → β → Prop} {as : List α} {bs : List β}
    (h : List.Forall₂ R as bs) : ∀ a ∈ as, ∃ b, R a b := by
  induction h with
  | nil => simp
  | cons hab _ ih => simpa using ⟨⟨_, hab⟩, ih⟩

theorem forall₂_mem {α β : Type} {R : α → β → Prop} {as : List α} {bs : List β}
    (h : List.Forall₂ R as bs) : ∀ b ∈ bs, ∃ a, R a b := forall₂_left h.flip

/-! ## One edit past all lines -/

/-- One edit led past the lines from an offset on. -/
def track : Nat → List Mark → Task → Except RCError Task
  | _, [], t => .ok t
  | pos, m :: ms, t =>
    (visit pos (pos + m.line.raw.length) m.role t).bind
      fun t => track (pos + m.line.raw.length) ms t

theorem track_cons {pos : Nat} : track pos (m :: ms) t = .ok t' ↔
    ∃ t₁, visit pos (pos + m.line.raw.length) m.role t = .ok t₁ ∧
      track (pos + m.line.raw.length) ms t₁ = .ok t' := bind_ok

theorem scan_lines : ∀ {lines : List Line} {s s' : Scan},
    lines.foldlM (scanLine format) s = .ok s' ↔
      ∃ ms, marks format s.frame lines = some (ms, s'.frame) ∧
        s'.pos = s.pos + (join lines).length ∧
        List.Forall₂ (fun t t' => track s.pos ms t = .ok t') s.tasks s'.tasks
  | [], s, s' => by
    rw [List.foldlM_nil]
    constructor
    · intro h
      obtain rfl : s = s' := Except.ok.inj h
      exact ⟨[], rfl, rfl, List.forall₂_same.2 fun t _ => rfl⟩
    · rintro ⟨ms, hm, hp, ht⟩
      obtain ⟨rfl, hf⟩ : [] = ms ∧ s.frame = s'.frame := by simpa [marks] using hm
      have ht : s.tasks = s'.tasks := by
        rw [← List.forall₂_eq_eq_eq]
        exact ht.imp fun t t' h => Except.ok.inj h
      obtain ⟨frame, pos, tasks⟩ := s
      obtain ⟨frame', pos', tasks'⟩ := s'
      have hp : pos' = pos := by simpa [join] using hp
      subst hp hf ht
      rfl
  | l :: ls, s, s' => by
    rw [List.foldlM_cons]
    constructor
    · intro h
      obtain ⟨s₁, h₁, h⟩ := bind_ok.1 h
      obtain ⟨ms, hm, hp, ht⟩ := scan_lines.1 h
      unfold scanLine at h₁
      cases hc : classify format s.frame l.text with
      | none => simp [hc] at h₁
      | some c =>
        obtain ⟨role, frame⟩ := c
        simp only [hc] at h₁
        obtain ⟨tasks, hmap, h₁⟩ := bind_ok.1 h₁
        obtain rfl := Except.ok.inj h₁
        refine ⟨⟨l, role⟩ :: ms, marks_cons.2 ⟨role, frame, ms, hc, hm, rfl⟩, ?_, ?_⟩
        · rw [hp, join_cons, List.length_append]
          dsimp only
          omega
        · simp only [track_cons]
          exact forall₂_comp.2 ⟨tasks, mapM_ok.1 hmap, ht⟩
    · rintro ⟨ms, hm, hp, ht⟩
      obtain ⟨role, frame, ms', hc, hms, rfl⟩ := marks_cons.1 hm
      simp only [track_cons] at ht
      obtain ⟨tasks, hmap, ht⟩ := forall₂_comp.1 ht
      refine bind_ok.2 ⟨⟨frame, s.pos + l.raw.length, tasks⟩, ?_, ?_⟩
      · simp only [scanLine, hc]
        exact bind_ok.2 ⟨tasks, mapM_ok.2 hmap, rfl⟩
      · refine scan_lines.2 ⟨ms', hms, ?_, ht⟩
        rw [hp, join_cons, List.length_append]
        dsimp only
        omega

/-! ## Indices do not matter -/

/-- An edit before the first line. -/
def Task.initial (i : Nat) (e : Edit) : Task := ⟨i, e, ⟨0, 0, [], false, 0⟩⟩

theorem visit_index (h : visit start stop role t = .ok t') (i : Nat) :
    visit start stop role { t with index := i } = .ok { t' with index := i } := by
  cases role with
  | blank | opens =>
    obtain rfl := Except.ok.inj h
    rfl
  | closes number kind =>
    simp only [visit] at h ⊢
    split_ifs at h ⊢ with ha hk
    · cases hw : t.edit.write t.edit.appendHead with
      | none => simp [hw] at h
      | some r =>
        simp only [hw] at h ⊢
        obtain rfl := Except.ok.inj h
        rfl
    · obtain rfl := Except.ok.inj h
      rfl
  | property number kind p =>
    simp only [visit] at h ⊢
    split_ifs at h ⊢ with hs hseen hk hv
    · cases hw : t.edit.write (t.edit.replaceHead p) with
      | none => simp [hw] at h
      | some r =>
        simp only [hw] at h ⊢
        obtain rfl := Except.ok.inj h
        rfl
    all_goals
      obtain rfl := Except.ok.inj h
      rfl

theorem track_index : ∀ {ms : List Mark} {pos : Nat} {t t' : Task}, track pos ms t = .ok t' →
    ∀ i, track pos ms { t with index := i } = .ok { t' with index := i }
  | [], _, _, _, h, i => by
    obtain rfl := Except.ok.inj h
    rfl
  | m :: ms, pos, t, t', h, i => by
    obtain ⟨t₁, h₁, h⟩ := track_cons.1 h
    exact track_cons.2 ⟨_, visit_index h₁ i, track_index h i⟩

/-- The patch that an edit finds. -/
def settle (ms : List Mark) (e : Edit) : Option Patch :=
  match track 0 ms (.initial 0 e) with
  | .ok t => some t.patch
  | .error _ => none

theorem settle_eq {p : Patch} : settle ms e = some p ↔
    ∃ t, track 0 ms (.initial 0 e) = .ok t ∧ t.patch = p := by
  unfold settle
  cases track 0 ms (.initial 0 e) with
  | ok t => simp
  | error err => simp

/-- **One edit after the other** finds the patches that the scan finds. -/
theorem scan_ok {ps : List Patch} :
    (∃ s, scan format base edits = .ok s ∧ s.frame = g ∧ s.tasks.map Task.patch = ps) ↔
      ∃ ms, marks format ⟨[], 0, false⟩ (split base) = some (ms, g) ∧
        List.Forall₂ (fun e p => settle ms e = some p) edits ps := by
  have hindex : ∀ ms : List Mark, ∀ (es : List Edit) (k : Nat),
      (∃ tasks, List.Forall₂ (fun t t' => track 0 ms t = .ok t')
        ((es.zipIdx k).map fun e => Task.initial e.2 e.1) tasks ∧ tasks.map Task.patch = ps) ↔
      List.Forall₂ (fun e p => settle ms e = some p) es ps := by
    intro ms es
    induction es generalizing ps with
    | nil =>
      intro k
      simp
    | cons e es ih =>
      intro k
      simp only [List.zipIdx_cons, List.map_cons, List.forall₂_cons_left_iff]
      constructor
      · rintro ⟨tasks, ⟨t, ts, ht, hts, rfl⟩, rfl⟩
        have h0 := track_index ht 0
        exact ⟨t.patch, ts.map Task.patch, settle_eq.2 ⟨_, h0, rfl⟩, (ih (k + 1)).1 ⟨ts, hts, rfl⟩,
          rfl⟩
      · rintro ⟨p, ps', hp, hps, rfl⟩
        obtain ⟨t, ht, rfl⟩ := settle_eq.1 hp
        obtain ⟨ts, hts, rfl⟩ := (ih (k + 1)).2 hps
        exact ⟨_, ⟨_, ts, track_index ht k, hts, rfl⟩, rfl⟩
  unfold scan
  rw [readLines_eq base.length base le_rfl]
  constructor
  · rintro ⟨s, hs, rfl, hps⟩
    obtain ⟨ms, hm, -, ht⟩ := scan_lines.1 hs
    exact ⟨ms, hm, (hindex ms edits 0).1 ⟨s.tasks, ht, hps⟩⟩
  · rintro ⟨ms, hm, hps⟩
    obtain ⟨tasks, ht, hps⟩ := (hindex ms edits 0).2 hps
    exact ⟨⟨g, 0 + (join (split base)).length, tasks⟩, scan_lines.2 ⟨ms, hm, rfl, ht⟩, rfl, hps⟩

/-! ## Where the patch lies -/

/-- The bytes of the base that a patch at this line replaces. -/
def Role.span (role : Role) (length : Nat) : Nat :=
  match role with
  | .property .. => length
  | _ => 0

/-- The patch that the reference asks for at a mark. -/
structure PatchAt (b : List Mark) (m : Mark) (e : Edit) (p : Patch) : Prop where
  aims : e.aims b m = true
  lands : e.Lands m.role
  start : p.start = offset b
  stop : p.stop = offset b + m.role.span m.line.raw.length
  replacement : p.replacement = join (e.lines m.role)

/-- The patch lies at the line the edit aims at. -/
def Placed (ms : List Mark) (e : Edit) (p : Patch) : Prop :=
  ∃ b m a, ms = b ++ m :: a ∧ PatchAt b m e p

/-- What is known of an edit that was led past `ms`. -/
structure Tracked (ms : List Mark) (t : Task) : Prop where
  seen : t.edit.occurrence ≠ -1 → t.patch.seen = ms.countP fun x => t.edit.hits x.role
  found : t.patch.found = true → Placed ms t.edit t.patch
  fresh : t.patch.found = false → t.patch.replacement = [] ∧
    ∀ b m a, ms = b ++ m :: a → t.edit.aims b m = false

/-- **What an edit can do at a line**: pass it, count it, or take it as its target. -/
theorem visit_cases {len : Nat} (h : visit start (start + len) role t = .ok t') :
    t'.edit = t.edit ∧
    ((t.edit.hits role = false ∧ t'.patch = t.patch) ∨
    (t.edit.hits role = true ∧ t.edit.occurrence ≠ -1 ∧ (t.patch.seen : Int) ≠ t.edit.occurrence ∧
      t'.patch = { t.patch with seen := t.patch.seen + 1 }) ∨
    (t.edit.hits role = true ∧
      (t.edit.occurrence = -1 ∨ (t.patch.seen : Int) = t.edit.occurrence) ∧ t.edit.Lands role ∧
      t'.patch.found = true ∧ t'.patch.start = start ∧ t'.patch.stop = start + role.span len ∧
      (t.edit.occurrence = -1 ∨ t.patch.replacement = [] →
        t'.patch.replacement = join (t.edit.lines role)) ∧
      (t.edit.occurrence ≠ -1 → t'.patch.seen = t.patch.seen + 1))) := by
  cases role with
  | blank | opens =>
    obtain rfl := Except.ok.inj h
    exact ⟨rfl, Or.inl ⟨rfl, rfl⟩⟩
  | closes number kind =>
    simp only [visit] at h
    split_ifs at h with ha hk
    · cases hw : t.edit.write t.edit.appendHead with
      | none => simp [hw] at h
      | some r =>
        simp only [hw] at h
        obtain rfl := Except.ok.inj h
        have ho : t.edit.occurrence = -1 := by
          simp only [Edit.appends, Bool.and_eq_true, decide_eq_true_eq] at ha
          exact ha.2
        refine ⟨rfl, Or.inr (Or.inr ⟨ha, Or.inl ho, ⟨hk, by simp [hw]⟩, rfl, rfl, rfl, ?_, ?_⟩)⟩
        · intro _
          simp [Edit.lines, Edit.line, join, hw]
        · intro hn
          exact absurd ho hn
    · obtain rfl := Except.ok.inj h
      exact ⟨rfl, Or.inl ⟨by simpa [Edit.hits] using ha, rfl⟩⟩
  | property number kind p =>
    have ho : t.edit.selects number p = true → t.edit.occurrence ≠ -1 := by
      intro hs
      simp only [Edit.selects, Bool.and_eq_true, decide_eq_true_eq] at hs
      exact hs.1.1.2
    simp only [visit] at h
    split_ifs at h with hs hseen hk hv
    · -- the occurrence the edit names, with a new value
      simp only [Bool.and_eq_true, Bool.or_eq_true, Option.isNone_iff_eq_none] at hk
      cases hw : t.edit.write (t.edit.replaceHead p) with
      | none => simp [hw] at h
      | some r =>
        simp only [hw] at h
        obtain rfl := Except.ok.inj h
        refine ⟨rfl, Or.inr (Or.inr ⟨hs, Or.inr hseen, ⟨hk.1, hk.2, by simp [hw]⟩, rfl, rfl, rfl,
          ?_, fun _ => rfl⟩)⟩
        intro _
        simp [Edit.lines, Edit.line, join, hv, hw]
    · -- the occurrence the edit removes
      simp only [Bool.and_eq_true, Bool.or_eq_true, Option.isNone_iff_eq_none] at hk
      obtain rfl := Except.ok.inj h
      refine ⟨rfl, Or.inr (Or.inr ⟨hs, Or.inr hseen, ⟨hk.1, hk.2, fun hv' => absurd hv' hv⟩, rfl,
        rfl, rfl, ?_, fun _ => rfl⟩)⟩
      intro hr
      simpa [Edit.lines, join, hv] using hr.resolve_left (ho hs)
    · obtain rfl := Except.ok.inj h
      exact ⟨rfl, Or.inr (Or.inl ⟨hs, ho hs, hseen, rfl⟩)⟩
    · obtain rfl := Except.ok.inj h
      exact ⟨rfl, Or.inl ⟨by simpa [Edit.hits] using hs, rfl⟩⟩

theorem Placed.snoc {p q : Patch} (h : Placed ms e p) (m : Mark) (hstart : q.start = p.start)
    (hstop : q.stop = p.stop) (hr : q.replacement = p.replacement) : Placed (ms ++ [m]) e q := by
  obtain ⟨b, x, a, rfl, hp⟩ := h
  exact ⟨b, x, a ++ [m], by simp, hp.aims, hp.lands, hstart.trans hp.start, hstop.trans hp.stop,
    hr.trans hp.replacement⟩

/-- **One line more.** -/
theorem Tracked.step (hi : Tracked ms t)
    (h : visit (offset ms) (offset ms + m.line.raw.length) m.role t = .ok t') :
    Tracked (ms ++ [m]) t' ∧ t'.edit = t.edit := by
  obtain ⟨he, ⟨hh, hp⟩ | ⟨hh, ho, hs, hp⟩ |
    ⟨hh, hs, hl, hf, h1, h2, h3, h4⟩⟩ := visit_cases h
  · refine ⟨⟨?_, ?_, ?_⟩, he⟩
    · intro ho
      rw [he] at ho ⊢
      simp [hp, hi.seen ho, hh]
    · intro hf
      rw [hp] at hf
      rw [he, hp]
      exact (hi.found hf).snoc m rfl rfl rfl
    · intro hf
      rw [hp] at hf
      obtain ⟨hr, hnone⟩ := hi.fresh hf
      refine ⟨by rw [hp, hr], fun b x a hx => ?_⟩
      rw [he]
      obtain ⟨rfl, rfl, rfl⟩ | ⟨a', rfl, hms⟩ := place_snoc hx
      · simp [Edit.aims, hh]
      · exact hnone b x a' hms
  · have hseen := hi.seen ho
    refine ⟨⟨?_, ?_, ?_⟩, he⟩
    · intro _
      rw [he]
      simp [hp, hseen, hh]
    · intro hf
      rw [hp] at hf
      rw [he]
      exact (hi.found hf).snoc m (by rw [hp]) (by rw [hp]) (by rw [hp])
    · intro hf
      rw [hp] at hf
      obtain ⟨hr, hnone⟩ := hi.fresh hf
      refine ⟨by rw [hp]; exact hr, fun b x a hx => ?_⟩
      rw [he]
      obtain ⟨rfl, rfl, rfl⟩ | ⟨a', rfl, hms⟩ := place_snoc hx
      · rw [hseen] at hs
        simp [Edit.aims, ho, hs]
      · exact hnone b x a' hms
  · have haims : t.edit.aims ms m = true := by
      simp only [Edit.aims, hh, Bool.true_and, Bool.or_eq_true, decide_eq_true_eq]
      by_cases ho : t.edit.occurrence = -1
      · exact Or.inl ho
      · exact Or.inr ((hi.seen ho) ▸ hs.resolve_left ho)
    refine ⟨⟨?_, ?_, ?_⟩, he⟩
    · intro ho
      rw [he] at ho ⊢
      simp [h4 ho, hi.seen ho, hh]
    · intro _
      rw [he]
      refine ⟨ms, m, [], rfl, haims, hl, h1, h2, h3 ?_⟩
      by_cases ho : t.edit.occurrence = -1
      · exact Or.inl ho
      right
      -- an occurrence is met once, so nothing has been written for it
      cases hfound : t.patch.found with
      | false => exact (hi.fresh hfound).1
      | true =>
        obtain ⟨b, x, a, hms, hat⟩ := hi.found hfound
        have ha := hat.aims
        have hcount := hi.seen ho
        have hocc := hs.resolve_left ho
        simp only [Edit.aims, Bool.and_eq_true, Bool.or_eq_true, decide_eq_true_eq] at ha
        have hb := ha.2.resolve_left ho
        rw [hms, List.countP_append, List.countP_cons, if_pos ha.1] at hcount
        omega
    · intro hfalse
      rw [hf] at hfalse
      cases hfalse

theorem Tracked.run : ∀ {after before : List Mark} {t t' : Task}, Tracked before t →
    track (offset before) after t = .ok t' → Tracked (before ++ after) t' ∧ t'.edit = t.edit
  | [], before, t, t', hi, h => by
    obtain rfl := Except.ok.inj h
    exact ⟨by simpa using hi, rfl⟩
  | m :: after, before, t, t', hi, h => by
    obtain ⟨t₁, h₁, h⟩ := track_cons.1 h
    obtain ⟨hi₁, he₁⟩ := hi.step h₁
    rw [← offset_snoc] at h
    obtain ⟨hi', he'⟩ := Tracked.run hi₁ h
    exact ⟨by simpa using hi', he'.trans he₁⟩

/-- **The patch of an edit lies at the line it aims at.** -/
theorem settle_spec {p : Patch} (h : settle ms e = some p) (hf : p.found = true) :
    Placed ms e p := by
  obtain ⟨t, ht, rfl⟩ := settle_eq.1 h
  have hinit : Tracked [] (Task.initial 0 e) := by
    refine ⟨fun _ => rfl, fun hfound => ?_, fun _ => ⟨rfl, fun b m a hx => ?_⟩⟩
    · cases hfound
    · simp at hx
  obtain ⟨hi, he⟩ := Tracked.run hinit ht
  have hplaced := hi.found hf
  rwa [he] at hplaced

/-! ## When a patch succeeds -/

/-- What a successful run has found. -/
structure Success (parsers : Parsers) (format : Format) (base : Bytes) (edits : List Edit)
    (ms : List Mark) (ps : List Patch) (out : Bytes) : Prop where
  input : base ≠ [] ∧ base.length ≤ INT_MAX ∧ 0 ∉ base ∧ edits.length ≤ 10000
  accepted : valid parsers format base = .ok ()
  proper : ∀ e ∈ edits, Proper format e
  structured : ∃ g, marks format ⟨[], 0, false⟩ (split base) = some (ms, g) ∧ g.stack = [] ∧
    g.closed = true
  settled : List.Forall₂ (fun e p => settle ms e = some p) edits ps
  found : ∀ p ∈ ps, p.found = true
  spliced : splice base (sortPatches ps) = .ok out
  result : valid parsers format out = .ok ()

theorem checkEdits_ok : ∀ {i : Nat} {edits : List Edit},
    checkEdits format i edits = .ok () ↔ ∀ e ∈ edits, Proper format e
  | _, [] => by simp [checkEdits]
  | i, e :: es => by
    rw [checkEdits, List.forall_mem_cons]
    by_cases h1 : properNames format e = true
    · by_cases h2 : properParameters e = true
      · rw [if_neg (not_not.2 h1), if_neg (not_not.2 h2), checkEdits_ok]
        exact ⟨fun h => ⟨⟨h1, h2⟩, h⟩, And.right⟩
      · rw [if_neg (not_not.2 h1), if_pos h2]
        exact ⟨fun h => (by cases h), fun h => absurd h.1.parameters h2⟩
    · rw [if_pos h1]
      exact ⟨fun h => (by cases h), fun h => absurd h.1.names h1⟩

theorem missing_ok : ∀ {ts : List Task}, missing ts = .ok () ↔ ∀ t ∈ ts, t.patch.found = true
  | [] => by simp [missing]
  | t :: ts => by
    rw [missing, List.forall_mem_cons]
    split_ifs with h
    · rw [missing_ok]
      exact ⟨fun hts => ⟨h, hts⟩, And.right⟩
    · exact ⟨fun h' => (by cases h'), fun h' => absurd h'.1 h⟩

/-- **When `RCResourcePatch` succeeds.** -/
theorem patch_ok : patch parsers format base edits = .ok out ↔
    ∃ ms ps, Success parsers format base edits ms ps out := by
  unfold patch
  split_ifs with hin
  · refine ⟨fun h => (by cases h), ?_⟩
    rintro ⟨ms, ps, h⟩
    obtain ⟨h1, h2, h3, h4⟩ := h.input
    rcases hin with hin | hin | hin | hin
    · exact absurd hin h1
    · omega
    · exact absurd hin h3
    · omega
  · simp only [not_or, not_lt] at hin
    constructor
    · intro h
      obtain ⟨⟨⟩, hv, h⟩ := bind_ok.1 h
      obtain ⟨⟨⟩, hc, h⟩ := bind_ok.1 h
      obtain ⟨s, hs, h⟩ := bind_ok.1 h
      split_ifs at h with hframe
      simp only [not_or, not_not, Bool.not_eq_false] at hframe
      obtain ⟨⟨⟩, hm, h⟩ := bind_ok.1 h
      obtain ⟨out', hsp, h⟩ := bind_ok.1 h
      obtain ⟨⟨⟩, hr, h⟩ := bind_ok.1 h
      obtain rfl := Except.ok.inj h
      obtain ⟨ms, hms, hps⟩ := scan_ok.1 ⟨s, hs, rfl, rfl⟩
      refine ⟨ms, _, ⟨hin.1, hin.2.1, hin.2.2.1, hin.2.2.2⟩, hv, checkEdits_ok.1 hc,
        ⟨s.frame, hms, hframe⟩, hps, ?_, hsp, hr⟩
      intro p hp
      obtain ⟨t, ht, rfl⟩ := List.mem_map.1 hp
      exact missing_ok.1 hm t ht
    · rintro ⟨ms, ps, h⟩
      obtain ⟨g, hms, hg⟩ := h.structured
      obtain ⟨s, hs, rfl, rfl⟩ := scan_ok.2 ⟨ms, hms, h.settled⟩
      refine bind_ok.2 ⟨(), h.accepted, bind_ok.2 ⟨(), checkEdits_ok.2 h.proper,
        bind_ok.2 ⟨s, hs, ?_⟩⟩⟩
      rw [if_neg (by simp [hg.1, hg.2])]
      refine bind_ok.2 ⟨(), missing_ok.2 fun t ht => h.found _ (List.mem_map_of_mem ht),
        bind_ok.2 ⟨out, h.spliced, bind_ok.2 ⟨(), h.result, rfl⟩⟩⟩

theorem Success.each (h : Success parsers format base edits ms ps out) :
    List.Forall₂ (fun e p => settle ms e = some p ∧ p.found = true) edits ps :=
  forall₂_right h.settled h.found

theorem Success.placed (h : Success parsers format base edits ms ps out) :
    List.Forall₂ (Placed ms) edits ps := h.each.imp fun _ _ hp => settle_spec hp.1 hp.2

end Resource
