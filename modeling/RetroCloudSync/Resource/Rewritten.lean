import RetroCloudSync.Resource.Correct

/-!
# The reference keeps the structure

The lines an edit writes are properties of the component they stand in, under a name that is
writable there (`lines_writable`); so the reference has the component structure of the base, and
the same lines that are not writable (`marks_reference`).
-/

set_option autoImplicit false

namespace Resource

open Library Library.Text Journal

variable {format : Format} {f g : Frame} {edits : List Edit} {ms before : List Mark} {m : Mark}
  {e : Edit} {s t head rest w : Bytes} {quoted : Bool} {number : Nat} {kind : Bytes}

/-! ## Reading a head back -/

theorem colon_prefix : ∀ {quoted : Bool} {line head rest : Bytes},
    colon quoted line = some (head, rest) → ∀ t, colon quoted (head ++ 0x3a :: t) = some (head, t)
  | _, [], _, _, h, _ => by simp [colon] at h
  | quoted, c :: line, head, rest, h, t => by
    simp only [colon] at h
    generalize hq : (if c = 0x22 then !quoted else quoted) = q at h
    by_cases hc : c = 0x3a ∧ q = false
    · rw [if_pos hc, Option.some.injEq, Prod.mk.injEq] at h
      have hquoted : quoted = false := by
        rw [hc.1] at hq
        simpa [hc.2] using hq
      rw [← h.1, hquoted]
      rfl
    · rw [if_neg hc] at h
      obtain ⟨⟨head', rest'⟩, hcolon, hs⟩ := Option.map_eq_some_iff.1 h
      rw [Prod.mk.injEq] at hs
      rw [← hs.1, List.cons_append, colon]
      dsimp only
      rw [hq, if_neg hc, colon_prefix hcolon t]
      rfl

/-- Characters that neither quote nor separate. -/
def plain (s : Bytes) : Bool := s.all fun c => c ≠ 0x22 && c ≠ 0x3a

theorem colon_plain (h : plain s = true) :
    colon false (s ++ t) = (colon false t).map fun r => (s ++ r.1, r.2) := by
  induction s with
  | nil => simp
  | cons c s ih =>
    simp only [plain, List.all_cons, Bool.and_eq_true, ne_eq, decide_not, Bool.not_eq_true',
      decide_eq_false_iff_not] at h
    have hs : plain s = true := by simpa [plain] using h.2
    rw [List.cons_append, colon, if_neg h.1.1, if_neg (by simp [h.1.2]), ih hs, Option.map_map]
    rfl

theorem plain_of_all {p : UInt8 → Bool} (hq : p 0x22 = false) (hc : p 0x3a = false)
    (h : ∀ c ∈ s, p c = true) : plain s = true := by
  simp only [plain, List.all_eq_true, Bool.and_eq_true, ne_eq, decide_not, Bool.not_eq_true',
    decide_eq_false_iff_not]
  intro c hcs
  have hp := h c hcs
  constructor
  · rintro rfl
    rw [hq] at hp
    cases hp
  · rintro rfl
    rw [hc] at hp
    cases hp

theorem plain_append : plain (s ++ t) = (plain s && plain t) := by
  simp [plain]

theorem upper_colon : ∀ c : UInt8, upper c = 0x3a → c = 0x3a := by
  intro c
  obtain ⟨n, rfl⟩ : ∃ n : Fin 256, c = UInt8.ofFin n := ⟨c.toFin, rfl⟩
  revert n
  decide +kernel

theorem startsWith_iff (hw : ∀ c ∈ w, upper c ≠ 0x22 ∧ upper c ≠ 0x3a)
    (h : colon false t = some (head, rest)) :
    startsWith (w ++ [0x3a]) t = true ↔ sameLetters head w = true := by
  simp only [startsWith, sameLetters, decide_eq_true_eq, List.length_append, List.length_singleton]
  constructor
  · intro hs
    rw [List.map_append] at hs
    obtain ⟨s, d, htake, hsw, hd⟩ := List.map_eq_append_iff.1 hs
    obtain ⟨d, rfl⟩ := List.length_eq_one_iff.1 (by simpa using congrArg List.length hd)
    obtain rfl : d = 0x3a := upper_colon d (List.cons.inj hd).1
    have hplain : plain s = true := by
      simp only [plain, List.all_eq_true, Bool.and_eq_true, ne_eq, decide_not, Bool.not_eq_true',
        decide_eq_false_iff_not]
      intro c hc
      obtain ⟨x, hx, hxc⟩ := List.mem_map.1 (hsw ▸ List.mem_map_of_mem hc : upper c ∈ w.map upper)
      obtain ⟨h1, h2⟩ := hw x hx
      rw [hxc] at h1 h2
      exact ⟨fun he => h1 (by rw [he]; rfl), fun he => h2 (by rw [he]; rfl)⟩
    obtain ⟨t', rfl⟩ : ∃ t', t = s ++ 0x3a :: t' := by
      refine ⟨t.drop (w.length + 1), ?_⟩
      have happ := List.take_append_drop (w.length + 1) t
      rw [htake, List.append_assoc] at happ
      exact happ.symm
    have hcolon : colon false (s ++ 0x3a :: t') = some (s, t') := by
      rw [colon_plain hplain]
      simp [colon]
    rw [hcolon, Option.some.injEq, Prod.mk.injEq] at h
    rw [← h.1, hsw]
  · intro hs
    have hlen : head.length = w.length := by simpa using congrArg List.length hs
    rw [colon_append h, ← hlen, List.take_append, List.take_of_length_le (Nat.le_succ _)]
    simp [hs]

theorem property_field {field : Bytes} (hf : 0x3b ∉ field) (ht : ∀ c ∈ t.head?, c = 0x3b) :
    property (field ++ t) = if 0x2e ∈ field then
      ⟨field ++ t, field.takeWhile fun c => c ≠ 0x2e, (field.dropWhile fun c => c ≠ 0x2e).tail, t⟩
    else ⟨field ++ t, [], field, t⟩ := by
  have hall : ∀ c ∈ field, decide (c ≠ 0x3b) = true := by
    intro c hc
    simp only [ne_eq, decide_not, Bool.not_eq_true', decide_eq_false_iff_not]
    rintro rfl
    exact hf hc
  have htake : (t.takeWhile fun c => c ≠ 0x3b) = [] := by
    cases t with
    | nil => rfl
    | cons c t => simp [ht c rfl]
  have hdrop : (t.dropWhile fun c => c ≠ 0x3b) = t := by
    cases t with
    | nil => rfl
    | cons c t => simp [ht c rfl]
  unfold property
  dsimp only
  rw [List.takeWhile_append_of_pos hall, List.dropWhile_append_of_pos hall, htake, hdrop,
    List.append_nil]

theorem token_plain (h : token (some s) = true) :
    plain s = true ∧ 0x3b ∉ s ∧ 0x2e ∉ s := by
  obtain ⟨-, hall⟩ := token_some.1 h
  refine ⟨@plain_of_all s isTokenChar rfl rfl hall, fun hc => ?_, fun hc => ?_⟩
  · cases hall _ hc
  · cases hall _ hc

theorem property_name {g : Option Bytes} (hg : g.isNone || token g) (hs : token (some s) = true)
    (ht : ∀ c ∈ t.head?, c = 0x3b) : (property ((groupPieces g).flatten ++ s ++ t)).name = s := by
  obtain ⟨-, hsemi, hdot⟩ := token_plain hs
  cases g with
  | none =>
    have hhead : (groupPieces none).flatten ++ s = s := rfl
    rw [hhead, property_field hsemi ht, if_neg hdot]
  | some g =>
    obtain ⟨-, hgsemi, hgdot⟩ := token_plain (by simpa using hg : token (some g) = true)
    have hhead : (groupPieces (some g)).flatten ++ s = g ++ 0x2e :: s := by simp [groupPieces]
    have hall : ∀ c ∈ g, decide (c ≠ 0x2e) = true := by
      intro c hc
      simp only [ne_eq, decide_not, Bool.not_eq_true', decide_eq_false_iff_not]
      rintro rfl
      exact hgdot hc
    rw [hhead, property_field (by simp [hgsemi, hsemi]) ht, if_pos (by simp)]
    dsimp only
    rw [List.dropWhile_append_of_pos hall]
    simp

/-! ## Writable lines -/

/-- A head with a name that is writable in this kind of component. -/
def Writes (kind head : Bytes) : Prop :=
  ∃ pre, head = pre ++ [0x3a] ∧ (∀ v, colon false (pre ++ 0x3a :: v) = some (pre, v)) ∧
    allowed kind (property pre).name = true

theorem allowed_congr (h : sameLetters s t = true) : allowed kind s = allowed kind t := by
  have hm : s.map upper = t.map upper := by simpa [sameLetters] using h
  rw [allowed, allowed, hm]

theorem allowed_frame :
    allowed kind (ascii "BEGIN") = false ∧ allowed kind (ascii "END") = false := by
  unfold allowed fields
  split_ifs <;> decide +kernel

theorem property_word (hw : ∀ c ∈ w.map upper, c ≠ 0x3b ∧ c ≠ 0x2e) (h : sameLetters s w = true) :
    (property s).name = s := by
  have hm : s.map upper = w.map upper := by simpa [sameLetters] using h
  have hmem : ∀ c ∈ s, upper c ≠ 0x3b ∧ upper c ≠ 0x2e := by
    intro c hc
    exact hw (upper c) (hm ▸ List.mem_map_of_mem hc)
  have hsemi : 0x3b ∉ s := fun hc => (hmem _ hc).1 rfl
  have hdot : 0x2e ∉ s := fun hc => (hmem _ hc).2 rfl
  have hprop := property_field (t := []) hsemi (by simp)
  rw [List.append_nil, if_neg hdot] at hprop
  rw [hprop]

/-- **A line with a writable head** is a property of the component it stands in. -/
theorem Writes.classify {outer : List (Nat × Bytes)} (h : Writes kind head)
    (hf : f.stack = (number, kind) :: outer) (format : Format) (v : Bytes) :
    ∃ p, Resource.classify format f (head ++ v) = some (.property number kind p, f) ∧
      allowed kind p.name = true := by
  obtain ⟨pre, rfl, hcolon, hallowed⟩ := h
  have hline := hcolon v
  rw [List.append_assoc, List.singleton_append]
  have hword : ∀ w : Bytes, (∀ c ∈ w.map upper, c ≠ 0x3b ∧ c ≠ 0x2e) → allowed kind w = false →
      (∀ c ∈ w, upper c ≠ 0x22 ∧ upper c ≠ 0x3a) →
      startsWith (w ++ [0x3a]) (pre ++ 0x3a :: v) = false := by
    intro w hw hnot hplain
    by_contra hs
    have hsame := (startsWith_iff hplain hline).1 (by simpa using hs)
    rw [property_word hw hsame, allowed_congr hsame, hnot] at hallowed
    cases hallowed
  have hbegin : startsWith (ascii "BEGIN:") (pre ++ 0x3a :: v) = false :=
    hword (ascii "BEGIN") (by decide +kernel) allowed_frame.1 (by decide +kernel)
  have hend : startsWith (ascii "END:") (pre ++ 0x3a :: v) = false :=
    hword (ascii "END") (by decide +kernel) allowed_frame.2 (by decide +kernel)
  refine ⟨property pre, ?_, hallowed⟩
  unfold Resource.classify
  rw [if_neg (by simp), hline]
  simp [hbegin, hend, hf]

/-! ## What edits write is writable -/

theorem group_plain {g : Option Bytes} (hg : g.isNone || token g) :
    plain (groupPieces g).flatten = true := by
  cases g with
  | none => rfl
  | some g =>
    obtain ⟨hplain, -, -⟩ := token_plain (by simpa using hg : token (some g) = true)
    have hdot : plain [0x2e] = true := rfl
    simpa [groupPieces, plain_append, hplain] using hdot

theorem writes_of_parts {g : Option Bytes} {params : Bytes} (hg : g.isNone || token g)
    (hs : token (some s) = true) (hp : ∀ c ∈ params.head?, c = 0x3b)
    (hcolon : ∀ v, colon false (params ++ 0x3a :: v) = some (params, v))
    (ha : allowed kind s = true) :
    Writes kind ((groupPieces g).flatten ++ s ++ params ++ [0x3a]) := by
  refine ⟨(groupPieces g).flatten ++ s ++ params, rfl, fun v => ?_, ?_⟩
  · have hplain : plain ((groupPieces g).flatten ++ s) = true := by
      rw [plain_append, group_plain hg, (token_plain hs).1]
      rfl
    rw [List.append_assoc, colon_plain hplain, hcolon v]
    rfl
  · rw [property_name hg hs hp]
    exact ha

theorem colon_parameters (h : ∀ c ∈ s, isParameterChar c = true) (v : Bytes) :
    colon false ((parameterPieces s).flatten ++ 0x3a :: v) =
      some ((parameterPieces s).flatten, v) := by
  have hplain : plain (parameterPieces s).flatten = true := by
    unfold parameterPieces
    split
    · rfl
    · have hs : plain s = true := @plain_of_all s isParameterChar rfl rfl h
      have hsemi : plain [0x3b] = true := rfl
      simp only [List.flatten_cons, List.flatten_nil, List.append_nil]
      rw [plain_append, hsemi, hs]
      rfl
  rw [colon_plain hplain]
  simp [colon]

theorem parameterPieces_head : ∀ c ∈ (parameterPieces s).flatten.head?, c = 0x3b := by
  unfold parameterPieces
  split
  · simp
  · simp

theorem appendHead_writes (h : Proper format e) (ha : allowed kind (e.property.getD []) = true) :
    Writes kind e.appendHead.flatten := by
  obtain ⟨name, hname, htoken⟩ := h.property
  rw [hname] at ha
  have hchars : ∀ c ∈ e.parameters.getD [], isParameterChar c = true := by
    cases hq : e.parameters with
    | none => simp
    | some q => exact h.parameterChars hq
  have hwrites := writes_of_parts h.group htoken parameterPieces_head (colon_parameters hchars) ha
  simpa [Edit.appendHead, hname] using hwrites

theorem plain_of_token (h : ∀ c ∈ s, isTokenChar c = true) (hst : sameLetters s t = true) :
    plain t = true := by
  have hm : s.map upper = t.map upper := by simpa [sameLetters] using hst
  have hupper : ∀ c : UInt8, isTokenChar c = true → upper c ≠ 0x22 ∧ upper c ≠ 0x3a := by
    intro c
    obtain ⟨n, rfl⟩ : ∃ n : Fin 256, c = UInt8.ofFin n := ⟨c.toFin, rfl⟩
    revert n
    decide +kernel
  simp only [plain, List.all_eq_true, Bool.and_eq_true, ne_eq, decide_not, Bool.not_eq_true',
    decide_eq_false_iff_not]
  intro d hd
  obtain ⟨c, hc, hcd⟩ := List.mem_map.1 (hm ▸ List.mem_map_of_mem hd : upper d ∈ s.map upper)
  obtain ⟨h1, h2⟩ := hupper c (h c hc)
  rw [hcd] at h1 h2
  exact ⟨fun he => h1 (by rw [he]; rfl), fun he => h2 (by rw [he]; rfl)⟩

theorem property_params (head : Bytes) : ∀ c ∈ (property head).params.head?, c = 0x3b := by
  have hparams : (property head).params = head.dropWhile fun c => c ≠ 0x3b := by
    unfold property
    dsimp only
    split_ifs <;> rfl
  intro c hc
  have hnot := List.head?_dropWhile_not (fun c : UInt8 => decide (c ≠ 0x3b)) head
  rw [hparams] at hc
  rw [Option.mem_def.1 hc] at hnot
  simpa using hnot

theorem selects_params (h : Proper format e) (hs : e.selects number (property head) = true)
    (hcolon : colon false t = some (head, rest)) (v : Bytes) :
    colon false ((property head).params ++ 0x3a :: v) = some ((property head).params, v) := by
  obtain ⟨name, hname, htoken⟩ := h.property
  simp only [Edit.selects, hname, Option.getD_some, Bool.and_eq_true] at hs
  obtain ⟨⟨-, hsame⟩, hgroup⟩ := hs
  have hnplain : plain (property head).name = true := plain_of_token (token_some.1 htoken).2 hsame
  have hgplain : plain (property head).group = true := by
    have hg := h.group
    cases hge : e.group with
    | none =>
      rw [hge] at hgroup
      exact @plain_of_token [] _ (by simp) hgroup
    | some g =>
      rw [hge] at hgroup hg
      exact plain_of_token (token_some.1 (by simpa using hg)).2 hgroup
  have ht := colon_append hcolon
  -- the colon is found behind the parameters, and nothing before them quotes
  have hback : ∀ field : Bytes, plain field = true → head = field ++ (property head).params →
      colon false ((property head).params ++ 0x3a :: v) = some ((property head).params, v) := by
    intro field hf heq
    have hline := colon_prefix hcolon v
    rw [heq, List.append_assoc, colon_plain hf] at hline
    obtain ⟨⟨head', rest'⟩, hc, hr⟩ := Option.map_eq_some_iff.1 hline
    rw [Prod.mk.injEq, List.append_cancel_left_eq] at hr
    obtain ⟨rfl, rfl⟩ := hr
    exact hc
  obtain ⟨-, -, heq⟩ | heq := property_head head
  · exact hback _ hnplain heq
  · refine hback ((property head).group ++ 0x2e :: (property head).name) ?_ (by simpa using heq)
    have hdot : plain (0x2e :: (property head).name) = true := by
      simpa [plain] using hnplain
    rw [plain_append, hgplain, hdot]
    rfl

theorem replaceHead_writes (h : Proper format e) (hs : e.selects number (property head) = true)
    (hcolon : colon false t = some (head, rest)) (ha : allowed kind (e.property.getD []) = true)
    (hr : e.replacementProperty = none ∨ allowed kind (e.replacementProperty.getD []) = true) :
    Writes kind (e.replaceHead (property head)).flatten := by
  unfold Edit.replaceHead
  split_ifs with hnew
  · obtain ⟨name, hname, htoken, hallowed⟩ : ∃ s, e.replacementProperty.or e.property = some s ∧
        token (some s) = true ∧ allowed kind s = true := by
      cases hrp : e.replacementProperty with
      | none =>
        obtain ⟨s, hs, ht⟩ := h.property
        rw [hs] at ha
        exact ⟨s, hs, ht, ha⟩
      | some s =>
        have hrt := h.replacementProperty
        rw [hrp] at hrt hr
        exact ⟨s, rfl, by simpa using hrt, by simpa using hr⟩
    have hgroup : ((e.replacementGroup.or e.group).isNone ||
        token (e.replacementGroup.or e.group)) = true := by
      cases hrg : e.replacementGroup with
      | none => simpa using h.group
      | some s => simpa [hrg] using h.replacementGroup
    cases hq : e.parameters with
    | some q =>
      have hwrites := writes_of_parts hgroup htoken parameterPieces_head
        (colon_parameters (h.parameterChars hq)) hallowed
      simpa [hname] using hwrites
    | none =>
      have hwrites := writes_of_parts hgroup htoken (property_params head)
        (selects_params h hs hcolon) hallowed
      simpa [hname] using hwrites
  · have hprop : (property head).head = head := by
      unfold property
      dsimp only
      split_ifs <;> rfl
    rw [hprop]
    refine ⟨head, by simp, colon_prefix hcolon, ?_⟩
    simp only [Edit.selects, Bool.and_eq_true] at hs
    rwa [← allowed_congr hs.1.2]

/-! ## The structure of the reference -/

/-- The lines a patch must not touch: those that open or close a component, and properties that
are not writable in theirs. -/
def Role.fixed : Role → Bool
  | .blank => false
  | .opens | .closes _ _ => true
  | .property _ kind p => !allowed kind p.name

/-- A property that is writable in its component. -/
def Role.writable : Role → Bool
  | .property _ kind p => allowed kind p.name
  | _ => false

/-- **What an edit puts at its target** is read there as writable properties. -/
theorem lines_writable {f' : Frame} (h : Proper format e)
    (hc : classify format f m.line.text = some (m.role, f')) (hh : e.hits m.role = true)
    (hl : e.Lands m.role) : ∀ l ∈ e.lines m.role, ∃ role,
      classify format f l.text = some (role, f) ∧ role.writable = true := by
  obtain ⟨-, hrole, -⟩ | ⟨head, rest, hcolon, ⟨hrole, -⟩ |
    ⟨number, kind, outer, hstack, -, ⟨hrole, -⟩ | ⟨hrole, -⟩⟩⟩ := classify_cases hc
  · simp [hrole, Edit.lines]
  · simp [hrole, Edit.lines]
  · rw [hrole] at hl ⊢
    intro l hl'
    obtain rfl := List.mem_singleton.1 hl'
    obtain ⟨p, hp, ha⟩ := (appendHead_writes h hl.1).classify hstack format (e.value.getD [])
    exact ⟨_, hp, ha⟩
  · rw [hrole] at hl hh ⊢
    intro l hl'
    have hv : e.value.isSome = true := by
      by_contra hv
      simp [Edit.lines, hv] at hl'
    rw [Edit.lines, if_pos hv] at hl'
    obtain rfl := List.mem_singleton.1 hl'
    obtain ⟨p, hp, ha⟩ := (replaceHead_writes h hh hcolon hl.1 hl.2.1).classify hstack format
      (e.value.getD [])
    exact ⟨_, hp, ha⟩

theorem marks_append_same {ls : List Line} :
    ∀ {news : List Line}, (∀ l ∈ news, ∃ role, classify format f l.text = some (role, f) ∧
      role.writable = true) → marks format f ls = some (ms, g) →
    ∃ ns, marks format f (news ++ ls) = some (ns ++ ms, g) ∧ ∀ n ∈ ns, n.role.writable = true
  | [], _, h => ⟨[], h, by simp⟩
  | l :: news, hnews, h => by
    rw [List.forall_mem_cons] at hnews
    obtain ⟨⟨role, hc, hw⟩, hnews⟩ := hnews
    obtain ⟨ns, hns, hall⟩ := marks_append_same hnews h
    exact ⟨⟨l, role⟩ :: ns, marks_cons.2 ⟨role, f, _, hc, hns, rfl⟩, by simpa [hw] using hall⟩

theorem writable_not_fixed {role : Role} (h : role.writable = true) : role.fixed = false := by
  cases role with
  | property number kind p => simpa [Role.writable, Role.fixed] using h
  | _ => cases h

theorem target_writable {f' : Frame} (hc : classify format f m.line.text = some (m.role, f'))
    (hh : e.hits m.role = true) (hl : e.Lands m.role) (hclosed : m.role.closed = none) :
    f' = f ∧ m.role.fixed = false := by
  obtain ⟨-, hrole, -⟩ | ⟨head, rest, hcolon, ⟨hrole, -⟩ |
    ⟨number, kind, outer, hstack, -, ⟨hrole, -⟩ | ⟨hrole, -, hf⟩⟩⟩ := classify_cases hc
  · simp [hrole, Edit.hits] at hh
  · simp [hrole, Edit.hits] at hh
  · simp [hrole, Role.closed] at hclosed
  · refine ⟨hf, ?_⟩
    rw [hrole] at hh hl ⊢
    have hs : e.selects number (property head) = true := hh
    simp only [Edit.selects, Bool.and_eq_true] at hs
    have ha := hl.1
    rw [allowed_congr hs.1.2] at ha
    simp [Role.fixed, ha]

/-- **The reference has the structure of the base**: the same fixed lines in the same roles, and
new lines that are writable. -/
theorem marks_reference (hp : ∀ e ∈ edits, Proper format e)
    (hl : ∀ b m a, ms = b ++ m :: a → ∀ e ∈ edits, e.aims (before ++ b) m = true →
      e.Lands m.role) (hs : Single edits before ms) :
    ∀ {f : Frame}, marks format f (ms.map Mark.line) = some (ms, g) →
      ∃ rs, marks format f (reference edits before ms) = some (rs, g) ∧
        (rs.filter fun r => r.role.fixed) = (ms.filter fun m => m.role.fixed) ∧
        ∀ r ∈ rs, r ∈ ms ∨ r.role.writable = true := by
  induction ms generalizing before with
  | nil =>
    intro f h
    exact ⟨[], h, rfl, by simp⟩
  | cons m ms ih =>
    intro f h
    obtain ⟨role, f', ms', hc, hms, heq⟩ := marks_cons.1 h
    obtain ⟨hm, rfl⟩ := List.cons.inj heq
    obtain rfl : m.role = role := by rw [hm]
    have hl' : ∀ b x a, ms = b ++ x :: a → ∀ e ∈ edits, e.aims (before ++ [m] ++ b) x = true →
        e.Lands x.role := by
      intro b x a hx e he ha
      exact hl (m :: b) x a (by rw [hx]; rfl) e he (by simpa using ha)
    obtain ⟨rs, hrs, hfixed, hall⟩ := ih hl' hs.tail hms
    have hland : ∀ e ∈ edits, e.aims before m = true → e.hits m.role = true ∧ e.Lands m.role := by
      intro e he ha
      refine ⟨?_, hl [] m ms rfl e he (by simpa using ha)⟩
      simp only [Edit.aims, Bool.and_eq_true] at ha
      exact ha.1
    have hnew : ∀ e ∈ edits, e.aims before m = true → ∀ l ∈ e.lines m.role, ∃ role,
        classify format f l.text = some (role, f) ∧ role.writable = true := by
      intro e he ha
      obtain ⟨hh, hland⟩ := hland e he ha
      exact lines_writable (hp e he) hc hh hland
    rw [reference]
    obtain ⟨news, hrw, -, -, hin⟩ | ⟨l, hrw, -, hclosed, -, e, he, ha, hin⟩ |
      ⟨hrw, ⟨hclosed, e, he, ha, -⟩, -⟩ :=
      rewrite_fate before m (by simpa using hs [] m ms rfl)
    · -- the line stays, behind what is appended
      have hkeep : marks format f (m.line :: reference edits (before ++ [m]) ms) =
          some (m :: rs, g) := marks_cons.2 ⟨m.role, f', rs, hc, hrs, rfl⟩
      obtain ⟨ns, hns, hw⟩ := marks_append_same (fun l hl => by
        obtain ⟨e, he, ha, hl⟩ := hin l hl
        exact hnew e he ha l hl) hkeep
      refine ⟨ns ++ m :: rs, by rw [hrw, List.append_assoc]; exact hns, ?_, ?_⟩
      · have hnone : (ns.filter fun r => r.role.fixed) = [] :=
          List.filter_eq_nil_iff.2 fun n hn => by simp [writable_not_fixed (hw n hn)]
        rw [List.filter_append, hnone, List.nil_append, List.filter_cons, List.filter_cons, hfixed]
      · intro r hr
        obtain hr | hr := List.mem_append.1 hr
        · exact Or.inr (hw r hr)
        obtain rfl | hr := List.mem_cons.1 hr
        · exact Or.inl List.mem_cons_self
        · exact (hall r hr).imp_left (List.mem_cons_of_mem _)
    · -- the line is replaced
      obtain ⟨hh, hland⟩ := hland e he ha
      obtain ⟨rfl, hfix⟩ := target_writable hc hh hland hclosed
      have hsingle : ∀ x ∈ [l], ∃ role, classify format f' x.text = some (role, f') ∧
          role.writable = true := by simpa using hnew e he ha l hin
      obtain ⟨ns, hns, hw⟩ := marks_append_same hsingle hrs
      refine ⟨ns ++ rs, by rw [hrw]; exact hns, ?_, ?_⟩
      · have hnone : (ns.filter fun r => r.role.fixed) = [] :=
          List.filter_eq_nil_iff.2 fun n hn => by simp [writable_not_fixed (hw n hn)]
        rw [List.filter_append, hnone, List.nil_append, List.filter_cons, hfix, hfixed]
        rfl
      · intro r hr
        obtain hr | hr := List.mem_append.1 hr
        · exact Or.inr (hw r hr)
        · exact (hall r hr).imp_left (List.mem_cons_of_mem _)
    · -- the line is removed
      obtain ⟨hh, hland⟩ := hland e he ha
      obtain ⟨rfl, hfix⟩ := target_writable hc hh hland hclosed
      refine ⟨rs, by rw [hrw]; exact hrs, ?_, ?_⟩
      · rw [List.filter_cons, hfix, hfixed]
        rfl
      · intro r hr
        exact (hall r hr).imp_left (List.mem_cons_of_mem _)

end Resource
