import RetroCloudSync.Library.Places
import RetroCloudSync.Resource.Heads

/-!
# What a patch means

The reference semantics of a list of edits, on the logical lines of the base. Every line gets its
`Role` from the component structure (`marks`); an edit aims at the line it replaces or removes, or
at the `END` line it appends before (`Edit.aims`); `reference` rewrites the lines one after the
other. Offsets, sorting and splicing do not occur in it.

* `aims_unique`: an edit aims at one line at most.
* `reference_one`, `reference_chain`: each line of the reference is one line, and neighbours meet.
-/

set_option autoImplicit false

namespace Resource

open Library Library.Text Journal

/-- A line of the base and its role. -/
structure Mark where
  line : Line
  role : Role
deriving DecidableEq, Repr

/-- The lines in their component structure, and the frame after them. -/
def marks (format : Format) : Frame → List Line → Option (List Mark × Frame)
  | f, [] => some ([], f)
  | f, l :: ls =>
    (classify format f l.text).bind fun c =>
      (marks format c.2 ls).map fun r => (⟨l, c.1⟩ :: r.1, r.2)

/-- The bytes before a mark. -/
def offset (ms : List Mark) : Nat := (join (ms.map Mark.line)).length

/-! ## Edits and their targets -/

/-- A line the edit appends at, or counts. -/
def Edit.hits (e : Edit) : Role → Bool
  | .blank | .opens => false
  | .closes number _ => e.appends number
  | .property number _ p => e.selects number p

/-- The edit's target: the `END` of its component, or the occurrence it names. -/
def Edit.aims (e : Edit) (before : List Mark) (m : Mark) : Bool :=
  e.hits m.role &&
    (e.occurrence = -1 || (before.countP fun x => e.hits x.role : Int) = e.occurrence)

/-- The line with this head and the edit's value. -/
def Edit.line (e : Edit) (head : List Bytes) : Line :=
  ⟨(e.write head).getD [], head.flatten ++ e.value.getD []⟩

/-- What an edit puts at its target. -/
def Edit.lines (e : Edit) : Role → List Line
  | .blank | .opens => []
  | .closes _ _ => [e.line e.appendHead]
  | .property _ _ p => if e.value.isSome then [e.line (e.replaceHead p)] else []

/-- One line of the base in the output: a property is replaced by what its edit writes, appended
lines come before an `END`, and everything else stays. -/
def rewrite (edits : List Edit) (before : List Mark) (m : Mark) : List Line :=
  match m.role, edits.filter fun e => e.aims before m with
  | .property .., e :: _ => e.lines m.role
  | _, aimed => aimed.flatMap (fun e => e.lines m.role) ++ [m.line]

/-- **The reference semantics**: the lines after a patch. -/
def reference (edits : List Edit) : List Mark → List Mark → List Line
  | _, [] => []
  | before, m :: ms => rewrite edits before m ++ reference edits (before ++ [m]) ms

/-- The edit may write at a line with this role, and its line can be folded. -/
def Edit.Lands (e : Edit) : Role → Prop
  | .blank | .opens => False
  | .closes _ kind => allowed kind (e.property.getD []) = true ∧ (e.write e.appendHead).isSome
  | .property _ kind p => allowed kind (e.property.getD []) = true ∧
      (e.replacementProperty = none ∨ allowed kind (e.replacementProperty.getD []) = true) ∧
      (e.value.isSome → (e.write (e.replaceHead p)).isSome)

variable {format : Format} {f g : Frame} {ls : List Line} {ms before a : List Mark} {m : Mark}
  {e : Edit} {edits : List Edit}

theorem offset_append (ms ns : List Mark) : offset (ms ++ ns) = offset ms + offset ns := by
  simp [offset, join_append]

theorem offset_snoc (ms : List Mark) (m : Mark) :
    offset (ms ++ [m]) = offset ms + m.line.raw.length := by
  simp [offset, join]

/-! ## Structure -/

theorem marks_cons {l : Line} : marks format f (l :: ls) = some (ms, g) ↔
    ∃ role f' ms', classify format f l.text = some (role, f') ∧
      marks format f' ls = some (ms', g) ∧ ms = ⟨l, role⟩ :: ms' := by
  simp only [marks, Option.bind_eq_some_iff, Option.map_eq_some_iff, Prod.exists, Prod.mk.injEq]
  constructor
  · rintro ⟨role, f', hc, ms', g', hm, rfl, rfl⟩
    exact ⟨role, f', ms', hc, hm, rfl⟩
  · rintro ⟨role, f', ms', hc, hm, rfl⟩
    exact ⟨role, f', hc, ms', g, hm, rfl, rfl⟩

theorem marks_lines : ∀ {f : Frame} {ls : List Line} {ms : List Mark},
    marks format f ls = some (ms, g) → ms.map Mark.line = ls
  | f, [], ms, h => by
    have hms : [] = ms ∧ f = g := by simpa [marks] using h
    simp [← hms.1]
  | f, l :: ls, ms, h => by
    obtain ⟨role, f', ms', -, hm, rfl⟩ := marks_cons.1 h
    simp [marks_lines hm]

theorem marks_classified : ∀ {f : Frame} {ls : List Line} {ms : List Mark},
    marks format f ls = some (ms, g) →
    ∀ m ∈ ms, ∃ f₁ f₂, classify format f₁ m.line.text = some (m.role, f₂)
  | f, [], ms, h, m, hm => by
    have hms : [] = ms ∧ f = g := by simpa [marks] using h
    simp [← hms.1] at hm
  | f, l :: ls, ms, h, m, hm => by
    obtain ⟨role, f', ms', hc, hms, rfl⟩ := marks_cons.1 h
    obtain rfl | hm := List.mem_cons.1 hm
    · exact ⟨f, f', hc⟩
    · exact marks_classified hms m hm

/-- **What a line can do** to the component structure. -/
theorem classify_cases {text : Bytes} {role : Role}
    (h : classify format f text = some (role, g)) :
    (text = [] ∧ role = .blank ∧ g = f) ∨
    (∃ head rest, colon false text = some (head, rest) ∧
      ((role = .opens ∧ startsWith (ascii "BEGIN:") text = true ∧
          g = { f with stack := (f.components, rest.map upper) :: f.stack,
                       components := f.components + 1 }) ∨
      (∃ number kind outer, f.stack = (number, kind) :: outer ∧
        startsWith (ascii "BEGIN:") text = false ∧
        ((role = .closes number kind ∧ startsWith (ascii "END:") text = true ∧
            g = { f with stack := outer, closed := outer = [] }) ∨
        (role = .property number kind (property head) ∧
            startsWith (ascii "END:") text = false ∧ g = f))))) := by
  unfold classify at h
  by_cases htext : text = []
  · rw [if_pos htext, Option.some.injEq, Prod.mk.injEq] at h
    exact Or.inl ⟨htext, h.1.symm, h.2.symm⟩
  rw [if_neg htext] at h
  right
  cases hcolon : colon false text with
  | none => simp [hcolon] at h
  | some c =>
    obtain ⟨head, rest⟩ := c
    refine ⟨head, rest, rfl, ?_⟩
    simp only [hcolon] at h
    by_cases hbegin : startsWith (ascii "BEGIN:") text = true
    · rw [if_pos hbegin] at h
      split_ifs at h
      rw [Option.some.injEq, Prod.mk.injEq] at h
      exact Or.inl ⟨h.1.symm, hbegin, h.2.symm⟩
    · rw [if_neg hbegin] at h
      right
      cases hstack : f.stack with
      | nil => simp [hstack] at h
      | cons top outer =>
        obtain ⟨number, kind⟩ := top
        refine ⟨number, kind, outer, rfl, by simpa using hbegin, ?_⟩
        simp only [hstack] at h
        split_ifs at h with hend hkind
        · rw [Option.some.injEq, Prod.mk.injEq] at h
          exact Or.inl ⟨h.1.symm, hend, h.2.symm⟩
        · rw [Option.some.injEq, Prod.mk.injEq] at h
          exact Or.inr ⟨h.1.symm, by simpa using hend, h.2.symm⟩

/-! ## One target for an edit -/

/-- The component a line closes. -/
def Role.closed : Role → Option Nat
  | .closes number _ => some number
  | _ => none

/-- The components a list of marks closes. -/
def closedNumbers (ms : List Mark) : List Nat := ms.filterMap fun m => m.role.closed

/-- Components are numbered in the order they open. -/
structure Numbered (f : Frame) : Prop where
  nodup : (f.stack.map Prod.fst).Nodup
  below : ∀ n ∈ f.stack.map Prod.fst, n < f.components

theorem closed_nodup : ∀ {f : Frame} {ls : List Line} {ms : List Mark}, Numbered f →
    marks format f ls = some (ms, g) → (closedNumbers ms).Nodup ∧
      ∀ n ∈ closedNumbers ms, n ∈ f.stack.map Prod.fst ∨ f.components ≤ n
  | f, [], ms, hf, h => by
    have hms : [] = ms ∧ f = g := by simpa [marks] using h
    simp [← hms.1, closedNumbers]
  | f, l :: ls, ms, hf, h => by
    obtain ⟨role, f', ms', hc, hm, rfl⟩ := marks_cons.1 h
    obtain ⟨-, rfl, rfl⟩ | ⟨head, rest, -, ⟨rfl, -, rfl⟩ |
      ⟨number, kind, outer, hstack, -, ⟨rfl, -, rfl⟩ | ⟨rfl, -, rfl⟩⟩⟩ := classify_cases hc
    · simpa [closedNumbers, Role.closed] using closed_nodup hf hm
    · have hf' : Numbered { f with
          stack := (f.components, rest.map upper) :: f.stack, components := f.components + 1 } := by
        refine ⟨?_, ?_⟩
        · simp only [List.map_cons, List.nodup_cons]
          exact ⟨fun hn => absurd (hf.below _ hn) (lt_irrefl _), hf.nodup⟩
        · intro n hn
          obtain rfl | hn := List.mem_cons.1 hn
          · exact Nat.lt_succ_self _
          · exact Nat.lt_succ_of_lt (hf.below n hn)
      obtain ⟨hnd, hmem⟩ := closed_nodup hf' hm
      have heq : closedNumbers (⟨l, .opens⟩ :: ms') = closedNumbers ms' := rfl
      rw [heq]
      refine ⟨hnd, fun n hn => ?_⟩
      obtain hn | hn := hmem n hn
      · obtain rfl | hn := List.mem_cons.1 hn
        · exact Or.inr le_rfl
        · exact Or.inl hn
      · exact Or.inr (Nat.le_of_succ_le hn)
    · have hnum := hf.nodup
      rw [hstack, List.map_cons, List.nodup_cons] at hnum
      have hf' : Numbered { f with stack := outer, closed := outer = [] } := by
        refine ⟨hnum.2, fun n hn => hf.below n ?_⟩
        rw [hstack]
        exact List.mem_cons_of_mem _ hn
      obtain ⟨hnd, hmem⟩ := closed_nodup hf' hm
      have heq : closedNumbers (⟨l, .closes number kind⟩ :: ms') = number :: closedNumbers ms' :=
        rfl
      have htop : number < f.components := hf.below number (by simp [hstack])
      rw [heq, hstack]
      refine ⟨List.nodup_cons.2 ⟨fun hn => ?_, hnd⟩, fun n hn => ?_⟩
      · obtain hn | hn := hmem number hn
        · exact hnum.1 hn
        · exact absurd htop (not_lt_of_ge hn)
      · obtain rfl | hn := List.mem_cons.1 hn
        · exact Or.inl List.mem_cons_self
        · exact (hmem n hn).imp (List.mem_cons_of_mem _) id
    · simpa [closedNumbers, Role.closed] using closed_nodup hf hm

theorem hits_closed {role : Role} (h : e.hits role = true) (ho : e.occurrence = -1) :
    role.closed = some e.component := by
  cases role with
  | blank => cases h
  | opens => cases h
  | closes number kind =>
    have hn : e.component = number := by
      have h' : e.appends number = true := h
      simp only [Edit.appends, Bool.and_eq_true, decide_eq_true_eq] at h'
      exact h'.1
    simp [Role.closed, hn]
  | property number kind p =>
    have h' : e.selects number p = true := h
    simp [Edit.selects, ho] at h'

/-- **An edit aims at one line at most.** -/
theorem aims_unique (hn : (closedNumbers ms).Nodup) {b b' a a' : List Mark} {m m' : Mark}
    (h : ms = b ++ m :: a) (h' : ms = b' ++ m' :: a') (hm : e.aims b m = true)
    (hm' : e.aims b' m' = true) : b = b' ∧ m = m' ∧ a = a' := by
  refine @place_unique _ (fun b m => e.aims b m = true) ms ?_ b a b' a' m m' h h' hm hm'
  intro b m x m' a hms hb hb'
  simp only [Edit.aims, Bool.and_eq_true, Bool.or_eq_true, decide_eq_true_eq] at hb hb'
  by_cases ho : e.occurrence = -1
  · -- two `END` lines of one component
    have h1 := hits_closed hb.1 ho
    have h2 := hits_closed hb'.1 ho
    rw [hms] at hn
    simp only [closedNumbers, List.filterMap_append, List.filterMap_cons, h1, h2] at hn
    simp [List.nodup_append] at hn
  · -- the occurrence has been passed
    have h1 := hb.2.resolve_left ho
    have h2 := hb'.2.resolve_left ho
    simp only [List.countP_append, List.countP_cons, hb.1, if_true] at h2
    omega

/-! ## The lines of the reference -/

/-- The first line of a resource opens its root, so it starts with no blank. -/
theorem marks_fresh {b : Bytes} (hf : f.stack = []) (h : marks format f (split b) = some (ms, g)) :
    startsBlank b = false := by
  by_contra hb
  have hb : startsBlank b = true := by simpa using hb
  cases hs : split b with
  | nil =>
    rw [split_eq_nil.1 hs] at hb
    cases hb
  | cons l ls =>
    rw [hs] at h
    obtain ⟨role, f', ms', hc, -, -⟩ := marks_cons.1 h
    have htext : l.text.head? = b.head? := text_of_blank hs hb
    have hblank : startsBlank l.text = true := by rwa [startsBlank, htext]
    obtain ⟨hnil, -, -⟩ | ⟨_, _, -, ⟨-, hbegin, -⟩ | ⟨_, _, _, hstack, -⟩⟩ := classify_cases hc
    · rw [hnil] at hblank
      cases hblank
    · rw [startsWith_fresh begin_token hbegin] at hblank
      cases hblank
    · rw [hf] at hstack
      cases hstack

theorem rewrite_cases (edits : List Edit) (before : List Mark) (m : Mark) :
    ∃ news kept, rewrite edits before m = news ++ kept ∧ (kept = [m.line] ∨ kept = []) ∧
      ∀ l ∈ news, ∃ e ∈ edits, e.aims before m = true ∧ l ∈ e.lines m.role := by
  have hmem : ∀ e ∈ edits.filter fun e => e.aims before m, e ∈ edits ∧ e.aims before m = true :=
    fun e he => List.mem_filter.1 he
  unfold rewrite
  split
  · rename_i hrole haimed
    rw [haimed] at hmem
    refine ⟨_, [], (List.append_nil _).symm, Or.inr rfl, fun l hl => ?_⟩
    obtain ⟨he, ha⟩ := hmem _ List.mem_cons_self
    exact ⟨_, he, ha, hl⟩
  · refine ⟨_, [m.line], rfl, Or.inl rfl, fun l hl => ?_⟩
    obtain ⟨e, he, hl⟩ := List.mem_flatMap.1 hl
    exact ⟨e, (hmem e he).1, (hmem e he).2, hl⟩

theorem lines_fresh (hp : Proper format e) (hc : classify format f m.line.text = some (m.role, g))
    (hun : unbroken m.line.text = true) (hh : e.hits m.role = true) (hl : e.Lands m.role) :
    ∀ l ∈ e.lines m.role, Fresh l := by
  have hwrite : ∀ head, Head head.flatten → (e.write head).isSome → Fresh (e.line head) := by
    intro head hhead hw
    obtain ⟨r, hr⟩ := Option.isSome_iff_exists.1 hw
    have hfresh := write_fresh hp hhead hr
    simpa [Edit.line, hr] using hfresh
  cases hrole : m.role with
  | blank => simp [Edit.lines]
  | opens => simp [Edit.lines]
  | closes number kind =>
    rw [hrole] at hl
    simp only [Edit.lines, List.mem_singleton, forall_eq]
    exact hwrite _ (appendHead_head hp) hl.2
  | property number kind p =>
    rw [hrole] at hl hh hc
    obtain ⟨head, hhead, hpr⟩ : ∃ head, unbroken head = true ∧ p = property head := by
      obtain ⟨-, h, -⟩ | ⟨head, rest, hcolon, ⟨h, -⟩ | ⟨_, _, _, -, -, ⟨h, -⟩ | ⟨h, -⟩⟩⟩ :=
        classify_cases hc
      · cases h
      · cases h
      · cases h
      · refine ⟨head, ?_, (Role.property.inj h).2.2⟩
        have htext := colon_append hcolon
        rw [htext, unbroken_append, Bool.and_eq_true] at hun
        exact hun.1
    subst hpr
    simp only [Edit.lines]
    split_ifs with hv
    · simp only [List.mem_singleton, forall_eq]
      exact hwrite _ (replaceHead_head hp hhead hh) (hl.2.2 hv)
    · simp

/-- What holds of every line that is written, and of every line of the base, holds of the
reference. -/
theorem mem_reference {Q : Line → Prop}
    (hnew : ∀ b m a, before ++ ms = b ++ m :: a → ∀ e ∈ edits, e.aims b m = true →
      ∀ l ∈ e.lines m.role, Q l)
    (hold : ∀ m ∈ ms, Q m.line) : ∀ l ∈ reference edits before ms, Q l := by
  induction ms generalizing before with
  | nil => simp [reference]
  | cons m ms ih =>
    intro l hl
    obtain hl | hl := List.mem_append.1 hl
    · obtain ⟨news, kept, heq, hkept, hnews⟩ := rewrite_cases edits before m
      rw [heq] at hl
      obtain hl | hl := List.mem_append.1 hl
      · obtain ⟨e, he, ha, hl⟩ := hnews l hl
        exact hnew before m ms rfl e he ha l hl
      · obtain rfl | rfl := hkept
        · rw [List.mem_singleton.1 hl]
          exact hold m List.mem_cons_self
        · cases hl
    · exact @ih (before ++ [m]) (by simpa using hnew)
        (fun x hx => hold x (List.mem_cons_of_mem _ hx)) l hl

theorem chain_append {as bs : List Line}
    (has : ∀ l ∈ as, startsBlank l.raw = false ∧ endsBreak l.raw = true)
    (hbs : ∀ l ∈ bs, startsBlank l.raw = false)
    (h : bs.IsChain fun l m => Meets l.raw m.raw) :
    (as ++ bs).IsChain fun l m => Meets l.raw m.raw := by
  induction as with
  | nil => exact h
  | cons l as ih =>
    have ih := ih fun x hx => has x (List.mem_cons_of_mem _ hx)
    have hall : ∀ x ∈ as ++ bs, startsBlank x.raw = false := by
      intro x hx
      obtain hx | hx := List.mem_append.1 hx
      · exact (has x (List.mem_cons_of_mem _ hx)).1
      · exact hbs x hx
    rw [List.cons_append]
    cases hab : as ++ bs with
    | nil => simp
    | cons y ys =>
      rw [hab] at ih hall
      exact List.isChain_cons_cons.2
        ⟨⟨(has l List.mem_cons_self).2, hall y List.mem_cons_self⟩, ih⟩

/-- **Neighbours of the reference meet**: no line continues the one before it. -/
theorem reference_chain (hchain : (ms.map Mark.line).IsChain fun l m => Meets l.raw m.raw)
    (hold : ∀ m ∈ ms, startsBlank m.line.raw = false)
    (hnew : ∀ b m a, before ++ ms = b ++ m :: a → ∀ e ∈ edits, e.aims b m = true →
      ∀ l ∈ e.lines m.role, Fresh l) :
    (reference edits before ms).IsChain fun l m => Meets l.raw m.raw := by
  induction ms generalizing before with
  | nil => simp [reference]
  | cons m ms ih =>
    have hnew' : ∀ b x a, (before ++ [m]) ++ ms = b ++ x :: a → ∀ e ∈ edits, e.aims b x = true →
        ∀ l ∈ e.lines x.role, Fresh l := by simpa using hnew
    have hrest : ∀ l ∈ reference edits (before ++ [m]) ms, startsBlank l.raw = false :=
      mem_reference (fun b x a h e he ha l hl => (hnew' b x a h e he ha l hl).starts.1)
        fun x hx => hold x (List.mem_cons_of_mem _ hx)
    have hm : startsBlank m.line.raw = false := hold m List.mem_cons_self
    have ih := ih (List.IsChain.tail hchain)
      (fun x hx => hold x (List.mem_cons_of_mem _ hx)) hnew'
    -- the line of the base itself
    have hkeep : (m.line :: reference edits (before ++ [m]) ms).IsChain
        fun l m => Meets l.raw m.raw := by
      cases ms with
      | nil => simp [reference]
      | cons x ms =>
        have hmeets := (List.isChain_cons_cons.1 hchain).1
        have hfirst : ∀ l ∈ [m.line], startsBlank l.raw = false ∧ endsBreak l.raw = true := by
          simpa using ⟨hm, hmeets.ended⟩
        exact chain_append hfirst hrest ih
    obtain ⟨news, kept, heq, hkept, hnews⟩ := rewrite_cases edits before m
    rw [reference, heq, List.append_assoc]
    refine chain_append ?_ ?_ ?_
    · intro l hl
      obtain ⟨e, he, ha, hl⟩ := hnews l hl
      have hfresh := hnew before m ms rfl e he ha l hl
      exact ⟨hfresh.starts.1, hfresh.ends.1⟩
    · obtain rfl | rfl := hkept
      · simpa using ⟨hm, hrest⟩
      · simpa using hrest
    · obtain rfl | rfl := hkept
      · exact hkeep
      · exact ih

end Resource
