import Mathlib.Data.Fintype.Basic
import RetroCloudSync.Resource.Read

/-!
# Heads of lines

What the checks of an edit say about the line it writes: its group, its name and its parameters
have no break in them, and the line starts with a character of a name (`appendHead_head`,
`replaceHead_head`). With `folded_fresh` the line is one line (`write_fresh`).
-/

set_option autoImplicit false

namespace Resource

open Library Library.Text Journal

/-- The characters of a `token`. -/
def isTokenChar (c : UInt8) : Bool := isAlphaNum c || c = 0x2d

/-- The characters of parameters. -/
def isParameterChar (c : UInt8) : Bool := isAlphaNum c || (ascii "=,;-_./").contains c

variable {p : UInt8 → Bool} {s t : Bytes} {e : Edit} {number : Nat}

theorem token_some : token (some s) = true ↔ s ≠ [] ∧ ∀ c ∈ s, isTokenChar c = true := by
  simp [token, isTokenChar]

theorem unbroken_of_all (hcr : p CR = false) (hlf : p LF = false) (h : ∀ c ∈ s, p c = true) :
    unbroken s = true := by
  simp only [unbroken, List.all_eq_true]
  intro c hc
  by_contra hb
  have hbreak : c = CR ∨ c = LF := by simpa [isBreak, or_iff_not_imp_left] using hb
  have hp := h c hc
  obtain rfl | rfl := hbreak
  · rw [hcr] at hp
    cases hp
  · rw [hlf] at hp
    cases hp

theorem token_unbroken (h : token (some s) = true) : unbroken s = true :=
  @unbroken_of_all isTokenChar s rfl rfl (token_some.1 h).2

/-- A head that can start a line. -/
structure Head (h : Bytes) : Prop where
  ne_nil : h ≠ []
  fresh : startsBlank h = false
  unbroken : Text.unbroken h = true

theorem Head.append (h : Head s) (ht : Text.unbroken t = true) : Head (s ++ t) := by
  obtain ⟨c, s, rfl⟩ := List.exists_cons_of_ne_nil h.ne_nil
  refine ⟨by simp, h.fresh, ?_⟩
  rw [unbroken_append, h.unbroken, ht]
  rfl

theorem Head.of_token (h : token (some s) = true) : Head s := by
  obtain ⟨hne, hall⟩ := token_some.1 h
  refine ⟨hne, ?_, token_unbroken h⟩
  obtain ⟨c, s, rfl⟩ := List.exists_cons_of_ne_nil hne
  by_contra hb
  have hblank : c = SP ∨ c = TAB := by
    simpa [startsBlank, isBlank, or_iff_not_imp_left] using hb
  have hc := hall c List.mem_cons_self
  obtain rfl | rfl := hblank <;> cases hc

theorem head_group {g : Option Bytes} (hg : g.isNone || token g) (h : token (some s) = true)
    (ht : Text.unbroken t = true) : Head ((groupPieces g).flatten ++ s ++ t) := by
  cases g with
  | none => simpa [groupPieces] using (Head.of_token h).append ht
  | some g =>
    have hg : Head g := Head.of_token (by simpa using hg)
    have hrest : Text.unbroken (0x2e :: s ++ t) = true := by
      have hdot : Text.unbroken [0x2e] = true := rfl
      rw [List.cons_append, ← List.singleton_append, unbroken_append, unbroken_append, hdot,
        token_unbroken h, ht]
      rfl
    simpa [groupPieces] using hg.append hrest

theorem parameterPieces_unbroken (h : ∀ c ∈ s, isParameterChar c = true) :
    Text.unbroken (parameterPieces s).flatten = true := by
  have hs : Text.unbroken s = true := @unbroken_of_all isParameterChar s rfl rfl h
  unfold parameterPieces
  split
  · rfl
  · have hsemi : Text.unbroken [0x3b] = true := rfl
    simp only [List.flatten_cons, List.flatten_nil, List.append_nil]
    rw [unbroken_append, hsemi, hs]
    rfl

/-! ## What the checks say -/

/-- An edit that passed its checks. -/
structure Proper (format : Format) (e : Edit) : Prop where
  names : properNames format e = true
  parameters : properParameters e = true

variable {format : Format}

theorem Proper.property (h : Proper format e) :
    ∃ s, e.property = some s ∧ token (some s) = true := by
  have hn := h.names
  simp only [properNames, Bool.and_eq_true] at hn
  have ht := hn.1.1.1.1.1.1
  cases hp : e.property with
  | none => simp [hp, token] at ht
  | some s => exact ⟨s, rfl, by rwa [hp] at ht⟩

theorem Proper.group (h : Proper format e) : (e.group.isNone || token e.group) = true := by
  have hn := h.names
  simp only [properNames, Bool.and_eq_true] at hn
  exact hn.1.1.1.1.1.2

theorem Proper.replacementProperty (h : Proper format e) :
    (e.replacementProperty.isNone || token e.replacementProperty) = true := by
  have hn := h.names
  simp only [properNames, Bool.and_eq_true] at hn
  exact hn.1.1.1.1.2

theorem Proper.replacementGroup (h : Proper format e) :
    (e.replacementGroup.isNone || token e.replacementGroup) = true := by
  have hn := h.names
  simp only [properNames, Bool.and_eq_true] at hn
  have hg := hn.1.1.1.2
  simp only [Bool.or_eq_true, Bool.and_eq_true] at hg ⊢
  exact hg.imp_right And.right

theorem Proper.value (h : Proper format e) : Text.unbroken (e.value.getD []) = true := by
  have hn := h.names
  simp only [properNames, Bool.and_eq_true] at hn
  exact hn.2

theorem Proper.appends (h : Proper format e) (ho : e.occurrence = -1) :
    e.replacementProperty = none ∧ e.value.isSome = true := by
  have hn := h.names
  simp only [properNames, Bool.and_eq_true] at hn
  have hv := hn.1.2
  simp only [ho, ne_eq, not_true_eq_false, decide_false, Bool.false_or, Bool.and_eq_true,
    Option.isNone_iff_eq_none] at hv
  exact ⟨hv.1.2, hv.2⟩

theorem Proper.parameterChars (h : Proper format e) {q : Bytes} (hq : e.parameters = some q) :
    ∀ c ∈ q, isParameterChar c = true := by
  have hp := h.parameters
  simp only [properParameters, hq, Bool.and_eq_true, List.all_eq_true] at hp
  exact hp.2

/-! ## The heads an edit writes -/

theorem upper_token : ∀ c : UInt8, isTokenChar c = true → isBlank (upper c) = false := by
  intro c
  obtain ⟨n, rfl⟩ : ∃ n : Fin 256, c = UInt8.ofFin n := ⟨c.toFin, rfl⟩
  revert n
  decide +kernel

theorem upper_blank : ∀ c : UInt8, isBlank c = true → upper c = c := by
  intro c hc
  have hcases : c = SP ∨ c = TAB := by simpa [isBlank] using hc
  obtain rfl | rfl := hcases <;> rfl

theorem startsBlank_of_token (h : token (some s) = true) (hst : sameLetters s t = true) :
    t ≠ [] ∧ startsBlank t = false := by
  obtain ⟨hne, hall⟩ := token_some.1 h
  obtain ⟨c, s, rfl⟩ := List.exists_cons_of_ne_nil hne
  cases t with
  | nil => simp [sameLetters] at hst
  | cons d t =>
    refine ⟨by simp, ?_⟩
    have hm : upper c = upper d := by
      simp only [sameLetters, List.map_cons, List.cons.injEq, decide_eq_true_eq] at hst
      exact hst.1
    by_contra hb
    have hblank : isBlank d = true := by simpa [startsBlank] using hb
    have hu := upper_token c (hall c List.mem_cons_self)
    rw [hm, upper_blank d hblank, hblank] at hu
    cases hu

theorem startsWith_fresh {word : Bytes} (hw : word ≠ [] ∧ ∀ c ∈ word.head?, isTokenChar c = true)
    (h : startsWith word s = true) : startsBlank s = false := by
  obtain ⟨c, word, rfl⟩ := List.exists_cons_of_ne_nil hw.1
  cases s with
  | nil => rfl
  | cons d s =>
    have hm : upper d = upper c := by
      simp only [startsWith, sameLetters, List.length_cons, List.take_succ_cons, List.map_cons,
        List.cons.injEq, decide_eq_true_eq] at h
      exact h.1
    by_contra hb
    have hblank : isBlank d = true := by simpa [startsBlank] using hb
    have hu := upper_token c (hw.2 c rfl)
    rw [← hm, upper_blank d hblank, hblank] at hu
    cases hu

theorem begin_token : ascii "BEGIN:" ≠ [] ∧ ∀ c ∈ (ascii "BEGIN:").head?, isTokenChar c = true := by
  decide +kernel

theorem property_head (head : Bytes) :
    ((property head).group = [] ∧ (0x2e ∉ head.takeWhile fun c => c ≠ 0x3b) ∧
      head = (property head).name ++ (property head).params) ∨
    (head = (property head).group ++ 0x2e :: (property head).name ++ (property head).params) := by
  have happ : (head.takeWhile fun c => c ≠ 0x3b) ++ (head.dropWhile fun c => c ≠ 0x3b) = head :=
    List.takeWhile_append_dropWhile
  unfold property
  dsimp only
  generalize hfield : (head.takeWhile fun c => c ≠ 0x3b) = field at *
  split_ifs with hdot
  · right
    have happ2 : (field.takeWhile fun c => c ≠ 0x2e) ++ (field.dropWhile fun c => c ≠ 0x2e) =
        field := List.takeWhile_append_dropWhile
    cases hd : field.dropWhile fun c => c ≠ 0x2e with
    | nil =>
      have hmem : (0x2e : UInt8) ∈ field.takeWhile fun c => c ≠ 0x2e := by
        rw [hd, List.append_nil] at happ2
        rwa [happ2]
      have hne := List.all_eq_true.1 List.all_takeWhile _ hmem
      simp at hne
    | cons d rest =>
      have hd' : d = 0x2e := by
        have h := List.head?_dropWhile_not (fun c : UInt8 => decide (c ≠ 0x2e)) field
        rw [hd] at h
        simpa using h
      subst hd'
      rw [hd] at happ2
      simp only [List.tail_cons]
      rw [happ2, happ]
  · left
    exact ⟨rfl, hdot, happ.symm⟩

theorem colon_append : ∀ {quoted : Bool} {line head rest : Bytes},
    colon quoted line = some (head, rest) → line = head ++ 0x3a :: rest
  | _, [], _, _, h => by simp [colon] at h
  | quoted, c :: line, head, rest, h => by
    simp only [colon] at h
    generalize (if c = 0x22 then !quoted else quoted) = q at h
    by_cases hc : c = 0x3a ∧ q = false
    · rw [if_pos hc, Option.some.injEq, Prod.mk.injEq] at h
      simp [← h.1, ← h.2, hc.1]
    · rw [if_neg hc] at h
      obtain ⟨⟨head', rest'⟩, hcolon, hs⟩ := Option.map_eq_some_iff.1 h
      rw [Prod.mk.injEq] at hs
      rw [← hs.1, ← hs.2, colon_append hcolon]
      rfl

/-- **The head of a property that an edit selects** can start a line. -/
theorem selects_head {head : Bytes} (h : Proper format e) (hun : Text.unbroken head = true)
    (hs : e.selects number (property head) = true) : Head head := by
  obtain ⟨name, hname, htoken⟩ := h.property
  simp only [Edit.selects, hname, Option.getD_some, Bool.and_eq_true] at hs
  obtain ⟨⟨⟨-, -⟩, hsame⟩, hgroup⟩ := hs
  suffices hhead : head ≠ [] ∧ startsBlank head = false from ⟨hhead.1, hhead.2, hun⟩
  obtain ⟨hne, hb⟩ := startsBlank_of_token htoken hsame
  obtain ⟨-, -, heq⟩ | heq := property_head head
  · obtain ⟨c, n, hn⟩ := List.exists_cons_of_ne_nil hne
    rw [heq, hn]
    rw [hn] at hb
    exact ⟨by simp, hb⟩
  · cases hg : (property head).group with
    | nil =>
      rw [heq, hg]
      exact ⟨by simp, rfl⟩
    | cons c g =>
      have hgt := h.group
      rw [hg] at hgroup
      cases hge : e.group with
      | none => simp [hge, sameLetters] at hgroup
      | some g' =>
        rw [hge] at hgroup hgt
        have hb' := startsBlank_of_token (by simpa using hgt) hgroup
        rw [heq, hg]
        exact ⟨by simp, hb'.2⟩

/-- The line an edit appends can start anywhere. -/
theorem appendHead_head (h : Proper format e) : Head e.appendHead.flatten := by
  obtain ⟨name, hname, htoken⟩ := h.property
  have hparams :
      Text.unbroken ((parameterPieces (e.parameters.getD [])).flatten ++ [0x3a]) = true := by
    have hp : Text.unbroken (parameterPieces (e.parameters.getD [])).flatten = true := by
      cases hq : e.parameters with
      | none => rfl
      | some q => exact parameterPieces_unbroken (h.parameterChars hq)
    rw [unbroken_append, hp]
    rfl
  simpa [Edit.appendHead, hname] using head_group h.group htoken hparams

/-- The line that replaces a property can start where the property does. -/
theorem replaceHead_head {head : Bytes} (h : Proper format e) (hun : Text.unbroken head = true)
    (hs : e.selects number (property head) = true) :
    Head (e.replaceHead (property head)).flatten := by
  have hcolon : Text.unbroken [0x3a] = true := rfl
  unfold Edit.replaceHead
  split_ifs with hnew
  · obtain ⟨name, hname, htoken⟩ : ∃ s, e.replacementProperty.or e.property = some s ∧
        token (some s) = true := by
      cases hr : e.replacementProperty with
      | none => simpa using h.property
      | some s =>
        have hrt := h.replacementProperty
        rw [hr] at hrt
        exact ⟨s, rfl, by simpa using hrt⟩
    have hgroup : ((e.replacementGroup.or e.group).isNone ||
        token (e.replacementGroup.or e.group)) = true := by
      cases hr : e.replacementGroup with
      | none => simpa using h.group
      | some s => simpa [hr] using h.replacementGroup
    have hparams : Text.unbroken
        (((e.parameters.map parameterPieces).getD [(property head).params]).flatten ++ [0x3a]) =
          true := by
      have hp : Text.unbroken
          ((e.parameters.map parameterPieces).getD [(property head).params]).flatten = true := by
        cases hq : e.parameters with
        | some q => exact parameterPieces_unbroken (h.parameterChars hq)
        | none =>
          have happ : (head.takeWhile fun c => c ≠ 0x3b) ++ (property head).params = head := by
            unfold property
            dsimp only
            split_ifs <;> exact List.takeWhile_append_dropWhile
          rw [← happ, unbroken_append, Bool.and_eq_true] at hun
          simpa using hun.2
      rw [unbroken_append, hp]
      rfl
    simpa [hname] using head_group hgroup htoken hparams
  · have hhead := (selects_head h hun hs).append hcolon
    have hprop : (property head).head = head := by
      unfold property
      dsimp only
      split_ifs <;> rfl
    simpa [hprop] using hhead

/-- **What an edit writes** under such a head is one line. -/
theorem write_fresh {head : List Bytes} {r : Bytes} (h : Proper format e)
    (hhead : Head head.flatten) (hw : e.write head = some r) :
    Fresh ⟨r, head.flatten ++ e.value.getD []⟩ := by
  obtain ⟨x, hx, hw⟩ := Option.bind_eq_some_iff.1 hw
  have hx : x = head.flatten := by simpa using addAll_eq hx
  subst hx
  refine folded_fresh hhead.ne_nil hhead.fresh ?_ hw
  rw [unbroken_append, hhead.unbroken, h.value]
  rfl

end Resource
