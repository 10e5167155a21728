import Mathlib.Data.List.Basic

/-!
# Components behind a separator that can be escaped

A list over any alphabet with a separator and an escape character: `split` cuts it at the separators
that no escape character precedes, `join` puts components together again. A component is `Closed`
when it has no free separator and does not end in the middle of an escape (`dangling`).

* `split_parts`: all components but the last are closed.
* `split_join`: closed components in front of a last one are read back; `split_swallowed`: one that
  ends in the middle of an escape runs into the next.
* `split_flatMap`: reading commutes with an encoding that keeps the two characters to themselves.
-/

set_option autoImplicit false

namespace Library

namespace Escaped

section
variable {α : Type} {w v : List α} {ws : List (List α)}

/-- Characters before the first component. -/
def prepend (w : List α) : List (List α) → List (List α)
  | [] => [w]
  | x :: xs => (w ++ x) :: xs

theorem prepend_ne_nil : prepend w ws ≠ [] := by
  cases ws <;> simp [prepend]

theorem prepend_prepend (w v : List α) (h : ws ≠ []) :
    prepend w (prepend v ws) = prepend (w ++ v) ws := by
  cases ws with
  | nil => exact absurd rfl h
  | cons x xs => simp [prepend]

theorem prepend_eq_singleton (h : prepend w ws = [w ++ v]) (hne : ws ≠ []) : ws = [v] := by
  cases ws with
  | nil => exact absurd rfl hne
  | cons x xs => simpa [prepend] using h

theorem map_prepend {β : Type} (f : α → List β) (w : List α) (h : ws ≠ []) :
    (prepend w ws).map (List.flatMap f) = prepend (w.flatMap f) (ws.map (List.flatMap f)) := by
  cases ws with
  | nil => exact absurd rfl h
  | cons x xs => simp [prepend]

end

section
variable {α : Type} [DecidableEq α] (sep esc : α)

/-- Whether the next character is escaped, after `c`. -/
def after (escaped : Bool) (c : α) : Bool := !escaped && c = esc

/-- The components of a list whose first character is escaped or not. -/
def split : Bool → List α → List (List α)
  | _, [] => [[]]
  | escaped, c :: s =>
    if c = sep ∧ escaped = false then [] :: split false s
    else prepend [c] (split (after esc escaped c) s)

/-- Whether a list ends in the middle of an escape. -/
def dangling : Bool → List α → Bool
  | escaped, [] => escaped
  | escaped, c :: s => dangling (after esc escaped c) s

/-- The components with a separator between them. -/
def join : List (List α) → List α
  | [] => []
  | [w] => w
  | w :: v :: ws => w ++ sep :: join (v :: ws)

/-- No separator in `w` is free. -/
def One (e : Bool) (w : List α) : Prop := split sep esc e w = [w]

/-- A component that another one can follow. -/
structure Closed (w : List α) : Prop where
  one : One sep esc false w
  closed : dangling esc false w = false

variable {sep esc} {e : Bool} {s t w v : List α} {ws : List (List α)}

theorem split_ne_nil : split sep esc e s ≠ [] := by
  cases s with
  | nil => simp [split]
  | cons c s =>
    simp only [split]
    split
    · simp
    · exact prepend_ne_nil

theorem dangling_append (e : Bool) (s t : List α) :
    dangling esc e (s ++ t) = dangling esc (dangling esc e s) t := by
  induction s generalizing e with
  | nil => rfl
  | cons c s ih => simp only [List.cons_append, dangling, ih]

/-! ## One component -/

theorem one_nil : One sep esc e [] := rfl

theorem closed_nil : Closed sep esc [] := ⟨rfl, rfl⟩

/-- The first character of a component and the others. -/
theorem one_cons {c : α} : One sep esc e (c :: w) ↔
    ¬ (c = sep ∧ e = false) ∧ One sep esc (after esc e c) w := by
  unfold One
  simp only [split]
  split
  · rename_i h
    simp [h]
  · rename_i h
    simp only [h, not_false_eq_true, true_and]
    refine ⟨fun hw => prepend_eq_singleton (w := [c]) hw split_ne_nil, fun hw => ?_⟩
    simp [hw, prepend]

/-- A component in front of any text runs into its first component. -/
theorem split_append (h : One sep esc e w) :
    split sep esc e (w ++ t) = prepend w (split sep esc (dangling esc e w) t) := by
  induction w generalizing e with
  | nil =>
    cases hs : split sep esc e t with
    | nil => exact absurd hs split_ne_nil
    | cons x xs => simp [dangling, hs, prepend]
  | cons c w ih =>
    obtain ⟨hc, hw⟩ := one_cons.1 h
    simp only [List.cons_append, split, hc, if_false, dangling]
    rw [ih hw, prepend_prepend _ _ split_ne_nil]
    rfl

theorem One.append (h : One sep esc e w) (ht : One sep esc (dangling esc e w) t) :
    One sep esc e (w ++ t) := by
  unfold One at ht ⊢
  rw [split_append h, ht]
  rfl

theorem Closed.append (hw : Closed sep esc w) (hv : Closed sep esc v) :
    Closed sep esc (w ++ v) := by
  obtain ⟨hone, hclosed⟩ := hw
  refine ⟨hone.append (by rw [hclosed]; exact hv.one), ?_⟩
  rw [dangling_append, hclosed]
  exact hv.closed

/-- Characters that are neither the separator nor the escape character. -/
theorem one_plain (h : ∀ c ∈ w, c ≠ sep ∧ c ≠ esc) : One sep esc e w := by
  induction w generalizing e with
  | nil => rfl
  | cons c w ih =>
    have hc := h c List.mem_cons_self
    exact one_cons.2 ⟨fun he => hc.1 he.1, ih fun x hx => h x (List.mem_cons_of_mem c hx)⟩

theorem dangling_plain (h : ∀ c ∈ w, c ≠ esc) (hne : w ≠ []) : dangling esc e w = false := by
  induction w generalizing e with
  | nil => exact absurd rfl hne
  | cons c w ih =>
    have hc : after esc e c = false := by simp [after, h c List.mem_cons_self]
    simp only [dangling, hc]
    cases w with
    | nil => rfl
    | cons d w => exact ih (fun x hx => h x (List.mem_cons_of_mem c hx)) (by simp)

/-- A component that is not left in the middle of an escape ends at the separator. -/
theorem split_closed (h : One sep esc e w) (hd : dangling esc e w = false) :
    split sep esc e (w ++ sep :: s) = w :: split sep esc false s := by
  rw [split_append h, hd]
  simp [split, prepend]

/-- **A component that is left in the middle of an escape swallows the separator.** -/
theorem split_swallowed (h : One sep esc e w) (hd : dangling esc e w = true) :
    ∃ v vs, split sep esc e (w ++ sep :: s) = (w ++ sep :: v) :: vs := by
  rw [split_append h, hd]
  cases hs : split sep esc (after esc true sep) s with
  | nil => exact absurd hs split_ne_nil
  | cons v vs => exact ⟨v, vs, by simp [split, hs, prepend]⟩

/-! ## All components -/

variable (sep esc) in
/-- A list is one component, or has a closed one in front of its first free separator. -/
theorem one_or_cut (e : Bool) (s : List α) : One sep esc e s ∨
    ∃ w t, s = w ++ sep :: t ∧ One sep esc e w ∧ dangling esc e w = false := by
  induction s generalizing e with
  | nil => exact .inl rfl
  | cons c s ih =>
    by_cases hc : c = sep ∧ e = false
    · obtain ⟨rfl, rfl⟩ := hc
      exact .inr ⟨[], s, rfl, one_nil, rfl⟩
    · obtain h | ⟨w, t, rfl, hone, hd⟩ := ih (after esc e c)
      · exact .inl (one_cons.2 ⟨hc, h⟩)
      · exact .inr ⟨c :: w, t, rfl, one_cons.2 ⟨hc, hone⟩, hd⟩

variable (sep esc) in
/-- **Induction over the components of a list.** -/
theorem induct {P : List α → Prop} (last : ∀ s, One sep esc false s → P s)
    (more : ∀ w t, Closed sep esc w → P t → P (w ++ sep :: t)) (s : List α) : P s := by
  generalize hn : s.length = n
  induction n using Nat.strongRecOn generalizing s with
  | ind n ih =>
    obtain h | ⟨w, t, rfl, hone, hd⟩ := one_or_cut sep esc false s
    · exact last s h
    · simp only [List.length_append, List.length_cons] at hn
      exact more w t ⟨hone, hd⟩ (ih t.length (by omega) t rfl)

/-- **All components but the last are closed**, and the last ends as the list does. -/
theorem split_parts (hne : sep ≠ esc) (s : List α) : ∃ ws w, split sep esc false s = ws ++ [w] ∧
    (∀ x ∈ ws, Closed sep esc x) ∧ One sep esc false w ∧
      dangling esc false w = dangling esc false s := by
  induction s using induct sep esc with
  | last s h => exact ⟨[], s, h, by simp, h, rfl⟩
  | more w t h ih =>
    obtain ⟨ws, x, hs, hws, hx, hd⟩ := ih
    refine ⟨w :: ws, x, by rw [split_closed h.one h.closed, hs]; rfl, ?_, hx, ?_⟩
    · intro y hy
      obtain rfl | hy := List.mem_cons.1 hy
      · exact h
      · exact hws y hy
    · rw [hd, dangling_append, h.closed]
      simp [dangling, after, hne]

/-- Closed components in front of others. -/
theorem split_join_append (h : ∀ w ∈ ws, Closed sep esc w) {vs : List (List α)} (hne : vs ≠ []) :
    split sep esc false (join sep (ws ++ vs)) = ws ++ split sep esc false (join sep vs) := by
  induction ws with
  | nil => rfl
  | cons w ws ih =>
    have hw := h w List.mem_cons_self
    obtain ⟨x, xs, hx⟩ := List.exists_cons_of_ne_nil (show ws ++ vs ≠ [] by simp [hne])
    rw [List.cons_append, hx, join, split_closed hw.one hw.closed, ← hx,
      ih fun y hy => h y (List.mem_cons_of_mem w hy)]
    rfl

/-- **Components are read back.** -/
theorem split_join (h : ∀ w ∈ ws, Closed sep esc w) (hv : One sep esc false v) :
    split sep esc false (join sep (ws ++ [v])) = ws ++ [v] := by
  rw [split_join_append h (List.cons_ne_nil v []), join, hv]

/-- The same, component by component. -/
theorem split_join_getElem {ws : List (List α)} (hne : ws ≠ [])
    (hone : ∀ (i : Nat) w, ws[i]? = some w → One sep esc false w)
    (hclosed : ∀ (i : Nat) w, ws[i]? = some w → i + 1 < ws.length → dangling esc false w = false) :
    split sep esc false (join sep ws) = ws := by
  obtain ⟨vs, v, rfl⟩ : ∃ vs v, ws = vs ++ [v] :=
    ⟨_, _, (List.dropLast_append_getLast hne).symm⟩
  refine split_join (fun w hw => ?_) (hone vs.length v (by simp))
  obtain ⟨i, hi, rfl⟩ := List.getElem_of_mem hw
  have hi' : (vs ++ [v])[i]? = some vs[i] := by
    rw [List.getElem?_append_left hi, List.getElem?_eq_getElem hi]
  exact ⟨hone i _ hi', hclosed i _ hi' (by simpa using hi)⟩

/-- The characters of a component are characters of the list. -/
theorem mem_split {c : α} (hw : w ∈ split sep esc e s) (hc : c ∈ w) : c ∈ s := by
  induction s generalizing e w with
  | nil =>
    rw [List.mem_singleton.1 hw] at hc
    cases hc
  | cons d s ih =>
    simp only [split] at hw
    split at hw
    · obtain rfl | hw := List.mem_cons.1 hw
      · cases hc
      · exact List.mem_cons_of_mem d (ih hw hc)
    · cases hs : split sep esc (after esc e d) s with
      | nil => exact absurd hs split_ne_nil
      | cons x xs =>
        rw [hs] at hw
        obtain rfl | hw := List.mem_cons.1 hw
        · obtain rfl | hc := List.mem_cons.1 hc
          · exact List.mem_cons_self
          · have hx : x ∈ split sep esc (after esc e d) s := hs ▸ List.mem_cons_self
            exact List.mem_cons_of_mem d (ih hx hc)
        · have hx : w ∈ split sep esc (after esc e d) s := hs ▸ List.mem_cons_of_mem x hw
          exact List.mem_cons_of_mem d (ih hx hc)

end

/-! ## Encodings -/

section
variable {α β : Type} [DecidableEq α] [DecidableEq β] {sep esc : α} {sep' esc' : β}
  {f : α → List β}

/-- An encoding that writes the two characters as two characters, and no other with them. -/
structure Keeps (sep esc : α) (sep' esc' : β) (f : α → List β) : Prop where
  separator : f sep = [sep']
  escape : f esc = [esc']
  other : ∀ c, c ≠ sep → c ≠ esc → f c ≠ [] ∧ ∀ x ∈ f c, x ≠ sep' ∧ x ≠ esc'

/-- A character is encoded as one component, which is left as the character leaves it. -/
theorem Keeps.char (h : Keeps sep esc sep' esc' f) (hne' : sep' ≠ esc')
    {c : α} {e : Bool} (hc : ¬ (c = sep ∧ e = false)) :
    One sep' esc' e (f c) ∧ dangling esc' e (f c) = after esc e c := by
  by_cases hs : c = sep
  · have he : e = true := by simpa [hs] using hc
    rw [hs, he, h.separator]
    exact ⟨one_cons.2 ⟨by simp, one_nil⟩, by simp [dangling, after]⟩
  · by_cases hx : c = esc
    · rw [hx, h.escape]
      exact ⟨one_cons.2 ⟨fun hh => hne' hh.1.symm, one_nil⟩, by simp [dangling, after]⟩
    · obtain ⟨hnil, hall⟩ := h.other c hs hx
      exact ⟨one_plain hall, by simp [dangling_plain (fun x hm => (hall x hm).2) hnil, after, hx]⟩

/-- **Reading an encoded list.** -/
theorem split_flatMap (h : Keeps sep esc sep' esc' f) (hne' : sep' ≠ esc') (e : Bool)
    (s : List α) :
    split sep' esc' e (s.flatMap f) = (split sep esc e s).map (List.flatMap f) := by
  induction s generalizing e with
  | nil => rfl
  | cons c s ih =>
    rw [List.flatMap_cons, split]
    split
    · rename_i hc
      rw [hc.1, hc.2, h.separator, List.singleton_append, split, if_pos ⟨rfl, rfl⟩, ih]
      rfl
    · rename_i hc
      obtain ⟨hone, hd⟩ := h.char hne' hc
      rw [split_append hone, hd, ih, map_prepend _ _ split_ne_nil, List.flatMap_singleton]

theorem dangling_flatMap (h : Keeps sep esc sep' esc' f) (hne : sep ≠ esc) (hne' : sep' ≠ esc')
    (e : Bool) (s : List α) : dangling esc' e (s.flatMap f) = dangling esc e s := by
  induction s generalizing e with
  | nil => rfl
  | cons c s ih =>
    rw [List.flatMap_cons, dangling_append, dangling]
    by_cases hc : c = sep ∧ e = false
    · rw [hc.1, hc.2, h.separator, ← ih]
      simp [dangling, after, hne, hne']
    · rw [(h.char hne' hc).2, ih]

end

end Escaped

end Library
