import Mathlib.Data.List.Basic

/-!
# Searching composed text

Characters that a search takes for one another, and characters that go on with the sequence that the
one before begins: `TextSearch`. A match ends where a sequence does, so that whether a character is
found depends on the one behind it (`ahead`).

* `replace_one`: replacing one character is rewriting each character with what stands behind it
  (`mapped`).
* `mapped_mapped`: rewritings that leave the beginnings of sequences alone compose.
* `every`: what holds of every character with the one behind it.
-/

set_option autoImplicit false

namespace Library

/-- What a search makes of characters. -/
structure TextSearch (α : Type) where
  /-- The character looked for, and one that is taken for it. -/
  equivalent : α → α → Bool
  /-- It goes on with the sequence of the character before. -/
  continues : α → Bool

namespace TextSearch

variable {α β γ : Type} (k : TextSearch α)

/-- Whether the next character goes on with a sequence; `b` behind the end. -/
def ahead (b : Bool) : List α → Bool
  | [] => b
  | c :: _ => k.continues c

/-- The target stands at the front of a text, and ends where a sequence does. -/
def found : List α → List α → Bool
  | [], s => !k.ahead false s
  | _ :: _, [] => false
  | t :: ts, c :: s => k.equivalent t c && found ts s

/-- The rest of a text in which occurrences are replaced, of which `skip` characters belong to the
last one. -/
def replaceFrom (target replacement : List α) : Nat → List α → List α
  | _, [] => []
  | skip + 1, _ :: s => replaceFrom target replacement skip s
  | 0, c :: s =>
    if k.found target (c :: s) then
      replacement ++ replaceFrom target replacement (target.length - 1) s
    else c :: replaceFrom target replacement 0 s

/-- Every occurrence replaced. -/
def replace (target replacement s : List α) : List α := k.replaceFrom target replacement 0 s

/-- Each character rewritten, with whether the next one goes on with its sequence. -/
def mapped (f : Bool → α → List β) (b : Bool) : List α → List β
  | [] => []
  | c :: s => f (k.ahead b s) c ++ mapped f b s

/-- Each character has the property, with whether the next one goes on with its sequence. -/
def every (p : Bool → α → Bool) (b : Bool) : List α → Bool
  | [] => true
  | c :: s => p (k.ahead b s) c && every p b s

variable {k} {b : Bool} {s t : List α}

/-! ## Characters behind others -/

theorem ahead_append (b : Bool) (s t : List α) : k.ahead b (s ++ t) = k.ahead (k.ahead b t) s := by
  cases s <;> rfl

theorem mapped_append (f : Bool → α → List β) (b : Bool) (s t : List α) :
    k.mapped f b (s ++ t) = k.mapped f (k.ahead b t) s ++ k.mapped f b t := by
  induction s with
  | nil => rfl
  | cons c s ih => rw [List.cons_append, mapped, ih, ahead_append, mapped, List.append_assoc]

theorem every_mono {p q : Bool → α → Bool} (h : ∀ a c, p a c = true → q a c = true)
    (hs : k.every p b s = true) : k.every q b s = true := by
  induction s with
  | nil => rfl
  | cons c s ih =>
    simp only [every, Bool.and_eq_true] at hs ⊢
    exact ⟨h _ c hs.1, ih hs.2⟩

theorem every_and {p q : Bool → α → Bool} (hp : k.every p b s = true) (hq : k.every q b s = true) :
    k.every (fun a c => p a c && q a c) b s = true := by
  induction s with
  | nil => rfl
  | cons c s ih =>
    simp only [every, Bool.and_eq_true] at hp hq ⊢
    exact ⟨⟨hp.1, hq.1⟩, ih hp.2 hq.2⟩

/-- **The first character that does not have it.** -/
theorem every_false {p : Bool → α → Bool} (h : k.every p b s = false) :
    ∃ s₁ c s₂, s = s₁ ++ c :: s₂ ∧ k.every p (k.continues c) s₁ = true ∧
      p (k.ahead b s₂) c = false := by
  induction s with
  | nil => cases h
  | cons c s ih =>
    by_cases hc : p (k.ahead b s) c = true
    · rw [every, hc, Bool.true_and] at h
      obtain ⟨s₁, d, s₂, rfl, hs, hd⟩ := ih h
      refine ⟨c :: s₁, d, s₂, rfl, ?_, hd⟩
      rw [ahead_append] at hc
      rw [every, hs, Bool.and_true]
      exact hc
    · exact ⟨[], c, s, rfl, rfl, by simpa using hc⟩

theorem mapped_congr {f g : Bool → α → List β} (h : ∀ a, ∀ c ∈ s, f a c = g a c) :
    k.mapped f b s = k.mapped g b s := by
  induction s with
  | nil => rfl
  | cons c s ih =>
    rw [mapped, mapped, h _ c List.mem_cons_self, ih fun a d hd => h a d (List.mem_cons_of_mem c hd)]

theorem mem_mapped {f : Bool → α → List β} {x : β} (h : x ∈ k.mapped f b s) :
    ∃ a, ∃ c ∈ s, x ∈ f a c := by
  induction s with
  | nil => cases h
  | cons c s ih =>
    obtain h | h := List.mem_append.1 h
    · exact ⟨_, c, List.mem_cons_self, h⟩
    · obtain ⟨a, d, hd, hx⟩ := ih h
      exact ⟨a, d, List.mem_cons_of_mem c hd, hx⟩

/-! ## Replacing one character -/

/-- One character rewritten where it is found. -/
def single (k : TextSearch α) (x : α) (r : List α) (a : Bool) (c : α) : List α :=
  if k.equivalent x c && !a then r else [c]

/-- **One character is replaced where it is found.** -/
theorem replace_one (k : TextSearch α) (x : α) (r s : List α) :
    k.replace [x] r s = k.mapped (k.single x r) false s := by
  rw [replace]
  induction s with
  | nil => rfl
  | cons c s ih =>
    have hlen : [x].length - 1 = 0 := rfl
    simp only [replaceFrom, found, hlen, ih, mapped, single]
    split <;> rfl

/-! ## Rewriting twice -/

/-- A rewriting that goes on with a sequence exactly where the character does. -/
def Tame (k : TextSearch α) (f : Bool → α → List α) : Prop :=
  ∀ a c, ∃ d w, f a c = d :: w ∧ k.continues d = k.continues c

theorem tame_single {x d : α} {w : List α} (hx : ∀ c, k.equivalent x c = true → k.continues c = false)
    (hd : k.continues d = false) : k.Tame (k.single x (d :: w)) := by
  intro a c
  unfold single
  split
  · rename_i hc
    rw [Bool.and_eq_true] at hc
    exact ⟨d, w, rfl, hd.trans (hx c hc.1).symm⟩
  · exact ⟨c, [], rfl, rfl⟩

theorem ahead_mapped {f : Bool → α → List α} (hf : k.Tame f) (b : Bool) (s : List α) :
    k.ahead b (k.mapped f b s) = k.ahead b s := by
  cases s with
  | nil => rfl
  | cons c s =>
    obtain ⟨d, w, hd, hc⟩ := hf (k.ahead b s) c
    rw [mapped, hd]
    exact hc

/-- **Two rewritings are one.** -/
theorem mapped_mapped {f : Bool → α → List α} (hf : k.Tame f) (g : Bool → α → List β) (b : Bool)
    (s : List α) :
    k.mapped g b (k.mapped f b s) = k.mapped (fun a c => k.mapped g a (f a c)) b s := by
  induction s with
  | nil => rfl
  | cons c s ih => rw [mapped, mapped_append, ahead_mapped hf, ih, mapped]

end TextSearch

end Library
