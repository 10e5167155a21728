import Mathlib.Data.List.Basic

/-!
# A versioned register

`Register τ α β`: one resource of a server that tags every version it stores with a tag it never
used before. Its history lists the changes that took effect, newest first, each with its author,
the version it replaced and the version it left.

- `Register.at_most_once`: no version is ever replaced twice. A client that only replaces the
  version tagged `t` therefore takes effect at most once, however often it tries.
- `Register.removed_between`: between two changes that found the resource absent somebody removed
  it.
-/

set_option autoImplicit false

namespace Library

/-- What a conditional request asks of the resource: `If-Match` or `If-None-Match: *`. -/
inductive Cond (τ : Type)
  | tagged (t : τ)
  | absent
deriving DecidableEq

/-- A stored version. -/
structure Version (τ β : Type) where
  tag : τ
  body : β

/-- A change that took effect. -/
structure Change (τ α β : Type) where
  author : α
  before : Option (Version τ β)
  after : Option (Version τ β)

variable {τ α β : Type}

def Cond.holds : Cond τ → Option (Version τ β) → Prop
  | tagged t, some v => v.tag = t
  | tagged _, none => False
  | absent, v => v = none

/-- The version left by a history that started from `init`. -/
def present (init : Option (Version τ β)) : List (Change τ α β) → Option (Version τ β)
  | [] => init
  | c :: _ => c.after

/-- The tags a history used, those of `seen` included. -/
def tags (seen : List τ) (h : List (Change τ α β)) : List τ :=
  h.filterMap (fun c => c.after.map Version.tag) ++ seen

/-- Each change starts from the version before it and stores a tag never used. -/
inductive Timeline (seen : List τ) (init : Option (Version τ β)) : List (Change τ α β) → Prop
  | start : Timeline seen init []
  | change {h : List (Change τ α β)} {c : Change τ α β} (past : Timeline seen init h)
      (before : c.before = present init h)
      (fresh : ∀ v, c.after = some v → v.tag ∉ tags seen h) : Timeline seen init (c :: h)

/-- The earlier part of a history is one. -/
theorem Timeline.suffix {seen : List τ} {init : Option (Version τ β)}
    {newer h : List (Change τ α β)} (hl : Timeline seen init (newer ++ h)) :
    Timeline seen init h := by
  induction newer with
  | nil => exact hl
  | cons _ _ ih =>
    cases hl with
    | change past => exact ih past

/-- A resource with its history since `init`; the tags used before are `seen`. -/
structure Register (τ α β : Type) where
  seen : List τ
  init : Option (Version τ β)
  history : List (Change τ α β)
  known : ∀ v, init = some v → v.tag ∈ seen
  timeline : Timeline seen init history

namespace Register

def current (r : Register τ α β) : Option (Version τ β) := present r.init r.history

/-- The tags that no version may get any more. -/
def used (r : Register τ α β) : List τ := tags r.seen r.history

/-- A change takes effect. -/
def change (r : Register τ α β) (author : α) (after : Option (Version τ β))
    (fresh : ∀ v, after = some v → v.tag ∉ r.used) : Register τ α β :=
  { r with history := ⟨author, r.current, after⟩ :: r.history
           timeline := .change r.timeline rfl fresh }

theorem change_history (r : Register τ α β) (author : α) (after : Option (Version τ β))
    (fresh : ∀ v, after = some v → v.tag ∉ r.used) :
    (r.change author after fresh).history = ⟨author, r.current, after⟩ :: r.history := rfl

/-- The current version is tagged with a used tag. -/
theorem present_used {seen : List τ} {init : Option (Version τ β)} {h : List (Change τ α β)}
    (hk : ∀ v, init = some v → v.tag ∈ seen) {v : Version τ β} (hv : present init h = some v) :
    v.tag ∈ tags seen h := by
  cases h with
  | nil => exact hk v hv
  | cons c h =>
    have hc : c.after = some v := hv
    simp [tags, hc]

/-- A version replaced once never comes back. -/
theorem not_replaced_again {seen : List τ} {init : Option (Version τ β)} {t : τ}
    {h : List (Change τ α β)} (hk : ∀ v, init = some v → v.tag ∈ seen)
    (hl : Timeline seen init h) {c : Change τ α β} (hc : c ∈ h)
    (ht : ∃ v, c.before = some v ∧ v.tag = t) :
    (∀ v, present init h = some v → v.tag ≠ t) ∧ t ∈ tags seen h := by
  induction hl with
  | start => cases hc
  | @change h d past before fresh ih =>
    have hused : t ∈ tags seen h := by
      rcases List.mem_cons.1 hc with rfl | hc
      · obtain ⟨v, hv, rfl⟩ := ht
        exact present_used hk (before.symm.trans hv)
      · exact (ih hc).2
    refine ⟨fun v hv he => fresh v hv (he ▸ hused), ?_⟩
    unfold tags at hused ⊢
    rw [List.filterMap_cons]
    split
    · exact hused
    · exact List.mem_append.2 ((List.mem_append.1 hused).imp_left (List.mem_cons_of_mem _))

/-- **At most once**: of the changes that replaced a version tagged `t` there is one at most. -/
theorem at_most_once {seen : List τ} {init : Option (Version τ β)} {h : List (Change τ α β)}
    (hk : ∀ v, init = some v → v.tag ∈ seen) (hl : Timeline seen init h) {t : τ}
    {p : Change τ α β → Bool}
    (hp : ∀ c ∈ h, p c = true → ∃ v, c.before = some v ∧ v.tag = t) : h.countP p ≤ 1 := by
  induction hl with
  | start => simp
  | @change h c past before fresh ih =>
    have hih := ih fun d hd => hp d (List.mem_cons_of_mem _ hd)
    by_cases hc : p c = true
    · have hnone : h.countP p = 0 := by
        rw [List.countP_eq_zero]
        intro d hd hpd
        obtain ⟨v, hv, he⟩ := hp c List.mem_cons_self hc
        exact (not_replaced_again hk past hd (hp d (List.mem_cons_of_mem _ hd) hpd)).1 v
          (before.symm.trans hv) he
      rw [List.countP_cons_of_pos hc]
      omega
    · rw [List.countP_cons_of_neg hc]
      exact hih

/-- A resource that was left and is absent now was removed since. -/
theorem removed_since {seen : List τ} {init : Option (Version τ β)}
    {mid older : List (Change τ α β)} {c : Change τ α β}
    (hl : Timeline seen init (mid ++ c :: older)) (hc : c.after ≠ none)
    (habs : present init (mid ++ c :: older) = none) :
    ∃ e ∈ mid, e.before ≠ none ∧ e.after = none := by
  induction mid with
  | nil => exact absurd habs hc
  | cons e mid ih =>
    cases hl with
    | change past before =>
      by_cases hb : e.before = none
      · obtain ⟨e', he', hrem⟩ := ih past (before.symm.trans hb)
        exact ⟨e', List.mem_cons_of_mem _ he', hrem⟩
      · exact ⟨e, List.mem_cons_self, hb, habs⟩

/-- **Somebody removed it**: between a change that left the resource and a later one that found
it absent, there is a removal. -/
theorem removed_between {r : Register τ α β} {newer mid older : List (Change τ α β)}
    {c d : Change τ α β} (hr : r.history = newer ++ d :: (mid ++ c :: older))
    (hc : c.after ≠ none) (hd : d.before = none) :
    ∃ e ∈ mid, e.before ≠ none ∧ e.after = none := by
  have hl : Timeline r.seen r.init (newer ++ d :: (mid ++ c :: older)) := hr ▸ r.timeline
  cases hl.suffix with
  | change past before => exact removed_since past hc (before.symm.trans hd)

end Register

end Library
