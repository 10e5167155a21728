import Mathlib.Data.List.Forall2

/-!
# Steps that may fail

What is known when a computation in `Except` succeeded: its parts did, one after the other.

* `bind_ok`, `mapM_ok`, `foldlM_gather`: exactly when it succeeds, and with what.
* `foldlM_all`: an invariant of a loop, along the part of the list that is done.
-/

set_option autoImplicit false

namespace Library

variable {σ ε α β : Type}

theorem bind_ok {x : Except ε α} {k : α → Except ε β} {b : β} :
    x >>= k = Except.ok b ↔ ∃ a, x = Except.ok a ∧ k a = Except.ok b := by
  cases x with
  | error e => simp [bind, Except.bind]
  | ok a => simp [bind, Except.bind]

theorem mapM_ok {k : α → Except ε β} : ∀ {as : List α} {bs : List β},
    as.mapM k = .ok bs ↔ List.Forall₂ (fun a b => k a = .ok b) as bs
  | [], bs => by
    rw [List.mapM_nil, List.forall₂_nil_left_iff]
    exact ⟨fun h => (Except.ok.inj h).symm, fun h => h ▸ rfl⟩
  | a :: as, bs => by
    rw [List.mapM_cons, List.forall₂_cons_left_iff]
    constructor
    · intro h
      obtain ⟨b, hb, h⟩ := bind_ok.1 h
      obtain ⟨bs', hbs, h⟩ := bind_ok.1 h
      exact ⟨b, bs', hb, mapM_ok.1 hbs, (Except.ok.inj h).symm⟩
    · rintro ⟨b, bs', hb, hbs, rfl⟩
      exact bind_ok.2 ⟨b, hb, bind_ok.2 ⟨bs', mapM_ok.2 hbs, rfl⟩⟩

/-- Related lists have related elements. -/
theorem forall₂_mem {R : α → β → Prop} {as : List α} {bs : List β} (h : List.Forall₂ R as bs) :
    (∀ a ∈ as, ∃ b ∈ bs, R a b) ∧ ∀ b ∈ bs, ∃ a ∈ as, R a b := by
  induction h with
  | nil => simp
  | cons hab _ ih =>
    simp only [List.forall_mem_cons, List.exists_mem_cons_iff]
    exact ⟨⟨.inl hab, fun a ha => .inr (ih.1 a ha)⟩, .inl hab, fun b hb => .inr (ih.2 b hb)⟩

/-- What is gathered from a list whose elements must all be understood. -/
theorem foldlM_gather {p : α → Bool} {f : α → Except ε (Option β)} {as : List α} {l l' : List β} :
    as.foldlM (fun l a => if p a = true then do
        let found ← f a
        Except.ok (l ++ found.toList)
      else Except.ok l) l = Except.ok l' ↔
      ∃ founds, List.Forall₂ (fun a found => f a = Except.ok found) (as.filter p) founds ∧
        l' = l ++ founds.flatMap Option.toList := by
  induction as generalizing l with
  | nil =>
    simp only [List.foldlM_nil, List.filter_nil, List.forall₂_nil_left_iff]
    constructor
    · intro h
      cases h
      exact ⟨[], rfl, by simp⟩
    · rintro ⟨_, rfl, rfl⟩
      simp [pure, Except.pure]
  | cons a as ih =>
    rw [List.foldlM_cons]
    by_cases hp : p a = true
    · rw [if_pos hp, List.filter_cons_of_pos hp]
      cases hf : f a with
      | error e =>
        simp only [bind, Except.bind, reduceCtorEq, false_iff, not_exists, not_and]
        rintro founds (- | ⟨h, -⟩)
        rw [hf] at h
        cases h
      | ok found =>
        show List.foldlM _ (l ++ found.toList) as = Except.ok l' ↔ _
        rw [ih]
        constructor
        · rintro ⟨founds, hall, rfl⟩
          exact ⟨found :: founds, .cons hf hall, by simp⟩
        · rintro ⟨_, (- | ⟨h, hall⟩), rfl⟩
          rw [hf] at h
          cases h
          exact ⟨_, hall, by simp⟩
    · rw [if_neg hp, List.filter_cons_of_neg hp]
      exact ih

/-- An invariant of a loop over a list, along what is behind it. -/
theorem foldlM_keeps {f : σ → β → Except ε σ} {I : List β → σ → Prop}
    (hstep : ∀ l x s s', I l s → f s x = .ok s' → I (l ++ [x]) s') :
    ∀ (rest done : List β) {s s' : σ}, I done s → rest.foldlM f s = .ok s' → I (done ++ rest) s'
  | [], done, s, s', h, hs => by
    cases hs
    rwa [List.append_nil]
  | x :: rest, done, s, s', h, hs => by
    rw [List.foldlM_cons] at hs
    cases hx : f s x with
    | error e =>
      rw [hx] at hs
      cases hs
    | ok s₁ =>
      rw [hx] at hs
      have hall := foldlM_keeps hstep rest (done ++ [x]) (hstep done x s s₁ h hx) hs
      rwa [List.append_assoc] at hall

theorem foldlM_all {f : σ → β → Except ε σ} (I : List β → σ → Prop) {l : List β}
    {s s' : σ} (h : I [] s) (hs : l.foldlM f s = .ok s')
    (hstep : ∀ l x s s', I l s → f s x = .ok s' → I (l ++ [x]) s') : I l s' :=
  foldlM_keeps hstep l [] h hs

end Library
