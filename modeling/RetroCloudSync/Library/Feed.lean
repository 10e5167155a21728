import Mathlib.Logic.Basic

/-!
# Change feeds

`Feed κ ν τ`: a source that holds values under keys, changes as time goes by, and hands out tokens.
Who holds a token is owed what has changed since it was issued: `owes n v k`.

A copy `Agrees` at a token with the source when it has the right value under every key that the
source does not owe. Time does no harm to that (`agrees_later`). An `Answer` to the holder of a
token leads from it to the next token: who takes it over has what the holder of that token has
(`upto_taken`), though taking it over takes time, and may bring in values that are newer than the
answer (`Taken`). After an answer that owes nothing, or an `Inventory`, the copy is `Exact`: right
about everything that has stayed the same meanwhile (`exact_taken`, `exact_inventory`).
-/

set_option autoImplicit false

namespace Library

variable {κ ν τ : Type}

/-- What is held at each moment, and what the holder of a token has still to be told. -/
structure Feed (κ ν τ : Type) where
  holds : Nat → κ → Option ν
  issued : Nat → τ → Prop
  owes : Nat → τ → κ → Prop
  issued_later : ∀ {n m : Nat} {v : τ}, issued n v → n ≤ m → issued m v
  owes_later : ∀ {n m : Nat} {v : τ} {k : κ}, issued n v → n ≤ m → owes n v k → owes m v k
  owes_changed : ∀ {n m : Nat} {v : τ} {k : κ}, issued n v → n ≤ m → holds m k ≠ holds n k →
    owes m v k

namespace Feed

variable (F : Feed κ ν τ)

/-- What is owed at a token; without one it is all that there is. -/
def Owes (n : Nat) : Option τ → κ → Prop
  | none, k => F.holds n k ≠ none
  | some v, k => F.owes n v k

/-- The copy is right about everything that is not owed. -/
def Agrees (n : Nat) (since : Option τ) (copy : κ → Option ν) : Prop :=
  ∀ k, ¬ F.Owes n since k → copy k = F.holds n k

/-- Where `m` names a key, it says what is held there. -/
def Truthful (n : Nat) (m : List (κ × Option ν)) (k : κ) : Prop :=
  ∀ e ∈ m, e.1 = k → e.2 = F.holds n k

/-- An answer at time `n` to the holder of `since`, with the token `v`: what it neither says nor
owes at `v` was not owed before. -/
structure Answer (n : Nat) (since : Option τ) (v : τ) (m : List (κ × Option ν)) : Prop where
  issued : F.issued n v
  truthful : ∀ k, ¬ F.owes n v k → F.Truthful n m k
  complete : ∀ k, ¬ F.owes n v k → (∀ e ∈ m, e.1 ≠ k) → ¬ F.Owes n since k

/-- All that there is at time `n`. -/
structure Inventory (n : Nat) (m : List (κ × Option ν)) : Prop where
  truthful : ∀ k, F.Truthful n m k
  complete : ∀ k, F.holds n k ≠ none → ∃ e ∈ m, e.1 = k

/-- From time `n` to `n'` a copy has taken over `m`: under a key that `m` names there is what `m`
says or what was held at some moment in between, and the rest has not changed. -/
structure Taken (n n' : Nat) (m : List (κ × Option ν)) (copy copy' : κ → Option ν) : Prop where
  silent : ∀ k, (∀ e ∈ m, e.1 ≠ k) → copy' k = copy k
  told : ∀ k, (∃ e ∈ m, e.1 = k) → (∃ e ∈ m, e.1 = k ∧ copy' k = e.2) ∨
    ∃ i, n ≤ i ∧ i ≤ n' ∧ copy' k = F.holds i k

/-- From time `n` to `n'` nothing has happened under the key. -/
def Still (n n' : Nat) (k : κ) : Prop := ∀ i, n ≤ i → i ≤ n' → F.holds n' k = F.holds i k

/-- The copy is right about everything that has not changed since `n`. -/
def Exact (n n' : Nat) (copy : κ → Option ν) : Prop :=
  ∀ k, F.Still n n' k → copy k = F.holds n' k

/-- What the holder of a token has: with none, nothing. -/
def Upto (n : Nat) : Option τ → (κ → Option ν) → Prop
  | none, copy => copy = fun _ => none
  | some v, copy => F.issued n v ∧ F.Agrees n (some v) copy

variable {F} {n n' n'' : Nat} {since : Option τ} {v : τ} {m : List (κ × Option ν)}
  {copy copy' : κ → Option ν}

theorem agrees_empty : F.Agrees n none fun _ => none := by
  intro k hk
  have hnone : F.holds n k = none := by simpa [Owes] using hk
  rw [hnone]

/-- What is not owed has not changed since. -/
theorem holds_of_not_owes {i : Nat} {k : κ} (hi : F.issued n v) (hk : ¬ F.owes n' v k)
    (hle : n ≤ i) (hle' : i ≤ n') : F.holds n' k = F.holds i k := by
  refine Classical.byContradiction fun hne => hk ?_
  exact F.owes_changed (F.issued_later hi hle) hle' hne

theorem agrees_later (h : F.Agrees n (some v) copy) (hi : F.issued n v) (hle : n ≤ n') :
    F.Agrees n' (some v) copy := by
  intro k hk
  have hbefore : ¬ F.owes n v k := fun ho => hk (F.owes_later hi hle ho)
  have hsame : F.holds n' k = F.holds n k := holds_of_not_owes hi hk (Nat.le_refl n) hle
  rw [hsame]
  exact h k hbefore

theorem taken_nil : F.Taken n n' [] copy copy where
  silent _ _ := rfl
  told k h := by
    obtain ⟨e, he, -⟩ := h
    cases he

theorem Taken.later (h : F.Taken n n' m copy copy') (hle : n' ≤ n'') :
    F.Taken n n'' m copy copy' where
  silent := h.silent
  told k hk := by
    rcases h.told k hk with htold | ⟨i, hn, hn', hi⟩
    · exact .inl htold
    · exact .inr ⟨i, hn, Nat.le_trans hn' hle, hi⟩

/-- One more change is taken over. -/
theorem Taken.append {copy'' : κ → Option ν} {e : κ × Option ν} (h : F.Taken n n' m copy copy')
    (hother : ∀ k, k ≠ e.1 → copy'' k = copy' k)
    (hthis : copy'' e.1 = e.2 ∨ ∃ i, n ≤ i ∧ i ≤ n' ∧ copy'' e.1 = F.holds i e.1) :
    F.Taken n n' (m ++ [e]) copy copy'' where
  silent k hk := by
    have hne : k ≠ e.1 := fun he => hk e (by simp) he.symm
    rw [hother k hne]
    exact h.silent k fun x hx => hk x (by simp [hx])
  told k hk := by
    by_cases hke : k = e.1
    · subst hke
      rcases hthis with hsaid | hheld
      · exact .inl ⟨e, by simp, rfl, hsaid⟩
      · exact .inr hheld
    · rw [hother k hke]
      obtain ⟨x, hx, hxk⟩ := hk
      have hx : x ∈ m := by
        rcases List.mem_append.1 hx with hx | hx
        · exact hx
        · obtain rfl := List.mem_singleton.1 hx
          exact absurd hxk.symm hke
      rcases h.told k ⟨x, hx, hxk⟩ with ⟨y, hy, hyk, hsaid⟩ | hheld
      · exact .inl ⟨y, by simp [hy], hyk, hsaid⟩
      · exact .inr hheld

/-- A key whose value does not change while `m` is taken over has that value then. -/
theorem Taken.holds {k : κ} (h : F.Taken n n' m copy copy') (hm : F.Truthful n m k)
    (hle : n ≤ n') (hsame : ∀ i, n ≤ i → i ≤ n' → F.holds n' k = F.holds i k)
    (hk : ∃ e ∈ m, e.1 = k) : copy' k = F.holds n' k := by
  rcases h.told k hk with ⟨e, he, hek, hsaid⟩ | ⟨i, hn, hn', hheld⟩
  · rw [hsaid, hm e he hek, hsame n (Nat.le_refl n) hle]
  · rw [hheld, hsame i hn hn']

/-- **A copy made from an inventory** is right about everything that has not changed since. -/
theorem inventory_taken {k : κ} (ha : F.Inventory n m) (hle : n ≤ n')
    (ht : F.Taken n n' m (fun _ => none) copy')
    (hsame : ∀ i, n ≤ i → i ≤ n' → F.holds n' k = F.holds i k) : copy' k = F.holds n' k := by
  by_cases hnamed : ∃ e ∈ m, e.1 = k
  · exact ht.holds (ha.truthful k) hle hsame hnamed
  · have hnone : F.holds n k = none :=
      Classical.byContradiction fun hne => hnamed (ha.complete k hne)
    have hsilent : ∀ e ∈ m, e.1 ≠ k := fun e he hek => hnamed ⟨e, he, hek⟩
    rw [ht.silent k hsilent, hsame n (Nat.le_refl n) hle, hnone]

theorem Still.within {k : κ} {j : Nat} (h : F.Still n n'' k) (hn : n ≤ j) (hj : j ≤ n')
    (hle : n' ≤ n'') : F.Still j n' k := by
  intro i hi hi'
  rw [← h n' (by omega) hle]
  exact h i (by omega) (by omega)

theorem Exact.later (h : F.Exact n n' copy) (hn : n ≤ n') (hle : n' ≤ n'') :
    F.Exact n n'' copy := by
  intro k hk
  rw [h k (hk.within (Nat.le_refl n) hn hle), hk n' hn hle]

theorem Upto.agrees (h : F.Upto n since copy) : F.Agrees n since copy := by
  cases since with
  | none =>
    obtain rfl : copy = fun _ => none := h
    exact agrees_empty
  | some v => exact h.2

theorem Upto.later (h : F.Upto n since copy) (hle : n ≤ n') : F.Upto n' since copy := by
  cases since with
  | none => exact h
  | some v => exact ⟨F.issued_later h.1 hle, agrees_later h.2 h.1 hle⟩

/-- What an answer does not owe is right afterwards, unless it has changed meanwhile. -/
theorem Answer.taken {k : κ} (h : F.Agrees n since copy) (ha : F.Answer n since v m)
    (ht : F.Taken n n' m copy copy') (hle : n ≤ n') (hk : ¬ F.owes n v k)
    (hstill : F.Still n n' k) : copy' k = F.holds n' k := by
  by_cases hnamed : ∃ e ∈ m, e.1 = k
  · exact ht.holds (ha.truthful k hk) hle hstill hnamed
  · have hsilent : ∀ e ∈ m, e.1 ≠ k := fun e he hek => hnamed ⟨e, he, hek⟩
    rw [ht.silent k hsilent, h k (ha.complete k hk hsilent), hstill n (Nat.le_refl n) hle]

/-- **A copy that takes over an answer has what the holder of its token has.** -/
theorem upto_taken (h : F.Upto n since copy) (ha : F.Answer n since v m) (hle : n ≤ n')
    (ht : F.Taken n n' m copy copy') : F.Upto n' (some v) copy' := by
  refine ⟨F.issued_later ha.issued hle, fun k hk => ?_⟩
  have hbefore : ¬ F.owes n v k := fun ho => hk (F.owes_later ha.issued hle ho)
  exact ha.taken h.agrees ht hle hbefore fun i => holds_of_not_owes ha.issued hk

/-- An answer that owes nothing brings everything. -/
theorem exact_taken (h : F.Upto n since copy) (ha : F.Answer n since v m) (hle : n ≤ n')
    (hall : ∀ k, ¬ F.owes n v k) (ht : F.Taken n n' m copy copy') : F.Exact n n' copy' :=
  fun k hk => ha.taken h.agrees ht hle (hall k) hk

/-- So does an inventory, to who has nothing. -/
theorem exact_inventory (ha : F.Inventory n m) (hle : n ≤ n')
    (ht : F.Taken n n' m (fun _ => none) copy') : F.Exact n n' copy' :=
  fun _ hk => inventory_taken ha hle ht hk

end Feed

end Library
