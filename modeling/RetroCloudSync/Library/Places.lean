import Mathlib.Data.List.Basic

/-!
# Places in a list, and stable order

* `place_unique`: where a relation between an element and what stands before it cannot hold twice,
  it singles out one place of the list.
* `eq_of_buckets`: a list in order is determined by the elements it has under each key, in their
  order.
-/

set_option autoImplicit false

namespace Library

variable {α : Type}

/-- A place is found once where no two places of the list can both be meant. -/
theorem place_unique {R : List α → α → Prop} {l : List α}
    (hR : ∀ b m x m' a, l = b ++ m :: x ++ m' :: a → R b m → ¬ R (b ++ m :: x) m')
    {b a b' a' : List α} {m m' : α} (h : l = b ++ m :: a) (h' : l = b' ++ m' :: a')
    (hm : R b m) (hm' : R b' m') : b = b' ∧ m = m' ∧ a = a' := by
  rcases List.append_eq_append_iff.1 (h.symm.trans h') with ⟨x, hb, hx⟩ | ⟨x, hb, hx⟩
  · cases x with
    | nil => simp_all
    | cons y x =>
      obtain ⟨rfl, rfl⟩ : m = y ∧ a = x ++ m' :: a' := by simpa using hx
      subst hb
      exact absurd hm' (hR b m x m' a' h' hm)
  · cases x with
    | nil => simp_all
    | cons y x =>
      obtain ⟨rfl, rfl⟩ : m' = y ∧ a' = x ++ m :: a := by simpa using hx
      subst hb
      exact absurd hm (hR b' m' x m a h hm')

/-- A place in a list with one element more is the last place or a place before it. -/
theorem place_snoc {xs b a : List α} {x m : α} (h : xs ++ [x] = b ++ m :: a) :
    (b = xs ∧ m = x ∧ a = []) ∨ ∃ a', a = a' ++ [x] ∧ xs = b ++ m :: a' := by
  rcases List.eq_nil_or_concat a with rfl | ⟨a', y, rfl⟩
  · obtain ⟨hxs, hx⟩ := List.append_inj' h rfl
    exact Or.inl ⟨hxs.symm, (List.cons.inj hx).1.symm, rfl⟩
  · have h' : xs ++ [x] = (b ++ m :: a') ++ [y] := by simpa using h
    obtain ⟨hxs, hx⟩ := List.append_inj' h' rfl
    obtain rfl := (List.cons.inj hx).1
    exact Or.inr ⟨a', by simp, hxs⟩

section Order

variable {key : α → Nat}

/-- The elements under one key. -/
def bucket (key : α → Nat) (k : Nat) (l : List α) : List α := l.filter fun x => key x = k

theorem mem_bucket {k : Nat} {x : α} {l : List α} : x ∈ bucket key k l ↔ x ∈ l ∧ key x = k := by
  simp [bucket]

theorem bucket_eq_nil {k : Nat} {l : List α} : bucket key k l = [] ↔ ∀ x ∈ l, key x ≠ k := by
  simp [bucket]

theorem bucket_append (k : Nat) (l m : List α) :
    bucket key k (l ++ m) = bucket key k l ++ bucket key k m := List.filter_append ..

theorem bucket_cons (k : Nat) (x : α) (l : List α) :
    bucket key k (x :: l) = if key x = k then x :: bucket key k l else bucket key k l := by
  simp only [bucket, List.filter_cons]
  split <;> simp_all

/-- **A list in order is determined by its buckets.** -/
theorem eq_of_buckets : ∀ {l m : List α}, (l.Pairwise fun x y => key x ≤ key y) →
    (m.Pairwise fun x y => key x ≤ key y) → (∀ k, bucket key k l = bucket key k m) → l = m
  | [], [], _, _, _ => rfl
  | [], y :: m, _, _, h => by simpa [bucket] using h (key y)
  | x :: l, [], _, _, h => by simpa [bucket] using h (key x)
  | x :: l, y :: m, hl, hm, h => by
    rw [List.pairwise_cons] at hl hm
    have hyx : key y ≤ key x := by
      have hx : x ∈ bucket key (key x) (y :: m) := by
        rw [← h, bucket_cons, if_pos rfl]
        exact List.mem_cons_self
      obtain ⟨hmem, -⟩ := mem_bucket.1 hx
      obtain rfl | hmem := List.mem_cons.1 hmem
      · exact Nat.le_refl _
      · exact hm.1 x hmem
    have hxy : key x ≤ key y := by
      have hy : y ∈ bucket key (key y) (x :: l) := by
        rw [h, bucket_cons, if_pos rfl]
        exact List.mem_cons_self
      obtain ⟨hmem, -⟩ := mem_bucket.1 hy
      obtain rfl | hmem := List.mem_cons.1 hmem
      · exact Nat.le_refl _
      · exact hl.1 y hmem
    have hkey : key y = key x := Nat.le_antisymm hyx hxy
    have hhead := h (key x)
    rw [bucket_cons, bucket_cons, if_pos rfl, if_pos hkey, List.cons.injEq] at hhead
    obtain ⟨rfl, -⟩ := hhead
    congr 1
    refine eq_of_buckets hl.2 hm.2 fun k => ?_
    have hk := h k
    rw [bucket_cons, bucket_cons] at hk
    split_ifs at hk
    · exact List.tail_eq_of_cons_eq hk
    · exact hk

end Order

end Library
