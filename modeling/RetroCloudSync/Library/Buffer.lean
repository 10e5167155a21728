import Mathlib.Data.List.Basic

/-!
# Blocks of memory

`Buffer`: a block of a fixed size that is written from its start, and never past its end: there is
no such buffer, and the write that would make one is `none`. `putAll_some` is the rule of a caller
that has counted its bytes.
-/

set_option autoImplicit false

namespace Library

structure Buffer where
  capacity : Nat
  data : List UInt8
  fits : data.length ≤ capacity

namespace Buffer

def empty (capacity : Nat) : Buffer := ⟨capacity, [], Nat.zero_le _⟩

/-- The next byte; `none` is a write past the end. -/
def put (b : Buffer) (c : UInt8) : Option Buffer :=
  if h : b.data.length < b.capacity then
    some ⟨b.capacity, b.data ++ [c], by
      simp only [List.length_append, List.length_singleton]
      omega⟩
  else none

/-- One byte after the other. -/
def putAll (b : Buffer) (cs : List UInt8) : Option Buffer := cs.foldlM put b

theorem put_some {b : Buffer} {c : UInt8} (h : b.data.length < b.capacity) :
    ∃ b', b.put c = some b' ∧ b'.data = b.data ++ [c] ∧ b'.capacity = b.capacity :=
  ⟨_, dif_pos h, rfl, rfl⟩

/-- **Bytes for which there is room are written.** -/
theorem putAll_some : ∀ {l : List UInt8} {b : Buffer}, b.data.length + l.length ≤ b.capacity →
    ∃ b', b.putAll l = some b' ∧ b'.data = b.data ++ l ∧ b'.capacity = b.capacity
  | [], b, _ => ⟨b, rfl, by simp, rfl⟩
  | c :: l, b, h => by
    rw [List.length_cons] at h
    obtain ⟨b₁, hput, hdata, hcap⟩ := put_some (b := b) (c := c) (by omega)
    have hlen : b₁.data.length + l.length ≤ b₁.capacity := by
      rw [hdata, hcap, List.length_append, List.length_singleton]
      omega
    obtain ⟨b', hall, hdata', hcap'⟩ := putAll_some hlen
    refine ⟨b', ?_, by simp [hdata', hdata], hcap'.trans hcap⟩
    simpa [putAll, List.foldlM_cons, hput] using hall

/-- What was written stands behind what there was. -/
theorem putAll_eq : ∀ {cs : List UInt8} {b b' : Buffer}, b.putAll cs = some b' →
    b'.data = b.data ++ cs ∧ b'.capacity = b.capacity
  | [], b, b', h => by
    cases h
    exact ⟨(List.append_nil _).symm, rfl⟩
  | c :: cs, b, b', h => by
    obtain ⟨b₁, hput, hall⟩ := Option.bind_eq_some_iff.1
      (show (b.put c).bind (fun b₁ => b₁.putAll cs) = some b' from h)
    obtain ⟨hdata, hcap⟩ := putAll_eq hall
    unfold put at hput
    split at hput
    · cases hput
      exact ⟨by simp [hdata], hcap⟩
    · cases hput

end Buffer

end Library
