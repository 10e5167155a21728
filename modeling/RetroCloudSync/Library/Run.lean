import Mathlib.Logic.Relation

/-!
# Runs and their invariants

`Run init step l`: `l` is the list of states a run has visited, newest first. `Run.invariant` is
the induction rule for a property of the current state, `Run.history` the one for a property that
also speaks of the states before it.
-/

set_option autoImplicit false

namespace Library

variable {σ : Type}

/-- The states visited by a run, newest first. -/
inductive Run (init : σ → Prop) (step : σ → σ → Prop) : List σ → Prop
  | start {s : σ} (h : init s) : Run init step [s]
  | next {s t : σ} {past : List σ} (hr : Run init step (s :: past)) (h : step s t) :
      Run init step (t :: s :: past)

namespace Run

variable {init : σ → Prop} {step : σ → σ → Prop}

/-- What holds at first and along every step holds of a state together with its past. -/
theorem history {P : σ → List σ → Prop} (h0 : ∀ s, init s → P s [])
    (hs : ∀ s t past, P s past → step s t → P t (s :: past)) {s : σ} {past : List σ}
    (h : Run init step (s :: past)) : P s past := by
  generalize hl : s :: past = l at h
  induction h generalizing s past with
  | start h =>
    cases hl
    exact h0 _ h
  | next _ h ih =>
    cases hl
    exact hs _ _ _ (ih rfl) h

/-- What holds at first and along every step holds of every state reached. -/
theorem invariant {P : σ → Prop} (h0 : ∀ s, init s → P s) (hs : ∀ s t, P s → step s t → P t)
    {s : σ} {past : List σ} (h : Run init step (s :: past)) : P s :=
  history (P := fun s _ => P s) h0 (fun s t _ => hs s t) h

/-- A run may be continued along any further steps. -/
theorem extend {s t : σ} {past : List σ} (h : Run init step (s :: past))
    (ht : Relation.ReflTransGen step s t) : ∃ past', Run init step (t :: past') := by
  induction ht with
  | refl => exact ⟨past, h⟩
  | tail _ hs ih =>
    obtain ⟨past', hr⟩ := ih
    exact ⟨_, hr.next hs⟩

end Run

end Library
