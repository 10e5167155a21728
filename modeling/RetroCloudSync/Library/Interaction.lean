import Mathlib.Logic.Relation

/-!
# Programs that ask their surroundings

`Prog Q A ε α`: a program that asks questions `q : Q`, goes on with the answers `A q`, and ends by
returning an `α` or raising an `ε`. Nothing is said about who answers: `Turn ans` is one question
answered in a world where `ans w q a w'` allows it.

`Prog.wp ans may x Q E w`: from world `w` the program `x` only asks what `may` allows at that
moment, returns in `Q` and raises in `E`. `wp_bind`, `wp_rescue`, `wp_foldlM` and `wp_interpret`
take a program apart; `wp_turn` carries it through a run and `wp_asks` reads off what is asked on
the way.

`Prog.Leads ans x w y w'`: some run takes `x` in `w` to `y` in `w'`; runs are put together by
`leads_then` and `leads_foldlM`. `Prog.Asks` reaches a question that way. `Prog.left` lets a program
take part in a larger conversation.
-/

set_option autoImplicit false

namespace Library

/-- A program with questions `Q`, answers `A`, errors `ε` and results `α`. -/
inductive Prog (Q : Type) (A : Q → Type) (ε α : Type) : Type
  | ret (a : α)
  | raise (e : ε)
  | ask (q : Q) (k : A q → Prog Q A ε α)

namespace Prog

variable {Q : Type} {A : Q → Type} {ε α β W : Type}

def bind : Prog Q A ε α → (α → Prog Q A ε β) → Prog Q A ε β
  | ret a, f => f a
  | raise e, _ => raise e
  | ask q k, f => ask q fun a => bind (k a) f

instance : Monad (Prog Q A ε) where
  pure := ret
  bind := bind

/-- Go on with `f` where `x` raises. -/
def rescue {ε' : Type} : Prog Q A ε α → (ε → Prog Q A ε' α) → Prog Q A ε' α
  | ret a, _ => ret a
  | raise e, f => f e
  | ask q k, f => ask q fun a => rescue (k a) f

/-- The same program among surroundings that answer more. -/
def left {Q' : Type} {A' : Q' → Type} : Prog Q A ε α → Prog (Q ⊕ Q') (Sum.elim A A') ε α
  | ret a => ret a
  | raise e => raise e
  | ask q k => ask (.inl q) fun a => left (k a)

/-- The same program, its questions put to `h` and its errors raised as `f` says. -/
def interpret {Q' : Type} {A' : Q' → Type} {ε' : Type} (h : (q : Q) → Prog Q' A' ε' (A q))
    (f : ε → ε') : Prog Q A ε α → Prog Q' A' ε' α
  | ret a => ret a
  | raise e => raise (f e)
  | ask q k => (h q).bind fun a => interpret h f (k a)

/-! ## Weakest preconditions -/

section
variable (ans : W → (q : Q) → A q → W → Prop) (may : W → Q → Prop)

/-- From `w` the program asks only what it may, returns in `post` and raises in `exc`. -/
def wp : Prog Q A ε α → (α → W → Prop) → (ε → W → Prop) → W → Prop
  | ret a, post, _, w => post a w
  | raise e, _, exc, w => exc e w
  | ask q k, post, exc, w => may w q ∧ ∀ a w', ans w q a w' → wp (k a) post exc w'

/-- One question answered. -/
inductive Turn : Prog Q A ε α × W → Prog Q A ε α × W → Prop
  | answer {w w' : W} {q : Q} {k : A q → Prog Q A ε α} {a : A q} (h : ans w q a w') :
      Turn (ask q k, w) (k a, w')

end

section
variable {ans : W → (q : Q) → A q → W → Prop} {may : W → Q → Prop}
  {post : α → W → Prop} {exc : ε → W → Prop} {w : W}

theorem wp_ret {a : α} (h : post a w) : wp ans may (ret a) post exc w := h

theorem wp_pure {a : α} (h : post a w) : wp ans may (pure a : Prog Q A ε α) post exc w := h

theorem wp_raise {e : ε} (h : exc e w) : wp ans may (raise e : Prog Q A ε α) post exc w := h

theorem wp_ask {q : Q} {k : A q → Prog Q A ε α} (hq : may w q)
    (hk : ∀ a w', ans w q a w' → wp ans may (k a) post exc w') :
    wp ans may (ask q k) post exc w := ⟨hq, hk⟩

theorem wp_mono {x : Prog Q A ε α} {post' : α → W → Prop} {exc' : ε → W → Prop}
    (h : wp ans may x post exc w) (hp : ∀ a w, post a w → post' a w)
    (he : ∀ e w, exc e w → exc' e w) : wp ans may x post' exc' w := by
  induction x generalizing w with
  | ret a => exact hp a w h
  | raise e => exact he e w h
  | ask q k ih => exact ⟨h.1, fun a w' ha => ih a (h.2 a w' ha)⟩

theorem wp_bind {x : Prog Q A ε β} {f : β → Prog Q A ε α}
    (h : wp ans may x (fun b w => wp ans may (f b) post exc w) exc w) :
    wp ans may (x >>= f) post exc w := by
  show wp ans may (x.bind f) post exc w
  induction x generalizing w with
  | ret b => exact h
  | raise e => exact h
  | ask q k ih => exact ⟨h.1, fun a w' ha => ih a (h.2 a w' ha)⟩

theorem wp_rescue {ε' : Type} {exc : ε' → W → Prop} {x : Prog Q A ε α} {f : ε → Prog Q A ε' α}
    (h : wp ans may x post (fun e w => wp ans may (f e) post exc w) w) :
    wp ans may (x.rescue f) post exc w := by
  induction x generalizing w with
  | ret a => exact h
  | raise e => exact h
  | ask q k ih => exact ⟨h.1, fun a w' ha => ih a (h.2 a w' ha)⟩

/-- A loop, with the invariant `P` before each of its turns. -/
theorem wp_foldlM {γ : Type} {f : α → γ → Prog Q A ε α} {l : List γ} (P : α → W → Prop)
    (hstep : ∀ x ∈ l, ∀ a w, P a w → wp ans may (f a x) P exc w) {a : α} (h : P a w) :
    wp ans may (l.foldlM f a) P exc w := by
  induction l generalizing a w with
  | nil => exact h
  | cons x l ih =>
    rw [List.foldlM_cons]
    refine wp_bind (wp_mono (hstep x List.mem_cons_self a w h) (fun b w' hb => ?_) fun _ _ h => h)
    exact ih (fun y hy => hstep y (List.mem_cons_of_mem x hy)) hb

/-- A loop, with an invariant that knows the turns gone by. -/
theorem wp_foldlM_split {γ : Type} {f : α → γ → Prog Q A ε α} {l : List γ}
    (P : List γ → α → W → Prop)
    (hstep : ∀ l₁ x l₂, l = l₁ ++ x :: l₂ → ∀ a w, P l₁ a w →
      wp ans may (f a x) (P (l₁ ++ [x])) exc w) {a : α} (h : P [] a w) :
    wp ans may (l.foldlM f a) (P l) exc w := by
  suffices hall : ∀ l₂ l₁, l = l₁ ++ l₂ → ∀ a w, P l₁ a w →
      wp ans may (l₂.foldlM f a) (P l) exc w from hall l [] rfl a w h
  intro l₂
  induction l₂ with
  | nil =>
    rintro l₁ rfl a w h
    rw [List.append_nil]
    exact h
  | cons x l₂ ih =>
    intro l₁ hl a w h
    rw [List.foldlM_cons]
    refine wp_bind (wp_mono (hstep l₁ x l₂ hl a w h) (fun b w' hb => ?_) fun _ _ h => h)
    exact ih (l₁ ++ [x]) (by rw [hl, List.append_assoc, List.singleton_append]) b w' hb

theorem wp_left {Q' : Type} {A' : Q' → Type}
    {ans : W → (q : Q ⊕ Q') → Sum.elim A A' q → W → Prop} {may : W → Q ⊕ Q' → Prop}
    {x : Prog Q A ε α} (h : wp (fun w q => ans w (.inl q)) (fun w q => may w (.inl q)) x post exc w) :
    wp ans may (x.left : Prog (Q ⊕ Q') (Sum.elim A A') ε α) post exc w := by
  induction x generalizing w with
  | ret a => exact h
  | raise e => exact h
  | ask q k ih => exact ⟨h.1, fun a w' ha => ih a (h.2 a w' ha)⟩

/-- A program whose questions are answered by programs, each of which answers as `ans` allows. -/
theorem wp_interpret {Q' : Type} {A' : Q' → Type} {ε' : Type}
    {ans' : W → (q : Q') → A' q → W → Prop} {may' : W → Q' → Prop} {exc' : ε' → W → Prop}
    {h : (q : Q) → Prog Q' A' ε' (A q)} {f : ε → ε'} {x : Prog Q A ε α}
    (hx : wp ans may x post exc w)
    (hh : ∀ w q, may w q → wp ans' may' (h q) (fun a w' => ans w q a w') exc' w)
    (hf : ∀ e w, exc e w → exc' (f e) w) : wp ans' may' (x.interpret h f) post exc' w := by
  induction x generalizing w with
  | ret a => exact hx
  | raise e => exact hf e w hx
  | ask q k ih =>
    exact wp_bind (wp_mono (hh w q hx.1) (fun a w' ha => ih a (hx.2 a w' ha)) fun _ _ he => he)

/-- A loop whose turns compute `g` and leave the world alone. -/
theorem wp_foldlM_eq {γ : Type} {f : α → γ → Prog Q A ε α} {g : α → γ → α} {l : List γ}
    (hstep : ∀ x ∈ l, ∀ a, wp ans may (f a x) (fun b w' => b = g a x ∧ w' = w) exc w) {a : α} :
    wp ans may (l.foldlM f a) (fun b w' => b = l.foldl g a ∧ w' = w) exc w := by
  induction l generalizing a with
  | nil => exact ⟨rfl, rfl⟩
  | cons x l ih =>
    rw [List.foldlM_cons]
    refine wp_bind (wp_mono (hstep x List.mem_cons_self a) ?_ fun _ _ h => h)
    rintro b _ ⟨rfl, rfl⟩
    exact ih fun y hy => hstep y (List.mem_cons_of_mem x hy)

/-- Whatever a program does, it does. -/
theorem wp_any (x : Prog Q A ε α) (w : W) :
    wp ans (fun _ _ => True) x (fun _ _ => True) (fun _ _ => True) w := by
  induction x generalizing w with
  | ret a => trivial
  | raise e => trivial
  | ask q k ih => exact ⟨trivial, fun a w' _ => ih a w'⟩

/-- A turn keeps what the program guarantees. -/
theorem wp_turn {x y : Prog Q A ε α} {w' : W} (h : wp ans may x post exc w)
    (ht : Turn ans (x, w) (y, w')) : wp ans may y post exc w' := by
  cases ht with
  | answer ha => exact h.2 _ _ ha

/-- So does a whole run. -/
theorem wp_run {x y : Prog Q A ε α} {w' : W} (h : wp ans may x post exc w)
    (hr : Relation.ReflTransGen (Turn ans) (x, w) (y, w')) : wp ans may y post exc w' := by
  generalize hs : (y, w') = s at hr
  suffices hall : wp ans may s.1 post exc s.2 by
    rw [← hs] at hall
    exact hall
  clear hs
  induction hr with
  | refl => exact h
  | tail _ ht ih => exact wp_turn ih ht

/-- Whatever a run asks, it may ask. -/
theorem wp_asks {x : Prog Q A ε α} {q : Q} {k : A q → Prog Q A ε α} {w' : W}
    (h : wp ans may x post exc w)
    (hr : Relation.ReflTransGen (Turn ans) (x, w) (ask q k, w')) : may w' q := (wp_run h hr).1

end

/-! ## Runs -/

/-- Some run takes `x` in `w` to `y` in `w'`. -/
def Leads (ans : W → (q : Q) → A q → W → Prop) (x : Prog Q A ε α) (w : W) (y : Prog Q A ε α)
    (w' : W) : Prop :=
  Relation.ReflTransGen (Turn ans) (x, w) (y, w')

/-- What every allowed question keeps holds all along a run. -/
theorem leads_invariant {ans : W → (q : Q) → A q → W → Prop} {may : W → Q → Prop}
    {post : α → W → Prop} {exc : ε → W → Prop} {J : W → Prop} {x y : Prog Q A ε α} {w w' : W}
    (h : wp ans may x post exc w) (hw : J w)
    (hstep : ∀ w q a w', J w → may w q → ans w q a w' → J w') (hl : Leads ans x w y w') : J w' := by
  have hboth : wp ans may y post exc w' ∧ J w' := by
    unfold Leads at hl
    generalize hs : (y, w') = s at hl
    suffices hall : wp ans may s.1 post exc s.2 ∧ J s.2 by
      rw [← hs] at hall
      exact hall
    clear hs
    induction hl with
    | refl => exact ⟨h, hw⟩
    | tail _ ht ih =>
      refine ⟨wp_turn ih.1 ht, ?_⟩
      cases ht with
      | answer ha => exact hstep _ _ _ _ ih.2 ih.1.1 ha
  exact hboth.2

section
variable {ans : W → (q : Q) → A q → W → Prop} {x y z : Prog Q A ε α} {w w' w'' : W}

theorem leads_refl : Leads ans x w x w := .refl

theorem leads_of_eq (h : x = y) : Leads ans x w y w := h ▸ leads_refl

theorem Leads.trans (h : Leads ans x w y w') (h' : Leads ans y w' z w'') : Leads ans x w z w'' :=
  Relation.ReflTransGen.trans h h'

theorem leads_ask {q : Q} {k : A q → Prog Q A ε α} {a : A q} (ha : ans w q a w')
    (h : Leads ans (k a) w' y w'') : Leads ans (ask q k) w y w'' :=
  .head (.answer ha) h

/-- What runs on its own runs before something else. -/
theorem leads_bind {f : α → Prog Q A ε β} (h : Leads ans x w y w') :
    Leads ans (x >>= f) w (y >>= f) w' := by
  refine Relation.ReflTransGen.lift (fun s : Prog Q A ε α × W => (s.1 >>= f, s.2)) ?_ _ _ h
  rintro _ _ ⟨ha⟩
  exact .answer ha

theorem leads_then {f : α → Prog Q A ε β} {a : α} {u : Prog Q A ε β} (h : Leads ans x w (ret a) w')
    (hf : Leads ans (f a) w' u w'') : Leads ans (x >>= f) w u w'' :=
  (leads_bind h).trans hf

theorem leads_rescue {ε' : Type} {f : ε → Prog Q A ε' α} (h : Leads ans x w y w') :
    Leads ans (x.rescue f) w (y.rescue f) w' := by
  refine Relation.ReflTransGen.lift (fun s : Prog Q A ε α × W => (s.1.rescue f, s.2)) ?_ _ _ h
  rintro _ _ ⟨ha⟩
  exact .answer ha

/-- A question that is answered by a program. -/
theorem leads_interpret {Q' : Type} {A' : Q' → Type} {ε' : Type}
    {ans' : W → (q : Q') → A' q → W → Prop} {h : (q : Q) → Prog Q' A' ε' (A q)} {f : ε → ε'} {q : Q}
    {k : A q → Prog Q A ε α} {a : A q} {y : Prog Q' A' ε' α} (hq : Leads ans' (h q) w (ret a) w')
    (hk : Leads ans' ((k a).interpret h f) w' y w'') :
    Leads ans' ((ask q k).interpret h f) w y w'' :=
  leads_then hq hk

/-- A loop each of whose turns can go by without a change of the world. -/
theorem leads_foldlM {γ : Type} {f : α → γ → Prog Q A ε α} {g : α → γ → α} {l : List γ}
    (hstep : ∀ c ∈ l, ∀ a, Leads ans (f a c) w (ret (g a c)) w) {a : α} :
    Leads ans (l.foldlM f a) w (ret (l.foldl g a)) w := by
  induction l generalizing a with
  | nil => exact leads_refl
  | cons c l ih =>
    rw [List.foldlM_cons]
    exact leads_then (hstep c List.mem_cons_self a)
      (ih fun c hc => hstep c (List.mem_cons_of_mem _ hc))

theorem leads_left {Q' : Type} {A' : Q' → Type}
    {ans : W → (q : Q ⊕ Q') → Sum.elim A A' q → W → Prop}
    (h : Leads (fun w q => ans w (.inl q)) x w y w') :
    Leads ans (x.left : Prog (Q ⊕ Q') (Sum.elim A A') ε α) w y.left w' := by
  refine Relation.ReflTransGen.lift (fun s : Prog Q A ε α × W => (s.1.left, s.2)) ?_ _ _ h
  rintro _ _ ⟨ha⟩
  exact .answer ha

end

/-- Some run of `x` from `w` asks `q` in `w'`. -/
def Asks (ans : W → (q : Q) → A q → W → Prop) (x : Prog Q A ε α) (w : W) (q : Q) (w' : W) : Prop :=
  ∃ k, Leads ans x w (ask q k) w'

section
variable {ans : W → (q : Q) → A q → W → Prop} {x : Prog Q A ε α} {w w' w'' : W} {q : Q}

theorem asks_ask {k : A q → Prog Q A ε α} : Asks ans (ask q k) w q w := ⟨k, leads_refl⟩

theorem asks_bind {f : α → Prog Q A ε β} (h : Asks ans x w q w') : Asks ans (x >>= f) w q w' := by
  obtain ⟨k, hk⟩ := h
  exact ⟨fun a => k a >>= f, leads_bind hk⟩

theorem asks_then {f : α → Prog Q A ε β} {a : α} (h : Leads ans x w (ret a) w')
    (hf : Asks ans (f a) w' q w'') : Asks ans (x >>= f) w q w'' := by
  obtain ⟨k, hk⟩ := hf
  exact ⟨k, leads_then h hk⟩

theorem asks_rescue {ε' : Type} {f : ε → Prog Q A ε' α} (h : Asks ans x w q w') :
    Asks ans (x.rescue f) w q w' := by
  obtain ⟨k, hk⟩ := h
  exact ⟨fun a => (k a).rescue f, leads_rescue hk⟩

/-- One turn of a loop whose turns can all go by. -/
theorem asks_foldlM {γ : Type} {f : Unit → γ → Prog Q A ε Unit} {l : List γ} {c : γ} (hc : c ∈ l)
    (hstep : ∀ c ∈ l, Leads ans (f () c) w (ret ()) w) (h : Asks ans (f () c) w q w') :
    Asks ans (l.foldlM f ()) w q w' := by
  induction l with
  | nil => cases hc
  | cons d l ih =>
    rw [List.foldlM_cons]
    rcases List.mem_cons.1 hc with rfl | hc
    · exact asks_bind h
    · exact asks_then (hstep d List.mem_cons_self)
        (ih hc fun e he => hstep e (List.mem_cons_of_mem d he))

end

end Prog

end Library
