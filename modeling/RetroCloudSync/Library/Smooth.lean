import RetroCloudSync.Library.Transaction

/-!
# Programs that nothing is refused to

`wp` allows the engine any refusal. `smooth x Q E c` is about the one execution in which it refuses
nothing: there `x` from `c` ends in `Q` when it returns and in `E` when it fails. The rules are
those of `wp`, but a gate always opens, a query always answers, and a statement fails only for a
constraint that it violates.
-/

set_option autoImplicit false

namespace Library.Tx

variable {σ ε α β γ : Type}

/-- With nothing refused, `x` from `c` returns in `Q` or fails in `E`. -/
def smooth (x : Tx ε σ α) (Q : α → Conn σ → Prop) (E : ε → Conn σ → Prop) (c : Conn σ) : Prop :=
  match x ⟨c, []⟩ with
  | .ok a t => t.faults = [] ∧ Q a t.conn
  | .error e t => t.faults = [] ∧ E e t.conn

variable {Q : α → Conn σ → Prop} {E : ε → Conn σ → Prop} {c : Conn σ} {fail : String → ε}

theorem wp_any (x : Tx ε σ α) : wp x (fun _ _ => True) (fun _ _ => True) c := by
  intro fs
  split <;> trivial

theorem wp_and {x : Tx ε σ α} {Q' : α → Conn σ → Prop} {E' : ε → Conn σ → Prop}
    (h : wp x Q E c) (h' : wp x Q' E' c) :
    wp x (fun a c' => Q a c' ∧ Q' a c') (fun e c' => E e c' ∧ E' e c') c := by
  intro fs
  have h := h fs
  have h' := h' fs
  split at h <;> rename_i hx <;> rw [hx] at h' <;> exact ⟨h, h'⟩

theorem keeps_and {P P' : σ → Prop} {x : Tx ε σ α} (h : keeps P x) (h' : keeps P' x) :
    keeps (fun t => P t ∧ P' t) x := fun c hc =>
  wp_mono (wp_and (h c hc.1) (h' c hc.2)) (fun _ _ hq => ⟨⟨hq.1.1, hq.2.1⟩, hq.1.2⟩)
    fun _ _ he => he.1

theorem smooth_ok {x : Tx ε σ α} (h : smooth x Q E c) {a : α} {t : Session σ}
    (hx : x ⟨c, []⟩ = .ok a t) : Q a t.conn := by
  unfold smooth at h
  rw [hx] at h
  exact h.2

theorem smooth_error {x : Tx ε σ α} (h : smooth x Q E c) {e : ε} {t : Session σ}
    (hx : x ⟨c, []⟩ = .error e t) : E e t.conn := by
  unfold smooth at h
  rw [hx] at h
  exact h.2

theorem smooth_mono {x : Tx ε σ α} {Q' : α → Conn σ → Prop} {E' : ε → Conn σ → Prop}
    (h : smooth x Q E c) (hQ : ∀ a c', Q a c' → Q' a c') (hE : ∀ e c', E e c' → E' e c') :
    smooth x Q' E' c := by
  unfold smooth at *
  split at h
  · exact ⟨h.1, hQ _ _ h.2⟩
  · exact ⟨h.1, hE _ _ h.2⟩

/-- What holds whatever is refused holds when nothing is. -/
theorem smooth_and_wp {x : Tx ε σ α} {Q' : α → Conn σ → Prop} {E' : ε → Conn σ → Prop}
    (h : smooth x Q E c) (hw : wp x Q' E' c) :
    smooth x (fun a c' => Q a c' ∧ Q' a c') (fun e c' => E e c' ∧ E' e c') c := by
  have hw := hw []
  unfold smooth at *
  cases hx : x ⟨c, []⟩ <;> rw [hx] at h hw <;> exact ⟨h.1, h.2, hw⟩

/-! ## Rules -/

theorem smooth_pure {a : α} (h : Q a c) : smooth (pure a : Tx ε σ α) Q E c := ⟨rfl, h⟩

theorem smooth_throw {e : ε} (h : E e c) : smooth (throw e : Tx ε σ α) Q E c := ⟨rfl, h⟩

theorem smooth_bind {x : Tx ε σ β} {f : β → Tx ε σ α}
    (h : smooth x (fun b c' => smooth (f b) Q E c') E c) : smooth (x >>= f) Q E c := by
  show match EStateM.bind x f ⟨c, []⟩ with
    | .ok a t => t.faults = [] ∧ Q a t.conn
    | .error e t => t.faults = [] ∧ E e t.conn
  unfold smooth at h
  unfold EStateM.bind
  cases hx : x ⟨c, []⟩ with
  | ok b t =>
    rw [hx] at h
    obtain ⟨c', fs⟩ := t
    obtain ⟨hf, h⟩ := h
    cases hf
    exact h
  | error e t =>
    rw [hx] at h
    exact h

theorem smooth_gate {Q : Unit → Conn σ → Prop} (h : Q () c) : smooth (gate fail) Q E c := ⟨rfl, h⟩

theorem smooth_stmt {f : σ → Except String (α × σ)}
    (h : ∀ a t, f c.now = .ok (a, t) → Q a { c with now := t })
    (hE : ∀ m, f c.now = .error m → E (fail m) c) : smooth (stmt fail f) Q E c := by
  refine smooth_bind (smooth_gate ?_)
  unfold smooth
  dsimp only
  cases hf : f c.now with
  | ok r => exact ⟨rfl, h r.1 r.2 hf⟩
  | error m => exact ⟨rfl, hE m hf⟩

theorem smooth_find {f : σ → Option α} {Q : Option α → Conn σ → Prop} (h : Q (f c.now) c) :
    smooth (find f) Q E c := ⟨rfl, h⟩

theorem smooth_autocommit {Q : Bool → Conn σ → Prop} (h : Q c.autocommit c) :
    smooth (autocommit : Tx ε σ Bool) Q E c := ⟨rfl, h⟩

theorem smooth_attempt {x : Tx ε σ α} {Q : Except ε α → Conn σ → Prop}
    (h : smooth x (fun a c' => Q (.ok a) c') (fun e c' => Q (.error e) c') c) :
    smooth (attempt x) Q E c := by
  unfold smooth attempt at *
  cases hx : x ⟨c, []⟩ <;> rw [hx] at h <;> exact h

theorem smooth_begin {Q : Unit → Conn σ → Prop} (h : c.undo = [] → Q () c.push)
    (hE : ∀ m, E (fail m) c) : smooth (begin fail) Q E c := by
  refine smooth_bind (smooth_gate ?_)
  unfold smooth
  dsimp only
  by_cases hu : c.autocommit = true
  · rw [if_pos hu]
    exact ⟨rfl, h (Conn.autocommit_iff.1 hu)⟩
  · rw [if_neg hu]
    exact ⟨rfl, hE _⟩

theorem smooth_inside {closed : String} {f : Conn σ → Conn σ} {Q : Unit → Conn σ → Prop}
    (h : Q () (f c)) (hE : ∀ m, E (fail m) c) : smooth (inside fail closed f) Q E c := by
  refine smooth_bind (smooth_gate ?_)
  unfold smooth
  dsimp only
  by_cases hu : c.autocommit = true
  · rw [if_pos hu]
    exact ⟨rfl, hE _⟩
  · rw [if_neg hu]
    exact ⟨rfl, h⟩

theorem smooth_commit {Q : Unit → Conn σ → Prop} (h : Q () c.commit)
    (hE : ∀ m, E (fail m) c) : smooth (commit fail) Q E c :=
  smooth_inside h hE

theorem smooth_orRollback {x : Tx ε σ α} (h : smooth x Q (fun e c' => E e c'.rollback) c) :
    smooth (orRollback x) Q E c := by
  unfold smooth orRollback at *
  cases hx : x ⟨c, []⟩ <;> rw [hx] at h <;> exact h

theorem smooth_within {τ : Type} {get : σ → τ} {set : τ → σ → σ} {x : Tx ε τ α}
    (hk : keeps (fun _ => True) x)
    (h : smooth x (fun a c' => Q a { c with now := set c'.now c.now })
      (fun e c' => E e { c with now := set c'.now c.now }) ⟨get c.now, c.undo.map get⟩) :
    smooth (within get set x) Q E c := by
  have hu := hk ⟨get c.now, c.undo.map get⟩ trivial []
  unfold smooth within at *
  dsimp only
  cases hx : x ⟨⟨get c.now, c.undo.map get⟩, []⟩ with
  | ok a t =>
    rw [hx] at h hu
    dsimp only
    rw [Conn.rejoin_eq hu.2]
    exact h
  | error e t =>
    rw [hx] at h hu
    dsimp only
    rw [Conn.rejoin_eq hu]
    exact h

/-- A loop, with an invariant that speaks of what is behind it. -/
theorem smooth_forM {f : γ → Tx ε σ PUnit} {P : List γ → Conn σ → Prop} (l : List γ)
    (hf : ∀ done g c, g ∈ l → P done c → smooth (f g) (fun _ c' => P (done ++ [g]) c') E c)
    {done : List γ} (h : P done c) : smooth (l.forM f) (fun _ c' => P (done ++ l) c') E c := by
  induction l generalizing done c with
  | nil =>
    refine smooth_pure ?_
    rwa [List.append_nil]
  | cons g l ih =>
    refine smooth_bind (smooth_mono (hf done g c List.mem_cons_self h) (fun _ c' h' => ?_)
      fun _ _ he => he)
    have hl := ih (fun done g' c hg => hf done g' c (List.mem_cons_of_mem g hg)) h'
    rwa [List.append_assoc] at hl

end Library.Tx
