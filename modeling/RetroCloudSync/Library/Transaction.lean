import Mathlib.Logic.Basic

/-!
# Nested transactions

`Conn σ`: what one connection to a transactional store sees. `now` is the contents the next
statement reads, `undo` the images that the open savepoints and the enclosing `BEGIN` would bring
back, newest first; the store is in autocommit exactly when no image is held.

`Tx ε σ α`: a sequence of statements. The engine may refuse any of them (`Session.faults`: a full
disk, a busy lock, an I/O error), and a refused statement has no effect. `savepoint` runs a body
so that its failure, or the failure of its `RELEASE`, restores the image taken before it.

`wp x Q E c`: whatever the engine refuses, `x` started at `c` ends in `Q` when it returns and in
`E` when it fails. The rules (`wp_bind`, `wp_stmt`, `wp_savepoint`, …) take a program apart one
statement at a time; `wp_ok` and `wp_error` read the conclusion off a run. `stays P x`: every
image held along `x` stays in `P`; it follows statement by statement.
-/

set_option autoImplicit false

namespace Library

variable {ρ σ ε α β : Type}

/-- One connection: the current contents and the images held for rollback, newest first. -/
structure Conn (σ : Type) where
  now : σ
  undo : List σ

namespace Conn

/-- `sqlite3_get_autocommit`. -/
def autocommit (c : Conn σ) : Bool := c.undo.isEmpty

/-- Hold an image of the contents: `SAVEPOINT`, or `BEGIN` in autocommit. -/
def push (c : Conn σ) : Conn σ := { c with undo := c.now :: c.undo }

/-- `RELEASE` of the innermost savepoint; the outermost one commits. -/
def release (c : Conn σ) : Conn σ := { c with undo := c.undo.tail }

/-- `ROLLBACK TO` the innermost savepoint and `RELEASE` it. -/
def restore (c : Conn σ) : Conn σ :=
  match c.undo with
  | [] => c
  | s :: rest => ⟨s, rest⟩

/-- `COMMIT` of everything that is open. -/
def commit (c : Conn σ) : Conn σ := { c with undo := [] }

/-- `ROLLBACK` of everything that is open; a crash leaves the same image. -/
def rollback (c : Conn σ) : Conn σ := ⟨c.undo.getLastD c.now, []⟩

/-- The contents with a part of them as `d` has it; what the engine rolled back there is rolled back
as a whole. -/
def rejoin {τ : Type} (set : τ → σ → σ) (c : Conn σ) (d : Conn τ) : Conn σ :=
  if d.autocommit then ⟨set d.now c.rollback.now, []⟩ else { c with now := set d.now c.now }

/-- Every image the connection holds. -/
def images (c : Conn σ) : List σ := c.now :: c.undo

@[simp] theorem push_now (c : Conn σ) : c.push.now = c.now := rfl
@[simp] theorem push_undo (c : Conn σ) : c.push.undo = c.now :: c.undo := rfl
@[simp] theorem release_now (c : Conn σ) : c.release.now = c.now := rfl
@[simp] theorem release_undo (c : Conn σ) : c.release.undo = c.undo.tail := rfl
@[simp] theorem restore_push (c : Conn σ) : c.push.restore = c := rfl
@[simp] theorem commit_now (c : Conn σ) : c.commit.now = c.now := rfl
@[simp] theorem commit_undo (c : Conn σ) : c.commit.undo = [] := rfl
@[simp] theorem rollback_undo (c : Conn σ) : c.rollback.undo = [] := rfl

theorem autocommit_iff {c : Conn σ} : c.autocommit = true ↔ c.undo = [] := List.isEmpty_iff

theorem restore_eq {c : Conn σ} {s : σ} {rest : List σ} (h : c.undo = s :: rest) :
    c.restore = ⟨s, rest⟩ := by
  simp [restore, h]

theorem rejoin_eq {τ : Type} {get : σ → τ} {set : τ → σ → σ} {c : Conn σ} {d : Conn τ}
    (h : d.undo = c.undo.map get) : c.rejoin set d = { c with now := set d.now c.now } := by
  obtain ⟨now, undo⟩ := c
  unfold rejoin autocommit
  rw [h]
  cases undo <;> rfl

/-! ## Properties of every image -/

theorem mem_images {c : Conn σ} {s : σ} : s ∈ c.images ↔ s = c.now ∨ s ∈ c.undo :=
  List.mem_cons

theorem now_mem_images (c : Conn σ) : c.now ∈ c.images := List.mem_cons_self

theorem images_push {c : Conn σ} {s : σ} (h : s ∈ c.push.images) : s ∈ c.images := by
  rcases mem_images.1 h with rfl | h
  · exact c.now_mem_images
  · exact h

theorem images_commit {c : Conn σ} {s : σ} (h : s ∈ c.commit.images) : s ∈ c.images := by
  rcases mem_images.1 h with rfl | h
  · exact c.now_mem_images
  · cases h

theorem images_release {c : Conn σ} {s : σ} (h : s ∈ c.release.images) : s ∈ c.images := by
  rcases mem_images.1 h with rfl | h
  · exact c.now_mem_images
  · exact mem_images.2 (.inr (List.mem_of_mem_tail h))

theorem images_restore {c : Conn σ} {s : σ} (h : s ∈ c.restore.images) : s ∈ c.images := by
  unfold restore at h
  split at h
  · exact h
  · rename_i hu
    exact mem_images.2 (.inr (hu ▸ h))

theorem rollback_mem_images (c : Conn σ) : c.rollback.now ∈ c.images := by
  show c.undo.getLastD c.now ∈ c.images
  rw [mem_images]
  cases h : c.undo with
  | nil => exact .inl rfl
  | cons s rest => exact .inr (by rw [List.getLastD_cons]; exact List.getLastD_mem_cons)

theorem images_rollback {c : Conn σ} {s : σ} (h : s ∈ c.rollback.images) : s ∈ c.images := by
  rcases mem_images.1 h with rfl | h
  · exact c.rollback_mem_images
  · cases h

/-- Every image the connection holds satisfies `P`. -/
def All (P : σ → Prop) (c : Conn σ) : Prop := ∀ s ∈ c.images, P s

theorem All.now {P : σ → Prop} {c : Conn σ} (h : c.All P) : P c.now := h c.now c.now_mem_images

/-- Outside any transaction there is one image. -/
theorem all_single {P : σ → Prop} {c : Conn σ} (h : P c.now) (hu : c.undo = []) : c.All P := by
  intro s hs
  rcases mem_images.1 hs with rfl | hs
  · exact h
  · rw [hu] at hs
    cases hs

theorem All.set {P : σ → Prop} {c : Conn σ} (h : c.All P) {s : σ} (hs : P s) :
    ({ c with now := s } : Conn σ).All P := by
  intro t ht
  rcases mem_images.1 ht with rfl | ht
  · exact hs
  · exact h t (mem_images.2 (.inr ht))

theorem All.mono {P P' : σ → Prop} {c : Conn σ} (h : c.All P) (hP : ∀ s, P s → P' s) : c.All P' :=
  fun s hs => hP s (h s hs)

end Conn

/-- How an engine refuses a statement: with a message, and perhaps with a rollback of everything
that is open; `endsUnseen` is about a query whose failure is not told from an answer (`find`),
`ends` about every other statement. -/
class Engine (ρ : Type) where
  message : ρ → String
  ends : ρ → Bool
  endsUnseen : ρ → Bool

/-- A refusal that undoes its statement and nothing else. -/
@[default_instance]
instance : Engine String := ⟨id, fun _ => false, fun _ => false⟩

/-- Any refusal: a full disk, an I/O error and a want of memory may end the transaction. -/
structure Refusal where
  message : String
  ends : Bool
  endsUnseen : Bool

instance : Engine Refusal := ⟨Refusal.message, Refusal.ends, Refusal.endsUnseen⟩

/-- A refusal that ends no transaction without being reported. -/
structure Reported extends Refusal where
  seen : endsUnseen = false

instance : Engine Reported := ⟨fun r => r.message, fun r => r.ends, fun r => r.endsUnseen⟩

/-- A connection with the refusals the engine has in store: `none` runs the next statement,
`some r` refuses it, and an exhausted list runs everything. -/
structure SessionOf (ρ σ : Type) where
  conn : Conn σ
  faults : List (Option ρ)

abbrev Session (σ : Type) := SessionOf String σ

/-- A sequence of statements; what was done before a failure stays done. -/
abbrev TxOf (ρ ε σ α : Type) := EStateM ε (SessionOf ρ σ) α

/-- A sequence of statements whose refusals leave the open transactions alone. -/
abbrev Tx (ε σ α : Type) := TxOf String ε σ α

namespace Tx

/-- `sqlite3_get_autocommit`, which no fault touches. -/
def autocommit : TxOf ρ ε σ Bool := fun s => .ok s.conn.autocommit s

/-- Run `x`, reporting its failures as `f` says. -/
def mapError (f : ε → ε) (x : TxOf ρ ε σ α) : TxOf ρ ε σ α := fun s =>
  match x s with
  | .ok a t => .ok a t
  | .error e t => .error (f e) t

section
variable [Engine ρ]

/-- The engine's say on the next statement. -/
def gate (fail : String → ε) : TxOf ρ ε σ Unit := fun s =>
  match s.faults with
  | some r :: fs =>
    .error (fail (Engine.message r)) ⟨if Engine.ends r then s.conn.rollback else s.conn, fs⟩
  | none :: fs => .ok () { s with faults := fs }
  | [] => .ok () s

/-- One statement: a query or a change of the contents, or a constraint it violates. -/
def stmt (fail : String → ε) (f : σ → Except String (α × σ)) : TxOf ρ ε σ α := do
  gate fail
  fun s => match f s.conn.now with
    | .ok (a, t) => .ok a { s with conn.now := t }
    | .error m => .error (fail m) s

/-- A statement on the transaction itself. -/
def control (fail : String → ε) (f : Conn σ → Conn σ) : TxOf ρ ε σ Unit := do
  gate fail
  fun s => .ok () { s with conn := f s.conn }

/-- `SAVEPOINT`, the body, and `RELEASE`; on any failure `ROLLBACK TO` and `RELEASE`. -/
def savepoint (fail : String → ε) (body : TxOf ρ ε σ α) : TxOf ρ ε σ α := do
  control fail Conn.push
  fun s => match body s with
    | .error e t => .error e { t with conn := t.conn.restore }
    | .ok a t => match control fail Conn.release t with
      | .error e u => .error e { u with conn := u.conn.restore }
      | .ok _ u => .ok a u

/-- A query, which leaves the contents alone. -/
def select (fail : String → ε) (f : σ → α) : TxOf ρ ε σ α := stmt fail fun t => .ok (f t, t)

/-- A query whose refusal is taken for an answer without rows. -/
def find (f : σ → Option α) : TxOf ρ ε σ (Option α) := fun s =>
  match s.faults with
  | some r :: fs =>
    .ok none ⟨if Engine.endsUnseen r then s.conn.rollback else s.conn, fs⟩
  | none :: fs => .ok (f s.conn.now) { s with faults := fs }
  | [] => .ok (f s.conn.now) s

end

/-- Run `x` and answer with its outcome. -/
def attempt (x : TxOf ρ ε σ α) : TxOf ρ ε σ (Except ε α) := fun s =>
  match x s with
  | .ok a t => .ok (.ok a) t
  | .error e t => .ok (.error e) t

/-! ## Whole transactions -/

/-- On a failure of `x`, a `ROLLBACK` of whatever is open. -/
def orRollback (x : TxOf ρ ε σ α) : TxOf ρ ε σ α := fun s =>
  match x s with
  | .ok a t => .ok a t
  | .error e t => .error e { t with conn := t.conn.rollback }

section
variable [Engine ρ]

/-- `BEGIN IMMEDIATE`, inside no other transaction. -/
def begin (fail : String → ε) : TxOf ρ ε σ Unit := do
  gate fail
  fun s =>
    if s.conn.autocommit then .ok () { s with conn := s.conn.push }
    else .error (fail "cannot start a transaction within a transaction") s

/-- A statement on the transaction that is open; `closed` is its failure when there is none. -/
def inside (fail : String → ε) (closed : String) (f : Conn σ → Conn σ) : TxOf ρ ε σ Unit := do
  gate fail
  fun s =>
    if s.conn.autocommit then .error (fail closed) s
    else .ok () { s with conn := f s.conn }

/-- `COMMIT` of the open transaction. -/
def commit (fail : String → ε) : TxOf ρ ε σ Unit :=
  inside fail "cannot commit - no transaction is active" Conn.commit

/-- `ROLLBACK` of the open transaction. -/
def rollback (fail : String → ε) : TxOf ρ ε σ Unit :=
  inside fail "cannot rollback - no transaction is active" Conn.rollback

/-- `savepoint`, but a refused `RELEASE` is reported with the savepoint still open. -/
def savepointOnce (fail : String → ε) (body : TxOf ρ ε σ α) : TxOf ρ ε σ α := do
  control fail Conn.push
  fun s => match body s with
    | .error e t => .error e { t with conn := t.conn.restore }
    | .ok a t => match control fail Conn.release t with
      | .error e u => .error e u
      | .ok _ u => .ok a u

/-- `BEGIN IMMEDIATE`, the body and `COMMIT`; on any failure after the first, `ROLLBACK`. -/
def transaction (fail : String → ε) (body : TxOf ρ ε σ Unit) : TxOf ρ ε σ Unit := do
  begin fail
  orRollback do
    body
    commit fail

end

/-! ## Weakest preconditions -/

/-- Whatever is refused, `x` from `c` returns in `Q` or fails in `E`. -/
def wp (x : Tx ε σ α) (Q : α → Conn σ → Prop) (E : ε → Conn σ → Prop) (c : Conn σ) : Prop :=
  ∀ fs, match x ⟨c, fs⟩ with
    | .ok a t => Q a t.conn
    | .error e t => E e t.conn

section
variable {Q : α → Conn σ → Prop} {E : ε → Conn σ → Prop} {c : Conn σ}

theorem wp_ok {x : Tx ε σ α} (h : wp x Q E c) {fs : List (Option String)} {a : α} {t : Session σ}
    (hx : x ⟨c, fs⟩ = .ok a t) : Q a t.conn := by
  have := h fs
  rwa [hx] at this

theorem wp_error {x : Tx ε σ α} (h : wp x Q E c) {fs : List (Option String)} {e : ε}
    {t : Session σ} (hx : x ⟨c, fs⟩ = .error e t) : E e t.conn := by
  have := h fs
  rwa [hx] at this

/-- One way for `x` to end, under some refusals of the engine: with a value or without one. -/
inductive Ends (x : Tx ε σ α) (c : Conn σ) : Option α → Conn σ → Prop
  | ok {fs : List (Option String)} {a : α} {t : Session σ} (h : x ⟨c, fs⟩ = .ok a t) :
      Ends x c (some a) t.conn
  | error {fs : List (Option String)} {e : ε} {t : Session σ} (h : x ⟨c, fs⟩ = .error e t) :
      Ends x c none t.conn

theorem ends_ok {x : Tx ε σ α} {a : α} {c' : Conn σ} (h : wp x Q E c) (he : Ends x c (some a) c') :
    Q a c' := by
  cases he with
  | ok hx => exact wp_ok h hx

theorem ends_error {x : Tx ε σ α} {c' : Conn σ} (h : wp x Q E c) (he : Ends x c none c') :
    ∃ e, E e c' := by
  cases he with
  | error hx => exact ⟨_, wp_error h hx⟩

theorem wp_mono {x : Tx ε σ α} {Q' : α → Conn σ → Prop} {E' : ε → Conn σ → Prop}
    (h : wp x Q E c) (hQ : ∀ a c', Q a c' → Q' a c') (hE : ∀ e c', E e c' → E' e c') :
    wp x Q' E' c := by
  intro fs
  have := h fs
  split at this
  · exact hQ _ _ this
  · exact hE _ _ this

theorem wp_pure {a : α} (h : Q a c) : wp (pure a : Tx ε σ α) Q E c := fun _ => h

theorem wp_throw {e : ε} (h : E e c) : wp (throw e : Tx ε σ α) Q E c := fun _ => h

theorem wp_bind {x : Tx ε σ β} {f : β → Tx ε σ α}
    (h : wp x (fun b c' => wp (f b) Q E c') E c) : wp (x >>= f) Q E c := by
  intro fs
  have hx := h fs
  show match EStateM.bind x f ⟨c, fs⟩ with
    | .ok a t => Q a t.conn
    | .error e t => E e t.conn
  unfold EStateM.bind
  cases hr : x ⟨c, fs⟩ with
  | ok b t =>
    rw [hr] at hx
    exact hx t.faults
  | error e t =>
    rw [hr] at hx
    exact hx

/-- Continuations that agree wherever `x` can return. -/
theorem bind_agree {x : Tx ε σ β} {f g : β → Tx ε σ α} {fs : List (Option String)}
    (h : wp x (fun b c' => ∀ fs', f b ⟨c', fs'⟩ = g b ⟨c', fs'⟩) (fun _ _ => True) c) :
    (x >>= f) ⟨c, fs⟩ = (x >>= g) ⟨c, fs⟩ := by
  have hx := h fs
  show EStateM.bind x f ⟨c, fs⟩ = EStateM.bind x g ⟨c, fs⟩
  unfold EStateM.bind
  cases hr : x ⟨c, fs⟩ with
  | ok b t =>
    rw [hr] at hx
    exact hx t.faults
  | error e t => rfl

theorem wp_gate {fail : String → ε} {Q : Unit → Conn σ → Prop} (h : Q () c)
    (hE : ∀ m, E (fail m) c) : wp (gate fail) Q E c := by
  intro fs
  unfold gate
  match fs with
  | some m :: _ => exact hE m
  | none :: _ => exact h
  | [] => exact h

theorem wp_stmt {fail : String → ε} {f : σ → Except String (α × σ)}
    (h : ∀ a t, f c.now = .ok (a, t) → Q a { c with now := t }) (hE : ∀ m, E (fail m) c) :
    wp (stmt fail f) Q E c := by
  refine wp_bind (wp_gate (fun fs => ?_) hE)
  dsimp only
  cases hf : f c.now with
  | ok r => exact h r.1 r.2 hf
  | error m => exact hE m

theorem wp_select {fail : String → ε} {f : σ → α} (h : Q (f c.now) c)
    (hE : ∀ m, E (fail m) c) : wp (select fail f) Q E c := by
  refine wp_stmt (fun a t ht => ?_) hE
  cases ht
  exact h

theorem wp_find {f : σ → Option α} {Q : Option α → Conn σ → Prop}
    (h : ∀ o, o = none ∨ o = f c.now → Q o c) : wp (find f) Q E c := by
  intro fs
  unfold find
  match fs with
  | some m :: _ => exact h none (.inl rfl)
  | none :: _ => exact h _ (.inr rfl)
  | [] => exact h _ (.inr rfl)

theorem wp_mapError {f : ε → ε} {x : Tx ε σ α} (h : wp x Q (fun e c' => E (f e) c') c) :
    wp (mapError f x) Q E c := by
  intro fs
  have hx := h fs
  unfold mapError
  cases hr : x ⟨c, fs⟩ with
  | ok a t =>
    rw [hr] at hx
    exact hx
  | error e t =>
    rw [hr] at hx
    exact hx

theorem wp_attempt {x : Tx ε σ α} {Q : Except ε α → Conn σ → Prop}
    (h : wp x (fun a c' => Q (.ok a) c') (fun e c' => Q (.error e) c') c) :
    wp (attempt x) Q E c := by
  intro fs
  have hx := h fs
  unfold attempt
  cases hr : x ⟨c, fs⟩ with
  | ok a t =>
    rw [hr] at hx
    exact hx
  | error e t =>
    rw [hr] at hx
    exact hx

theorem wp_autocommit {Q : Bool → Conn σ → Prop} (h : Q c.autocommit c) :
    wp (autocommit : Tx ε σ Bool) Q E c := fun _ => h

theorem wp_control {fail : String → ε} {f : Conn σ → Conn σ} {Q : Unit → Conn σ → Prop}
    (h : Q () (f c)) (hE : ∀ m, E (fail m) c) : wp (control fail f) Q E c :=
  wp_bind (wp_gate (fun _ => h) hE)

/-- **All or nothing**: a body that leaves the held images alone either ends with its own
contents, or leaves the connection as it was. -/
theorem wp_savepoint {fail : String → ε} {body : Tx ε σ α}
    (hb : wp body (fun a c' => c'.undo = c.now :: c.undo ∧ Q a { c with now := c'.now })
      (fun e c' => c'.undo = c.now :: c.undo ∧ E e c) c.push)
    (hE : ∀ m, E (fail m) c) : wp (savepoint fail body) Q E c := by
  refine wp_bind (wp_control (fun fs => ?_) hE)
  have h := hb fs
  dsimp only
  cases hr : body ⟨c.push, fs⟩ with
  | error e t =>
    rw [hr] at h
    show E e t.conn.restore
    rw [Conn.restore_eq h.1]
    exact h.2
  | ok a t =>
    rw [hr] at h
    have hc : wp (control fail Conn.release) (fun _ c' => Q a c') (fun e c' => E e c'.restore)
        t.conn := by
      refine wp_control ?_ fun m => ?_
      · have ht : t.conn.release = { c with now := t.conn.now } := by
          show (⟨_, t.conn.undo.tail⟩ : Conn σ) = _
          rw [h.1]; rfl
        rw [ht]
        exact h.2
      · rw [Conn.restore_eq h.1]
        exact hE m
    have hf := hc t.faults
    dsimp only
    generalize hu : control fail Conn.release (⟨t.conn, t.faults⟩ : Session σ) = u at hf
    cases u with
    | ok _ _ => exact hf
    | error _ _ => exact hf

end

/-! ## Properties of every image, along a program -/

/-- From images in `P`, every statement of `x` leads to images in `P`, whatever is refused. -/
def stays (P : σ → Prop) (x : Tx ε σ α) : Prop :=
  ∀ c : Conn σ, c.All P → wp x (fun _ c' => c'.All P) (fun _ c' => c'.All P) c

section
variable {P : σ → Prop} {fail : String → ε}

theorem stays_pure (a : α) : stays P (pure a : Tx ε σ α) := fun _ h => wp_pure h

theorem stays_throw (e : ε) : stays P (throw e : Tx ε σ α) := fun _ h => wp_throw h

theorem stays_gate : stays P (gate fail : Tx ε σ Unit) := fun _ h => wp_gate h fun _ => h

theorem stays_bind {x : Tx ε σ β} {f : β → Tx ε σ α} (hx : stays P x) (hf : ∀ b, stays P (f b)) :
    stays P (x >>= f) :=
  fun c h => wp_bind (wp_mono (hx c h) (fun b c' hc => hf b c' hc) fun _ _ hc => hc)

theorem stays_stmt {f : σ → Except String (α × σ)}
    (h : ∀ s a t, P s → f s = .ok (a, t) → P t) : stays P (stmt fail f) :=
  fun c hc => wp_stmt (fun a t ht => hc.set (h c.now a t hc.now ht)) fun _ => hc

theorem stays_select {f : σ → α} : stays P (select fail f) :=
  fun _ h => wp_select h fun _ => h

theorem stays_attempt {x : Tx ε σ α} (hx : stays P x) : stays P (attempt x) :=
  fun c h => wp_attempt (hx c h)

theorem stays_mapM {γ : Type} {f : γ → Tx ε σ β} (l : List γ) (hf : ∀ g, stays P (f g)) :
    stays P (l.mapM f) := by
  induction l with
  | nil => exact stays_pure _
  | cons g l ih =>
    rw [List.mapM_cons]
    exact stays_bind (hf g) fun _ => stays_bind ih fun _ => stays_pure _

theorem wp_begin {Q : Unit → Conn σ → Prop} {E : ε → Conn σ → Prop} {c : Conn σ}
    (h : c.undo = [] → Q () c.push) (hE : ∀ m, E (fail m) c) : wp (begin fail) Q E c := by
  refine wp_bind (wp_gate (fun fs => ?_) hE)
  by_cases hu : c.autocommit = true
  · simp only [hu, if_pos]
    exact h (Conn.autocommit_iff.1 hu)
  · simp only [hu]
    exact hE _

theorem wp_inside {closed : String} {f : Conn σ → Conn σ} {Q : Unit → Conn σ → Prop}
    {E : ε → Conn σ → Prop} {c : Conn σ} (h : c.undo ≠ [] → Q () (f c)) (hE : ∀ m, E (fail m) c) :
    wp (inside fail closed f) Q E c := by
  refine wp_bind (wp_gate (fun fs => ?_) hE)
  by_cases hu : c.autocommit = true
  · simp only [hu, if_pos]
    exact hE _
  · simp only [hu]
    exact h (mt Conn.autocommit_iff.2 hu)

theorem wp_commit {Q : Unit → Conn σ → Prop} {E : ε → Conn σ → Prop} {c : Conn σ}
    (h : Q () c.commit) (hE : ∀ m, E (fail m) c) : wp (commit fail) Q E c :=
  wp_inside (fun _ => h) hE

theorem wp_rollback {Q : Unit → Conn σ → Prop} {E : ε → Conn σ → Prop} {c : Conn σ}
    (h : Q () c.rollback) (hE : ∀ m, E (fail m) c) : wp (rollback fail) Q E c :=
  wp_inside (fun _ => h) hE

theorem wp_orRollback {x : Tx ε σ α} {Q : α → Conn σ → Prop} {E : ε → Conn σ → Prop} {c : Conn σ}
    (h : wp x Q (fun e c' => E e c'.rollback) c) : wp (orRollback x) Q E c := by
  intro fs
  have hx := h fs
  unfold orRollback
  cases hr : x ⟨c, fs⟩ with
  | ok a t =>
    rw [hr] at hx
    exact hx
  | error e t =>
    rw [hr] at hx
    exact hx

/-- A body that leaves the held images alone ends inside its savepoint's enclosing transaction;
when it fails, nothing happened. -/
theorem wp_savepointOnce {body : Tx ε σ α} {Q : α → Conn σ → Prop} {E : ε → Conn σ → Prop}
    {c : Conn σ}
    (hb : wp body (fun a c' => Q a c'.release ∧ ∀ m, E (fail m) c') (fun e c' => E e c'.restore)
      c.push) (hE : ∀ m, E (fail m) c) : wp (savepointOnce fail body) Q E c := by
  refine wp_bind (wp_control (fun fs => ?_) hE)
  have h := hb fs
  dsimp only
  cases hr : body ⟨c.push, fs⟩ with
  | error e t =>
    rw [hr] at h
    exact h
  | ok a t =>
    rw [hr] at h
    have hc : wp (control fail Conn.release) (fun _ c' => Q a c') E t.conn := wp_control h.1 h.2
    have hf := hc t.faults
    dsimp only
    generalize hu : control fail Conn.release (⟨t.conn, t.faults⟩ : Session σ) = u at hf
    cases u with
    | ok _ _ => exact hf
    | error _ _ => exact hf

theorem stays_begin : stays P (begin fail) :=
  fun _ h => wp_begin (fun _ s hs => h s (Conn.images_push hs)) fun _ => h

theorem stays_commit : stays P (commit fail) :=
  fun _ h => wp_commit (fun s hs => h s (Conn.images_commit hs)) fun _ => h

theorem stays_rollback : stays P (rollback fail) :=
  fun _ h => wp_rollback (fun s hs => h s (Conn.images_rollback hs)) fun _ => h

theorem stays_orRollback {x : Tx ε σ α} (hx : stays P x) : stays P (orRollback x) :=
  fun c h => wp_orRollback
    (wp_mono (hx c h) (fun _ _ hc => hc) fun _ _ hc s hs => hc s (Conn.images_rollback hs))

theorem stays_savepointOnce {body : Tx ε σ α} (hb : stays P body) :
    stays P (savepointOnce fail body) := by
  refine fun c h => wp_savepointOnce (wp_mono (hb c.push fun s hs => h s (Conn.images_push hs))
    ?_ ?_) fun _ => h
  · exact fun _ _ hc => ⟨fun s hs => hc s (Conn.images_release hs), fun _ => hc⟩
  · exact fun _ _ hc s hs => hc s (Conn.images_restore hs)

theorem stays_transaction {body : Tx ε σ Unit} (hb : stays P body) :
    stays P (transaction fail body) :=
  stays_bind stays_begin fun _ => stays_orRollback (stays_bind hb fun _ => stays_commit)

end

/-! ## Bodies of a transaction

`keeps P x`: from contents in `P`, `x` returns with contents in `P` or fails; either way the held
images are as they were. What a failure leaves behind is then rolled back, so that the images of the
whole transaction stay in `P`, though those along its body need not. -/

def keeps (P : σ → Prop) (x : Tx ε σ α) : Prop :=
  ∀ c : Conn σ, P c.now →
    wp x (fun _ c' => P c'.now ∧ c'.undo = c.undo) (fun _ c' => c'.undo = c.undo) c

section
variable {P : σ → Prop} {fail : String → ε}

theorem keeps_pure (a : α) : keeps P (pure a : Tx ε σ α) := fun _ h => wp_pure ⟨h, rfl⟩

theorem keeps_throw (e : ε) : keeps P (throw e : Tx ε σ α) := fun _ _ => wp_throw rfl

theorem keeps_gate : keeps P (gate fail : Tx ε σ Unit) := fun _ h => wp_gate ⟨h, rfl⟩ fun _ => rfl

theorem keeps_autocommit : keeps P (autocommit : Tx ε σ Bool) := fun _ h => wp_autocommit ⟨h, rfl⟩

theorem keeps_bind {x : Tx ε σ β} {f : β → Tx ε σ α} (hx : keeps P x) (hf : ∀ b, keeps P (f b)) :
    keeps P (x >>= f) := by
  refine fun c h => wp_bind (wp_mono (hx c h) (fun b c' hc => ?_) fun _ _ hc => hc)
  refine wp_mono (hf b c' hc.1) (fun _ c'' h' => ⟨h'.1, h'.2.trans hc.2⟩) ?_
  exact fun _ _ h' => h'.trans hc.2

/-- From contents in `P`, `x` returns with contents in `Q` or fails; either way the held images are
as they were. `keeps P` turns `P` into `P`. -/
def turns (P : σ → Prop) (x : Tx ε σ α) (Q : α → σ → Prop) : Prop :=
  ∀ c : Conn σ, P c.now →
    wp x (fun a c' => Q a c'.now ∧ c'.undo = c.undo) (fun _ c' => c'.undo = c.undo) c

theorem keeps.turns {P : σ → Prop} {x : Tx ε σ α} (h : keeps P x) : turns P x fun _ => P := h

theorem keeps_of_turns {P : σ → Prop} {x : Tx ε σ α} (h : turns P x fun _ => P) : keeps P x := h

theorem turns_bind {P : σ → Prop} {x : Tx ε σ β} {f : β → Tx ε σ α} {R : β → σ → Prop}
    {Q : α → σ → Prop} (hx : turns P x R) (hf : ∀ b, turns (R b) (f b) Q) :
    turns P (x >>= f) Q := by
  refine fun c h => wp_bind (wp_mono (hx c h) (fun b c' hc => ?_) fun _ _ hc => hc)
  refine wp_mono (hf b c' hc.1) (fun _ c'' h' => ⟨h'.1, h'.2.trans hc.2⟩) ?_
  exact fun _ _ h' => h'.trans hc.2

theorem turns_mono {P P' : σ → Prop} {x : Tx ε σ α} {Q Q' : α → σ → Prop} (h : turns P x Q)
    (hP : ∀ s, P' s → P s) (hQ : ∀ a s, Q a s → Q' a s) : turns P' x Q' :=
  fun c hc => wp_mono (h c (hP _ hc)) (fun a _ h' => ⟨hQ a _ h'.1, h'.2⟩) fun _ _ h' => h'

theorem keeps_stmt {f : σ → Except String (α × σ)}
    (h : ∀ s a t, P s → f s = .ok (a, t) → P t) : keeps P (stmt fail f) :=
  fun c hc => wp_stmt (fun a t ht => ⟨h c.now a t hc ht, rfl⟩) fun _ => rfl

theorem keeps_select {f : σ → α} : keeps P (select fail f) :=
  fun _ h => wp_select ⟨h, rfl⟩ fun _ => rfl

theorem keeps_forM {γ : Type} {f : γ → Tx ε σ PUnit} (l : List γ)
    (hf : ∀ g ∈ l, keeps P (f g)) : keeps P (l.forM f) := by
  induction l with
  | nil => exact keeps_pure _
  | cons g l ih =>
    refine keeps_bind (hf g List.mem_cons_self) fun _ => ih fun g' hg => ?_
    exact hf g' (List.mem_cons_of_mem g hg)

/-- A failure inside an open transaction is undone. -/
theorem all_rollback {c c' : Conn σ} (h : c.All P) (hu : c'.undo = c.now :: c.undo) :
    c'.rollback.All P := by
  intro s hs
  rw [show c'.rollback = ⟨(c.now :: c.undo).getLastD c'.now, []⟩ from by rw [← hu]; rfl] at hs
  rcases Conn.mem_images.1 hs with rfl | hs
  · exact h _ (by rw [List.getLastD_cons]; exact List.getLastD_mem_cons)
  · cases hs

/-- A transaction does what its body does, or leaves the images it began with. -/
theorem wp_transaction {body : Tx ε σ Unit} {Q : σ → Prop} {c : Conn σ} (h : c.All P)
    (hb : wp body (fun _ c' => Q c'.now ∧ c'.undo = c.now :: c.undo)
      (fun _ c' => c'.undo = c.now :: c.undo) c.push) :
    wp (transaction fail body) (fun _ c' => Q c'.now ∧ c'.undo = []) (fun _ c' => c'.All P) c := by
  refine wp_bind (wp_begin (fun _ => wp_orRollback ?_) fun _ => h)
  refine wp_bind (wp_mono hb ?_ fun _ c' hu => all_rollback h hu)
  exact fun _ c' hc => wp_commit ⟨hc.1, rfl⟩ fun _ => all_rollback h hc.2

theorem stays_transaction_keeps {body : Tx ε σ Unit} (hb : keeps P body) :
    stays P (transaction fail body) := by
  refine fun c h => wp_mono (wp_transaction h (hb c.push h.now)) (fun _ c' hc => ?_) fun _ _ h => h
  exact Conn.all_single hc.1 hc.2

end

/-! ## Bodies of a rollback

`secures P x`: from images in `P`, `x` returns with images in `P`, or fails so that a rollback
brings some in `P` back. -/

def secures (P : σ → Prop) (x : Tx ε σ α) : Prop :=
  ∀ c : Conn σ, c.All P → wp x (fun _ c' => c'.All P) (fun _ c' => c'.rollback.All P) c

section
variable {P : σ → Prop} {fail : String → ε}

theorem secures_of_stays {x : Tx ε σ α} (hx : stays P x) : secures P x :=
  fun c h => wp_mono (hx c h) (fun _ _ hc => hc) fun _ _ hc s hs => hc s (Conn.images_rollback hs)

theorem secures_bind {x : Tx ε σ β} {f : β → Tx ε σ α} (hx : secures P x)
    (hf : ∀ b, secures P (f b)) : secures P (x >>= f) :=
  fun c h => wp_bind (wp_mono (hx c h) (fun b c' hc => hf b c' hc) fun _ _ hc => hc)

theorem stays_orRollback_secures {x : Tx ε σ α} (hx : secures P x) : stays P (orRollback x) :=
  fun c h => wp_orRollback (hx c h)

/-- What a body does inside a savepoint is kept or undone. -/
theorem all_release {c c' : Conn σ} (h : c.All P) (hn : P c'.now) (hu : c'.undo = c.now :: c.undo) :
    c'.release.All P := by
  intro s hs
  rcases Conn.mem_images.1 hs with rfl | hs
  · exact hn
  · rw [Conn.release_undo, hu] at hs
    exact h s (Conn.mem_images.2 (.inr hs))

theorem all_restore {c c' : Conn σ} (h : c.All P) (hu : c'.undo = c.now :: c.undo) :
    c'.restore.All P := by
  rw [Conn.restore_eq hu]
  exact h

/-- A body may break `P` on its way: its savepoint holds the contents it began with. -/
theorem stays_savepointOnce_keeps {body : Tx ε σ α} (hb : keeps P body) :
    stays P (savepointOnce fail body) := by
  refine fun c h => wp_savepointOnce (wp_mono (hb c.push h.now) ?_ ?_) fun _ => h
  · refine fun _ c' hc => ⟨all_release h hc.1 hc.2, fun _ s hs => ?_⟩
    rcases Conn.mem_images.1 hs with rfl | hs
    · exact hc.1
    · rw [hc.2] at hs
      exact h s hs
  · exact fun _ c' hu => all_restore h hu

end

/-! ## Bodies that may fail inside a savepoint

`ventures P x Q`: from contents in `P`, `x` returns with contents in `Q` and the held images as they
were, or fails with those still held, below the images of savepoints that it left open. -/

def ventures (P : σ → Prop) (x : Tx ε σ α) (Q : α → σ → Prop) : Prop :=
  ∀ c : Conn σ, P c.now →
    wp x (fun a c' => Q a c'.now ∧ c'.undo = c.undo) (fun _ c' => c.undo <:+ c'.undo) c

section
variable {P : σ → Prop} {fail : String → ε}

theorem turns.ventures {x : Tx ε σ α} {Q : α → σ → Prop} (h : turns P x Q) : ventures P x Q :=
  fun c hc => wp_mono (h c hc) (fun _ _ hq => hq) fun _ _ hu => hu ▸ List.suffix_refl _

theorem ventures_bind {x : Tx ε σ β} {f : β → Tx ε σ α} {R : β → σ → Prop} {Q : α → σ → Prop}
    (hx : ventures P x R) (hf : ∀ b, ventures (R b) (f b) Q) : ventures P (x >>= f) Q := by
  refine fun c h => wp_bind (wp_mono (hx c h) (fun b c' hc => ?_) fun _ _ hc => hc)
  refine wp_mono (hf b c' hc.1) (fun _ c'' h' => ⟨h'.1, h'.2.trans hc.2⟩) ?_
  exact fun _ _ h' => hc.2 ▸ h'

theorem ventures_mono {P P' : σ → Prop} {x : Tx ε σ α} {Q Q' : α → σ → Prop} (h : ventures P x Q)
    (hP : ∀ s, P' s → P s) (hQ : ∀ a s, Q a s → Q' a s) : ventures P' x Q' :=
  fun c hc => wp_mono (h c (hP _ hc)) (fun a _ h' => ⟨hQ a _ h'.1, h'.2⟩) fun _ _ h' => h'

theorem ventures_savepointOnce {body : Tx ε σ α} {Q : α → σ → Prop} (hb : turns P body Q) :
    ventures P (savepointOnce fail body) Q := by
  refine fun c h => wp_savepointOnce (wp_mono (hb c.push h) (fun a c' hc => ?_) fun _ c' hu => ?_)
    fun _ => List.suffix_refl _
  · rw [Conn.push_undo] at hc
    refine ⟨⟨hc.1, ?_⟩, fun _ => ?_⟩
    · rw [Conn.release_undo, hc.2]
      rfl
    · rw [hc.2]
      exact List.suffix_cons _ _
  · simp only [Conn.restore_eq hu, List.suffix_rfl]

end

/-! ## Statements on a part of the contents -/

/-- Statements that read and write the part of the contents that `get` reads and `set` writes. -/
def within {τ : Type} (get : σ → τ) (set : τ → σ → σ) (x : TxOf ρ ε τ α) : TxOf ρ ε σ α := fun s =>
  match x ⟨⟨get s.conn.now, s.conn.undo.map get⟩, s.faults⟩ with
  | .ok a t => .ok a ⟨s.conn.rejoin set t.conn, t.faults⟩
  | .error e t => .error e ⟨s.conn.rejoin set t.conn, t.faults⟩

/-- Of statements that leave the held images alone. -/
theorem wp_within {τ : Type} {get : σ → τ} {set : τ → σ → σ} {x : Tx ε τ α}
    {Q : α → Conn σ → Prop} {E : ε → Conn σ → Prop} {c : Conn σ}
    (hk : keeps (fun _ => True) x)
    (h : wp x (fun a c' => Q a { c with now := set c'.now c.now })
      (fun e c' => E e { c with now := set c'.now c.now }) ⟨get c.now, c.undo.map get⟩) :
    wp (within get set x) Q E c := by
  intro fs
  have hx := h fs
  have hu := hk ⟨get c.now, c.undo.map get⟩ trivial fs
  unfold within
  dsimp only
  cases hr : x ⟨⟨get c.now, c.undo.map get⟩, fs⟩ with
  | ok a t =>
    rw [hr] at hx hu
    dsimp only
    rw [Conn.rejoin_eq hu.2]
    exact hx
  | error e t =>
    rw [hr] at hx hu
    dsimp only
    rw [Conn.rejoin_eq hu]
    exact hx

theorem stays_within {τ : Type} {get : σ → τ} {set : τ → σ → σ} {x : Tx ε τ α} {P : σ → Prop}
    (hk : keeps (fun _ => True) x)
    (h : ∀ c : Conn σ, c.All P → wp x (fun _ c' => P (set c'.now c.now))
      (fun _ c' => P (set c'.now c.now)) ⟨get c.now, c.undo.map get⟩) :
    stays P (within get set x) :=
  fun c hc => wp_within hk (wp_mono (h c hc) (fun _ _ ht => hc.set ht) fun _ _ ht => hc.set ht)

/-! ## Runs that nothing interrupts -/

/-- With no refusal in store, `x` from `c` returns `a` and leaves `c'`. -/
def runs (x : Tx ε σ α) (c : Conn σ) (a : α) (c' : Conn σ) : Prop :=
  x ⟨c, []⟩ = .ok a ⟨c', []⟩

section
variable {c c' c'' : Conn σ} {fail : String → ε}

theorem runs_pure (a : α) : runs (pure a : Tx ε σ α) c a c := rfl

theorem runs_bind {x : Tx ε σ β} {f : β → Tx ε σ α} {a : α} {b : β} (hx : runs x c b c')
    (hf : runs (f b) c' a c'') : runs (x >>= f) c a c'' := by
  show EStateM.bind x f ⟨c, []⟩ = _
  unfold EStateM.bind
  rw [hx]
  exact hf

theorem runs_gate : runs (gate fail : Tx ε σ Unit) c () c := rfl

theorem runs_select (f : σ → α) : runs (select fail f) c (f c.now) c := rfl

theorem runs_autocommit : runs (autocommit : Tx ε σ Bool) c c.autocommit c := rfl

theorem runs_stmt {f : σ → Except String (α × σ)} {a : α} {t : σ} (h : f c.now = .ok (a, t)) :
    runs (stmt fail f) c a { c with now := t } := by
  refine runs_bind runs_gate ?_
  unfold runs
  dsimp only
  rw [h]

theorem runs_inside {closed : String} {f : Conn σ → Conn σ} (hu : c.undo ≠ []) :
    runs (inside fail closed f : Tx ε σ Unit) c () (f c) := by
  refine runs_bind runs_gate ?_
  unfold runs
  dsimp only
  rw [if_neg (mt Conn.autocommit_iff.1 hu)]

theorem runs_mapError {f : ε → ε} {x : Tx ε σ α} {a : α} (h : runs x c a c') :
    runs (mapError f x) c a c' := by
  unfold runs mapError
  rw [h]

theorem runs_savepoint {body : Tx ε σ α} {a : α} (h : runs body c.push a c') :
    runs (savepoint fail body) c a c'.release := by
  refine runs_bind (show runs (control fail Conn.push) c () c.push from rfl) ?_
  unfold runs
  dsimp only
  rw [h]
  rfl

theorem runs_transaction {body : Tx ε σ Unit} (hu : c.undo = []) (h : runs body c.push () c')
    (hu' : c'.undo ≠ []) : runs (transaction fail body) c () c'.commit := by
  have hbegin : runs (begin fail : Tx ε σ Unit) c () c.push := by
    refine runs_bind runs_gate ?_
    unfold runs
    dsimp only
    rw [if_pos (Conn.autocommit_iff.2 hu)]
  have hcommit : runs (commit fail : Tx ε σ Unit) c' () c'.commit := runs_inside hu'
  refine runs_bind hbegin ?_
  unfold runs orRollback
  rw [show ((do body; commit fail) : Tx ε σ Unit) ⟨c.push, []⟩ = .ok () ⟨c'.commit, []⟩ from
    runs_bind h hcommit]

end

end Tx

end Library
