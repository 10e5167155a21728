import Mathlib.Data.List.Infix
import RetroCloudSync.Library.Transaction

/-!
# Refusals that end a transaction

An engine may answer a refused statement by rolling back everything that is open, the transactions
of the caller included. `follows x y`: under any refusals `x` does what `y` does under the same
refusals that undo their statement only, until one of them ends the transaction; then `x` fails as
`y` does, with everything that was open rolled back. It follows statement by statement, so what is
proved of `y` by `wp` holds of `x` up to that rollback (`follows.ok`, `follows.error`).

A program that looks at a failure and goes on needs more: `recovers x y` is about an `x` that starts
with everything rolled back and a `y` that does not (`follows_rescue`). `trails x y` is the same as
`follows x y` but for what a failure says. What every statement of `y` keeps, a trailing `x` keeps
(`remains_of_trails`).
-/

set_option autoImplicit false

namespace Library

namespace Conn

variable {σ τ : Type}

/-- What a savepoint brings back, the outermost transaction brings back as well. -/
theorem rollback_restore (c : Conn σ) : c.restore.rollback = c.rollback := by
  obtain ⟨now, undo⟩ := c
  cases undo with
  | nil => rfl
  | cons s rest => simp only [restore, rollback, List.getLastD_cons]

theorem restore_rollback (c : Conn σ) : c.rollback.restore = c.rollback := rfl

theorem rollback_rollback (c : Conn σ) : c.rollback.rollback = c.rollback := rfl

/-- A part is rolled back with the whole. -/
theorem rejoin_rollback {get : σ → τ} {set : τ → σ → σ} (hset : ∀ s, set (get s) s = s)
    {c : Conn σ} {d : Conn τ} (h : d.undo = c.undo.map get) :
    c.rejoin set d.rollback = (c.rejoin set d).rollback := by
  rw [rejoin_eq h]
  obtain ⟨now, undo⟩ := c
  obtain ⟨now', undo'⟩ := d
  obtain rfl : undo' = undo.map get := h
  cases undo with
  | nil => rfl
  | cons s rest =>
    have hlast : ((s :: rest).map get).getLastD now' = get ((s :: rest).getLastD now) := by
      rw [List.map_cons, List.getLastD_cons, List.getLastD_cons]
      induction rest generalizing s with
      | nil => rfl
      | cons t rest ih => rw [List.map_cons, List.getLastD_cons, List.getLastD_cons, ih]
    show (⟨set (((s :: rest).map get).getLastD now') ((s :: rest).getLastD now), []⟩ : Conn σ) = _
    rw [hlast, hset]
    rfl

end Conn

namespace Tx

variable {ρ σ τ ε α β γ : Type} [Engine ρ]

/-- Some refusal in store ends the transaction. -/
def Ended (fs : List (Option ρ)) : Prop := ∃ r, some r ∈ fs ∧ Engine.ends r = true

/-- The same refusals, none of which ends the transaction. -/
def mild (fs : List (Option ρ)) : List (Option String) := fs.map (Option.map Engine.message)

/-- The connection `c` as it was, or rolled back by a refusal. -/
def Undone (fs : List (Option ρ)) (c c' : Conn σ) : Prop := c' = c ∨ Ended fs ∧ c' = c.rollback

theorem Ended.mono {fs fs' : List (Option ρ)} (h : Ended fs) (hs : fs <:+ fs') : Ended fs' := by
  obtain ⟨r, hr, he⟩ := h
  exact ⟨r, hs.subset hr, he⟩

theorem Undone.mono {fs fs' : List (Option ρ)} {c c' : Conn σ} (h : Undone fs c c')
    (hs : fs <:+ fs') : Undone fs' c c' :=
  h.imp id fun hr => ⟨hr.1.mono hs, hr.2⟩

theorem Undone.restore {fs : List (Option ρ)} {c c' : Conn σ} (h : Undone fs c c') :
    Undone fs c.restore c'.restore := by
  rcases h with rfl | ⟨he, rfl⟩
  · exact .inl rfl
  · exact .inr ⟨he, c.restore_rollback.trans c.rollback_restore.symm⟩

theorem Undone.rollback_eq {fs : List (Option ρ)} {c c' : Conn σ} (h : Undone fs c c') :
    c'.rollback = c.rollback := by
  rcases h with rfl | ⟨-, rfl⟩
  · rfl
  · exact c.rollback_rollback

theorem Undone.all {fs : List (Option ρ)} {c c' : Conn σ} {P : σ → Prop} (h : Undone fs c c')
    (hc : c.All P) : c'.All P := by
  rcases h with rfl | ⟨-, rfl⟩
  · exact hc
  · exact fun s hs => hc s (Conn.images_rollback hs)

/-- A run under the refusals `fs` and one under mild ones end alike; `R` relates what two failures
say. -/
def Alike (R : ε → ε → Prop) (fs : List (Option ρ)) :
    EStateM.Result ε (SessionOf ρ σ) α → EStateM.Result ε (Session σ) α → Prop
  | .ok a t, r => r = .ok a ⟨t.conn, mild t.faults⟩ ∧ t.faults <:+ fs
  | .error e t, r =>
    ∃ e' c', r = .error e' ⟨c', mild t.faults⟩ ∧ R e e' ∧ Undone fs c' t.conn ∧ t.faults <:+ fs

theorem Alike.mono {R R' : ε → ε → Prop} {fs fs' : List (Option ρ)}
    {r : EStateM.Result ε (SessionOf ρ σ) α} {r' : EStateM.Result ε (Session σ) α}
    (h : Alike R fs r r') (hs : fs <:+ fs') (hR : ∀ e e', R e e' → R' e e') :
    Alike R' fs' r r' := by
  cases r with
  | ok a t => exact ⟨h.1, h.2.trans hs⟩
  | error e t =>
    obtain ⟨e', c', he, hr, hu, hf⟩ := h
    exact ⟨e', c', he, hR _ _ hr, hu.mono hs, hf.trans hs⟩

def followsBy (R : ε → ε → Prop) (x : TxOf ρ ε σ α) (y : Tx ε σ α) : Prop :=
  ∀ c fs, Alike R fs (x ⟨c, fs⟩) (y ⟨c, mild fs⟩)

abbrev follows (x : TxOf ρ ε σ α) (y : Tx ε σ α) : Prop := followsBy Eq x y

abbrev trails (x : TxOf ρ ε σ α) (y : Tx ε σ α) : Prop := followsBy (fun _ _ => True) x y

section
variable {x : TxOf ρ ε σ α} {y : Tx ε σ α} {c : Conn σ} {fs : List (Option ρ)} {R : ε → ε → Prop}

/-! ## What follows -/

theorem follows_ok (h : followsBy R x y) {a : α} {t : SessionOf ρ σ} (hx : x ⟨c, fs⟩ = .ok a t) :
    y ⟨c, mild fs⟩ = .ok a ⟨t.conn, mild t.faults⟩ ∧ t.faults <:+ fs := by
  have := h c fs
  rwa [hx] at this

theorem follows_error (h : followsBy R x y) {e : ε} {t : SessionOf ρ σ}
    (hx : x ⟨c, fs⟩ = .error e t) : ∃ e' c', y ⟨c, mild fs⟩ = .error e' ⟨c', mild t.faults⟩ ∧
      R e e' ∧ Undone fs c' t.conn ∧ t.faults <:+ fs := by
  have := h c fs
  rwa [hx] at this

/-- A run that returns, returns what is proved of the mild one. -/
theorem follows.ok (h : follows x y) {Q : α → Conn σ → Prop} {E : ε → Conn σ → Prop}
    (hw : wp y Q E c) {a : α} {t : SessionOf ρ σ} (hx : x ⟨c, fs⟩ = .ok a t) : Q a t.conn :=
  wp_ok hw (follows_ok h hx).1

/-- A run that fails, fails as is proved of the mild one, up to a rollback. -/
theorem follows.error (h : follows x y) {Q : α → Conn σ → Prop} {E : ε → Conn σ → Prop}
    (hw : wp y Q E c) {e : ε} {t : SessionOf ρ σ} (hx : x ⟨c, fs⟩ = .error e t) :
    ∃ c', E e c' ∧ Undone fs c' t.conn := by
  obtain ⟨_, c', hu, rfl, he, -⟩ := follows_error h hx
  exact ⟨c', wp_error hw hu, he⟩

/-- With nothing refused both return alike. -/
theorem follows.runs (h : follows x y) {a : α} {c' : Conn σ} (hy : runs y c a c') :
    x ⟨c, []⟩ = .ok a ⟨c', []⟩ := by
  unfold Tx.runs at hy
  cases hx : x ⟨c, []⟩ with
  | ok b t =>
    obtain ⟨ht, hs⟩ := follows_ok h hx
    obtain ⟨rfl, he⟩ := EStateM.Result.ok.inj (hy.symm.trans ht)
    obtain rfl : c' = t.conn := congrArg SessionOf.conn he
    rw [show t = ⟨t.conn, []⟩ from congrArg (SessionOf.mk t.conn) (List.suffix_nil.1 hs)]
  | error e t =>
    obtain ⟨_, _, hu, -⟩ := follows_error h hx
    cases hy.symm.trans hu

theorem follows.trails (h : follows x y) : trails x y :=
  fun c fs => (h c fs).mono List.suffix_rfl fun _ _ _ => trivial

/-! ## Statement by statement -/

theorem follows_pure (a : α) : follows (pure a : TxOf ρ ε σ α) (pure a) :=
  fun _ _ => ⟨rfl, List.suffix_rfl⟩

theorem follows_throw (e : ε) : follows (throw e : TxOf ρ ε σ α) (throw e) :=
  fun c _ => ⟨e, c, rfl, rfl, .inl rfl, List.suffix_rfl⟩

/-- What comes next, behind a run and its mild one that returned alike. -/
theorem alike_bind {x : TxOf ρ ε σ β} {y : Tx ε σ β} {f : β → TxOf ρ ε σ α} {g : β → Tx ε σ α}
    {c c' : Conn σ} {fs fs' : List (Option ρ)} (hx : Alike R fs' (x ⟨c, fs⟩) (y ⟨c', mild fs⟩))
    (hf : ∀ b, followsBy R (f b) (g b)) :
    Alike R fs' ((x >>= f) ⟨c, fs⟩) ((y >>= g) ⟨c', mild fs⟩) := by
  show Alike R fs' (EStateM.bind x f ⟨c, fs⟩) (EStateM.bind y g ⟨c', mild fs⟩)
  unfold EStateM.bind
  cases hr : x ⟨c, fs⟩ with
  | error e t =>
    rw [hr] at hx
    obtain ⟨e', d, hu, he⟩ := hx
    exact ⟨e', d, by rw [hu], he⟩
  | ok b t =>
    rw [hr] at hx
    obtain ⟨hy, hs⟩ := hx
    rw [hy]
    exact (hf b t.conn t.faults).mono hs fun _ _ h => h

theorem follows_bind {x : TxOf ρ ε σ β} {y : Tx ε σ β} {f : β → TxOf ρ ε σ α} {g : β → Tx ε σ α}
    (hx : followsBy R x y) (hf : ∀ b, followsBy R (f b) (g b)) :
    followsBy R (x >>= f) (y >>= g) :=
  fun c fs => alike_bind (hx c fs) hf

theorem follows_autocommit : follows (autocommit : TxOf ρ ε σ Bool) autocommit :=
  fun _ _ => ⟨rfl, List.suffix_rfl⟩

theorem follows_gate {fail : String → ε} : follows (gate fail : TxOf ρ ε σ Unit) (gate fail) := by
  intro c fs
  match fs with
  | [] => exact ⟨rfl, List.suffix_rfl⟩
  | none :: fs => exact ⟨rfl, List.suffix_cons _ _⟩
  | some r :: fs =>
    refine ⟨_, c, rfl, rfl, ?_, List.suffix_cons _ _⟩
    show Undone _ c (if Engine.ends r then c.rollback else c)
    split
    · rename_i hr
      exact .inr ⟨⟨r, List.mem_cons_self, hr⟩, rfl⟩
    · exact .inl rfl

theorem follows_stmt {fail : String → ε} {f : σ → Except String (α × σ)} :
    follows (stmt fail f : TxOf ρ ε σ α) (stmt fail f) := by
  refine follows_bind follows_gate fun _ c fs => ?_
  dsimp only
  cases f c.now with
  | ok r => exact ⟨rfl, List.suffix_rfl⟩
  | error m => exact ⟨_, c, rfl, rfl, .inl rfl, List.suffix_rfl⟩

theorem follows_select {fail : String → ε} {f : σ → α} :
    follows (select fail f : TxOf ρ ε σ α) (select fail f) :=
  follows_stmt

theorem follows_control {fail : String → ε} {f : Conn σ → Conn σ} :
    follows (control fail f : TxOf ρ ε σ Unit) (control fail f) :=
  follows_bind follows_gate fun _ _ _ => ⟨rfl, List.suffix_rfl⟩

theorem follows_mapError {f : ε → ε} (h : follows x y) : follows (mapError f x) (mapError f y) := by
  intro c fs
  unfold mapError
  cases hr : x ⟨c, fs⟩ with
  | ok a t =>
    obtain ⟨hy, hs⟩ := follows_ok h hr
    exact ⟨by rw [hy], hs⟩
  | error e t =>
    obtain ⟨_, c', hu, rfl, he⟩ := follows_error h hr
    exact ⟨_, c', by rw [hu], rfl, he⟩

/-- A savepoint that the engine rolled back has nothing left to restore. -/
theorem follows_savepoint {fail : String → ε} (h : follows x y) :
    follows (savepoint fail x) (savepoint fail y) := by
  refine follows_bind follows_control fun _ c fs => ?_
  cases hr : x ⟨c, fs⟩ with
  | error e t =>
    obtain ⟨_, c', hu, rfl, he, hs⟩ := follows_error h hr
    exact ⟨_, c'.restore, by rw [hu], rfl, he.restore, hs⟩
  | ok a t =>
    obtain ⟨hy, hs⟩ := follows_ok h hr
    rw [hy]
    dsimp only
    cases hc : control fail Conn.release t with
    | ok _ t' =>
      obtain ⟨hy', hs'⟩ := follows_ok follows_control hc
      exact ⟨by rw [hy'], hs'.trans hs⟩
    | error e t' =>
      obtain ⟨_, c', hu, rfl, he, hs'⟩ := follows_error follows_control hc
      exact ⟨_, c'.restore, by rw [hu], rfl, (he.mono hs).restore, hs'.trans hs⟩

/-! ## Transactions -/

theorem follows_begin {fail : String → ε} :
    follows (begin fail : TxOf ρ ε σ Unit) (begin fail) := by
  refine follows_bind follows_gate fun _ c fs => ?_
  dsimp only
  split
  · exact ⟨rfl, List.suffix_rfl⟩
  · exact ⟨_, c, rfl, rfl, .inl rfl, List.suffix_rfl⟩

theorem follows_inside {fail : String → ε} {closed : String} {f : Conn σ → Conn σ} :
    follows (inside fail closed f : TxOf ρ ε σ Unit) (inside fail closed f) := by
  refine follows_bind follows_gate fun _ c fs => ?_
  dsimp only
  split
  · exact ⟨_, c, rfl, rfl, .inl rfl, List.suffix_rfl⟩
  · exact ⟨rfl, List.suffix_rfl⟩

/-- Behind a rollback the two connections are the same. -/
theorem follows_orRollback (h : followsBy R x y) :
    followsBy R (orRollback x) (orRollback y) := by
  intro c fs
  unfold orRollback
  cases hr : x ⟨c, fs⟩ with
  | ok a t =>
    obtain ⟨hy, hs⟩ := follows_ok h hr
    exact ⟨by rw [hy], hs⟩
  | error e t =>
    obtain ⟨e', c', hu, he, hundone, hs⟩ := follows_error h hr
    exact ⟨e', c'.rollback, by rw [hu], he, .inl hundone.rollback_eq, hs⟩

theorem follows_transaction {fail : String → ε} {x : TxOf ρ ε σ Unit} {y : Tx ε σ Unit}
    (h : follows x y) : follows (transaction fail x) (transaction fail y) :=
  follows_bind follows_begin fun _ => follows_orRollback (follows_bind h fun _ => follows_inside)

/-! ## Failures that are looked at -/

/-- `x` behind a rollback that a refusal brought about does what `y` does without. -/
def recovers (R : ε → ε → Prop) (x : TxOf ρ ε σ α) (y : Tx ε σ α) : Prop :=
  ∀ c fs fs', fs <:+ fs' → Ended fs' → Alike R fs' (x ⟨c.rollback, fs⟩) (y ⟨c, mild fs⟩)

theorem recovers_bind {x : TxOf ρ ε σ β} {y : Tx ε σ β} {f : β → TxOf ρ ε σ α} {g : β → Tx ε σ α}
    (hx : recovers R x y) (hf : ∀ b, followsBy R (f b) (g b)) : recovers R (x >>= f) (y >>= g) :=
  fun c fs fs' hs he => alike_bind (hx c fs fs' hs he) hf

/-- A failure that is followed by a rollback anyway. -/
theorem recovers_rollback (e : ε) : recovers R (attempt (orRollback (throw e : TxOf ρ ε σ α)))
    (attempt (orRollback (throw e))) :=
  fun _ _ _ hs _ => ⟨rfl, hs⟩

theorem recovers_throw (e : ε) (hR : R e e) :
    recovers R (throw e : TxOf ρ ε σ α) (throw e) :=
  fun c _ _ hs he => ⟨e, c, rfl, hR, .inr ⟨he, rfl⟩, hs⟩

/-- A savepoint to go back to, which the rollback took along: both fail. -/
theorem recovers_restore {fail : String → ε} {closed : String} (e : ε) :
    recovers (fun _ _ => True) (do inside fail closed Conn.restore; throw e : TxOf ρ ε σ α)
      (do inside fail closed Conn.restore; throw e) := by
  intro c fs fs' hs hended
  have hruns : ∀ gs : List (Option ρ), gs <:+ fs' → Alike (fun _ _ => True) fs'
      (EStateM.Result.error (fail closed) ⟨c.rollback, gs⟩ : EStateM.Result ε (SessionOf ρ σ) α)
      (if c.autocommit then .error (fail closed) ⟨c, mild gs⟩
        else .error e ⟨c.restore, mild gs⟩) := by
    intro gs hg
    split
    · exact ⟨_, c, rfl, trivial, .inr ⟨hended, rfl⟩, hg⟩
    · exact ⟨e, c.restore, rfl, trivial, .inr ⟨hended, c.rollback_restore.symm⟩, hg⟩
  match fs with
  | [] =>
    have h := hruns [] hs
    obtain ⟨now, undo⟩ := c
    cases undo <;> exact h
  | none :: gs =>
    have h := hruns gs ((List.suffix_cons _ _).trans hs)
    obtain ⟨now, undo⟩ := c
    cases undo <;> exact h
  | some r :: gs =>
    refine ⟨_, c, rfl, trivial, .inr ⟨hended, ?_⟩, (List.suffix_cons _ _).trans hs⟩
    show (if Engine.ends r then c.rollback.rollback else c.rollback) = c.rollback
    split <;> rfl

/-- A program that looks at a failure goes on as its answer to it does. -/
theorem alike_rescue {x : TxOf ρ ε σ β} {y : Tx ε σ β} {f : Except ε β → TxOf ρ ε σ α}
    {g : Except ε β → Tx ε σ α} {c c' : Conn σ} {fs fs' : List (Option ρ)}
    (hx : Alike Eq fs' (x ⟨c, fs⟩) (y ⟨c', mild fs⟩)) (hf : ∀ r, followsBy R (f r) (g r))
    (he : ∀ e, recovers R (f (.error e)) (g (.error e))) :
    Alike R fs' ((attempt x >>= f) ⟨c, fs⟩) ((attempt y >>= g) ⟨c', mild fs⟩) := by
  show Alike R fs' (EStateM.bind (attempt x) f ⟨c, fs⟩) (EStateM.bind (attempt y) g ⟨c', mild fs⟩)
  unfold EStateM.bind attempt
  cases hr : x ⟨c, fs⟩ with
  | ok b t =>
    rw [hr] at hx
    obtain ⟨hy, hs⟩ := hx
    rw [hy]
    exact (hf (.ok b) t.conn t.faults).mono hs fun _ _ h => h
  | error e t =>
    rw [hr] at hx
    obtain ⟨_, d, hy, rfl, hundone, hs⟩ := hx
    rw [hy]
    obtain ⟨conn, faults⟩ := t
    rcases hundone with hc | ⟨hended, hc⟩
    · obtain rfl : conn = d := hc
      exact (hf (.error e) conn faults).mono hs fun _ _ h => h
    · obtain rfl : conn = d.rollback := hc
      exact he e d faults fs' hs hended

theorem follows_rescue {x : TxOf ρ ε σ β} {y : Tx ε σ β} {f : Except ε β → TxOf ρ ε σ α}
    {g : Except ε β → Tx ε σ α} (hx : follows x y) (hf : ∀ r, followsBy R (f r) (g r))
    (he : ∀ e, recovers R (f (.error e)) (g (.error e))) :
    followsBy R (attempt x >>= f) (attempt y >>= g) :=
  fun c fs => alike_rescue (hx c fs) hf he

theorem recovers_rescue {x : TxOf ρ ε σ β} {y : Tx ε σ β} {f : Except ε β → TxOf ρ ε σ α}
    {g : Except ε β → Tx ε σ α} (hx : recovers Eq x y) (hf : ∀ r, followsBy R (f r) (g r))
    (he : ∀ e, recovers R (f (.error e)) (g (.error e))) :
    recovers R (attempt x >>= f) (attempt y >>= g) :=
  fun c fs fs' hs hended => alike_rescue (hx c fs fs' hs hended) hf he

/-- An outcome behind a rollback is the same. -/
theorem follows_attempt (h : follows x y) :
    follows (attempt (orRollback x)) (attempt (orRollback y)) := by
  intro c fs
  unfold attempt orRollback
  cases hr : x ⟨c, fs⟩ with
  | ok a t =>
    obtain ⟨hy, hs⟩ := follows_ok h hr
    exact ⟨by rw [hy], hs⟩
  | error e t =>
    obtain ⟨_, c', hu, rfl, hundone, hs⟩ := follows_error h hr
    refine ⟨?_, hs⟩
    rw [hu]
    dsimp only
    rw [hundone.rollback_eq]

/-! ## Loops, and statements on a part -/

theorem follows_forM {f : γ → TxOf ρ ε σ PUnit} {g : γ → Tx ε σ PUnit} (l : List γ)
    (hf : ∀ b, follows (f b) (g b)) : follows (l.forM f) (l.forM g) := by
  induction l with
  | nil => exact follows_pure _
  | cons b l ih => exact follows_bind (hf b) fun _ => ih

theorem follows_foldlM {f : β → γ → TxOf ρ ε σ β} {g : β → γ → Tx ε σ β} (l : List γ) (b : β)
    (hf : ∀ b c, follows (f b c) (g b c)) : follows (l.foldlM f b) (l.foldlM g b) := by
  induction l generalizing b with
  | nil => exact follows_pure _
  | cons c l ih => exact follows_bind (hf b c) fun b' => ih b'

/-- A rollback of the part is one of the whole; `y` leaves the held images alone. -/
theorem follows_within {get : σ → τ} {set : τ → σ → σ} {x : TxOf ρ ε τ α} {y : Tx ε τ α}
    (hset : ∀ s, set (get s) s = s) (hk : keeps (fun _ => True) y) (h : follows x y) :
    follows (within get set x) (within get set y) := by
  intro c fs
  unfold within
  dsimp only
  cases hr : x ⟨⟨get c.now, c.undo.map get⟩, fs⟩ with
  | ok a t =>
    obtain ⟨hy, hs⟩ := follows_ok h hr
    exact ⟨by rw [hy], hs⟩
  | error e t =>
    obtain ⟨_, c', hu, rfl, hundone, hs⟩ := follows_error h hr
    refine ⟨e, c.rejoin set c', by rw [hu], rfl, ?_, hs⟩
    rcases hundone with hc | ⟨hended, hc⟩
    · exact .inl (by rw [hc])
    · have hkept : c'.undo = c.undo.map get := wp_error (hk _ trivial) hu
      exact .inr ⟨hended, by rw [hc, Conn.rejoin_rollback hset hkept]⟩

/-! ## Properties of every image -/

/-- From images in `P`, `x` leads to images in `P`, whatever is refused and ended. -/
def remains (P : σ → Prop) (x : TxOf ρ ε σ α) : Prop :=
  ∀ c fs, c.All P → match x ⟨c, fs⟩ with
    | .ok _ t => t.conn.All P
    | .error _ t => t.conn.All P

theorem remains_of_trails {P : σ → Prop} (h : trails x y) (hy : stays P y) : remains P x := by
  intro c fs hc
  cases hr : x ⟨c, fs⟩ with
  | ok a t => exact wp_ok (hy c hc) (follows_ok h hr).1
  | error e t =>
    obtain ⟨e', c', hu, -, hundone, -⟩ := follows_error h hr
    exact hundone.all (wp_error (hy c hc) hu)

omit [Engine ρ] in
theorem remains_bind {P : σ → Prop} {x : TxOf ρ ε σ β} {f : β → TxOf ρ ε σ α}
    (hx : remains P x) (hf : ∀ b, remains P (f b)) : remains P (x >>= f) := by
  intro c fs hc
  have h := hx c fs hc
  show match EStateM.bind x f ⟨c, fs⟩ with
    | .ok _ t => t.conn.All P
    | .error _ t => t.conn.All P
  unfold EStateM.bind
  cases hr : x ⟨c, fs⟩ with
  | ok b t =>
    rw [hr] at h
    exact hf b t.conn t.faults h
  | error e t =>
    rw [hr] at h
    exact h

omit [Engine ρ] in
theorem remains_attempt {P : σ → Prop} (hx : remains P x) : remains P (attempt x) := by
  intro c fs hc
  have h := hx c fs hc
  unfold attempt
  cases hr : x ⟨c, fs⟩ <;> rw [hr] at h <;> exact h

end

/-- Where no refusal ends a transaction unseen. -/
theorem follows_find {σ ε α : Type} {f : σ → Option α} :
    follows (find f : TxOf Reported ε σ (Option α)) (find f) := by
  intro c fs
  match fs with
  | [] => exact ⟨rfl, List.suffix_rfl⟩
  | none :: fs => exact ⟨rfl, List.suffix_cons _ _⟩
  | some r :: fs =>
    refine ⟨?_, List.suffix_cons _ _⟩
    show EStateM.Result.ok none (⟨c, mild fs⟩ : Session σ) =
      .ok none ⟨if r.endsUnseen then c.rollback else c, mild fs⟩
    rw [r.seen]
    rfl

end Tx

end Library
