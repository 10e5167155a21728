import RetroCloudSync.Journal.Lineage

/-!
# Immutable intents and separate accounts

All accounts share the tables and ids are global. `Untouched b t t'`: the operations, bases,
resolutions and attention rows of account `b` are the same in `t'` as in `t`. Every call through
the journal of another account is a frame for `b` (`call_untouched`), whatever ids and keys it is
given; a run of such calls composes the frames. Two facts carry it: ids are unique, so an id that
names a row of one account names none of another, and both ends of a resolution belong to one
account (`Linked`).
-/

set_option autoImplicit false

namespace Journal

open Library Library.Tx

variable {account b id n : Int} {c c' : Conn Tables} {t t' t'' : Tables}

/-! ## The rows of an account -/

/-- `id` names an operation of account `b`. -/
def Owns (t : Tables) (b id : Int) : Prop := ∃ o ∈ t.operations, o.id = id ∧ o.account = b

theorem not_owns {o : Operation} (ho : o ∈ t.operations) (hb : o.account ≠ b) :
    ¬ Owns t b o.id := by
  rintro ⟨x, hx, hid, ha⟩
  obtain rfl : x = o := Table.eq_of_key hx ho hid
  exact hb ha

/-- The rows of account `b` are the same in `t'` as in `t`. -/
structure Untouched (b : Int) (t t' : Tables) : Prop where
  operations : ∀ o, o.account = b → (o ∈ t'.operations ↔ o ∈ t.operations)
  bases : ∀ x, x.account = b → (x ∈ t'.bases ↔ x ∈ t.bases)
  resolutions : ∀ r, Owns t b r.operation ∨ Owns t b r.successor →
    (r ∈ t'.resolutions ↔ r ∈ t.resolutions)
  attention : ∀ a, Owns t b a.operation → (a ∈ t'.attention ↔ a ∈ t.attention)

namespace Untouched

theorem refl (b : Int) (t : Tables) : Untouched b t t :=
  ⟨fun _ _ => .rfl, fun _ _ => .rfl, fun _ _ => .rfl, fun _ _ => .rfl⟩

theorem owns (h : Untouched b t t') (id : Int) : Owns t' b id ↔ Owns t b id := by
  constructor
  · rintro ⟨o, ho, hid, ha⟩
    exact ⟨o, (h.operations o ha).1 ho, hid, ha⟩
  · rintro ⟨o, ho, hid, ha⟩
    exact ⟨o, (h.operations o ha).2 ho, hid, ha⟩

theorem trans (h : Untouched b t t') (h' : Untouched b t' t'') : Untouched b t t'' where
  operations o ho := (h'.operations o ho).trans (h.operations o ho)
  bases x hx := (h'.bases x hx).trans (h.bases x hx)
  resolutions r hr :=
    (h'.resolutions r (by rwa [h.owns, h.owns])).trans (h.resolutions r hr)
  attention a ha := (h'.attention a ((h.owns _).2 ha)).trans (h.attention a ha)

/-! ### One statement -/

theorem added {ops : Table Operation.id Operation.change} {o : Operation}
    (h : Table.Added t.operations ops o) (ho : o.account ≠ b) :
    Untouched b t { t with operations := ops } := by
  refine { refl b t with operations := fun x hx => h.iff_of_ne ?_ }
  rintro rfl
  exact ho hx

theorem rewrote {ops : Table Operation.id Operation.change} {o o' : Operation}
    (h : Table.Rewrote t.operations ops o o') (ho : o.account ≠ b) (hs : o'.account = o.account) :
    Untouched b t { t with operations := ops } := by
  refine { refl b t with operations := fun x hx => h.iff_of_ne ?_ ?_ }
  · rintro rfl
    exact ho hx
  · rintro rfl
    exact ho (hs.symm.trans hx)

theorem replaced {x : Base} (hx : x.account ≠ b) :
    Untouched b t { t with bases := t.bases.replace x } := by
  refine { refl b t with bases := fun y hy => ?_ }
  have hk : y.key ≠ x.key := fun he => hx ((congrArg Prod.fst he).symm.trans hy)
  have hne : y ≠ x := fun he => hk (congrArg Base.key he)
  simp [Table.mem_replace, hk, hne]

theorem linked {rs : Table Resolution.operation Resolution.successor} {r : Resolution}
    (h : Table.Added t.resolutions rs r) (ho : ¬ Owns t b r.operation)
    (hs : ¬ Owns t b r.successor) : Untouched b t { t with resolutions := rs } := by
  refine { refl b t with resolutions := fun x hx => h.iff_of_ne ?_ }
  rintro rfl
  exact hx.elim ho hs

theorem marked {rs : Table Resolution.operation Resolution.successor} {r : Resolution}
    (h : Table.Rewrote t.resolutions rs r r.mirrored) (ho : ¬ Owns t b r.operation)
    (hs : ¬ Owns t b r.successor) : Untouched b t { t with resolutions := rs } := by
  refine { refl b t with resolutions := fun x hx => h.iff_of_ne ?_ ?_ }
  · rintro rfl
    exact hx.elim ho hs
  · rintro rfl
    exact hx.elim ho hs

theorem forgotten (hid : ¬ Owns t b id) : Untouched b t (deleteAttention id t) := by
  refine { refl b t with attention := fun a ha => ?_ }
  have hne : a.operation ≠ id := by
    rintro rfl
    exact hid ha
  simp [deleteAttention, Table.mem_delete, hne]

theorem noted {reason : Bytes} (hid : ¬ Owns t b id) :
    Untouched b t { t with attention := t.attention.replace ⟨id, reason⟩ } := by
  refine { refl b t with attention := fun a ha => ?_ }
  have hop : a.operation ≠ id := by
    rintro rfl
    exact hid ha
  have hne : a ≠ ⟨id, reason⟩ := fun he => hop (congrArg Attention.operation he)
  simp [Table.mem_replace, hop, hne]

end Untouched

/-! ## One call -/

/-- An id that names a row of `account` names none of another. -/
theorem not_owns_found {o : Operation} (h : findOperation account id t = some o)
    (hb : account ≠ b) : ¬ Owns t b id := by
  obtain ⟨ho, ha, rfl⟩ := findOperation_some h
  exact not_owns ho (ha ▸ hb)

theorem Enqueued.untouched {i : Intent} (h : Enqueued account i t n t') (hb : account ≠ b) :
    Untouched b t t' := by
  cases h with
  | replay => exact .refl b t
  | fresh _ _ _ added => exact .added added hb

theorem Resolved.untouched {d : Decision} (h : Resolved account id d t n t') (hb : account ≠ b) :
    Untouched b t t' := by
  cases h with
  | replay => exact .refl b t
  | fresh found unlinked usable added linked cancelled =>
    rename_i old mid ops rs
    obtain ⟨-, ha, -⟩ := findOperation_some found
    have hown := not_owns_found found hb
    -- one statement after the other: successor, cancellation, link, attention
    have hadd : Untouched b t { t with operations := mid } := .added added hb
    have hcan : Untouched b { t with operations := mid } { t with operations := ops } :=
      .rewrote (t := { t with operations := mid }) cancelled (by rwa [ha]) rfl
    have hnew : ¬ Owns { t with operations := ops } b (newRowid t.operations) := fun h =>
      not_owns (t := { t with operations := mid }) added.mem_new hb ((hcan.owns _).1 h)
    have hold : ¬ Owns { t with operations := ops } b id := fun h =>
      hown (((hadd.trans hcan).owns _).1 h)
    have hlink : Untouched b { t with operations := ops }
        { t with operations := ops, resolutions := rs } :=
      .linked (t := { t with operations := ops }) linked hold hnew
    have hall := (hadd.trans hcan).trans hlink
    exact hall.trans (.forgotten fun h => hown ((hall.owns _).1 h))

/-- Both ends of a resolution belong to one account. -/
theorem Linked.not_owns {r : Resolution} (hl : Linked t) (hr : r ∈ t.resolutions)
    (hm : mirrorable account id t r = true) (hb : account ≠ b) :
    ¬ Owns t b r.operation ∧ ¬ Owns t b r.successor := by
  obtain ⟨o, ho, hp⟩ := Table.any_iff.1 hm
  simp only [Bool.and_eq_true, decide_eq_true_iff] at hp
  obtain ⟨⟨⟨hsucc, ha⟩, -⟩, -⟩ := hp
  obtain ⟨old, hold, next, hnext, hlink⟩ := hl r hr
  obtain rfl : next = o := Table.eq_of_key hnext ho (hlink.successor.symm.trans hsucc.symm)
  have hold' : old.account ≠ b := by rwa [← hlink.account, ha]
  exact ⟨hlink.operation ▸ Journal.not_owns hold hold', hsucc ▸ Journal.not_owns ho (ha ▸ hb)⟩

theorem conflictAttention_untouched {reason : Option Bytes} (hb : account ≠ b) :
    wp (conflictAttention account id reason) (fun _ c' => Untouched b c.now c'.now)
      (fun _ c' => c' = c) c := by
  unfold conflictAttention
  split
  · exact wp_throw rfl
  · split
    · exact wp_throw rfl
    · refine wp_bind (wp_get (fun o ho => ?_) fun _ => rfl)
      split
      · refine wp_bind (wp_gate (wp_stmt (fun a t ht => ?_) fun _ => rfl) fun _ => rfl)
        cases ht
        cases reason with
        | none => exact .forgotten (not_owns_found ho hb)
        | some r => exact .noted (not_owns_found ho hb)
      · exact wp_throw rfl

/-- **A call through one account is a frame for every other.** -/
theorem call_untouched (q : Call) (hl : Linked c.now) (hb : account ≠ b) :
    wp (q.run account) (fun _ c' => Untouched b c.now c'.now) (fun _ c' => c' = c) c := by
  cases q with
  | setBase key href etag body revision =>
    show wp (setBase account key href etag body revision) _ _ _
    unfold setBase
    split
    · split
      · exact wp_throw rfl
      · refine wp_bind (wp_gate (wp_stmt (fun a t ht => ?_) fun _ => rfl) fun _ => rfl)
        cases ht
        exact .replaced hb
    · exact wp_throw rfl
  | enqueue change key href kind revision body =>
    refine wp_mono enqueue_spec ?_ fun _ _ h => h
    rintro n c' ⟨-, i, -, h⟩
    exact h.untouched hb
  | get id => exact wp_get (fun _ _ => .refl b _) fun _ => rfl
  | next now => exact wp_query (.refl b _) fun _ => rfl
  | nextConflict => exact wp_query (.refl b _) fun _ => rfl
  | recoveryNext after => exact wp_query (.refl b _) fun _ => rfl
  | beginAttempt id now =>
    refine wp_mono beginAttempt_spec ?_ fun _ _ h => h
    rintro _ ⟨now', undo'⟩ ⟨-, -, o, ops, hdue, hr, rfl⟩
    simp only [Operation.due, Bool.and_eq_true, decide_eq_true_iff] at hdue
    exact .rewrote hr (hdue.1.1.1 ▸ hb) rfl
  | recordResult id state status etag body =>
    refine wp_mono recordResult_spec ?_ fun _ _ h => h
    rintro _ ⟨now', undo'⟩ ⟨-, -, r, -, o, ops, hfit, hr, rfl⟩
    simp only [Outcome.fits, Bool.and_eq_true, decide_eq_true_iff] at hfit
    exact .rewrote hr (hfit.1.1.1 ▸ hb) rfl
  | acknowledge id =>
    exact wp_acknowledge (fun o ops ho hr => .rewrote hr (ho.1 ▸ hb) rfl) fun _ => rfl
  | cancel id =>
    exact wp_cancel (fun o ops ho hr => .rewrote hr (ho.1 ▸ hb) rfl) fun _ => rfl
  | resolveConflict id kind body receipt =>
    refine wp_mono resolve_spec ?_ fun _ _ h => h
    rintro n c' ⟨-, d, -, h⟩
    exact h.untouched hb
  | conflictAttention id reason => exact conflictAttention_untouched hb
  | resolutionReceipt id =>
    refine wp_bind (wp_gate (wp_bind (wp_select ?_ fun _ => rfl)) fun _ => rfl)
    split
    · exact wp_throw rfl
    · exact wp_bind (wp_gate (wp_pure (.refl b _)) fun _ => rfl)
  | resolutionMirrored id =>
    refine wp_mono resolutionMirrored_spec ?_ fun _ _ h => h
    rintro _ ⟨now', undo'⟩ ⟨-, -, r, rs, hm, hw, rfl⟩
    obtain ⟨ho, hs⟩ := hl.not_owns hw.mem hm hb
    exact .marked hw ho hs

/-! ## Runs -/

/-- A step that works for `account` only. -/
inductive Through (account : Int) : Conn Tables → Conn Tables → Prop
  | call (c : Conn Tables) (q : Call) (faults : List (Option String)) :
      Through account c (after (q.run account) c faults)
  | push (c : Conn Tables) : Through account c c.push
  | release (c : Conn Tables) : Through account c c.release
  | commit (c : Conn Tables) : Through account c c.commit

theorem Through.step (h : Through account c c') : Step c c' := by
  cases h with
  | call q faults => exact .call c account q faults
  | push => exact .push c
  | release => exact .release c
  | commit => exact .commit c

theorem Through.untouched (h : Through account c c') (hl : Linked c.now) (hb : account ≠ b) :
    Untouched b c.now c'.now := by
  cases h with
  | call q faults =>
    refine after_spec (P := fun c' => Untouched b c.now c'.now)
      (wp_mono (call_untouched q hl hb) (fun _ _ h => h) ?_) faults
    rintro _ _ rfl
    exact .refl b _
  | push => exact .refl b _
  | release => exact .refl b _
  | commit => exact .refl b _

theorem Reached.untouched {past : List (Conn Tables)} (h : Reached c past) (hb : account ≠ b)
    (hr : Relation.ReflTransGen (Through account) c c') : Untouched b c.now c'.now := by
  induction hr with
  | refl => exact .refl b _
  | tail hr hs ih =>
    obtain ⟨past', hm⟩ := Run.extend h (Relation.ReflTransGen.mono (fun _ _ => Through.step) _ _ hr)
    exact ih.trans (hs.untouched (Reached.linked hm) hb)

/-- An operation goes on under its intent whatever is called later. -/
theorem Later.same {o : Operation} (h : Later c c') (ho : o ∈ c.now.operations) :
    ∃ o' ∈ c'.now.operations, Operation.Same o' o := by
  obtain ⟨o', ho', hi⟩ := h.stable (P := fun t => ∃ o' ∈ t.operations, o'.intent = o.intent)
    (fun account c t hc hm => by
      obtain ⟨x, hx, hxi⟩ := hc
      obtain ⟨y, hy, hyi, -⟩ := hm.operation hx
      exact ⟨y, hy, hyi.trans hxi⟩) ⟨o, ho, rfl⟩
  exact ⟨o', ho', Operation.same_of_intent hi⟩

/-- **Immutable intent and account isolation.** A row of `write_operations` keeps its intent
through all later calls, and no run of calls through one account changes, adds or removes a row
of another. -/
theorem intent_and_isolation {past : List (Conn Tables)} (h : Reached c past) :
    (∀ o ∈ c.now.operations, ∀ c', Later c c' →
      ∃ o' ∈ c'.now.operations, Operation.Same o' o) ∧
    ∀ a b c', a ≠ b → Relation.ReflTransGen (Through a) c c' → Untouched b c.now c'.now :=
  ⟨fun _ ho _ hl => hl.same ho, fun _ _ _ hb hr => h.untouched hb hr⟩

/-- Account 8 passes the id of account 7's write, and its key. -/
theorem intent_and_isolation_foreign :
    Untouched 7 (perform 7 waitingCalls ⟨Tables.empty, []⟩).now
      (perform 8 [.cancel 1, .setBase (some (ascii "k")) (some (ascii "https://dav/k")) none
        (.data (ascii "other")) 1] (perform 7 waitingCalls ⟨Tables.empty, []⟩)).now := by
  obtain ⟨past, h⟩ := reached_empty.perform 7 waitingCalls
  refine (intent_and_isolation h).2 8 7 _ (by decide) ?_
  exact .tail (.tail .refl (.call _ (.cancel 1) []))
    (.call _ (.setBase (some (ascii "k")) (some (ascii "https://dav/k")) none
      (.data (ascii "other")) 1) [])

end Journal
