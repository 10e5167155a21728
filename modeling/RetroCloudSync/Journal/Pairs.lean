import RetroCloudSync.Journal.Lineage

/-!
# Entity tags stay with their bodies

`Paired published recorded t`: every base of the journal holds an entity tag and a body that are
together in `published`, every observed version is in `recorded`, and what an operation is pinned to
came whole from a base or, for the successor of a conflict, from an observed version. Every call
keeps it, provided the pair that the call itself hands over belongs where it is stored
(`call_paired`).
-/

set_option autoImplicit false

namespace Journal

open Library Library.Tx

section
variable (published recorded : Option Bytes → Bytes → Prop)

/-- The pair an operation is pinned to came whole from one place. -/
def Sourced (t : Tables) (o : Operation) : Prop :=
  (o.baseETag = none ∧ o.baseBody = none) ∨ ∃ body, o.baseBody = some body ∧
    (published o.baseETag body ∨
      recorded o.baseETag body ∧ ∃ r ∈ t.resolutions, r.successor = o.id)

/-- The version a conflict observed, if any, is in `recorded`. -/
def Observed (o : Operation) : Prop :=
  ∀ body, o.status = 200 → o.resultBody = some body → recorded o.resultETag body

structure Paired (t : Tables) : Prop where
  bases : ∀ b ∈ t.bases, published b.etag b.body
  results : ∀ o ∈ t.operations, Observed recorded o
  operations : ∀ o ∈ t.operations, Sourced published recorded t o

/-- The pair that a call hands over belongs where the call stores it. -/
def Call.Delivers : Call → Prop
  | .setBase _ _ etag body _ => ∀ b, body = .data b → published etag b
  | .recordResult _ _ status etag body =>
    status = 200 → ∀ b, body = .data b → recorded etag b
  | _ => True

end

variable {published recorded : Option Bytes → Bytes → Prop}
variable {account id n : Int} {c : Conn Tables} {t t' : Tables} {o o' : Operation}

theorem Observed.of_none (h : o.httpStatus = none) : Observed recorded o := by
  intro body hs
  simp [Operation.status, h] at hs

theorem Sourced.of_intent (h : Sourced published recorded t o) (hi : o'.intent = o.intent)
    (hr : ∀ r ∈ t.resolutions, ∃ r' ∈ t'.resolutions, r'.successor = r.successor) :
    Sourced published recorded t' o' := by
  have hs := Operation.same_of_intent hi
  unfold Sourced at h ⊢
  rw [hs.baseETag, hs.baseBody, hs.id]
  rcases h with h | ⟨body, hb, h | ⟨h, r, hm, hid⟩⟩
  · exact .inl h
  · exact .inr ⟨body, hb, .inl h⟩
  · obtain ⟨r', hm', hsucc⟩ := hr r hm
    exact .inr ⟨body, hb, .inr ⟨h, r', hm', hsucc.trans hid⟩⟩

namespace Paired

theorem empty : Paired published recorded Tables.empty where
  bases _ h := absurd h (Table.not_mem_empty _)
  results _ h := absurd h (Table.not_mem_empty _)
  operations _ h := absurd h (Table.not_mem_empty _)

theorem mono {published' recorded' : Option Bytes → Bytes → Prop}
    (h : Paired published recorded t) (hp : ∀ e b, published e b → published' e b)
    (hr : ∀ e b, recorded e b → recorded' e b) : Paired published' recorded' t where
  bases b hb := hp _ _ (h.bases b hb)
  results o ho body hs hb := hr _ _ (h.results o ho body hs hb)
  operations o ho := by
    rcases h.operations o ho with h | ⟨body, hb, h | ⟨h, hl⟩⟩
    · exact .inl h
    · exact .inr ⟨body, hb, .inl (hp _ _ h)⟩
    · exact .inr ⟨body, hb, .inr ⟨hr _ _ h, hl⟩⟩

/-! ### One statement -/

/-- A statement on other tables than that of the operations. -/
theorem beside (h : Paired published recorded t) (ho : t'.operations = t.operations)
    (hb : ∀ b ∈ t'.bases, published b.etag b.body)
    (hr : ∀ r ∈ t.resolutions, ∃ r' ∈ t'.resolutions, r'.successor = r.successor) :
    Paired published recorded t' where
  bases := hb
  results o hm := h.results o (ho ▸ hm)
  operations o hm := (h.operations o (ho ▸ hm)).of_intent rfl hr

theorem rewrote {ops : Table Operation.id Operation.change} (h : Paired published recorded t)
    (hr : Table.Rewrote t.operations ops o o') (hi : o'.intent = o.intent)
    (ho : Observed recorded o') : Paired published recorded { t with operations := ops } where
  bases := h.bases
  results x hx := by
    rcases (hr.mem_iff x).1 hx with rfl | ⟨hx, -⟩
    · exact ho
    · exact h.results x hx
  operations x hx := by
    rcases (hr.mem_iff x).1 hx with rfl | ⟨hx, -⟩
    · exact (h.operations o hr.mem).of_intent hi fun r hm => ⟨r, hm, rfl⟩
    · exact (h.operations x hx).of_intent rfl fun r hm => ⟨r, hm, rfl⟩

theorem added {ops : Table Operation.id Operation.change} (h : Paired published recorded t)
    (ha : Table.Added t.operations ops o) (hn : o.httpStatus = none)
    (hs : Sourced published recorded t o) :
    Paired published recorded { t with operations := ops } where
  bases := h.bases
  results x hx := by
    rcases (ha.mem_iff x).1 hx with hx | rfl
    · exact h.results x hx
    · exact .of_none hn
  operations x hx := by
    rcases (ha.mem_iff x).1 hx with hx | rfl
    · exact (h.operations x hx).of_intent rfl fun r hm => ⟨r, hm, rfl⟩
    · exact hs.of_intent rfl fun r hm => ⟨r, hm, rfl⟩

/-! ### Enqueue and ResolveConflict -/

/-- A new operation takes the pair of its base whole. -/
theorem enqueued {i : Intent} (h : Paired published recorded t)
    (he : Enqueued account i t n t') : Paired published recorded t' := by
  cases he with
  | replay => exact h
  | fresh _ _ _ added =>
    refine h.added added rfl ?_
    cases hb : findBase account i.resourceKey t with
    | none => exact .inl ⟨rfl, rfl⟩
    | some b => exact .inr ⟨b.body, rfl, .inl (h.bases b (Table.find?_some hb).1)⟩

/-- A successor takes what the conflict observed, or what the conflict itself was pinned to. -/
theorem successor {d : Decision} (h : Paired published recorded t) (hm : o ∈ t.operations)
    (hu : d.usable o = true) (hl : ∃ r ∈ t.resolutions, r.successor = n) :
    Sourced published recorded t (d.row account n o) := by
  have hp : Pinned o (d.row account n o) := usable_pinned hu
  unfold Pinned at hp
  split at hp
  · rcases hp with ⟨-, he, hb⟩ | ⟨-, he, hb⟩
    · exact .inl ⟨he, hb⟩
    · unfold Sourced
      rw [he, hb]
      rcases h.operations o hm with h | ⟨body, hbody, h | ⟨h, -⟩⟩
      · exact .inl h
      · exact .inr ⟨body, hbody, .inl h⟩
      · exact .inr ⟨body, hbody, .inr ⟨h, hl⟩⟩
  · rename_i h404
    obtain ⟨h200, -, he, hb⟩ := hp
    unfold Sourced
    rw [he, hb]
    -- a usable version has a body
    simp only [Decision.usable, Bool.and_eq_true, if_neg h404, decide_eq_true_iff] at hu
    cases hr : o.resultBody with
    | none =>
      rw [hr] at hu
      exact absurd rfl hu.2.1.2
    | some body => exact .inr ⟨body, rfl, .inr ⟨h.results o hm body h200 hr, hl⟩⟩

theorem resolved {d : Decision} (h : Paired published recorded t)
    (hr : Resolved account id d t n t') : Paired published recorded t' := by
  cases hr with
  | replay => exact h
  | fresh found unlinked usable added linked cancelled =>
    rename_i old mid ops rs
    obtain ⟨hm, -, -⟩ := findOperation_some found
    have hlink : Paired published recorded { t with resolutions := rs } :=
      h.beside rfl h.bases fun r hr => ⟨r, linked.keeps hr, rfl⟩
    have hadd : Paired published recorded { t with operations := mid, resolutions := rs } :=
      hlink.added added rfl (hlink.successor hm usable ⟨_, linked.mem_new, rfl⟩)
    have hcan : Paired published recorded { t with operations := ops, resolutions := rs } :=
      hadd.rewrote cancelled rfl (h.results old hm)
    exact hcan.beside rfl h.bases fun r hr => ⟨r, hr, rfl⟩

end Paired

/-! ## Every call -/

/-- **Pairs survive every call** that hands over a pair which belongs where it is stored. -/
theorem call_paired (q : Call) (hq : q.Delivers published recorded)
    (h : Paired published recorded c.now) :
    wp (q.run account) (fun _ c' => Paired published recorded c'.now) (fun _ c' => c' = c) c := by
  cases q with
  | setBase key href etag body revision =>
    show wp (setBase account key href etag body revision) _ _ _
    unfold setBase
    split
    · split
      · exact wp_throw rfl
      · refine wp_bind (wp_gate (wp_stmt (fun a t ht => ?_) fun _ => rfl) fun _ => rfl)
        cases ht
        refine h.beside rfl (fun b hb => ?_) fun r hr => ⟨r, hr, rfl⟩
        rcases (Table.mem_replace _ _ b).1 hb with ⟨hb, -⟩ | rfl
        · exact h.bases b hb
        · exact hq _ rfl
    · exact wp_throw rfl
  | enqueue change key href kind revision body =>
    refine wp_mono enqueue_spec ?_ fun _ _ he => he
    rintro n c' ⟨-, i, -, he⟩
    exact h.enqueued he
  | get id => exact wp_get (fun _ _ => h) fun _ => rfl
  | next now => exact wp_query h fun _ => rfl
  | nextConflict => exact wp_query h fun _ => rfl
  | recoveryNext after => exact wp_query h fun _ => rfl
  | beginAttempt id now =>
    refine wp_mono beginAttempt_spec ?_ fun _ _ he => he
    rintro _ ⟨now', undo'⟩ ⟨-, -, o, ops, -, hr, rfl⟩
    exact h.rewrote hr rfl (.of_none rfl)
  | recordResult id state status etag body =>
    refine wp_mono recordResult_spec ?_ fun _ _ he => he
    rintro _ ⟨now', undo'⟩ ⟨-, -, r, hr, o, ops, -, hw, rfl⟩
    obtain ⟨hstatus, hetag, hbody⟩ := Outcome.check_ok hr
    refine h.rewrote hw rfl fun b hs hb => ?_
    have hb' : body.column = some b := hbody.symm.trans hb
    cases body with
    | null => cases hb'
    | data b' =>
      cases hb'
      show recorded r.etag b
      rw [hetag]
      exact hq (hstatus.symm.trans hs) b rfl
  | acknowledge id =>
    exact wp_acknowledge (fun o ops _ hr => h.rewrote hr rfl (h.results o hr.mem)) fun _ => rfl
  | cancel id =>
    exact wp_cancel (fun o ops _ hr => h.rewrote hr rfl (h.results o hr.mem)) fun _ => rfl
  | resolveConflict id kind body receipt =>
    refine wp_mono resolve_spec ?_ fun _ _ he => he
    rintro n c' ⟨-, d, -, he⟩
    exact h.resolved he
  | conflictAttention id reason =>
    refine wp_mono conflictAttention_spec ?_ fun _ _ he => he
    rintro _ ⟨now', undo'⟩ ⟨-, att, rfl⟩
    exact h.beside rfl h.bases fun r hr => ⟨r, hr, rfl⟩
  | resolutionReceipt id =>
    refine wp_bind (wp_gate (wp_bind (wp_select ?_ fun _ => rfl)) fun _ => rfl)
    split
    · exact wp_throw rfl
    · exact wp_bind (wp_gate (wp_pure h) fun _ => rfl)
  | resolutionMirrored id =>
    refine wp_mono resolutionMirrored_spec ?_ fun _ _ he => he
    rintro _ ⟨now', undo'⟩ ⟨-, -, r, rs, -, hw, rfl⟩
    refine h.beside rfl h.bases fun x hx => ?_
    rcases hw.goes_on hx with hx | ⟨rfl, hx⟩
    · exact ⟨x, hx, rfl⟩
    · exact ⟨_, hx, rfl⟩

end Journal
