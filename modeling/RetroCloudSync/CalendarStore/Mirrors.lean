import RetroCloudSync.CalendarStore.Rows
import RetroCloudSync.CalendarStore.Save

/-!
# The projection tables mirror one body

`Mirrors`: the rows of the projection tables that belong to a resource are the decomposition of the
body accepted last for it since its row was pruned last, and there are none when there is no such
body. A save replaces them, a body that is not accepted and every other statement leave them alone,
and what a failure leaves half done is rolled back (`keeps`), on the path of a download as on the
path of a retry at the start.
-/

set_option autoImplicit false

namespace CalendarStore

open Library Library.Tx Journal

/-! ## The invariant -/

def Entry.resource : Entry → Int
  | accepted resource _ _ => resource
  | pruned resource => resource

/-- The rows of a resource are those of the body accepted last. -/
def Tables.Mirrored (t : Tables) (resource : Int) : Prop :=
  match acceptedBody resource t.history with
  | none => t.projection resource = .empty
  | some (_, root) => Decomposes resource root (t.projection resource)

/-- The projection tables are those of `t`. -/
structure Tables.SameRows (t t' : Tables) : Prop where
  components : t'.components = t.components
  properties : t'.properties = t.properties
  parameters : t'.parameters = t.parameters
  events : t'.events = t.events

theorem Tables.SameRows.closed {t t' : Tables} (h : t.SameRows t') (hc : t.Closed) : t'.Closed :=
  ⟨by rw [h.components, h.properties]; exact hc.properties,
    by rw [h.properties, h.parameters]; exact hc.parameters,
    by rw [h.components, h.events]; exact hc.events⟩

theorem Tables.SameRows.projection {t t' : Tables} (h : t.SameRows t') (resource : Int) :
    t'.projection resource = t.projection resource :=
  Tables.projection_congr h.components h.properties h.parameters h.events resource

/-- The projection tables and the history are those of `t`. -/
structure Tables.Beside (t t' : Tables) : Prop extends t.SameRows t' where
  history : t'.history = t.history

theorem Tables.Beside.of_resources {t t' : Tables} (h : t' = { t with resources := t'.resources }) :
    t.Beside t' := by
  rw [h]
  exact ⟨⟨rfl, rfl, rfl, rfl⟩, rfl⟩

theorem Tables.Beside.mirrored {t t' : Tables} (h : t.Beside t') {resource : Int}
    (hm : t.Mirrored resource) : t'.Mirrored resource := by
  unfold Tables.Mirrored at hm ⊢
  rwa [h.history, h.projection]

structure Mirrors (t : Tables) : Prop where
  closed : t.Closed
  homed : ∀ c ∈ t.components, ∃ r ∈ t.resources, r.id = c.resource
  noted : ∀ e ∈ t.history, ∃ r ∈ t.resources, r.id = e.resource
  accepted : ∀ resource body root, Entry.accepted resource body root ∈ t.history →
    ∃ (reader : Reader) (uid : Bytes), reader.accept (.data body) = .ok (root, uid)
  mirrored : ∀ r ∈ t.resources, t.Mirrored r.id
  current : ∀ r ∈ t.resources, r.parseError = none → r.rawICal ≠ [] →
    ∃ root, acceptedBody r.id t.history = some (r.rawICal, root)

/-- Entries about other resources do not matter. -/
theorem acceptedBody_cons {resource : Int} {e : Entry} {l : List Entry}
    (h : e.resource ≠ resource) : acceptedBody resource (e :: l) = acceptedBody resource l := by
  cases e with
  | accepted r body root => exact if_neg h
  | pruned r => exact if_neg h

/-- No entry is about a resource. -/
theorem acceptedBody_none {resource : Int} {l : List Entry} (h : ∀ e ∈ l, e.resource ≠ resource) :
    acceptedBody resource l = none := by
  induction l with
  | nil => rfl
  | cons e l ih =>
    rw [acceptedBody_cons (h e List.mem_cons_self)]
    exact ih fun e' he' => h e' (List.mem_cons_of_mem e he')

theorem acceptedBody_pruned (resource : Int) (ids : List Int) (l : List Entry) :
    acceptedBody resource (ids.map Entry.pruned ++ l) =
      if resource ∈ ids then none else acceptedBody resource l := by
  induction ids with
  | nil => simp
  | cons id ids ih =>
    rw [List.map_cons, List.cons_append]
    by_cases hi : id = resource
    · rw [if_pos (by simp [hi])]
      exact if_pos hi
    · rw [acceptedBody_cons (show (Entry.pruned id).resource ≠ resource from hi), ih]
      simp [Ne.symm hi]

namespace Mirrors

variable {t t₁ t' : Tables} {p : Projection}

theorem empty : Mirrors Tables.empty where
  closed := ⟨fun _ h => absurd h (Table.not_mem_empty _), fun _ h => absurd h (Table.not_mem_empty _),
    fun _ h => absurd h (Table.not_mem_empty _)⟩
  homed _ h := absurd h (Table.not_mem_empty _)
  noted _ h := by cases h
  accepted _ _ _ h := by cases h
  mirrored _ h := absurd h (Table.not_mem_empty _)
  current _ h := absurd h (Table.not_mem_empty _)

/-- The rows of a resource that is not there. -/
theorem unknown (h : Mirrors t) {resource : Int} (hn : ∀ r ∈ t.resources, r.id ≠ resource) :
    t.Mirrored resource := by
  have hc : t.componentsOf resource = [] := by
    refine List.eq_nil_iff_forall_not_mem.2 fun c hm => ?_
    obtain ⟨hcm, hres⟩ := Tables.mem_componentsOf.1 hm
    obtain ⟨r, hr, hi⟩ := h.homed c hcm
    exact hn r hr (hi.trans hres)
  have hr : t.propertiesOf resource = [] := by
    unfold Tables.propertiesOf
    rw [hc]
    exact List.filter_eq_nil_iff.2 fun _ _ => by simp
  have ha : t.parametersOf resource = [] := by
    unfold Tables.parametersOf
    rw [hr]
    exact List.filter_eq_nil_iff.2 fun _ _ => by simp
  have he : t.eventsOf resource = [] := by
    refine List.eq_nil_iff_forall_not_mem.2 fun e hm => ?_
    obtain ⟨hem, hres⟩ := Tables.mem_eventsOf.1 hm
    obtain ⟨c, hcm, -, hres'⟩ := h.closed.events e hem
    obtain ⟨r, hr, hi⟩ := h.homed c hcm
    exact hn r hr (hi.trans (hres'.trans hres))
  have hb : acceptedBody resource t.history = none := by
    refine acceptedBody_none fun e hm hres => ?_
    obtain ⟨r, hr, hi⟩ := h.noted e hm
    exact hn r hr (hi.trans hres)
  unfold Tables.Mirrored Tables.projection
  rw [hb, hc, hr, ha, he]
  rfl

/-- Other tables do not matter, and of a resource only its body and its parse error. -/
theorem beside (h : Mirrors t) (ht : t.Beside t')
    (hids : ∀ r ∈ t.resources, ∃ r' ∈ t'.resources, r'.id = r.id)
    (hrows : ∀ r' ∈ t'.resources,
      (∀ r ∈ t.resources, r.id = r'.id → r'.parseError = none → r'.rawICal ≠ [] →
        r.parseError = none ∧ r'.rawICal = r.rawICal) ∧
      ((∀ r ∈ t.resources, r.id ≠ r'.id) → r'.rawICal = [])) : Mirrors t' := by
  have known : ∀ r' : ResourceRow, (∃ r ∈ t.resources, r.id = r'.id) ∨
      ∀ r ∈ t.resources, r.id ≠ r'.id := by
    intro r'
    by_cases hr : ∃ r ∈ t.resources, r.id = r'.id
    · exact .inl hr
    · exact .inr fun r hr' hi => hr ⟨r, hr', hi⟩
  refine ⟨ht.closed h.closed, ?_, ?_, ?_, ?_, ?_⟩
  · intro c hcm
    obtain ⟨r, hr, hi⟩ := h.homed c (ht.components ▸ hcm)
    obtain ⟨r', hr', hi'⟩ := hids r hr
    exact ⟨r', hr', hi'.trans hi⟩
  · intro e hem
    obtain ⟨r, hr, hi⟩ := h.noted e (ht.history ▸ hem)
    obtain ⟨r', hr', hi'⟩ := hids r hr
    exact ⟨r', hr', hi'.trans hi⟩
  · rw [ht.history]
    exact h.accepted
  · intro r' _
    rcases known r' with ⟨r, hr, hi⟩ | hn
    · rw [← hi]
      exact ht.mirrored (h.mirrored r hr)
    · exact ht.mirrored (h.unknown hn)
  · intro r' hr' hpe hraw
    rcases known r' with ⟨r, hr, hi⟩ | hn
    · obtain ⟨hpe', hraw'⟩ := (hrows r' hr').1 r hr hi hpe hraw
      obtain ⟨root, hroot⟩ := h.current r hr hpe' (by rwa [← hraw'])
      exact ⟨root, by rw [ht.history, ← hi, hroot, hraw']⟩
    · exact absurd ((hrows r' hr').2 hn) hraw

/-- Statements on other tables. -/
theorem elsewhere (h : Mirrors t) (ht : t.Beside t') (hr : t'.resources = t.resources) :
    Mirrors t' := by
  refine h.beside ht (fun r hm => ⟨r, hr ▸ hm, rfl⟩) fun r' hm => ⟨fun r hr' hi hp _ => ?_, ?_⟩
  · rw [Table.eq_of_key hr' (hr ▸ hm) hi]
    exact ⟨hp, rfl⟩
  · exact fun hn => absurd rfl (hn r' (hr ▸ hm))

/-- Each row is rewritten, and keeps its body when it has no parse error. -/
theorem rewritten (h : Mirrors t) (ht : t.Beside t') {f : ResourceRow → ResourceRow}
    (hf : ∀ r, (f r).id = r.id)
    (hr : ∀ r', r' ∈ t'.resources ↔ ∃ r ∈ t.resources, r' = f r)
    (hbody : ∀ r ∈ t.resources, (f r).parseError = none → (f r).rawICal ≠ [] →
      r.parseError = none ∧ (f r).rawICal = r.rawICal) : Mirrors t' := by
  refine h.beside ht (fun r hm => ⟨f r, (hr _).2 ⟨r, hm, rfl⟩, hf r⟩) fun r' hm => ?_
  obtain ⟨r, hrm, rfl⟩ := (hr r').1 hm
  refine ⟨fun r₀ hr₀ hi hp hraw => ?_, fun hn => absurd (hf r).symm (hn r hrm)⟩
  rw [Table.eq_of_key hr₀ hrm (hi.trans (hf r))]
  exact hbody r hrm hp hraw

theorem updateResources (h : Mirrors t) {p : ResourceRow → Bool} {f : ResourceRow → ResourceRow}
    {hf : ∀ r, (f r).id = r.id} {hf' : ∀ r, (f r).place = r.place}
    (hbody : ∀ r ∈ t.resources, (f r).parseError = none → (f r).rawICal ≠ [] →
      r.parseError = none ∧ (f r).rawICal = r.rawICal) :
    Mirrors (t.updateResources p f hf hf') := by
  have hb : t.Beside (t.updateResources p f hf hf') := ⟨⟨rfl, rfl, rfl, rfl⟩, rfl⟩
  refine h.rewritten hb (f := fun r => if p r then f r else r) (fun r => ?_)
    (fun r' => Tables.mem_updateResources) fun r hr => ?_
  · split
    · exact hf r
    · rfl
  · split
    · exact hbody r hr
    · exact fun hp _ => ⟨hp, rfl⟩

/-- A new row has no body yet. -/
theorem based (h : Mirrors t) {calendar : Int} {href : Bytes} {uid : Option Bytes} {r : ResourceRow}
    (hr : Based calendar href uid t r) (ht : t' = { t with resources := t'.resources })
    (hrows : ∀ x, x ∈ t'.resources ↔ x = r ∨ x ∈ t.resources) : Mirrors t' := by
  refine h.beside (.of_resources ht) (fun x hx => ⟨x, (hrows x).2 (.inr hx), rfl⟩) fun x hx => ?_
  by_cases hold : x ∈ t.resources
  · refine ⟨fun y hy hi hp _ => ?_, fun hn => absurd rfl (hn x hold)⟩
    rw [Table.eq_of_key hy hold hi]
    exact ⟨hp, rfl⟩
  · obtain rfl := ((hrows x).1 hx).resolve_right hold
    rcases hr with ⟨hr, -⟩ | ⟨hnew, hfresh⟩
    · exact absurd hr hold
    · refine ⟨fun y hy hi => absurd hi (hfresh y hy).1, fun _ => ?_⟩
      rw [hnew]
      rfl

/-- The rows of an accepted body in the place of those of the resource. -/
theorem replaced (h : Mirrors t) {resource : Int} {f : ResourceRow → ResourceRow} {body : Bytes}
    {root : Component} {uid : Bytes} {reader : Reader} {i : Ids}
    (hres : ∃ r ∈ t.resources, r.id = resource) (ht : t.SameRows t₁)
    (hh₁ : t₁.history = .accepted resource body root :: t.history)
    (hr : ∀ r', r' ∈ t₁.resources ↔
      ∃ r ∈ t.resources, r' = if decide (r.id = resource) then f r else r)
    (hf : ∀ r, (f r).id = r.id) (hraw : ∀ r, (f r).rawICal = body)
    (ha : Adds (t₁.deleteComponents fun r => r = resource) t' p)
    (hp : root.emit resource none 0 i = some p)
    (hacc : reader.accept (.data body) = .ok (root, uid)) : Mirrors t' := by
  have ho : Owned resource (fun _ => False) (fun _ => False) p := emit_owned root hp
  have hh : t'.history = .accepted resource body root :: t.history :=
    (congrArg Tables.history ha.frame).trans hh₁
  have hrs : t'.resources = t₁.resources := (congrArg Tables.resources ha.frame).trans rfl
  have hclosed := ht.closed h.closed
  have hids : ∀ r ∈ t.resources, ∃ r' ∈ t'.resources, r'.id = r.id := by
    intro r hm
    refine ⟨_, hrs ▸ (hr _).2 ⟨r, hm, rfl⟩, ?_⟩
    split
    · exact hf r
    · rfl
  constructor
  · exact ha.closed (Tables.deleted_closed hclosed) ho
  · intro c hc
    have hc : c ∈ (t₁.deleteComponents fun r => r = resource).components.rows ++ p.components :=
      ha.components ▸ hc
    rcases List.mem_append.1 hc with hc | hc
    · obtain ⟨r, hm, hi⟩ := h.homed c (ht.components ▸ (Tables.mem_deleted_components.1 hc).1)
      obtain ⟨r', hm', hi'⟩ := hids r hm
      exact ⟨r', hm', hi'.trans hi⟩
    · obtain ⟨r, hm, hi⟩ := hres
      obtain ⟨r', hm', hi'⟩ := hids r hm
      exact ⟨r', hm', (hi'.trans hi).trans (ho.components c hc).symm⟩
  · intro e he
    have he : ∃ r ∈ t.resources, r.id = e.resource := by
      rw [hh] at he
      rcases List.mem_cons.1 he with rfl | he
      · exact hres
      · exact h.noted e he
    obtain ⟨r, hm, hi⟩ := he
    obtain ⟨r', hm', hi'⟩ := hids r hm
    exact ⟨r', hm', hi'.trans hi⟩
  · intro resource' body' root' he
    rw [hh] at he
    rcases List.mem_cons.1 he with he | he
    · cases he
      exact ⟨reader, uid, hacc⟩
    · exact h.accepted _ _ _ he
  · intro r' hm
    obtain ⟨r, hrm, rfl⟩ := (hr r').1 (hrs ▸ hm)
    by_cases hi : r.id = resource
    · rw [if_pos (decide_eq_true hi), hf, hi]
      have hb : acceptedBody resource t'.history = some (body, root) := by
        rw [hh]
        exact if_pos rfl
      unfold Tables.Mirrored
      rw [hb]
      have hproj := ha.projection_added (Tables.deleted_closed hclosed) ho
        (Tables.deleted_none hclosed (decide_eq_true rfl))
      exact ⟨i, hproj ▸ hp⟩
    · rw [if_neg (by simpa using hi)]
      have hm := h.mirrored r hrm
      have hproj : t'.projection r.id = t.projection r.id :=
        (ha.projection_other ho hi).trans ((Tables.deleted_projection hclosed
          (decide_eq_false hi)).trans (ht.projection r.id))
      unfold Tables.Mirrored at hm ⊢
      rw [hh, acceptedBody_cons (show (Entry.accepted resource body root).resource ≠ r.id from
        Ne.symm hi)]
      exact hproj ▸ hm
  · intro r' hm hpe hne
    obtain ⟨r, hrm, rfl⟩ := (hr r').1 (hrs ▸ hm)
    by_cases hi : r.id = resource
    · rw [if_pos (decide_eq_true hi), hf, hi, hraw]
      exact ⟨root, by rw [hh]; exact if_pos rfl⟩
    · rw [if_neg (by simpa using hi)] at hpe hne ⊢
      obtain ⟨root', hroot⟩ := h.current r hrm hpe hne
      refine ⟨root', ?_⟩
      rw [← hroot, hh]
      exact acceptedBody_cons (Ne.symm hi)

/-- The rows that are emptied lose their bodies. -/
theorem pruned (h : Mirrors t) {ids : List Int} (hids : ∀ id ∈ ids, ∃ r ∈ t.resources, r.id = id)
    (hrows : (t.deleteComponents fun r => r ∈ ids).SameRows t')
    (hh : t'.history = ids.map Entry.pruned ++ t.history)
    (hr : ∀ r', r' ∈ t'.resources ↔
      ∃ r ∈ t.resources, r' = if decide (r.id ∈ ids) then r.pruned else r) : Mirrors t' := by
  have hkeep : ∀ r ∈ t.resources, ∃ r' ∈ t'.resources, r'.id = r.id := by
    intro r hm
    refine ⟨_, (hr _).2 ⟨r, hm, rfl⟩, ?_⟩
    split <;> rfl
  refine ⟨hrows.closed (Tables.deleted_closed h.closed), ?_, ?_, ?_, ?_, ?_⟩
  · intro c hc
    obtain ⟨hc, -⟩ := Tables.mem_deleted_components.1 (hrows.components ▸ hc)
    obtain ⟨r, hm, hi⟩ := h.homed c hc
    obtain ⟨r', hm', hi'⟩ := hkeep r hm
    exact ⟨r', hm', hi'.trans hi⟩
  · intro e he
    rw [hh, List.mem_append, List.mem_map] at he
    have he : ∃ r ∈ t.resources, r.id = e.resource := by
      rcases he with ⟨id, hid, rfl⟩ | he
      · exact hids id hid
      · exact h.noted e he
    obtain ⟨r, hm, hi⟩ := he
    obtain ⟨r', hm', hi'⟩ := hkeep r hm
    exact ⟨r', hm', hi'.trans hi⟩
  · intro resource body root he
    rw [hh, List.mem_append, List.mem_map] at he
    rcases he with ⟨id, -, he⟩ | he
    · cases he
    · exact h.accepted _ _ _ he
  · intro r' hm
    obtain ⟨r, hrm, rfl⟩ := (hr r').1 hm
    have hid : (if decide (r.id ∈ ids) then r.pruned else r).id = r.id := by split <;> rfl
    rw [hid]
    unfold Tables.Mirrored
    rw [hh, acceptedBody_pruned, hrows.projection]
    by_cases hi : r.id ∈ ids
    · rw [if_pos hi]
      exact Tables.deleted_none h.closed (decide_eq_true hi)
    · rw [if_neg hi, Tables.deleted_projection h.closed (decide_eq_false hi)]
      exact h.mirrored r hrm
  · intro r' hm hpe hne
    obtain ⟨r, hrm, rfl⟩ := (hr r').1 hm
    by_cases hi : r.id ∈ ids
    · rw [if_pos (decide_eq_true hi)] at hne
      exact absurd rfl hne
    · rw [if_neg (by simpa using hi)] at hpe hne ⊢
      rw [hh, acceptedBody_pruned, if_neg hi]
      exact h.current r hrm hpe hne

end Mirrors

/-! ## A save -/

section
variable {c : Conn Tables} {s : Store}

/-- **A save that returns has replaced the rows of its body, or kept those there were.** -/
theorem save_keeps {reader : Reader} {calendar : Int} {href : Bytes} {etag : Option Bytes}
    {body : Buf} : keeps Mirrors (save reader s calendar href etag body) := by
  intro c hm
  refine wp_bind (wp_findRow (fun found hf => ?_) rfl)
  refine wp_bind (wp_mono (wp_ensureRow (E := fun _ c' => c'.undo = c.undo) hf fun _ => rfl)
    ?_ fun _ _ h => h)
  rintro resource c₁ ⟨hu, r, hbased, rfl, hframe, hrows⟩
  have hm₁ := hm.based hbased hframe hrows
  have hres : ∃ x ∈ c₁.now.resources, x.id = r.id := ⟨r, (hrows r).2 (.inl rfl), rfl⟩
  refine wp_bind (wp_gate (wp_bind (wp_stmt (fun _ t ht => ?_) fun _ => hu)) fun _ => hu)
  obtain ⟨raw, rfl, hframe', hr⟩ := updateSaved_ok ht
  have hb := Tables.Beside.of_resources hframe'
  refine wp_bind (wp_note ?_)
  cases hacc : reader.accept (.data raw) with
  | error e =>
    -- the rows stay, and the parse error says so
    refine wp_pure ⟨hm₁.rewritten hb (fun r => ?_) hr fun r _ => ?_, hu⟩
    · split <;> rfl
    · rw [hacc]
      split
      · exact fun hp => by cases hp
      · exact fun hp _ => ⟨hp, rfl⟩
  | ok accepted =>
    obtain ⟨root, uid⟩ := accepted
    refine wp_bind (wp_change (wp_mono (storeComponent_stores r.id 0 0 root _) ?_ ?_) fun _ => hu)
    · rintro _ c₂ ⟨hu₂, p, hp, ha⟩
      refine ⟨?_, hu₂.trans hu⟩
      have hrows : c₁.now.SameRows { t with history := .accepted r.id raw root :: t.history } :=
        ⟨hb.components, hb.properties, hb.parameters, hb.events⟩
      exact hm₁.replaced hres hrows (congrArg (Entry.accepted r.id raw root :: ·) hb.history) hr
        (fun _ => rfl) (fun _ => rfl) ha hp hacc
    · exact fun _ _ h => h.trans hu

end

/-! ## Every pass -/

section
variable {s : Store} {account : Int}

/-- Statements on other tables than the projection and the resources. -/
theorem keeps_elsewhere {fail : String → RCError} {f : Tables → Tables}
    (hb : ∀ t : Tables, t.Beside (f t)) (hr : ∀ t, (f t).resources = t.resources) :
    keeps Mirrors (change fail f) :=
  keeps_change fun t h => h.elsewhere (hb t) (hr t)

theorem keeps_updateResources {fail : String → RCError} {p : Tables → ResourceRow → Bool}
    {f : ResourceRow → ResourceRow} {hf : ∀ r, (f r).id = r.id} {hf' : ∀ r, (f r).place = r.place}
    (hbody : ∀ r, (f r).parseError = r.parseError ∧ (f r).rawICal = r.rawICal) :
    keeps Mirrors (change fail fun t => t.updateResources (p t) f hf hf') :=
  keeps_change fun _ h => h.updateResources fun r _ hp _ =>
    ⟨(hbody r).1 ▸ hp, (hbody r).2⟩

theorem keeps_collection {c : DAVCollection} {random : Bytes} :
    keeps Mirrors (collection s c random) := by
  refine keeps_bind (keeps_elsewhere (fun _ => ⟨⟨rfl, rfl, rfl, rfl⟩, rfl⟩) fun _ => rfl) fun _ => ?_
  refine keeps_bind (keeps_elsewhere (fun _ => ⟨⟨rfl, rfl, rfl, rfl⟩, rfl⟩) fun _ => rfl) fun _ => ?_
  refine keeps_bind keeps_findValue fun identifier => ?_
  split
  · exact keeps_pure _
  · exact keeps_throw _

theorem keeps_seen {calendar : Int} {href etag : Bytes} :
    keeps Mirrors (seen s calendar href etag) := by
  refine keeps_bind keeps_findValue fun count => ?_
  split
  · exact keeps_bind (keeps_updateResources fun _ => ⟨rfl, rfl⟩) fun _ => keeps_pure _
  · exact keeps_pure _

theorem keeps_conclude : keeps Mirrors (conclude s) := by
  refine keeps_bind (keeps_updateResources fun r => ?_) fun _ => ?_
  · cases hs : s.scopedRun <;> exact ⟨rfl, rfl⟩
  refine keeps_bind (keeps_elsewhere (fun _ => ⟨⟨rfl, rfl, rfl, rfl⟩, rfl⟩) fun _ => rfl) fun _ => ?_
  exact keeps_elsewhere (fun _ => ⟨⟨rfl, rfl, rfl, rfl⟩, rfl⟩) fun _ => rfl

theorem stays_fetch {reader : Reader} {start : Option Bytes} {fetches : List (Fetch × Bytes)} :
    stays Mirrors (fetchSince reader account start fetches) := by
  refine stays_fetchSince (R := fun _ => Mirrors) (fun t run t' h hi => ?_) (fun run => ?_)
    (fun run c h => keeps_conclude c h) fun t run succeeded m h => ?_
  · unfold insertRun at hi
    split at hi <;> cases hi
    exact ⟨h.elsewhere ⟨⟨rfl, rfl, rfl, rfl⟩, rfl⟩ rfl, h.elsewhere ⟨⟨rfl, rfl, rfl, rfl⟩, rfl⟩ rfl⟩
  · refine keeps_commitFetches (fun _ _ => keeps_collection)
      (fun _ => keeps_updateResources fun _ => ⟨rfl, rfl⟩) (fun _ _ _ => keeps_seen)
      (fun _ _ _ _ _ _ _ => save_keeps) fun t y h => ?_
    exact h.elsewhere ⟨⟨rfl, rfl, rfl, rfl⟩, rfl⟩ rfl
  · exact h.elsewhere ⟨⟨rfl, rfl, rfl, rfl⟩, rfl⟩ rfl

theorem stays_openMirrors {reader : Reader} {username random : Bytes} :
    stays Mirrors (openAccount reader username random) := by
  refine stays_openAccount (fun t h => h.elsewhere ⟨⟨rfl, rfl, rfl, rfl⟩, rfl⟩ rfl) ?_
  refine fun account last row c hc _ => wp_reparseResource hc hc.now save_keeps fun t h => ?_
  exact h.updateResources fun r _ hp _ => ⟨hp, rfl⟩

theorem clearBases_mirrors (t : Tables) (h : Mirrors t) : Mirrors (clearBases account t) :=
  h.elsewhere ⟨⟨rfl, rfl, rfl, rfl⟩, rfl⟩ rfl

theorem insertBases_mirrors {generation : Int} (t : Tables) (u : Unit) (t' : Tables)
    (h : Mirrors t) (hi : insertBases account generation t = .ok (u, t')) : Mirrors t' := by
  unfold insertBases at hi
  split at hi <;> cases hi
  exact h.elsewhere ⟨⟨rfl, rfl, rfl, rfl⟩, rfl⟩ rfl

theorem stays_gatherMirrors {native : Native} {g : Gathered} {r : ResourceRow} :
    stays Mirrors (gather native g r) :=
  stays_gather fun _ _ => stays_change fun _ h => h.updateResources fun _ _ hp _ => ⟨hp, rfl⟩

theorem stays_checkpointMirrors {generation : Int} {resources : List Published} :
    stays Mirrors (checkpoint s generation resources) := by
  refine stays_transaction_keeps (keeps_bind (keeps_forM _ fun p _ => ?_) fun _ =>
    keeps_bind (keeps_snapshotWriteBases clearBases_mirrors insertBases_mirrors) fun _ => ?_)
  · exact keeps_bind keeps_gate fun _ => keeps_updateResources fun _ => ⟨rfl, rfl⟩
  · exact keeps_elsewhere (fun _ => ⟨⟨rfl, rfl, rfl, rfl⟩, rfl⟩) fun _ => rfl

theorem stays_exchange {native : Native} : stays Mirrors (exchangeCalendars account native) := by
  refine stays_bind stays_gate fun _ => stays_bind stays_gate fun _ =>
    stays_bind stays_select fun generation => ?_
  cases generation with
  | none => exact stays_throw _
  | some generation =>
    dsimp only
    split
    · exact stays_throw _
    · refine stays_bind stays_gate fun _ => stays_bind stays_gate fun _ =>
        stays_bind stays_select fun rows => ?_
      refine stays_bind (stays_foldlM rows _ fun _ _ => stays_gatherMirrors) fun g => ?_
      refine stays_bind (stays_exchangeCalls _ fun q _ => stays_onJournal fun t j h =>
        h.elsewhere ⟨⟨rfl, rfl, rfl, rfl⟩, rfl⟩ rfl) fun _ => ?_
      split
      · exact stays_throw _
      · split
        · exact stays_checkpointMirrors
        · exact stays_pure _

/-- The rows collected are emptied. -/
theorem keeps_emptyRows {ids : List Int} {c : Conn Tables} (hm : Mirrors c.now)
    (hids : ∀ id ∈ ids, ∃ r ∈ c.now.resources, r.id = id) :
    wp (emptyRows account ids) (fun _ c' => Mirrors c'.now ∧ c'.undo = c.undo)
      (fun _ c' => c'.undo = c.undo) c := by
  refine wp_bind (wp_change (wp_bind (wp_change (wp_bind (wp_change (wp_note ⟨?_, rfl⟩)
    fun _ => rfl)) fun _ => rfl)) fun _ => rfl)
  exact hm.pruned hids ⟨rfl, rfl, rfl, rfl⟩ rfl fun r' =>
    @Tables.mem_updateResources _ _ ResourceRow.pruned (fun _ => rfl) (fun _ => rfl) _

theorem stays_prune : stays Mirrors (pruneHistory s) := by
  refine stays_pruneHistory fun c hm => keeps_emptyRows hm fun id hid => ?_
  obtain ⟨r, hr, rfl⟩ := List.mem_map.1 hid
  exact ⟨r, (List.mem_filter.1 hr).1, rfl⟩

theorem stays_move {source target etag : Bytes} :
    stays Mirrors (commitVerifiedMove account source target etag) := by
  refine stays_bind (fun c hc fs => hc) fun idle => ?_
  split
  · exact stays_throw _
  · split
    · exact stays_throw _
    · refine stays_transaction_keeps (keeps_bind keeps_gate fun _ =>
        keeps_bind (keeps_stmt fun t n t' h ht => ?_) fun changes => ?_)
      · unfold moveRows at ht
        dsimp only at ht
        split at ht
        · split at ht <;> cases ht
          exact h
        · split at ht
          · rename_i resources hr
            cases ht
            refine h.rewritten ⟨⟨rfl, rfl, rfl, rfl⟩, rfl⟩ (fun r => ?_) (Table.mem_reassign hr) ?_
            · split <;> rfl
            · intro r _
              split <;> exact fun hp _ => ⟨hp, rfl⟩
          · cases ht
      · split
        · exact keeps_throw _
        · exact keeps_bind keeps_gate fun _ => keeps_gate

/-- **Every pass keeps the projection tables and the bodies together.** -/
theorem call_mirrors (q : Call) : stays Mirrors (q.run account) := by
  cases q with
  | fetch reader start fetches => exact stays_fetch
  | exchange native => exact stays_exchange
  | snapshot generation => exact stays_snapshotWriteBases clearBases_mirrors insertBases_mirrors
  | prune => exact stays_prune
  | move source target etag body => exact stays_move
  | create target marker title notes =>
    refine stays_transaction_keeps (keeps_bind (keeps_elsewhere ?_ fun _ => rfl) fun _ =>
      keeps_bind keeps_gate fun _ => keeps_gate)
    exact fun _ => ⟨⟨rfl, rfl, rfl, rfl⟩, rfl⟩
  | journal q =>
    refine stays_bind (stays_onJournal fun t j h => ?_) fun _ => stays_pure _
    exact h.elsewhere ⟨⟨rfl, rfl, rfl, rfl⟩, rfl⟩ rfl
  | loadSync url =>
    refine stays_bind (stays_onSyncState Dav.SyncState.keeps_load fun t y h => ?_) fun _ =>
      stays_pure _
    exact h.elsewhere ⟨⟨rfl, rfl, rfl, rfl⟩, rfl⟩ rfl

end

theorem Reached.mirrors {w : Site} {past : List Site} (h : Reached w past) : w.conn.All Mirrors :=
  h.images .empty (fun _ _ _ => stays_openMirrors) fun _ => call_mirrors

/-! ## What the tables show -/

/-- The projection rows of a resource are the decomposition of `accepted`, a body that parsed and
passed the check of its UIDs, or there are none. -/
def Tables.Shows (t : Tables) (resource : Int) : Option (Bytes × Component) → Prop
  | none => t.projection resource = .empty
  | some (body, root) => (∃ (reader : Reader) (uid : Bytes),
      reader.accept (.data body) = .ok (root, uid)) ∧ Decomposes resource root (t.projection resource)

/-! ### A lunch -/

def midday : TreeTime := ⟨⟨2024, 5, 1, 12, 0, 0, false, true⟩, false⟩

def textProperty (kind : PropertyKind) (name value : String) : IcalProperty where
  kind := kind
  name := some (ascii name)
  value := some ⟨some (ascii "TEXT"), true, some (ascii value)⟩
  valueString := some (ascii value)
  text := some (ascii (name ++ ":" ++ value))
  parameters := []

/-- A calendar with one event. -/
def lunch : Component where
  kind := .other
  kindName := some (ascii "VCALENDAR")
  properties := []
  sequence := 0
  dtstart := midday
  dtend := midday
  children := [⟨.vevent, some (ascii "VEVENT"), [textProperty .uid "UID" "lunch"], 0, midday,
    midday, []⟩]

def lunchReader : Reader where
  vcard _ := false
  calendar _ := true
  component _ := lunch

def lunchBody : Bytes :=
  ascii "BEGIN:VCALENDAR\nBEGIN:VEVENT\nUID:lunch\nEND:VEVENT\nEND:VCALENDAR\n"

/-- A store with one download. -/
def lunchSite : Site :=
  (Site.init.open' lunchReader (ascii "account") [] []).call 1 (.fetch lunchReader none
    [(⟨⟨ascii "https://dav/home/", none, none, none⟩, false, none,
      [.downloaded (ascii "https://dav/home/lunch.ics") (ascii "\"v1\"") (.data lunchBody)]⟩,
      ascii "id")]) []

theorem reached_lunch : ∃ past, Reached lunchSite past :=
  ⟨_, .next (.next (.start rfl) (.opened _ lunchReader (ascii "account") [] [] rfl))
    (.call _ 1 _ [] (by decide +kernel))⟩

end CalendarStore
