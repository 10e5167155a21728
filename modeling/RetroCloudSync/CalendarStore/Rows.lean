import RetroCloudSync.CalendarStore.Calls

/-!
# The rows of a resource

`Tables.projection`: which rows of the four projection tables belong to a resource. `Closed`: none
of them refers to a row that is not there. `deleteComponents` empties the projections it is about
and leaves the others as they were (`deleted_projection`, `deleted_none`), and so does an insertion
of the rows that a tree emits, which are all its own (`emit_owned`, `added_projection`,
`added_other`).
-/

set_option autoImplicit false

namespace CalendarStore

open Library Journal

namespace Tables

def componentsOf (t : Tables) (resource : Int) : List ComponentRow :=
  t.components.rows.filter fun c => c.resource = resource

def propertiesOf (t : Tables) (resource : Int) : List PropertyRow :=
  t.properties.rows.filter fun r => (t.componentsOf resource).any fun c => c.id = r.component

def parametersOf (t : Tables) (resource : Int) : List ParameterRow :=
  t.parameters.rows.filter fun a => (t.propertiesOf resource).any fun r => r.id = a.property

def eventsOf (t : Tables) (resource : Int) : List EventRow :=
  t.events.rows.filter fun e => e.resource = resource

/-- The rows of the projection tables that belong to a resource. -/
def projection (t : Tables) (resource : Int) : Projection :=
  ⟨t.componentsOf resource, t.propertiesOf resource, t.parametersOf resource,
    t.eventsOf resource⟩

/-- The projection depends on the four tables only. -/
theorem projection_congr {t t' : Tables} (hc : t'.components = t.components)
    (hp : t'.properties = t.properties) (ha : t'.parameters = t.parameters)
    (he : t'.events = t.events) (resource : Int) :
    t'.projection resource = t.projection resource := by
  unfold projection parametersOf propertiesOf componentsOf eventsOf
  rw [hc, hp, ha, he]

/-- Every row of the projection tables refers to rows that are there. -/
structure Closed (t : Tables) : Prop where
  properties : ∀ r ∈ t.properties, ∃ c ∈ t.components, c.id = r.component
  parameters : ∀ a ∈ t.parameters, ∃ r ∈ t.properties, r.id = a.property
  events : ∀ e ∈ t.events, ∃ c ∈ t.components, c.id = e.component ∧ c.resource = e.resource

section
variable {t : Tables} {resource : Int}

theorem mem_componentsOf {c : ComponentRow} :
    c ∈ t.componentsOf resource ↔ c ∈ t.components ∧ c.resource = resource := by
  simp [componentsOf, Table.mem_rows]

theorem mem_propertiesOf {r : PropertyRow} : r ∈ t.propertiesOf resource ↔
    r ∈ t.properties ∧ ∃ c ∈ t.components, c.resource = resource ∧ c.id = r.component := by
  simp [propertiesOf, Table.mem_rows, mem_componentsOf, and_assoc]

theorem mem_eventsOf {e : EventRow} :
    e ∈ t.eventsOf resource ↔ e ∈ t.events ∧ e.resource = resource := by
  simp [eventsOf, Table.mem_rows]

end

/-! ## Deletion -/

section
variable {t : Tables} {p : Int → Bool}

/-- The components that a deletion takes away. -/
theorem gone_iff {t : Tables} {p : Int → Bool} {component : Int} :
    (t.components.any fun c => c.id = component && p c.resource) = true ↔
      ∃ c ∈ t.components, c.id = component ∧ p c.resource = true := by
  simp [Table.any_iff]

theorem mem_deleted_components {c : ComponentRow} :
    c ∈ (t.deleteComponents p).components ↔ c ∈ t.components ∧ p c.resource = false :=
  Table.mem_delete c

theorem mem_deleted_properties {r : PropertyRow} : r ∈ (t.deleteComponents p).properties ↔
    r ∈ t.properties ∧ ∀ c ∈ t.components, c.id = r.component → p c.resource = false := by
  show r ∈ t.properties.delete _ ↔ _
  rw [Table.mem_delete, Table.any_false]
  simp only [Bool.and_eq_false_iff, decide_eq_false_iff_not, ← imp_iff_not_or]

theorem mem_deleted_events {e : EventRow} : e ∈ (t.deleteComponents p).events ↔
    e ∈ t.events ∧ ∀ c ∈ t.components, c.id = e.component → p c.resource = false := by
  show e ∈ t.events.delete _ ↔ _
  rw [Table.mem_delete, Table.any_false]
  simp only [Bool.and_eq_false_iff, decide_eq_false_iff_not, ← imp_iff_not_or]

theorem mem_deleted_parameters {a : ParameterRow} : a ∈ (t.deleteComponents p).parameters ↔
    a ∈ t.parameters ∧ ∀ r ∈ t.properties, r.id = a.property →
      ∀ c ∈ t.components, c.id = r.component → p c.resource = false := by
  show a ∈ t.parameters.delete _ ↔ _
  rw [Table.mem_delete, Table.any_false]
  simp only [Bool.and_eq_false_iff, decide_eq_false_iff_not, ← imp_iff_not_or, Table.any_false]

theorem deleted_closed (h : t.Closed) : (t.deleteComponents p).Closed where
  properties r hr := by
    rw [mem_deleted_properties] at hr
    obtain ⟨c, hc, hi⟩ := h.properties r hr.1
    exact ⟨c, mem_deleted_components.2 ⟨hc, hr.2 c hc hi⟩, hi⟩
  parameters a ha := by
    rw [mem_deleted_parameters] at ha
    obtain ⟨r, hr, hi⟩ := h.parameters a ha.1
    exact ⟨r, mem_deleted_properties.2 ⟨hr, ha.2 r hr hi⟩, hi⟩
  events e he := by
    rw [mem_deleted_events] at he
    obtain ⟨c, hc, hi, hr⟩ := h.events e he.1
    exact ⟨c, mem_deleted_components.2 ⟨hc, he.2 c hc hi⟩, hi, hr⟩

/-- The rows of a resource that a deletion is not about stay. -/
theorem deleted_projection (h : t.Closed) {resource : Int} (hp : p resource = false) :
    (t.deleteComponents p).projection resource = t.projection resource := by
  have hc : (t.deleteComponents p).componentsOf resource = t.componentsOf resource :=
    Table.filter_delete fun c _ hr => by rwa [of_decide_eq_true hr]
  -- a component with the id of one of the resource is that one
  have hgone : ∀ c ∈ t.components, c.resource = resource →
      (t.components.any fun c' => c'.id = c.id && p c'.resource) = false := by
    intro c hc hr
    rw [← Bool.not_eq_true, gone_iff]
    rintro ⟨c', hc', hi, hp'⟩
    rw [Table.eq_of_key hc' hc hi, hr, hp] at hp'
    cases hp'
  have hr : (t.deleteComponents p).propertiesOf resource = t.propertiesOf resource := by
    unfold propertiesOf
    rw [hc]
    refine Table.filter_delete fun r _ ho => ?_
    obtain ⟨c, hm, hi⟩ := List.any_eq_true.1 ho
    rw [mem_componentsOf] at hm
    rw [← of_decide_eq_true hi]
    exact hgone c hm.1 hm.2
  have ha : (t.deleteComponents p).parametersOf resource = t.parametersOf resource := by
    unfold parametersOf
    rw [hr]
    refine Table.filter_delete fun a _ ho => ?_
    obtain ⟨r, hm, hi⟩ := List.any_eq_true.1 ho
    obtain ⟨hrm, c, hcm, hcr, hci⟩ := mem_propertiesOf.1 hm
    rw [Table.any_false]
    intro r' hr'
    rw [Bool.and_eq_false_iff, decide_eq_false_iff_not, ← imp_iff_not_or]
    intro hi'
    rw [Table.eq_of_key hr' hrm (hi'.trans (of_decide_eq_true hi).symm), ← hci]
    exact hgone c hcm hcr
  have he : (t.deleteComponents p).eventsOf resource = t.eventsOf resource := by
    refine Table.filter_delete fun e hm ho => ?_
    obtain ⟨c, hcm, hci, hcr⟩ := h.events e hm
    rw [← hci]
    exact hgone c hcm (hcr.trans (of_decide_eq_true ho))
  unfold projection
  rw [hc, hr, ha, he]

/-- Those of a resource that it is about go. -/
theorem deleted_none (h : t.Closed) {resource : Int} (hp : p resource = true) :
    (t.deleteComponents p).projection resource = .empty := by
  have hc : (t.deleteComponents p).componentsOf resource = [] := by
    refine List.eq_nil_iff_forall_not_mem.2 fun c hm => ?_
    obtain ⟨hm, hr⟩ := mem_componentsOf.1 hm
    have := (mem_deleted_components.1 hm).2
    rw [hr, hp] at this
    cases this
  have hr : (t.deleteComponents p).propertiesOf resource = [] := by
    unfold propertiesOf
    rw [hc]
    exact List.filter_eq_nil_iff.2 fun _ _ => by simp
  have ha : (t.deleteComponents p).parametersOf resource = [] := by
    unfold parametersOf
    rw [hr]
    exact List.filter_eq_nil_iff.2 fun _ _ => by simp
  have he : (t.deleteComponents p).eventsOf resource = [] := by
    refine List.eq_nil_iff_forall_not_mem.2 fun e hm => ?_
    obtain ⟨hm, hr⟩ := mem_eventsOf.1 hm
    obtain ⟨hm, hkeep⟩ := mem_deleted_events.1 hm
    obtain ⟨c, hcm, hci, hcr⟩ := h.events e hm
    have := hkeep c hcm hci
    rw [hcr, hr, hp] at this
    cases this
  unfold projection
  rw [hc, hr, ha, he]
  rfl

end

end Tables

/-! ## Insertion -/

/-- Every row of `p` belongs to `resource` and refers to a row of `p`, or to one of the components
`cs` or of the properties `ps`. -/
structure Owned (resource : Int) (cs ps : Int → Prop) (p : Projection) : Prop where
  components : ∀ c ∈ p.components, c.resource = resource
  properties : ∀ r ∈ p.properties, cs r.component ∨ ∃ c ∈ p.components, c.id = r.component
  parameters : ∀ a ∈ p.parameters, ps a.property ∨ ∃ r ∈ p.properties, r.id = a.property
  events : ∀ e ∈ p.events, e.resource = resource ∧
    (cs e.component ∨ ∃ c ∈ p.components, c.id = e.component)

namespace Owned

variable {resource : Int} {cs ps : Int → Prop} {p q : Projection}

theorem empty : Owned resource cs ps .empty := ⟨by simp [Projection.empty],
  by simp [Projection.empty], by simp [Projection.empty], by simp [Projection.empty]⟩

/-- The rows that follow may refer to those before them. -/
theorem append (h : Owned resource cs ps p)
    (h' : Owned resource (fun i => cs i ∨ ∃ c ∈ p.components, c.id = i)
      (fun i => ps i ∨ ∃ r ∈ p.properties, r.id = i) q) :
    Owned resource cs ps (p.append q) where
  components c hc := (List.mem_append.1 hc).elim (h.components c) (h'.components c)
  properties r hr := by
    simp only [Projection.append_components, List.mem_append]
    rcases List.mem_append.1 hr with hr | hr
    · rcases h.properties r hr with h | ⟨c, hc, hi⟩
      · exact .inl h
      · exact .inr ⟨c, .inl hc, hi⟩
    · rcases h'.properties r hr with (h | ⟨c, hc, hi⟩) | ⟨c, hc, hi⟩
      · exact .inl h
      · exact .inr ⟨c, .inl hc, hi⟩
      · exact .inr ⟨c, .inr hc, hi⟩
  parameters a ha := by
    simp only [Projection.append_properties, List.mem_append]
    rcases List.mem_append.1 ha with ha | ha
    · rcases h.parameters a ha with h | ⟨r, hr, hi⟩
      · exact .inl h
      · exact .inr ⟨r, .inl hr, hi⟩
    · rcases h'.parameters a ha with (h | ⟨r, hr, hi⟩) | ⟨r, hr, hi⟩
      · exact .inl h
      · exact .inr ⟨r, .inl hr, hi⟩
      · exact .inr ⟨r, .inr hr, hi⟩
  events e he := by
    simp only [Projection.append_components, List.mem_append]
    rcases List.mem_append.1 he with he | he
    · obtain ⟨hr, h | ⟨c, hc, hi⟩⟩ := h.events e he
      · exact ⟨hr, .inl h⟩
      · exact ⟨hr, .inr ⟨c, .inl hc, hi⟩⟩
    · obtain ⟨hr, (h | ⟨c, hc, hi⟩) | ⟨c, hc, hi⟩⟩ := h'.events e he
      · exact ⟨hr, .inl h⟩
      · exact ⟨hr, .inr ⟨c, .inl hc, hi⟩⟩
      · exact ⟨hr, .inr ⟨c, .inr hc, hi⟩⟩

end Owned

section
variable {resource : Int} {cs ps : Int → Prop} {i : Ids} {p : Projection}

theorem emitParameters_owned {property : Int} (position : Nat) (l : List IcalParameter)
    (hp : ps property) (h : emitParameters property position l i = some p) :
    Owned resource cs ps p := by
  induction l generalizing position i p cs ps with
  | nil =>
    cases h
    exact .empty
  | cons x l ih =>
    obtain ⟨p, q, hx, hl, rfl⟩ := Emit.andThen_some.1 h
    refine Owned.append ?_ (ih _ (.inl hp) hl)
    obtain ⟨cut, -, rfl⟩ := Option.map_eq_some_iff.1 hx
    exact ⟨by simp [Projection.parameter], by simp [Projection.parameter],
      by simp [Projection.parameter, hp], by simp [Projection.parameter]⟩

theorem emitProperties_owned {component : Int} (position : Nat) (l : List IcalProperty)
    (hc : cs component) (h : emitProperties component position l i = some p) :
    Owned resource cs ps p := by
  induction l generalizing position i p cs ps with
  | nil =>
    cases h
    exact .empty
  | cons x l ih =>
    obtain ⟨p, q, hx, hl, rfl⟩ := Emit.andThen_some.1 h
    refine Owned.append ?_ (ih _ (.inl hc) hl)
    obtain ⟨row, params, hrow, hparams, rfl⟩ := Emit.andThen_some.1 hx
    obtain ⟨name, -, rfl⟩ := Option.map_eq_some_iff.1 hrow
    refine Owned.append ?_ (emitParameters_owned 0 _ (.inr ⟨_, List.mem_singleton_self _, rfl⟩)
      hparams)
    exact ⟨by simp [Projection.property], by simp [Projection.property, hc],
      by simp [Projection.property], by simp [Projection.property]⟩

theorem emitEvent_owned {component : Int} {x : Component} (hc : cs component)
    (h : emitEvent resource component x i = some p) : Owned resource cs ps p := by
  unfold emitEvent at h
  split at h
  · obtain ⟨uid, -, h⟩ := Option.bind_eq_some_iff.1 h
    obtain ⟨key, -, rfl⟩ := Option.map_eq_some_iff.1 h
    exact ⟨by simp [Projection.event], by simp [Projection.event], by simp [Projection.event],
      by simp [Projection.event, hc]⟩
  · cases h
    exact .empty

end

mutual

/-- **Every row that a tree emits is its own.** -/
theorem emit_owned {resource : Int} {parent : Option Int} {position : Nat} {cs ps : Int → Prop} :
    ∀ (x : Component) {i : Ids} {p : Projection}, x.emit resource parent position i = some p →
      Owned resource cs ps p
  | ⟨kind, kindName, properties, sequence, dtstart, dtend, children⟩, i, p, h => by
    unfold Component.emit at h
    obtain ⟨row, own, hrow, hown, rfl⟩ := Emit.andThen_some.1 h
    obtain ⟨props, more, hprops, hmore, rfl⟩ := Emit.andThen_some.1 hown
    obtain ⟨event, below, hevent, hbelow, rfl⟩ := Emit.andThen_some.1 hmore
    obtain ⟨name, -, rfl⟩ := Option.map_eq_some_iff.1 hrow
    refine Owned.append ?_ ?_
    · exact ⟨by simp [Projection.component], by simp [Projection.component],
        by simp [Projection.component], by simp [Projection.component]⟩
    -- the row just named is the one the others refer to
    · refine (emitProperties_owned 0 properties ?_ hprops).append
        ((emitEvent_owned ?_ hevent).append (emitChildren_owned children hbelow))
      · exact .inr ⟨_, List.mem_singleton_self _, rfl⟩
      · exact .inl (.inr ⟨_, List.mem_singleton_self _, rfl⟩)

theorem emitChildren_owned {resource component : Int} {position : Nat} {cs ps : Int → Prop} :
    ∀ (xs : List Component) {i : Ids} {p : Projection},
      emitChildren resource component position xs i = some p → Owned resource cs ps p
  | [], i, p, h => by
    unfold emitChildren at h
    cases h
    exact .empty
  | x :: xs, i, p, h => by
    unfold emitChildren at h
    obtain ⟨p, q, hx, hxs, rfl⟩ := Emit.andThen_some.1 h
    exact (emit_owned x hx).append (emitChildren_owned xs hxs)

end

namespace Adds

variable {t t' : Tables} {p : Projection} {resource : Int}

theorem component_fresh (h : Adds t t' p) {c c' : ComponentRow} (hc : c ∈ t.components)
    (hc' : c' ∈ p.components) : c.id ≠ c'.id := by
  have hn := t'.components.nodup
  rw [h.components, List.map_append] at hn
  exact (List.nodup_append.1 hn).2.2 _ (List.mem_map_of_mem hc) _ (List.mem_map_of_mem hc')

theorem property_fresh (h : Adds t t' p) {r r' : PropertyRow} (hr : r ∈ t.properties)
    (hr' : r' ∈ p.properties) : r.id ≠ r'.id := by
  have hn := t'.properties.nodup
  rw [h.properties, List.map_append] at hn
  exact (List.nodup_append.1 hn).2.2 _ (List.mem_map_of_mem hr) _ (List.mem_map_of_mem hr')

/-- The rows of another resource are those there were. -/
theorem projection_other (h : Adds t t' p) (ho : Owned resource (fun _ => False)
    (fun _ => False) p) {other : Int} (hn : other ≠ resource) :
    t'.projection other = t.projection other := by
  have hc : t'.componentsOf other = t.componentsOf other := by
    unfold Tables.componentsOf
    rw [h.components, List.filter_append, (List.filter_eq_nil_iff (l := p.components)).2,
      List.append_nil]
    intro c hc
    rw [ho.components c hc]
    simpa using Ne.symm hn
  have hr : t'.propertiesOf other = t.propertiesOf other := by
    unfold Tables.propertiesOf
    rw [hc, h.properties, List.filter_append, (List.filter_eq_nil_iff (l := p.properties)).2,
      List.append_nil]
    intro r hr hany
    obtain ⟨c, hm, hi⟩ := List.any_eq_true.1 hany
    obtain hf | ⟨c', hc', hi'⟩ := ho.properties r hr
    · exact hf
    · exact h.component_fresh (Tables.mem_componentsOf.1 hm).1 hc'
        ((of_decide_eq_true hi).trans hi'.symm)
  have ha : t'.parametersOf other = t.parametersOf other := by
    unfold Tables.parametersOf
    rw [hr, h.parameters, List.filter_append, (List.filter_eq_nil_iff (l := p.parameters)).2,
      List.append_nil]
    intro a ha hany
    obtain ⟨r, hm, hi⟩ := List.any_eq_true.1 hany
    obtain hf | ⟨r', hr', hi'⟩ := ho.parameters a ha
    · exact hf
    · exact h.property_fresh (Tables.mem_propertiesOf.1 hm).1 hr'
        ((of_decide_eq_true hi).trans hi'.symm)
  have he : t'.eventsOf other = t.eventsOf other := by
    unfold Tables.eventsOf
    rw [h.events, List.filter_append, (List.filter_eq_nil_iff (l := p.events)).2, List.append_nil]
    intro e he
    rw [(ho.events e he).1]
    simpa using Ne.symm hn
  unfold Tables.projection
  rw [hc, hr, ha, he]

/-- A resource without rows has those added. -/
theorem projection_added (h : Adds t t' p) (hclosed : t.Closed) (ho : Owned resource
    (fun _ => False) (fun _ => False) p) (hnone : t.projection resource = .empty) :
    t'.projection resource = p := by
  have hc : t'.componentsOf resource = p.components := by
    have hold : t.componentsOf resource = [] := congrArg Projection.components hnone
    unfold Tables.componentsOf at hold ⊢
    rw [h.components, List.filter_append, hold, List.nil_append, List.filter_eq_self]
    exact fun c hc => decide_eq_true (ho.components c hc)
  have hr : t'.propertiesOf resource = p.properties := by
    unfold Tables.propertiesOf
    rw [hc, h.properties, List.filter_append, (List.filter_eq_nil_iff (l := t.properties.rows)).2,
      List.nil_append, List.filter_eq_self]
    · intro r hr
      obtain hf | ⟨c, hcm, hi⟩ := ho.properties r hr
      · exact hf.elim
      · exact List.any_eq_true.2 ⟨c, hcm, decide_eq_true hi⟩
    · intro r hr hany
      obtain ⟨c, hm, hi⟩ := List.any_eq_true.1 hany
      obtain ⟨c', hc', hi'⟩ := hclosed.properties r hr
      exact h.component_fresh hc' hm (hi'.trans (of_decide_eq_true hi).symm)
  have ha : t'.parametersOf resource = p.parameters := by
    unfold Tables.parametersOf
    rw [hr, h.parameters, List.filter_append, (List.filter_eq_nil_iff (l := t.parameters.rows)).2,
      List.nil_append, List.filter_eq_self]
    · intro a ha
      obtain hf | ⟨r, hrm, hi⟩ := ho.parameters a ha
      · exact hf.elim
      · exact List.any_eq_true.2 ⟨r, hrm, decide_eq_true hi⟩
    · intro a ha hany
      obtain ⟨r, hm, hi⟩ := List.any_eq_true.1 hany
      obtain ⟨r', hr', hi'⟩ := hclosed.parameters a ha
      exact h.property_fresh hr' hm (hi'.trans (of_decide_eq_true hi).symm)
  have he : t'.eventsOf resource = p.events := by
    have hold : t.eventsOf resource = [] := congrArg Projection.events hnone
    unfold Tables.eventsOf at hold ⊢
    rw [h.events, List.filter_append, hold, List.nil_append, List.filter_eq_self]
    exact fun e he => decide_eq_true (ho.events e he).1
  unfold Tables.projection
  rw [hc, hr, ha, he]

theorem closed (h : Adds t t' p) (hclosed : t.Closed) (ho : Owned resource (fun _ => False)
    (fun _ => False) p) : t'.Closed := by
  have hc : ∀ c, c ∈ t'.components ↔ c ∈ t.components ∨ c ∈ p.components := fun c => by
    show c ∈ t'.components.rows ↔ c ∈ t.components.rows ∨ _
    rw [h.components, List.mem_append]
  have hr : ∀ r, r ∈ t'.properties ↔ r ∈ t.properties ∨ r ∈ p.properties := fun r => by
    show r ∈ t'.properties.rows ↔ r ∈ t.properties.rows ∨ _
    rw [h.properties, List.mem_append]
  constructor
  · intro r hm
    rcases (hr r).1 hm with hm | hm
    · obtain ⟨c, hcm, hi⟩ := hclosed.properties r hm
      exact ⟨c, (hc c).2 (.inl hcm), hi⟩
    · obtain hf | ⟨c, hcm, hi⟩ := ho.properties r hm
      · exact hf.elim
      · exact ⟨c, (hc c).2 (.inr hcm), hi⟩
  · intro a hm
    have hm : a ∈ t.parameters.rows ++ p.parameters := h.parameters ▸ hm
    rcases List.mem_append.1 hm with hm | hm
    · obtain ⟨r, hrm, hi⟩ := hclosed.parameters a hm
      exact ⟨r, (hr r).2 (.inl hrm), hi⟩
    · obtain hf | ⟨r, hrm, hi⟩ := ho.parameters a hm
      · exact hf.elim
      · exact ⟨r, (hr r).2 (.inr hrm), hi⟩
  · intro e hm
    have hm : e ∈ t.events.rows ++ p.events := h.events ▸ hm
    rcases List.mem_append.1 hm with hm | hm
    · obtain ⟨c, hcm, hi, hres⟩ := hclosed.events e hm
      exact ⟨c, (hc c).2 (.inl hcm), hi, hres⟩
    · obtain ⟨hres, hf | ⟨c, hcm, hi⟩⟩ := ho.events e hm
      · exact hf.elim
      · exact ⟨c, (hc c).2 (.inr hcm), hi, (ho.components c hcm).trans hres.symm⟩

end Adds

end CalendarStore
