import RetroCloudSync.TwoWay.Fields

/-!
# An upload acknowledges only what it represents

`Represents truth scopes graph`: every field in scope of a record of `graph` is, under
`FieldEqual`, what the native store has. The projection of an edit represents it
(`project_represents`), and so does every way `encodeIndependent` gives some of the edit up:
`PlanInv` holds when the structure is encoded, directly or restored, and after each group.

`scope_sound` draws both together for `encodeFields`, and adds that `pendingFields` names what
was left.
-/

set_option autoImplicit false

namespace TwoWay

open Library Journal Native Value FieldValue

variable {V : Type} [FieldValue V]

/-! ## Encoders -/

/-- The records of `out` are those of `graph`. -/
def RestrictedTo (out graph : Graph V) : Prop :=
  ∀ id r, out.lookup id = some r → ∃ r', graph.lookup id = some r' ∧ r.Same r'

/-- The encoder returns its input graph, restricted to the ids it represents. -/
def Restricts (encoder : Encoder V) : Prop :=
  ∀ resource graph root out, encoder resource graph root = .ok out → RestrictedTo out.graph graph

/-- Every field in scope is what the native store has. -/
def Represents (truth : Graph V) (scopes : Scopes) (graph : Graph V) : Prop :=
  ∀ id r, graph.lookup id = some r → ∀ f ∈ (scopes.lookup id).getD [],
    FieldEqual (some r) (truth.lookup id) f = true

omit [FieldValue V] in
theorem fieldOf_same {r r' : Record V} (h : r.Same r') (key : String) :
    fieldOf r key = fieldOf r' key :=
  fieldOf_congr (h entityKey) fun f _ => h f

theorem Represents.restricted {truth : Graph V} {scopes : Scopes} {graph out : Graph V}
    (h : Represents truth scopes graph) (hr : RestrictedTo out graph) :
    Represents truth scopes out := by
  intro id r hid f hf
  obtain ⟨r', hr', hsame⟩ := hr id r hid
  have he := h id r' hr' f hf
  simp only [FieldEqual, Option.map_some, fieldOf_same hsame] at he ⊢
  exact he

/-! ## The tables -/

/-- A list of fields that has, with a field, what is compared together with it. -/
def Coupled (fields : List String) : Prop := ∀ f ∈ fields, ∀ g ∈ coupled f, g ∈ fields

theorem Coupled.disjoint {fields : List String} (h : Coupled fields) {f : String}
    (hf : f ∉ fields) : ∀ g ∈ coupled f, g ∉ fields := by
  intro g hg hm
  exact hf (h g hm f (by rw [coupled_eq hg]; exact mem_coupled f))

theorem Coupled.filter {fields : List String} (h : Coupled fields) {p : String → Bool}
    (hp : ∀ f g, g ∈ coupled f → p g = p f) : Coupled (fields.filter p) := by
  intro f hf g hg
  rw [List.mem_filter] at hf ⊢
  exact ⟨h f hf.1 g hg, by rw [hp f g hg]; exact hf.2⟩

/-- A list closed under the two forms of a sound. -/
theorem coupled_of_sound {fields : List String}
    (h : "sound" ∈ fields ↔ "com.apple.ical.sound" ∈ fields) : Coupled fields := by
  intro f hf g hg
  unfold coupled at hg
  split at hg
  · rename_i hs
    simp only [List.mem_cons, List.not_mem_nil, or_false] at hg
    rcases hs with rfl | rfl <;> rcases hg with rfl | rfl <;> tauto
  · rw [List.mem_singleton.1 hg]
    exact hf

theorem writableFieldNames_coupled {entity : Option String} {names : List String}
    (h : writableFieldNames entity = some names) : Coupled (names ++ [entityKey]) := by
  have htable : ∀ entry ∈ writableEntries,
      ("sound" ∈ entry.2 ++ [entityKey] ↔ "com.apple.ical.sound" ∈ entry.2 ++ [entityKey]) := by
    decide
  unfold writableFieldNames at h
  cases entity with
  | none => cases h
  | some e =>
    rw [Option.bind_some, Option.map_eq_some_iff] at h
    obtain ⟨entry, hentry, rfl⟩ := h
    exact coupled_of_sound (htable entry (List.mem_of_find?_eq_some hentry))

theorem independentFieldGroups_coupled {entity : Option String} {fields : List String}
    (h : fields ∈ independentFieldGroups entity) : Coupled fields ∧ entityKey ∉ fields := by
  have hall : ∀ groups : List (List String),
      (∀ fields ∈ groups, ("sound" ∈ fields ↔ "com.apple.ical.sound" ∈ fields) ∧
        entityKey ∉ fields) → fields ∈ groups → Coupled fields ∧ entityKey ∉ fields :=
    fun groups hg hm => ⟨coupled_of_sound (hg fields hm).1, (hg fields hm).2⟩
  unfold independentFieldGroups at h
  split at h
  · exact hall _ (by decide) h
  split at h
  · exact hall _ (by decide) h
  split at h
  · exact hall _ (by decide) h
  split at h
  · exact hall _ (by decide) h
  split at h
  · exact hall _ (by decide) h
  · cases h

/-! ## The projection -/

theorem writable_coupled (old record : Option (Record V)) : Coupled (writable old record) := by
  unfold writable
  split
  · rename_i names h
    exact writableFieldNames_coupled h
  · exact fun f hf => absurd hf List.not_mem_nil

theorem writable_entity {old record : Option (Record V)} {f : String}
    (h : f ∈ writable old record) : entityKey ∈ writable old record := by
  unfold writable at h ⊢
  split at h
  · exact List.mem_append_right _ (List.mem_singleton_self _)
  · cases h

theorem coupled_type {f g : String} (h : g ∈ coupled f) :
    decide (g ≠ "type") = decide (f ≠ "type") := by
  unfold coupled at h
  split at h
  · rename_i hs
    simp only [List.mem_cons, List.not_mem_nil, or_false] at h
    rcases hs with rfl | rfl <;> rcases h with rfl | rfl <;> decide
  · rw [List.mem_singleton.1 h]

theorem selectFields_coupled (old record : Option (Record V)) :
    Coupled (selectFields old record).2 := by
  unfold selectFields
  dsimp only
  split
  · exact (writable_coupled old record).filter fun f g hg => coupled_type hg
  · exact writable_coupled old record

/-- The fields in scope are those of the native record. -/
theorem selectFields_scoped {old : Option (Record V)} {t : Record V} {f : String}
    (hf : f ∈ (selectFields old (some t)).2) :
    fieldOf (selectFields old (some t)).1 f = fieldOf t f := by
  have hwritten : ∀ g ∈ writable old (some t),
      (putFields (old.getD ∅) t (writable old (some t))).lookup g = t.lookup g := by
    intro g hg
    rw [putFields_lookup, if_pos hg]
  unfold selectFields at hf ⊢
  dsimp only [Option.getD_some] at hf ⊢
  split at hf
  · rename_i hforeign
    rw [if_pos hforeign]
    obtain ⟨hw, hne⟩ := List.mem_filter.1 hf
    have hkeep : ∀ g, g ≠ "type" → g ∈ writable old (some t) →
        ((putFields (old.getD ∅) t (writable old (some t))).put "type"
          (some (string "other"))).lookup g = t.lookup g := by
      intro g hg hm
      rw [Dict.lookup_put, if_neg hg, hwritten g hm]
    refine fieldOf_congr (hkeep _ (by decide) (writable_entity hw)) fun g hg => ?_
    refine hkeep g ?_ (writable_coupled _ _ f hw g hg)
    have ht := coupled_type hg
    rw [hne] at ht
    exact of_decide_eq_true ht
  · rename_i hforeign
    rw [if_neg hforeign]
    exact fieldOf_congr (hwritten _ (writable_entity hf))
      fun g hg => hwritten g (writable_coupled _ _ f hf g hg)

/-- What the projection makes of one id. -/
def projectedAt (base truth : Graph V) (id : String)
    (pair : Option (Record V) × Option (List String)) :
    Option (Record V) × Option (List String) :=
  if projectsDeletion base truth id then
    (pair.1, some (writable (base.lookup id) (truth.lookup id)))
  else
    let (selected, fields) := selectFields (base.lookup id) (truth.lookup id)
    (if selected.keys = [] then none else some selected, some fields)

theorem projectRecord_at (base truth : Graph V) (p : Projection V) (id id' : String) :
    (projectRecord base truth p id).at id' =
      if id' = id then projectedAt base truth id (p.at id) else p.at id' := by
  unfold projectRecord projectedAt
  dsimp only
  split
  · show (_, _) = _
    rw [Dict.lookup_put]
    by_cases h : id' = id
    · rw [if_pos h, if_pos h, h]
      rfl
    · rw [if_neg h, if_neg h]
      rfl
  · show (_, _) = _
    rw [Dict.lookup_put, Dict.lookup_put]
    by_cases h : id' = id
    · simp only [if_pos h]
    · simp only [if_neg h]
      rfl

theorem project_at (base truth : Graph V) {ids : List String} (hn : ids.Nodup) (id : String) :
    (project base truth ids).at id =
      if id ∈ ids then projectedAt base truth id (truth.lookup id, none)
      else (truth.lookup id, none) :=
  Dict.foldl_view Projection.at (projectRecord_at base truth) hn _ id

section
variable {base truth : Graph V} {ids : List String}

theorem project_scope (hn : ids.Nodup) (id : String) :
    Coupled (((project base truth ids).scopes.lookup id).getD []) := by
  have h := congrArg Prod.snd (project_at base truth hn id)
  change (project base truth ids).scopes.lookup id = _ at h
  rw [h]
  split
  · unfold projectedAt
    split
    · exact writable_coupled _ _
    · exact selectFields_coupled _ _
  · exact fun f hf => absurd hf List.not_mem_nil

/-- A field in scope of a projected record is that of the native record. -/
theorem project_scoped (hn : ids.Nodup) {id : String} {r : Record V} {f : String}
    (hr : (project base truth ids).projected.lookup id = some r)
    (hf : f ∈ ((project base truth ids).scopes.lookup id).getD []) :
    ∃ t, truth.lookup id = some t ∧ fieldOf r f = fieldOf t f := by
  have hat := project_at base truth hn id
  have hp := congrArg Prod.fst hat
  have hs := congrArg Prod.snd hat
  change (project base truth ids).projected.lookup id = _ at hp
  change (project base truth ids).scopes.lookup id = _ at hs
  rw [hr] at hp
  rw [hs] at hf
  by_cases hid : id ∈ ids
  · rw [if_pos hid] at hp hf
    unfold projectedAt at hp hf
    by_cases hd : projectsDeletion base truth id = true
    · rw [if_pos hd] at hp
      exact ⟨r, hp.symm, rfl⟩
    · rw [if_neg hd] at hp hf
      dsimp only [Option.getD_some] at hp hf
      cases ht : truth.lookup id with
      | none =>
        -- only a record without writable fields survives its native record
        rw [ht] at hf
        have hw : writable (base.lookup id) none = [] := by
          by_contra hw
          exact hd (by simp [projectsDeletion, ht, hw])
        rw [selectFields, foreignType, hw] at hf
        simp at hf
      | some t =>
        rw [ht] at hp hf
        refine ⟨t, rfl, ?_⟩
        split at hp
        · cases hp
        · rw [Option.some.inj hp]
          exact selectFields_scoped hf
  · rw [if_neg hid] at hf
    cases hf

theorem project_represents (hn : ids.Nodup) :
    Represents truth (project base truth ids).scopes (project base truth ids).projected := by
  intro id r hr f hf
  obtain ⟨t, ht, he⟩ := project_scoped hn hr hf
  rw [ht]
  exact fieldEqual_of_eq (by rw [Option.map_some, Option.map_some, he])

end

/-! ## Copied groups -/

omit [FieldValue V] in
/-- A record after a group was copied into it. -/
theorem copyFields_lookup (graph source : Graph V) (id id' : String) (fields : List String) :
    (copyFields graph source id fields).lookup id' =
      if id' = id then
        some (putFields ((graph.lookup id).getD ∅) ((source.lookup id).getD ∅) fields)
      else graph.lookup id' :=
  Dict.lookup_put _ _ _ _

omit [FieldValue V] in
theorem copyGroups_lookup {groups : List (String × List String)} {graph source : Graph V}
    (hg : ∀ g ∈ groups, graph.lookup g.1 ≠ none) {id : String} {w : Record V}
    (hw : (groups.foldl (fun graph g => copyFields graph source g.1 g.2) graph).lookup id =
      some w) :
    ∃ r, graph.lookup id = some r ∧
      ∀ f, (∀ g ∈ groups, g.1 = id → f ∉ g.2) → w.lookup f = r.lookup f := by
  induction groups generalizing graph with
  | nil => exact ⟨w, hw, fun f _ => rfl⟩
  | cons g groups ih =>
    have hnext : ∀ g' ∈ groups, (copyFields graph source g.1 g.2).lookup g'.1 ≠ none := by
      intro g' hg'
      rw [copyFields_lookup]
      split
      · simp
      · exact hg g' (List.mem_cons_of_mem _ hg')
    obtain ⟨r, hr, hkeep⟩ := ih hnext hw
    rw [copyFields_lookup] at hr
    by_cases hid : id = g.1
    · rw [if_pos hid, Option.some.injEq] at hr
      obtain ⟨r₀, hr₀⟩ := Option.ne_none_iff_exists'.1 (hg g List.mem_cons_self)
      refine ⟨r₀, hid ▸ hr₀, fun f hf => ?_⟩
      rw [hkeep f fun g' hg' => hf g' (List.mem_cons_of_mem _ hg'), ← hr, putFields_lookup,
        if_neg (hf g List.mem_cons_self hid.symm), hr₀]
      rfl
    · rw [if_neg hid] at hr
      exact ⟨r, hr, fun f hf => hkeep f fun g' hg' => hf g' (List.mem_cons_of_mem _ hg')⟩

/-- Groups of records that are there. -/
structure GoodGroup (base projected : Graph V) (scopes : Scopes) (g : String × List String) :
    Prop where
  coupled : Coupled g.2
  entity : entityKey ∉ g.2
  based : base.lookup g.1 ≠ none
  projects : projected.lookup g.1 ≠ none
  /-- Its owner did not change. -/
  owner : ∀ old r, base.lookup g.1 = some old → projected.lookup g.1 = some r →
    ChangedFields (some old) (some r) ownershipFields = false

omit [FieldValue V] in
/-- What copying a group does to the other fields of its record. -/
theorem putFields_other {r src : Record V} {fields : List String} (hc : Coupled fields)
    (he : entityKey ∉ fields) {f : String} (hf : f ∉ fields) :
    fieldOf (putFields r src fields) f = fieldOf r f := by
  have hout : ∀ g, g ∉ fields → (putFields r src fields).lookup g = r.lookup g := by
    intro g hg
    rw [putFields_lookup, if_neg hg]
  exact fieldOf_congr (hout _ he) fun g hg => hout g (hc.disjoint hf g hg)

theorem groupsOf_mem {scopes : Scopes} {id : String} {old : Record V} {g : String × List String} :
    g ∈ groupsOf scopes id old ↔
      g.1 = id ∧ g.2 ≠ [] ∧ ∃ fields ∈ independentGroups old,
        g.2 = intersectFields fields ((scopes.lookup id).getD []) := by
  obtain ⟨i, fs⟩ := g
  unfold groupsOf
  rw [List.mem_map]
  dsimp only
  constructor
  · rintro ⟨allowed, hm, heq⟩
    cases heq
    rw [List.mem_filter, List.mem_map] at hm
    obtain ⟨⟨fields, hfields, rfl⟩, hne⟩ := hm
    exact ⟨rfl, by simpa using hne, fields, hfields, rfl⟩
  · rintro ⟨hi, hne, fields, hfields, hfs⟩
    subst hi hfs
    refine ⟨_, List.mem_filter.2 ⟨List.mem_map.2 ⟨fields, hfields, rfl⟩, by simpa using hne⟩, rfl⟩

/-- The groups are good, and all those of the records that are there are among them. -/
theorem collectGroups_spec {projected base : Graph V} {scopes : Scopes}
    (hs : ∀ id, Coupled ((scopes.lookup id).getD [])) {l : List String}
    {groups : List (String × List String)}
    (h : collectGroups projected base scopes l = some groups) :
    (∀ g ∈ groups, GoodGroup base projected scopes g) ∧
    ∀ id ∈ l, ∀ old r, base.lookup id = some old → projected.lookup id = some r →
      ChangedFields (some old) (some r) ownershipFields = false ∧
        ∀ g ∈ groupsOf scopes id old, g ∈ groups := by
  induction l generalizing groups with
  | nil =>
    cases h
    exact ⟨fun g hg => absurd hg List.not_mem_nil, fun id hid => absurd hid List.not_mem_nil⟩
  | cons id l ih =>
    unfold collectGroups at h
    split at h
    · rename_i old r hold hr
      split at h
      · cases h
      · rename_i hchanged
        obtain ⟨rest, hrest, rfl⟩ := Option.map_eq_some_iff.1 h
        obtain ⟨hgood, hall⟩ := ih hrest
        rw [Bool.not_eq_true] at hchanged
        refine ⟨fun g hg => ?_, fun id' hid' old' r' hold' hr' => ?_⟩
        · rcases List.mem_append.1 hg with hg | hg
          · obtain ⟨rfl, -, fields, hfields, hg2⟩ := groupsOf_mem.1 hg
            obtain ⟨hcf, hef⟩ := independentFieldGroups_coupled hfields
            refine ⟨?_, ?_, by simp [hold], by simp [hr], fun old' r' ho hr' => ?_⟩
            · intro f hf k hk
              rw [hg2, intersectFields, List.mem_filter] at hf ⊢
              refine ⟨hcf f hf.1 k hk, ?_⟩
              rw [List.contains_iff_mem] at hf ⊢
              exact hs _ f hf.2 k hk
            · rw [hg2, intersectFields, List.mem_filter]
              exact fun h => hef h.1
            · rw [hold] at ho
              rw [hr] at hr'
              cases ho
              cases hr'
              exact hchanged
          · exact hgood g hg
        · rcases List.mem_cons.1 hid' with rfl | hid'
          · rw [hold] at hold'
            rw [hr] at hr'
            cases hold'
            cases hr'
            exact ⟨hchanged, fun g hg => List.mem_append_left _ hg⟩
          · obtain ⟨hc, hm⟩ := hall id' hid' old' r' hold' hr'
            exact ⟨hc, fun g hg => List.mem_append_right _ (hm g hg)⟩
    · rename_i hnone
      obtain ⟨hgood, hall⟩ := ih h
      refine ⟨hgood, fun id' hid' old' r' hold' hr' => ?_⟩
      rcases List.mem_cons.1 hid' with rfl | hid'
      · exact absurd hr' (hnone old' r' hold')
      · exact hall id' hid' old' r' hold' hr'

theorem changedFields_false {a b : Option (Record V)} {names : List String}
    (h : ChangedFields a b names = false) : ∀ f ∈ names, FieldEqual a b f = true := by
  simpa [ChangedFields] using h

/-! ## The plan -/

/-- What holds of the plan while `rest` are the groups still to come: the last resource encoded
is the working graph, and a field in scope is the projected one or in a group to come. -/
structure PlanInv (projected : Graph V) (scopes : Scopes) (rest : List (String × List String))
    (c : FieldPlan V) : Prop where
  result : ∃ r, c.result = some r ∧ RestrictedTo r.graph c.working
  scope : ∀ id, ∀ f ∈ (c.scopes.lookup id).getD [], f ∈ (scopes.lookup id).getD []
  fields : ∀ id w, c.working.lookup id = some w → ∀ f ∈ (c.scopes.lookup id).getD [],
    FieldEqual (some w) (projected.lookup id) f = true ∨ ∃ g ∈ rest, g.1 = id ∧ f ∈ g.2
  entity : ∀ g ∈ rest, ∀ w, c.working.lookup g.1 = some w →
    FieldEqual (some w) (projected.lookup g.1) entityKey = true

section
variable {encoder : Encoder V} {resource : Wire V} {projected base : Graph V} {ids : List String}
  {root : String} {scopes : Scopes} {groups : List (String × List String)}

/-- The structure was encoded as it is: only fields of groups differ from the projection. -/
theorem plan_direct (henc : Restricts encoder)
    (hgood : ∀ g ∈ groups, GoodGroup base projected scopes g) {c' : FieldPlan V}
    (h : (fieldPlanOps encoder resource projected base ids root).encodeStructure
      ⟨scopes, groups.foldl (fun g group => copyFields g base group.1 group.2) projected, none⟩ =
        .ok c') : PlanInv projected scopes groups c' := by
  simp only [fieldPlanOps, bind, Except.bind] at h
  split at h
  · cases h
  rename_i r hr
  cases h
  have hthere : ∀ g ∈ groups, projected.lookup g.1 ≠ none := fun g hg => (hgood g hg).projects
  refine ⟨⟨r, rfl, henc _ _ _ _ hr⟩, fun _ _ h => h, fun id w hw f _ => ?_, fun g hg w hw => ?_⟩
  · obtain ⟨p, hp, hkeep⟩ := copyGroups_lookup hthere hw
    by_cases hm : ∃ g ∈ groups, g.1 = id ∧ f ∈ g.2
    · exact .inr hm
    · left
      rw [hp]
      refine fieldEqual_of_eq ?_
      rw [Option.map_some, Option.map_some]
      refine congrArg some (fieldOf_congr (hkeep _ fun g hg _ => (hgood g hg).entity)
        fun k hk => hkeep k fun g hg hid => ?_)
      exact (hgood g hg).coupled.disjoint (fun hf => hm ⟨g, hg, hid, hf⟩) k hk
  · obtain ⟨p, hp, hkeep⟩ := copyGroups_lookup hthere hw
    rw [hp]
    refine fieldEqual_of_eq ?_
    rw [Option.map_some, Option.map_some]
    have he : coupled entityKey = [entityKey] := by decide
    refine congrArg some (fieldOf_congr (hkeep _ fun g hg _ => (hgood g hg).entity)
      fun k hk => ?_)
    rw [he, List.mem_singleton] at hk
    rw [hk]
    exact hkeep _ fun g hg _ => (hgood g hg).entity

/-- A restored record. -/
def restoredAt (projected base : Graph V) (id : String)
    (pair : Option (Record V) × Option (List String)) :
    Option (Record V) × Option (List String) :=
  (base.lookup id, some (match base.lookup id, projected.lookup id with
    | some old, some _ =>
      intersectFields ((independentGroups old).flatten ++ ownershipFields) (pair.2.getD [])
    | _, _ => []))

/-- What belongs to one record in a plan. -/
def FieldPlan.at (c : FieldPlan V) (id : String) : Option (Record V) × Option (List String) :=
  (c.working.lookup id, c.scopes.lookup id)

theorem restoreRecord_at (c : FieldPlan V) (id id' : String) :
    (restoreRecord projected base c id).at id' =
      if id' = id then restoredAt projected base id (c.at id) else c.at id' := by
  show (_, _) = _
  unfold restoreRecord
  dsimp only
  rw [Dict.lookup_put, Dict.lookup_put]
  by_cases h : id' = id
  · simp only [if_pos h]
    rfl
  · simp only [if_neg h]
    rfl

/-- The structure was given up: every considered record is the old one, and in scope are its
groups and what belongs to its owner. -/
theorem plan_restored (henc : Restricts encoder) (hn : ids.Nodup)
    (hbase : ∀ id, base.lookup id ≠ none → id ∈ ids)
    (hscopes : ∀ id, id ∉ ids → scopes.lookup id = none)
    (hgood : ∀ g ∈ groups, GoodGroup base projected scopes g)
    (hall : ∀ id ∈ ids, ∀ old r, base.lookup id = some old → projected.lookup id = some r →
      ChangedFields (some old) (some r) ownershipFields = false ∧
        ∀ g ∈ groupsOf scopes id old, g ∈ groups)
    {c c' : FieldPlan V} (hc : c.scopes = scopes)
    (h : (fieldPlanOps encoder resource projected base ids root).encodeStructure
      ((fieldPlanOps encoder resource projected base ids root).restoreStructure c) = .ok c') :
    PlanInv projected scopes groups c' := by
  simp only [fieldPlanOps, bind, Except.bind] at h
  split at h
  · cases h
  rename_i r hr
  cases h
  have hat : ∀ id, (ids.foldl (restoreRecord projected base) c).at id =
      if id ∈ ids then restoredAt projected base id (c.at id) else c.at id :=
    fun id => Dict.foldl_view FieldPlan.at restoreRecord_at hn c id
  have hworking : ∀ id ∈ ids, (ids.foldl (restoreRecord projected base) c).working.lookup id =
      base.lookup id := by
    intro id hid
    have h := congrArg Prod.fst (hat id)
    rw [if_pos hid] at h
    exact h
  have hin : ∀ id, ∀ f ∈ ((ids.foldl (restoreRecord projected base) c).scopes.lookup id).getD [],
      id ∈ ids ∧ ∃ old r, base.lookup id = some old ∧ projected.lookup id = some r ∧
        f ∈ (independentGroups old).flatten ++ ownershipFields ∧
        f ∈ (scopes.lookup id).getD [] := by
    intro id f hf
    have h := congrArg Prod.snd (hat id)
    change (ids.foldl (restoreRecord projected base) c).scopes.lookup id = _ at h
    rw [h] at hf
    by_cases hid : id ∈ ids
    · rw [if_pos hid] at hf
      simp only [restoredAt, Option.getD_some] at hf
      split at hf
      · rename_i old r hold hproj
        rw [intersectFields, List.mem_filter, List.contains_iff_mem] at hf
        refine ⟨hid, old, r, hold, hproj, hf.1, ?_⟩
        have h2 := hf.2
        change f ∈ (c.scopes.lookup id).getD [] at h2
        rwa [hc] at h2
      · cases hf
    · rw [if_neg hid] at hf
      change f ∈ (c.scopes.lookup id).getD [] at hf
      rw [hc, hscopes id hid] at hf
      cases hf
  refine ⟨⟨r, rfl, henc _ _ _ _ hr⟩, fun id f hf => ?_, fun id w hw f hf => ?_,
    fun g hg w hw => ?_⟩
  · obtain ⟨-, -, -, -, -, -, h⟩ := hin id f hf
    exact h
  · obtain ⟨hid, old, p, hold, hproj, hfields, hscope⟩ := hin id f hf
    rw [hworking id hid, hold, Option.some.injEq] at hw
    subst hw
    obtain ⟨hown, hgroups⟩ := hall id hid old p hold hproj
    rcases List.mem_append.1 hfields with hgroup | howner
    · right
      obtain ⟨fields, hfs, hff⟩ := List.mem_flatten.1 hgroup
      have hm : f ∈ intersectFields fields ((scopes.lookup id).getD []) := by
        rw [intersectFields, List.mem_filter, List.contains_iff_mem]
        exact ⟨hff, hscope⟩
      refine ⟨(id, intersectFields fields ((scopes.lookup id).getD [])), hgroups _
        (groupsOf_mem.2 ⟨rfl, List.ne_nil_of_mem hm, fields, hfs, rfl⟩), rfl, hm⟩
    · left
      rw [hproj]
      exact changedFields_false hown f howner
  · obtain ⟨old, hold⟩ := Option.ne_none_iff_exists'.1 (hgood g hg).based
    obtain ⟨p, hp⟩ := Option.ne_none_iff_exists'.1 (hgood g hg).projects
    rw [hworking g.1 (hbase g.1 (hgood g hg).based), hold, Option.some.injEq] at hw
    subst hw
    rw [hp]
    exact changedFields_false ((hgood g hg).owner old p hold hp) entityKey
      (by simp [ownershipFields])

/-- **One group**: encoded, it is the projected one; rejected, it is out of scope. -/
theorem plan_group (henc : Restricts encoder) {g : String × List String}
    {rest : List (String × List String)} (hg : GoodGroup base projected scopes g)
    {c : FieldPlan V} (h : PlanInv projected scopes (g :: rest) c) :
    PlanInv projected scopes rest
      ((fieldPlanOps encoder resource projected base ids root).planGroup c g) := by
  obtain ⟨p, hp⟩ := Option.ne_none_iff_exists'.1 hg.projects
  unfold IndependentPlan.planGroup
  split
  · rename_i hchanged
    simp only [fieldPlanOps, bind, Except.bind, Bool.and_eq_true] at hchanged ⊢
    obtain ⟨w₀, hw₀⟩ := Option.isSome_iff_exists.1 hchanged.1.1
    cases hr : encoder (some resource) (copyFields c.working projected g.1 g.2) root with
    | ok r =>
      -- the group is copied from the projection
      simp only [pure, Except.pure]
      have hat : ∀ id w, (copyFields c.working projected g.1 g.2).lookup id = some w →
          (id = g.1 ∧ w = putFields w₀ p g.2) ∨ (id ≠ g.1 ∧ c.working.lookup id = some w) := by
        intro id w hw
        rw [copyFields_lookup] at hw
        by_cases hid : id = g.1
        · rw [if_pos hid, hw₀, hp, Option.some.injEq] at hw
          exact .inl ⟨hid, hw.symm⟩
        · rw [if_neg hid] at hw
          exact .inr ⟨hid, hw⟩
      have hother : ∀ f, f ∉ g.2 → FieldEqual (some (putFields w₀ p g.2)) (some p) f =
          FieldEqual (some w₀) (some p) f := by
        intro f hf
        simp only [FieldEqual, Option.map_some, putFields_other hg.coupled hg.entity hf]
      have hentity : FieldEqual (some (putFields w₀ p g.2)) (some p) entityKey = true := by
        rw [hother _ hg.entity, ← hp]
        exact h.entity g List.mem_cons_self w₀ hw₀
      refine ⟨⟨r, rfl, henc _ _ _ _ hr⟩, h.scope, fun id w hw f hf => ?_, fun g' hg' w hw => ?_⟩
      · rcases hat id w hw with ⟨rfl, rfl⟩ | ⟨hid, hw⟩
        · by_cases hfg : f ∈ g.2
          · left
            rw [hp]
            refine fieldEqual_copied hentity fun k hk => ?_
            rw [putFields_lookup, if_pos (hg.coupled f hfg k hk)]
          · rcases h.fields g.1 w₀ hw₀ f hf with he | ⟨g', hg', hid', hfg'⟩
            · left
              rw [hp] at he ⊢
              rw [hother f hfg]
              exact he
            · rcases List.mem_cons.1 hg' with rfl | hg'
              · exact absurd hfg' hfg
              · exact .inr ⟨g', hg', hid', hfg'⟩
        · rcases h.fields id w hw f hf with he | ⟨g', hg', hid', hfg'⟩
          · exact .inl he
          · rcases List.mem_cons.1 hg' with rfl | hg'
            · exact absurd hid'.symm hid
            · exact .inr ⟨g', hg', hid', hfg'⟩
      · rcases hat g'.1 w hw with ⟨hid, rfl⟩ | ⟨-, hw⟩
        · rw [hid, hp]
          exact hentity
        · exact h.entity g' (List.mem_cons_of_mem _ hg') w hw
    | error e =>
      -- the group leaves the scope
      dsimp only
      have hscope : ∀ id, ∀ f ∈ ((c.scopes.put g.1 (some (((c.scopes.lookup g.1).getD []).filter
          fun f => f ∉ g.2))).lookup id).getD [],
          f ∈ (c.scopes.lookup id).getD [] ∧ ¬ (g.1 = id ∧ f ∈ g.2) := by
        intro id f hf
        rw [Dict.lookup_put] at hf
        by_cases hid : id = g.1
        · rw [if_pos hid, Option.getD_some, List.mem_filter] at hf
          rw [hid]
          exact ⟨hf.1, fun hm => of_decide_eq_true hf.2 hm.2⟩
        · rw [if_neg hid] at hf
          exact ⟨hf, fun hm => hid hm.1.symm⟩
      refine ⟨h.result, fun id f hf => h.scope id f (hscope id f hf).1, fun id w hw f hf => ?_,
        fun g' hg' => h.entity g' (List.mem_cons_of_mem _ hg')⟩
      obtain ⟨hf, hout⟩ := hscope id f hf
      rcases h.fields id w hw f hf with he | ⟨g', hg', hid', hfg'⟩
      · exact .inl he
      · rcases List.mem_cons.1 hg' with rfl | hg'
        · exact absurd ⟨hid', hfg'⟩ hout
        · exact .inr ⟨g', hg', hid', hfg'⟩
  · -- the group is what the projection has
    rename_i hsame
    refine ⟨h.result, h.scope, fun id w hw f hf => ?_,
      fun g' hg' => h.entity g' (List.mem_cons_of_mem _ hg')⟩
    rcases h.fields id w hw f hf with he | ⟨g', hg', hid', hfg'⟩
    · exact .inl he
    · rcases List.mem_cons.1 hg' with rfl | hg'
      · left
        subst hid'
        simp only [fieldPlanOps, hw, hp, Option.isSome_some, Bool.and_self, Bool.true_and,
          List.any_eq_true, Bool.not_eq_true', not_exists, not_and, Bool.not_eq_false] at hsame
        rw [hp]
        exact hsame f hfg'
      · exact .inr ⟨g', hg', hid', hfg'⟩

end

/-- **The retry represents what it keeps in scope.** -/
theorem encodeIndependent_represents {encoder : Encoder V} (henc : Restricts encoder)
    {resource : Wire V} {base truth : Graph V} {ids : List String} {root : String} {e : RCError}
    {scopes : Scopes} {out : Wire V} (hn : ids.Nodup)
    (hbase : ∀ id, base.lookup id ≠ none → id ∈ ids)
    (h : encodeIndependent encoder resource (project base truth ids).projected base ids root
      (project base truth ids).scopes e = .ok (scopes, out)) :
    Represents truth scopes out.graph := by
  unfold encodeIndependent at h
  cases hgroups : collectGroups (project base truth ids).projected base
      (project base truth ids).scopes (sorted base.keys) with
  | none => rw [hgroups] at h; cases h
  | some groups =>
    rw [hgroups] at h
    simp only [bind, Except.bind] at h
    split at h
    · cases h
    rename_i plan hplan
    obtain ⟨hgood, hall⟩ := collectGroups_spec (project_scope hn) hgroups
    have hcovered : ∀ id ∈ ids, ∀ old r, base.lookup id = some old →
        (project base truth ids).projected.lookup id = some r →
        ChangedFields (some old) (some r) ownershipFields = false ∧
          ∀ g ∈ groupsOf (project base truth ids).scopes id old, g ∈ groups := by
      intro id _ old r hold hr
      refine hall id (mem_sorted.2 (Dict.mem_keys_iff.2 ?_)) old r hold hr
      rw [hold]
      simp
    have houtside : ∀ id, id ∉ ids → (project base truth ids).scopes.lookup id = none := by
      intro id hid
      have hat := congrArg Prod.snd (project_at base truth hn id)
      rw [if_neg hid] at hat
      exact hat
    have hinv := IndependentPlan.plan_rule
      (I := fun rest c => (∀ g ∈ rest, GoodGroup base (project base truth ids).projected
          (project base truth ids).scopes g) ∧
        PlanInv (project base truth ids).projected (project base truth ids).scopes rest c)
      (fun c hc => ⟨hgood, plan_direct henc hgood hc⟩)
      (fun c hc => ⟨hgood, plan_restored henc hn hbase houtside hgood hcovered rfl hc⟩)
      (fun g rest c hc => ⟨fun g' hg' => hc.1 g' (List.mem_cons_of_mem _ hg'),
        plan_group henc (hc.1 g List.mem_cons_self) hc.2⟩)
      hplan
    obtain ⟨r, hr, hrestricted⟩ := hinv.2.result
    rw [hr] at h
    cases h
    -- no group is left: what is in scope is projected, and the projection is the native record
    have hworking : Represents truth plan.scopes plan.working := by
      intro id w hw f hf
      rcases hinv.2.fields id w hw f hf with he | ⟨g, hg, -⟩
      · cases hp : (project base truth ids).projected.lookup id with
        | none => rw [hp] at he; cases he
        | some p =>
          obtain ⟨t, ht, hpt⟩ := project_scoped hn hp (hinv.2.scope id f hf)
          rw [hp] at he
          rw [ht]
          simp only [FieldEqual, Option.map_some] at he ⊢
          rw [← hpt]
          exact he
      · cases hg
    exact hworking.restricted hrestricted

/-! ## The theorem -/

/-- The record has the field. -/
def HasField (r : Option (Record V)) (f : String) : Prop := fieldValue r f ≠ none

omit [FieldValue V] in
theorem hasField_keys {r : Option (Record V)} {f : String} (h : HasField r f) :
    f ∈ (r.map AList.keys).getD [] := by
  cases r with
  | none => exact absurd rfl h
  | some r => exact Dict.mem_keys_iff.2 h

theorem mem_differentFields {record represented : Option (Record V)} {f : String}
    (hf : HasField record f ∨ HasField represented f)
    (hne : FieldEqual record represented f = false)
    (hthere : record ≠ none ∨ represented = none) :
    f ∈ differentFields record represented := by
  have hd : ¬ (represented.isSome && record.isNone) = true := by
    cases record <;> cases represented <;> simp_all
  rw [differentFields, if_neg hd, List.mem_filter, mem_sorted, List.mem_union_iff, hne]
  exact ⟨hf.imp hasField_keys hasField_keys, rfl⟩

section
variable {base truth : Graph V} {ids : List String} {scopes : Scopes} {d : Wire V}

theorem describe_pending {id : String} (hid : id ∈ ids) :
    ((describe base truth ids scopes d).pendingFields.lookup id).getD [] =
      differentFields (truth.lookup id) (d.graph.lookup id) := by
  simp only [describe, Dict.lookup_collect, if_pos hid]
  split
  · rename_i h
    rw [h]
    rfl
  · rfl

theorem describe_scopes (h : Represents truth scopes d.graph) {id : String} {fs : List String}
    (hfs : (describe base truth ids scopes d).fieldScopes.lookup id = some fs) {f : String}
    (hf : f ∈ fs) : FieldEqual (d.graph.lookup id) (truth.lookup id) f = true := by
  simp only [describe, Dict.lookup_collect] at hfs
  split at hfs
  · obtain ⟨r, hr, rfl⟩ := Option.map_eq_some_iff.1 hfs
    rw [hr]
    exact h id r hr f hf
  · cases hfs

end

/-- How an upload comes about. -/
theorem encodeFields_ok {encoder : Encoder V} (henc : Restricts encoder)
    {resource : Option (Wire V)} {truth : Graph V} {root : String} {desired : Desired V}
    (h : encodeFields encoder resource truth root = .ok desired) :
    ∃ scopes d, Represents truth scopes d.graph ∧
      desired = describe ((resource.map Wire.graph).getD ∅) truth
        (considered truth ((resource.map Wire.graph).getD ∅) root) scopes d := by
  have hn : (considered truth ((resource.map Wire.graph).getD ∅) root).Nodup :=
    considered_nodup _ root
  unfold encodeFields at h
  dsimp only at h
  split at h
  · cases h
  simp only [bind, Except.bind, pure, Except.pure] at h
  split at h
  · rename_i d _ hd
    cases h
    exact ⟨_, d, (project_represents hn).restricted (henc _ _ _ _ hd), rfl⟩
  · rename_i resource' _ _
    split at h
    · cases h
    rename_i out hout
    cases h
    exact ⟨out.1, out.2, encodeIndependent_represents henc hn
      (fun id hid => considered_base root (Dict.mem_keys_iff.2 hid)) hout, rfl⟩
  · cases h

/-- **Scope soundness of outgoing edits.** When `encodeFields` succeeds, on the direct path or
after a retry, every field in scope of the upload is what the native store has. Every field in
which a considered record differs from what the upload represents is pending; a represented
record that the native store no longer has is pending as a deletion. -/
theorem scope_sound {encoder : Encoder V} (henc : Restricts encoder) {resource : Option (Wire V)}
    {truth : Graph V} {root : String} {desired : Desired V}
    (hok : encodeFields encoder resource truth root = .ok desired) :
    (∀ id fs, desired.fieldScopes.lookup id = some fs → ∀ f ∈ fs,
      FieldEqual (desired.graph.lookup id) (truth.lookup id) f = true) ∧
    ∀ id ∈ considered truth ((resource.map Wire.graph).getD ∅) root,
      (truth.lookup id = none → desired.graph.lookup id ≠ none →
        (desired.pendingFields.lookup id).getD [] = ["record deletion"]) ∧
      ∀ f, HasField (truth.lookup id) f ∨ HasField (desired.graph.lookup id) f →
        FieldEqual (truth.lookup id) (desired.graph.lookup id) f = false →
        (truth.lookup id ≠ none ∨ desired.graph.lookup id = none) →
          f ∈ (desired.pendingFields.lookup id).getD [] := by
  obtain ⟨scopes, d, hrep, rfl⟩ := encodeFields_ok henc hok
  refine ⟨fun id fs hfs f hf => describe_scopes hrep hfs hf, fun id hid => ?_⟩
  rw [describe_pending hid]
  refine ⟨fun ht hd => ?_, fun f hf hne hthere => mem_differentFields hf hne hthere⟩
  obtain ⟨r, hr⟩ := Option.ne_none_iff_exists'.1 hd
  change d.graph.lookup id = some r at hr
  rw [ht, hr]
  rfl

/-! ## A case -/

def event (summary : String) (alarms : List String) : Record Plist :=
  Dict.ofList [(entityKey, .text "com.apple.calendars.Event"), ("summary", .text summary),
    ("display alarms", .list alarms)]

/-- A meeting with an alarm. -/
def meeting : Wire Plist where
  key := "meeting"
  href := "/calendar/meeting.ics"
  etag := some "\"v1\""
  body := []
  revision := 1
  root := "e"
  graph := Dict.ofList [("e", event "Meeting" ["a"]),
    ("a", Dict.ofList [(entityKey, .text "com.apple.calendars.DisplayAlarm"),
      ("owner", .list ["e"])])]
  paths := ∅

/-- It was renamed, and its alarm deleted. -/
def renamedMeeting : Graph Plist := Dict.ofList [("e", event "Lunch" [])]

/-- An encoder that cannot delete the alarm. -/
def keepsAlarm : Encoder Plist
  | some r, graph, _ =>
    if (graph.lookup "a").isSome then .ok { r with graph := graph }
    else .error ⟨1, "The alarm cannot be deleted"⟩
  | none, _, _ => .error ⟨1, "The alarm cannot be created"⟩

theorem keepsAlarm_restricts : Restricts keepsAlarm := by
  intro resource graph root out h id r hid
  cases resource with
  | none => cases h
  | some resource =>
    simp only [keepsAlarm] at h
    split at h
    · cases h
      exact ⟨r, hid, fun _ => rfl⟩
    · cases h

def lunch : Except RCError (Desired Plist) :=
  encodeFields keepsAlarm (some meeting) renamedMeeting "e"

theorem of_lunch {p : Desired Plist → Bool} {d : Desired Plist} (hd : lunch = .ok d)
    (h : (match lunch with
      | .ok d => p d
      | .error _ => false) = true) : p d = true := by
  rw [hd] at h
  exact h

/-- The retry renames the meeting and keeps the deletion of the alarm pending. -/
theorem scope_sound_renamed :
    ∃ d, encodeFields keepsAlarm (some meeting) renamedMeeting "e" = .ok d ∧
      FieldEqual (d.graph.lookup "e") (renamedMeeting.lookup "e") "summary" = true ∧
      (d.pendingFields.lookup "a").getD [] = ["record deletion"] := by
  cases hd : lunch with
  | error e =>
    have hok : (match lunch with
      | .ok _ => true
      | .error _ => false) = true := by decide +kernel
    rw [hd] at hok
    cases hok
  | ok d =>
    obtain ⟨hscope, hpending⟩ := scope_sound keepsAlarm_restricts hd
    have hs : ((d.fieldScopes.lookup "e").getD []).contains "summary" = true :=
      of_lunch (p := fun d => ((d.fieldScopes.lookup "e").getD []).contains "summary") hd
        (by decide +kernel)
    have ha : (d.graph.lookup "a").isSome = true :=
      of_lunch (p := fun d => (d.graph.lookup "a").isSome) hd (by decide +kernel)
    refine ⟨d, hd, ?_, (hpending "a" (by decide +kernel)).1 rfl (Option.isSome_iff_ne_none.1 ha)⟩
    rw [List.contains_iff_mem] at hs
    cases hf : d.fieldScopes.lookup "e" with
    | none => rw [hf] at hs; cases hs
    | some fs =>
      rw [hf] at hs
      exact hscope "e" fs hf "summary" hs

/-- A record the native store no longer has is not reported field by field. -/
theorem deletion_without_fields :
    ¬ ∀ (encoder : Encoder Plist) (resource : Option (Wire Plist)) (truth : Graph Plist)
      (root : String) (desired : Desired Plist), Restricts encoder →
      encodeFields encoder resource truth root = .ok desired →
      ∀ id ∈ considered truth ((resource.map Wire.graph).getD ∅) root, ∀ f,
        HasField (truth.lookup id) f ∨ HasField (desired.graph.lookup id) f →
        FieldEqual (truth.lookup id) (desired.graph.lookup id) f = false →
          f ∈ (desired.pendingFields.lookup id).getD [] := by
  intro h
  cases hd : lunch with
  | error e =>
    have hok : (match lunch with
      | .ok _ => true
      | .error _ => false) = true := by decide +kernel
    rw [hd] at hok
    cases hok
  | ok d =>
    have hp : ((fieldValue (d.graph.lookup "a") "owner").isSome &&
        !FieldEqual (renamedMeeting.lookup "a") (d.graph.lookup "a") "owner" &&
        decide ("owner" ∉ (d.pendingFields.lookup "a").getD [])) = true :=
      of_lunch (p := fun d => (fieldValue (d.graph.lookup "a") "owner").isSome &&
        !FieldEqual (renamedMeeting.lookup "a") (d.graph.lookup "a") "owner" &&
        decide ("owner" ∉ (d.pendingFields.lookup "a").getD [])) hd (by decide +kernel)
    simp only [Bool.and_eq_true, Bool.not_eq_true', decide_eq_true_eq] at hp
    exact hp.2 (h keepsAlarm (some meeting) renamedMeeting "e" d keepsAlarm_restricts hd "a"
      (by decide +kernel) "owner" (.inr (Option.isSome_iff_ne_none.1 hp.1.1)) hp.1.2)

end TwoWay
