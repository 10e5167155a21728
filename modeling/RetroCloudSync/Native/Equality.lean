import Mathlib.Data.List.Infix
import RetroCloudSync.Calendar.Alias
import RetroCloudSync.Native.Cocoa

/-!
# Is the equality of records an equivalence?

`RCRecordsEqual` over the values of Cocoa. Two records that are equal name the same entity and, as
audio alarms, the same sound, so the mode in which a field is compared is the same for a whole chain
of equal records (`Agree.mode`). Within a mode a property is compared through its form. An unordered
field is equal in two ways, as an ordered array or as a set, and a chain may change between the two
at an array in which an absolute date stands where the other array has a floating one of the same
instant (`Clash`). This is the only way in which equality fails to be transitive.
-/

set_option autoImplicit false

namespace Native

open Library Value Calendar

variable {U I : Type} [DecidableEq U] [DecidableEq I] [Foundation U I]

instance : TwoWay.FieldValue (Cocoa U I) where
  string s := .scalar (.text s)
  emptyValue v := emptyValue (some v)
  isDate
    | .scalar (.date ..) => true
    | _ => false
  floatingDate v := floatingDate (some v)
  boolValue
    | .scalar (.number n) => n ≠ 0
    | _ => false

/-- One string of an array replaced. -/
def Scalar.mapText (f : String → String) : Scalar U I → Scalar U I
  | text s => text (f s)
  | s => s

instance : GraphValue (Cocoa U I) where
  mapItems f
    | .array l => .array (l.map (Scalar.mapText f))
    | v => v
  children_mapItems f v := by
    cases v with
    | scalar s => rfl
    | array l =>
      simp only [children, Option.map_some, List.filterMap_map, List.map_filterMap]
      congr 2
      funext s
      cases s <;> rfl
  children_array l := by
    simp only [children, array, List.filterMap_map]
    exact congrArg some List.filterMap_some

variable {W : Cocoa U I → Prop} {entity : Option String} {field : String}
  {a b c : Record (Cocoa U I)} {x y z : Option (Cocoa U I)}

/-! ## One field -/

/-- Two ways in which a field that is not skipped is equal. -/
def valuesEqual (entity : Option String) (field : String) (x y : Option (Cocoa U I)) : Bool :=
  propertyValuesEqual entity field x y || (unorderedField field && unorderedValuesEqual x y)

theorem unorderedValuesEqual_iff :
    unorderedValuesEqual x y = true ↔
      ∃ l l', x = some (.array l) ∧ y = some (.array l') ∧ unordered l = unordered l' := by
  unfold unorderedValuesEqual
  split
  · rename_i l l'
    constructor
    · intro h
      exact ⟨l, l', rfl, rfl, of_decide_eq_true h⟩
    · intro h
      obtain ⟨m, m', hm, hm', h⟩ := h
      cases hm
      cases hm'
      exact decide_eq_true h
  · rename_i hno
    refine ⟨fun h => (nomatch h), fun h => ?_⟩
    obtain ⟨l, l', rfl, rfl, -⟩ := h
    exact absurd rfl (hno l l' rfl)

theorem valuesEqual_symm (h : valuesEqual entity field x y = true) :
    valuesEqual entity field y x = true := by
  unfold valuesEqual at *
  rw [Bool.or_eq_true, Bool.and_eq_true] at *
  refine h.imp (fun h => ?_) (And.imp_right fun h => ?_)
  · exact propertyValuesEqual_iff.2 (propertyValuesEqual_iff.1 h).symm
  · obtain ⟨l, l', hx, hy, h⟩ := unorderedValuesEqual_iff.1 h
    exact unorderedValuesEqual_iff.2 ⟨l', l, hy, hx, h.symm⟩

/-- The values hold arrays of which two are equal member by member but not as sets, and two as sets
but not member by member. -/
def Clash (W : Cocoa U I → Prop) : Prop :=
  ∃ l l' l'', W (.array l) ∧ W (.array l') ∧ W (.array l'') ∧
    l.map Scalar.erase = l'.map Scalar.erase ∧ unordered l ≠ unordered l' ∧
    unordered l' = unordered l'' ∧ l'.map Scalar.erase ≠ l''.map Scalar.erase

omit [DecidableEq U] [DecidableEq I] [Foundation U I] in
theorem defaultValue_unordered (h : unorderedField field = true) :
    (defaultValue entity field : Option (Cocoa U I)) = none := by
  unfold unorderedField at h
  simp only [List.contains_iff_mem, List.mem_cons, List.not_mem_nil, or_false] at h
  unfold defaultValue
  dsimp only
  rcases h with h | h | h | h | h | h | h | h | h | h | h | h | h | h <;> subst h <;>
    simp

theorem unordered_nil {l : List (Scalar U I)} : unordered l = unordered [] ↔ l = [] := by
  constructor
  · intro h
    cases l with
    | nil => rfl
    | cons s l =>
      have hs : canonical s ∈ unordered (s :: l) := by simp [unordered]
      rw [h] at hs
      simp [unordered] at hs
  · intro h
    rw [h]

omit [DecidableEq U] [DecidableEq I] in
theorem form_array (h : unorderedField field = true) (l : List (Scalar U I)) :
    form entity field (some (.array l)) =
      .value (if l = [] then none else some (.array (l.map Scalar.erase))) := by
  unfold form
  have hf : floatingDate (some (Cocoa.array l)) = false := rfl
  rw [hf, Bool.and_false, if_neg Bool.false_ne_true, defaultValue_unordered h]
  by_cases hl : l = [] <;> simp [emptyValue, hl, Cocoa.erase]

omit [DecidableEq U] [DecidableEq I] in
theorem form_eq_array (h : unorderedField field = true) {l : List (Scalar U I)} (hl : l ≠ [])
    (hx : form entity field x = form entity field (some (.array l))) :
    ∃ m, x = some (.array m) ∧ m.map Scalar.erase = l.map Scalar.erase := by
  rw [form_array h, if_neg hl] at hx
  unfold form at hx
  split at hx
  · cases hx
  · rw [defaultValue_unordered h] at hx
    have hx := Form.value.inj hx
    split at hx
    · cases hx
    · rcases x with _ | (s | m)
      · cases hx
      · cases hx
      · exact ⟨m, rfl, by simpa [Cocoa.erase] using hx⟩

theorem valuesEqual_mixed (hW : ¬ Clash W) (h : unorderedField field = true)
    (hx : ∀ v, x = some v → W v) (hy : ∀ v, y = some v → W v) (hz : ∀ v, z = some v → W v)
    (hxy : form entity field x = form entity field y) (hyz : unorderedValuesEqual y z = true) :
    valuesEqual entity field x z = true := by
  obtain ⟨l', l'', rfl, rfl, hset⟩ := unorderedValuesEqual_iff.1 hyz
  unfold valuesEqual
  rw [Bool.or_eq_true, Bool.and_eq_true, propertyValuesEqual_iff]
  by_cases hl : l' = []
  · have hl'' : l'' = [] := by
      rw [hl] at hset
      exact unordered_nil.1 hset.symm
    exact .inl (by rw [hxy, hl, hl''])
  · obtain ⟨l, rfl, hsame⟩ := form_eq_array h hl hxy
    by_cases hsets : unordered l = unordered l'
    · exact .inr ⟨h, unorderedValuesEqual_iff.2 ⟨l, l'', rfl, rfl, hsets.trans hset⟩⟩
    · refine .inl (hxy.trans ?_)
      by_cases hsame' : l'.map Scalar.erase = l''.map Scalar.erase
      · rw [form_array h, form_array h, hsame']
        have hnil : l' = [] ↔ l'' = [] := by
          rw [← List.map_eq_nil_iff (f := Scalar.erase), hsame', List.map_eq_nil_iff]
        simp only [hnil]
      · exact absurd ⟨l, l', l'', hx _ rfl, hy _ rfl, hz _ rfl, hsame, hsets, hset, hsame'⟩ hW

theorem valuesEqual_trans (hW : ¬ Clash W) (hx : ∀ v, x = some v → W v)
    (hy : ∀ v, y = some v → W v) (hz : ∀ v, z = some v → W v)
    (hxy : valuesEqual entity field x y = true) (hyz : valuesEqual entity field y z = true) :
    valuesEqual entity field x z = true := by
  have hxy' := hxy
  have hyz' := hyz
  unfold valuesEqual at hxy' hyz'
  rw [Bool.or_eq_true, Bool.and_eq_true, propertyValuesEqual_iff] at hxy' hyz'
  rcases hxy' with hp | ⟨h, hu⟩
  · rcases hyz' with hp' | ⟨h, hu'⟩
    · unfold valuesEqual
      rw [propertyValuesEqual_iff.2 (hp.trans hp'), Bool.true_or]
    · exact valuesEqual_mixed hW h hx hy hz hp hu'
  · rcases hyz' with hp' | ⟨-, hu'⟩
    · -- the same, from the other end
      have hyx : unorderedValuesEqual y x = true := by
        obtain ⟨l, l', hl, hl', hs⟩ := unorderedValuesEqual_iff.1 hu
        exact unorderedValuesEqual_iff.2 ⟨l', l, hl', hl, hs.symm⟩
      exact valuesEqual_symm (valuesEqual_mixed hW h hz hy hx hp'.symm hyx)
    · obtain ⟨l, l', rfl, rfl, hs⟩ := unorderedValuesEqual_iff.1 hu
      obtain ⟨m, l'', hm, rfl, hs'⟩ := unorderedValuesEqual_iff.1 hu'
      cases hm
      unfold valuesEqual
      rw [unorderedValuesEqual_iff.2 ⟨l, l'', rfl, rfl, hs.trans hs'⟩, h, Bool.and_self,
        Bool.or_true]

/-! ## Records -/

def audioAlarm : String := "com.apple.calendars.AudioAlarm"

/-- The mode an alarm is compared in. -/
def alarmMode (entity : Option String) (a b : Record (Cocoa U I)) : Option Bool :=
  if entity = some audioAlarm then alarmSoundsEqual a b else none

/-- The records agree as records of `entity`, in every field. -/
structure Agree (entity : Option String) (a b : Record (Cocoa U I)) : Prop where
  sound : alarmMode entity a b ≠ some false
  fields : ∀ f, fieldEqual entity (alarmMode entity a b) a b f = true

theorem fieldEqual_iff {m : Option Bool} {f : String} :
    fieldEqual entity m a b f = true ↔ ignoredNativeField entity f = true ∨
      (m = some true ∧ (f = "sound" ∨ f = "com.apple.ical.sound")) ∨
      valuesEqual entity f (a.lookup f) (b.lookup f) = true := by
  unfold fieldEqual valuesEqual
  show (_ || _ || propertyValuesEqual entity f _ _ || (_ && unorderedValuesEqual _ _)) = true ↔ _
  simp only [Bool.or_eq_true, Bool.and_eq_true, decide_eq_true_iff, or_assoc]

/-- A field that neither record has is equal in every mode. -/
theorem recordsEqual_iff_agree : recordsEqual a b = true ↔
    Agree (if Native.entity a = Native.entity b then Native.entity a else none) a b := by
  unfold recordsEqual
  dsimp only
  generalize (if Native.entity a = Native.entity b then Native.entity a else none) = e
  rw [Bool.and_eq_true, List.all_eq_true, decide_eq_true_iff]
  show (alarmMode e a b ≠ some false ∧ ∀ f ∈ a.keys ++ b.keys,
    fieldEqual e (alarmMode e a b) a b f = true) ↔ _
  constructor
  · intro h
    refine ⟨h.1, fun f => ?_⟩
    by_cases hf : f ∈ a.keys ++ b.keys
    · exact h.2 f hf
    · rw [List.mem_append, not_or] at hf
      refine fieldEqual_iff.2 (.inr (.inr ?_))
      rw [Dict.lookup_of_not_mem hf.1, Dict.lookup_of_not_mem hf.2]
      unfold valuesEqual
      rw [propertyValuesEqual_iff.2 rfl, Bool.true_or]
  · intro h
    exact ⟨h.sound, fun f _ => h.fields f⟩

omit [DecidableEq I] in
theorem alarmMode_symm : alarmMode entity a b = alarmMode entity b a := by
  unfold alarmMode alarmSoundsEqual
  split
  · cases alarmSound a <;> cases alarmSound b <;> simp [eq_comm]
  · rfl

theorem Agree.symm (h : Agree entity a b) : Agree entity b a := by
  refine ⟨by rw [alarmMode_symm]; exact h.sound, fun f => ?_⟩
  rw [alarmMode_symm]
  refine fieldEqual_iff.2 ((fieldEqual_iff.1 (h.fields f)).imp_right (Or.imp_right fun hv => ?_))
  exact valuesEqual_symm hv

/-- A field that is always compared as a property, and has no default. -/
theorem Agree.form_eq {f : String} (h : Agree entity a b) (hi : ignoredNativeField entity f = false)
    (hm : ¬ (alarmMode entity a b = some true ∧ (f = "sound" ∨ f = "com.apple.ical.sound")))
    (hu : unorderedField f = false) :
    form entity f (a.lookup f) = form entity f (b.lookup f) := by
  rcases fieldEqual_iff.1 (h.fields f) with hn | hn | hn
  · rw [hi] at hn
    cases hn
  · exact absurd hn hm
  · unfold valuesEqual at hn
    rw [hu, Bool.false_and, Bool.or_false] at hn
    exact propertyValuesEqual_iff.1 hn

/-! ### The entity -/

/-- The empty entity is none. -/
def effective (r : Record (Cocoa U I)) : Option String := (Native.entity r).filter fun e => e ≠ ""

theorem agree_filter : Agree (entity.filter fun e => e ≠ "") a b ↔ Agree entity a b := by
  by_cases h : entity = some ""
  · subst h
    have hf : ∀ f, fieldEqual (none : Option String) none a b f = fieldEqual (some "") none a b f :=
      fun f => by rw [Bool.eq_iff_iff, fieldEqual_iff, fieldEqual_iff]; rfl
    constructor
    · intro h
      exact ⟨nofun, fun f => (hf f).symm.trans (h.fields f)⟩
    · intro h
      exact ⟨nofun, fun f => (hf f).trans (h.fields f)⟩
  · have hsame : (entity.filter fun e => e ≠ "") = entity := by
      cases entity with
      | none => rfl
      | some e =>
        have he : e ≠ "" := fun he => h (congrArg some he)
        simp [Option.filter, he]
    rw [hsame]

omit [DecidableEq U] [DecidableEq I] [Foundation U I] in
theorem defaultValue_entityKey :
    (defaultValue entity entityKey : Option (Cocoa U I)) = none := by
  simp [defaultValue, entityKey]

/-- Records that agree, in whatever mode, name the same entity if either names one. -/
theorem Agree.entity_eq {e : String} (h : Agree entity a b) (ha : Native.entity a = some e)
    (he : e ≠ "") : Native.entity b = some e := by
  have hform := h.form_eq (f := entityKey) (by simp [ignoredNativeField, entityKey])
    (by simp [entityKey]) (by decide)
  have hx : a.lookup entityKey = some (.scalar (.text e)) := by
    unfold Native.entity at ha
    obtain ⟨v, hv, ht⟩ := Option.bind_eq_some_iff.1 ha
    rw [hv]
    rcases v with (_ | _ | _ | _) | _ <;> first
      | (cases ht; rfl)
      | cases ht
  have hleft : form entity entityKey (some (Cocoa.scalar (Scalar.text e) : Cocoa U I)) =
      .value (some (.scalar (.text e))) := by
    unfold form
    have hf : floatingDate (some (Cocoa.scalar (Scalar.text e) : Cocoa U I)) = false := rfl
    rw [hf, Bool.and_false, if_neg Bool.false_ne_true, defaultValue_entityKey]
    simp [emptyValue, he, Cocoa.erase, Scalar.erase]
  rw [hx, hleft] at hform
  unfold form at hform
  split at hform
  · cases hform
  · rw [defaultValue_entityKey] at hform
    have hform := Form.value.inj hform
    have hy : b.lookup entityKey = some (.scalar (.text e)) := by
      split at hform
      · cases hform
      · rcases hb : b.lookup entityKey with _ | ((_ | _ | _ | _) | _) <;> rw [hb] at hform <;>
          simp [Cocoa.erase, Scalar.erase] at hform
        rw [hform]
    unfold Native.entity
    rw [hy]
    rfl

theorem recordsEqual_iff :
    recordsEqual a b = true ↔ effective a = effective b ∧ Agree (effective a) a b := by
  rw [recordsEqual_iff_agree]
  unfold effective
  rw [agree_filter]
  by_cases hab : Native.entity a = Native.entity b
  · rw [if_pos hab, hab]
    exact ⟨fun h => ⟨rfl, h⟩, fun h => h.2⟩
  · rw [if_neg hab]
    constructor
    · intro h
      -- neither names an entity
      have hnone : ∀ r r' : Record (Cocoa U I), Agree none r r' →
          Native.entity r ≠ Native.entity r' →
          ((Native.entity r).filter fun e => e ≠ "") = none := by
        intro r r' hr hne
        cases hn : Native.entity r with
        | none => rfl
        | some e =>
          by_cases he : e = ""
          · simp [he]
          · exact absurd (hn.trans (hr.entity_eq hn he).symm) hne
      have ha := hnone a b h hab
      have hb := hnone b a h.symm (Ne.symm hab)
      refine ⟨ha.trans hb.symm, ?_⟩
      rw [← agree_filter, ha]
      exact h
    · intro h
      obtain ⟨heff, hagree⟩ := h
      have hnone : ((Native.entity a).filter fun e => e ≠ "") = none := by
        cases hn : (Native.entity a).filter (fun e => e ≠ "") with
        | none => rfl
        | some e =>
          have ha := (Option.filter_eq_some_iff.1 hn).1
          rw [hn] at heff
          have hb := (Option.filter_eq_some_iff.1 heff.symm).1
          exact absurd (ha.trans hb.symm) hab
      rw [← agree_filter, hnone] at hagree
      exact hagree

/-! ### The sound of an alarm -/

theorem Agree.sound_eq (h : Agree (some audioAlarm) a b) : alarmSound a = alarmSound b := by
  have hmode : alarmMode (some audioAlarm) a b = alarmSoundsEqual a b := if_pos rfl
  have hsound := h.sound
  rw [hmode] at hsound
  by_cases hboth : (alarmSound a).isSome ∧ (alarmSound b).isSome
  · obtain ⟨s, hs⟩ := Option.isSome_iff_exists.1 hboth.1
    obtain ⟨s', hs'⟩ := Option.isSome_iff_exists.1 hboth.2
    unfold alarmSoundsEqual at hsound
    rw [hs, hs'] at hsound
    rw [hs, hs']
    by_cases hss : s = s'
    · rw [hss]
    · exact absurd (congrArg some (decide_eq_false hss)) hsound
  · -- one of the sounds is invalid: the two fields are compared like any other
    have hnone : alarmMode (some audioAlarm) a b = none := by
      rw [hmode]
      unfold alarmSoundsEqual
      cases hs : alarmSound a with
      | none => rfl
      | some s =>
        cases hs' : alarmSound b with
        | none => rfl
        | some s' => exact absurd ⟨by rw [hs]; rfl, by rw [hs']; rfl⟩ hboth
    have hpart : ∀ f, ignoredNativeField (some audioAlarm) f = false → unorderedField f = false →
        (defaultValue (some audioAlarm) f : Option (Cocoa U I)) = none →
        (present (a.lookup f)).map Cocoa.part = (present (b.lookup f)).map Cocoa.part := by
      intro f hi hu hd
      refine part_of_form hd (h.form_eq hi ?_ hu)
      rw [hnone]
      exact fun hm => nomatch hm.1
    unfold alarmSound
    rw [hpart "sound" (by decide) (by decide) (by simp [defaultValue, audioAlarm]),
      hpart "com.apple.ical.sound" (by decide) (by decide) (by simp [defaultValue, audioAlarm])]

/-- The mode of a comparison that succeeds is the same for both records. -/
theorem Agree.mode (h : Agree entity a b) :
    alarmMode entity a b =
      if entity = some audioAlarm then (alarmSound a).map fun _ => true else none := by
  unfold alarmMode
  by_cases he : entity = some audioAlarm
  · subst he
    rw [if_pos rfl, if_pos rfl]
    unfold alarmSoundsEqual
    rw [← h.sound_eq]
    cases alarmSound a <;> simp
  · rw [if_neg he, if_neg he]

/-- The values of a record are in `W`. -/
def Over (W : Cocoa U I → Prop) (r : Record (Cocoa U I)) : Prop :=
  ∀ f v, r.lookup f = some v → W v

theorem Agree.trans (hW : ¬ Clash W) (ha : Over W a) (hb : Over W b) (hc : Over W c)
    (hab : Agree entity a b) (hbc : Agree entity b c) : Agree entity a c := by
  have hmode : alarmMode entity a c =
      if entity = some audioAlarm then (alarmSound a).map fun _ => true else none := by
    unfold alarmMode
    by_cases he : entity = some audioAlarm
    · subst he
      rw [if_pos rfl, if_pos rfl]
      unfold alarmSoundsEqual
      rw [← hbc.sound_eq, ← hab.sound_eq]
      cases alarmSound a <;> simp
    · rw [if_neg he, if_neg he]
  have hmode' : alarmMode entity b c = alarmMode entity a b := by
    rw [hab.mode, hbc.mode]
    by_cases he : entity = some audioAlarm
    · subst he
      rw [hab.sound_eq]
    · rw [if_neg he, if_neg he]
  refine ⟨by rw [hmode, ← hab.mode]; exact hab.sound, fun f => ?_⟩
  have hf := fieldEqual_iff.1 (hab.fields f)
  have hf' := fieldEqual_iff.1 (hbc.fields f)
  rw [hmode'] at hf'
  rw [hmode, ← hab.mode]
  refine fieldEqual_iff.2 ?_
  rcases hf with hf | hf | hf
  · exact .inl hf
  · exact .inr (.inl hf)
  · rcases hf' with hf' | hf' | hf'
    · exact .inl hf'
    · exact .inr (.inl hf')
    · exact .inr (.inr (valuesEqual_trans hW (ha f) (hb f) (hc f) hf hf'))

/-! ## The main theorem -/

theorem recordsEqual_symm (h : recordsEqual a b = true) : recordsEqual b a = true := by
  obtain ⟨he, hagree⟩ := recordsEqual_iff.1 h
  exact recordsEqual_iff.2 ⟨he.symm, he ▸ hagree.symm⟩

theorem recordsEqual_trans (hW : ¬ Clash W) (ha : Over W a) (hb : Over W b) (hc : Over W c)
    (hab : recordsEqual a b = true) (hbc : recordsEqual b c = true) : recordsEqual a c = true := by
  obtain ⟨he, hagree⟩ := recordsEqual_iff.1 hab
  obtain ⟨he', hagree'⟩ := recordsEqual_iff.1 hbc
  refine recordsEqual_iff.2 ⟨he.trans he', hagree.trans hW ha hb hc ?_⟩
  rw [he]
  exact hagree'

theorem graphsEqual_iff {g g' : Graph (Cocoa U I)} :
    graphsEqual g g' = true ↔
      ∀ id, recordsEqual? (g.lookup id) (g'.lookup id) = true := by
  unfold graphsEqual
  rw [Bool.and_eq_true, List.all_eq_true, decide_eq_true_iff]
  constructor
  · intro h id
    have hsub : g.keys ⊆ g'.keys := by
      intro k hk
      have hr := h.2 k hk
      rw [Dict.mem_keys_iff] at hk ⊢
      intro hn
      rw [hn] at hr
      cases hg : g.lookup k with
      | none => exact hk hg
      | some r => rw [hg] at hr; cases hr
    have hperm : g.keys.Perm g'.keys :=
      (g.keys_nodup.subperm hsub).perm_of_length_le h.1.symm.le
    by_cases hk : id ∈ g.keys
    · exact h.2 id hk
    · have hk' : id ∉ g'.keys := fun hk' => hk (hperm.mem_iff.2 hk')
      rw [Dict.lookup_of_not_mem hk, Dict.lookup_of_not_mem hk']
      rfl
  · intro h
    have hkeys : ∀ k, k ∈ g.keys ↔ k ∈ g'.keys := by
      intro k
      have hr := h k
      rw [Dict.mem_keys_iff, Dict.mem_keys_iff]
      cases hg : g.lookup k <;> cases hg' : g'.lookup k <;> rw [hg, hg'] at hr <;>
        first | cases hr | simp
    exact ⟨((List.perm_ext_iff_of_nodup g.keys_nodup g'.keys_nodup).2 hkeys).length_eq,
      fun k _ => h k⟩

/-- The values of a graph are in `W`. -/
def GraphOver (W : Cocoa U I → Prop) (g : Graph (Cocoa U I)) : Prop :=
  ∀ id r, g.lookup id = some r → Over W r

theorem graphsEqual_trans {g g' g'' : Graph (Cocoa U I)} (hW : ¬ Clash W) (h : GraphOver W g)
    (h' : GraphOver W g') (h'' : GraphOver W g'') (hgg : graphsEqual g g' = true)
    (hgg' : graphsEqual g' g'' = true) : graphsEqual g g'' = true := by
  rw [graphsEqual_iff] at *
  intro id
  have hr := hgg id
  have hr' := hgg' id
  cases hg : g.lookup id <;> cases hg' : g'.lookup id <;> cases hg'' : g''.lookup id <;>
    rw [hg, hg'] at hr <;> rw [hg', hg''] at hr' <;>
    simp only [recordsEqual?, Bool.false_eq_true] at hr hr' ⊢
  exact recordsEqual_trans hW (h _ _ hg) (h' _ _ hg') (h'' _ _ hg'') hr hr'

/-- A record of one field. -/
def single (field : String) (v : Cocoa U I) : Record (Cocoa U I) := Dict.ofList [(field, v)]

omit [DecidableEq U] [DecidableEq I] [Foundation U I] in
theorem lookup_single {f f' : String} {v : Cocoa U I} :
    (single f v).lookup f' = if f' = f then some v else none := by
  unfold single Dict.ofList
  rw [List.foldr_cons, List.foldr_nil]
  by_cases h : f' = f
  · subst h
    rw [if_pos rfl, AList.lookup_insert]
  · rw [if_neg h, AList.lookup_insert_ne h]
    rfl

omit [DecidableEq U] [DecidableEq I] [Foundation U I] in
theorem over_single {f : String} {v : Cocoa U I} (h : W v) : Over W (single f v) := by
  intro f' v' hv
  rw [lookup_single] at hv
  split at hv
  · cases hv
    exact h
  · cases hv

theorem recordsEqual_single {l l' : List (Scalar U I)} :
    recordsEqual (single "exception dates" (.array l)) (single "exception dates" (.array l')) =
      true ↔ (l.map Scalar.erase = l'.map Scalar.erase ∨ unordered l = unordered l') := by
  have hent : ∀ m : List (Scalar U I),
      effective (single "exception dates" (.array m)) = none := by
    intro m
    unfold effective Native.entity
    rw [lookup_single, if_neg (by decide)]
    rfl
  have hun : unorderedField "exception dates" = true := by decide
  have hfields : ∀ f, fieldEqual none none (single "exception dates" (Cocoa.array l))
      (single "exception dates" (.array l')) f = true ↔ (f = "exception dates" →
        l.map Scalar.erase = l'.map Scalar.erase ∨ unordered l = unordered l') := by
    intro f
    rw [fieldEqual_iff, lookup_single, lookup_single]
    by_cases hf : f = "exception dates"
    · subst hf
      rw [if_pos rfl, if_pos rfl]
      unfold valuesEqual
      rw [Bool.or_eq_true, Bool.and_eq_true, propertyValuesEqual_iff, form_array hun,
        form_array hun, Form.value.injEq]
      have hsets : unorderedValuesEqual (some (Cocoa.array l)) (some (.array l')) = true ↔
          unordered l = unordered l' := decide_eq_true_iff
      rw [hsets]
      have hnil : l.map Scalar.erase = l'.map Scalar.erase →
          (l = [] ↔ l' = []) := fun he => by
        rw [← List.map_eq_nil_iff (f := Scalar.erase), he, List.map_eq_nil_iff]
      constructor
      · intro h _
        rcases h with h | h | h | h
        · cases h
        · cases h.1
        · refine .inl ?_
          by_cases hl : l = [] <;> by_cases hl' : l' = [] <;> simp_all
        · exact .inr h.2
      · intro h
        refine .inr (.inr ((h rfl).imp (fun he => ?_) fun he => ⟨hun, he⟩))
        rw [he]
        simp only [hnil he]
    · rw [if_neg hf, if_neg hf]
      refine iff_of_true (.inr (.inr ?_)) fun h => absurd h hf
      unfold valuesEqual
      rw [propertyValuesEqual_iff.2 rfl, Bool.true_or]
  rw [recordsEqual_iff, hent, hent]
  constructor
  · intro h
    exact (hfields "exception dates").1 (h.2.fields _) rfl
  · intro h
    exact ⟨rfl, nofun, fun f => (hfields f).2 fun _ => h⟩

/-- A graph of one record. -/
def singleGraph (r : Record (Cocoa U I)) : Graph (Cocoa U I) := Dict.ofList [("event", r)]

omit [DecidableEq U] [DecidableEq I] [Foundation U I] in
theorem lookup_singleGraph {id : String} {r : Record (Cocoa U I)} :
    (singleGraph r).lookup id = if id = "event" then some r else none := by
  unfold singleGraph Dict.ofList
  rw [List.foldr_cons, List.foldr_nil]
  by_cases h : id = "event"
  · subst h
    rw [if_pos rfl, AList.lookup_insert]
  · rw [if_neg h, AList.lookup_insert_ne h]
    rfl

theorem graphsEqual_single {r r' : Record (Cocoa U I)} :
    graphsEqual (singleGraph r) (singleGraph r') = true ↔ recordsEqual r r' = true := by
  rw [graphsEqual_iff]
  constructor
  · intro h
    have := h "event"
    rwa [lookup_singleGraph, lookup_singleGraph, if_pos rfl, if_pos rfl] at this
  · intro h id
    rw [lookup_singleGraph, lookup_singleGraph]
    split
    · exact h
    · rfl

/-- **Equality is an equivalence unless arrays clash.** Whatever set the values of the records are
taken from, `RCRecordsEqual` on records and `RCGraphsEqual` on graphs are reflexive and symmetric,
and they are equivalences exactly when no three arrays of the set clash. -/
theorem equality_equivalence (W : Cocoa U I → Prop) :
    ((∀ a b : Record (Cocoa U I), recordsEqual a a = true ∧
        (recordsEqual a b = true → recordsEqual b a = true)) ∧
      ∀ g g' : Graph (Cocoa U I), graphsEqual g g = true ∧
        (graphsEqual g g' = true → graphsEqual g' g = true)) ∧
    ((Equivalence fun a b : { r : Record (Cocoa U I) // Over W r } =>
      recordsEqual a.1 b.1 = true) ↔ ¬ Clash W) ∧
    ((Equivalence fun g g' : { g : Graph (Cocoa U I) // GraphOver W g } =>
      graphsEqual g.1 g'.1 = true) ↔ ¬ Clash W) := by
  have hgsymm : ∀ g g' : Graph (Cocoa U I), graphsEqual g g' = true → graphsEqual g' g = true := by
    intro g g' h
    rw [graphsEqual_iff] at *
    intro id
    have hr := h id
    cases hg : g.lookup id <;> cases hg' : g'.lookup id <;> rw [hg, hg'] at hr <;> first
      | rfl
      | cases hr
      | exact recordsEqual_symm hr
  have hgrefl : ∀ g : Graph (Cocoa U I), graphsEqual g g = true := by
    intro g
    rw [graphsEqual_iff]
    intro id
    cases g.lookup id with
    | none => rfl
    | some r => exact recordsEqual_refl r
  refine ⟨⟨fun a b => ⟨recordsEqual_refl a, recordsEqual_symm⟩,
    fun g g' => ⟨hgrefl g, hgsymm g g'⟩⟩,
    ⟨fun h hclash => ?_, fun hW => ?_⟩, ⟨fun h hclash => ?_, fun hW => ?_⟩⟩
  · obtain ⟨l, l', l'', hl, hl', hl'', hsame, hsets, hset, hsame'⟩ := hclash
    have hac := @Equivalence.trans _ _ h ⟨single "exception dates" (.array l), over_single hl⟩
      ⟨single "exception dates" (.array l'), over_single hl'⟩
      ⟨single "exception dates" (.array l''), over_single hl''⟩
      (recordsEqual_single.2 (.inl hsame)) (recordsEqual_single.2 (.inr hset))
    rcases recordsEqual_single.1 hac with he | he
    · exact hsame' (hsame.symm.trans he)
    · exact hsets (he.trans hset.symm)
  · exact ⟨fun a => recordsEqual_refl a.1, recordsEqual_symm,
      fun {a b c} => recordsEqual_trans hW a.2 b.2 c.2⟩
  · obtain ⟨l, l', l'', hl, hl', hl'', hsame, hsets, hset, hsame'⟩ := hclash
    have hover : ∀ m : List (Scalar U I), W (.array m) →
        GraphOver W (singleGraph (single "exception dates" (.array m))) := by
      intro m hm id r hr
      rw [lookup_singleGraph] at hr
      split at hr
      · cases hr
        exact over_single hm
      · cases hr
    have hac := @Equivalence.trans _ _ h ⟨_, hover l hl⟩ ⟨_, hover l' hl'⟩ ⟨_, hover l'' hl''⟩
      (graphsEqual_single.2 (recordsEqual_single.2 (.inl hsame)))
      (graphsEqual_single.2 (recordsEqual_single.2 (.inr hset)))
    rcases recordsEqual_single.1 (graphsEqual_single.1 hac) with he | he
    · exact hsame' (hsame.symm.trans he)
    · exact hsets (he.trans hset.symm)
  · exact ⟨fun g => hgrefl g.1, hgsymm _ _, fun {g g' g''} => graphsEqual_trans hW g.2 g'.2 g''.2⟩

/-! ## Dates that clash -/

/-- URLs are strings, and instants the minutes of one day. -/
instance : Foundation String Int where
  absoluteString u := u
  scheme _ := none
  baseURL _ := none
  urlWithString := some
  fileURLWithPath p := "file://" ++ p
  contains s t := t.toList <:+: s.toList
  control _ := false
  wallTime i := toString i

/-- An event with the exception dates `l`. -/
def eventWithout (l : List (Scalar String Int)) : Record (Cocoa String Int) :=
  Dict.ofList [(entityKey, .scalar (.text "com.apple.calendars.Event")),
    ("exception dates", .array l)]

/-- The first event's floating date is the second's absolute one, whose dates the third has in the
other order; the first and the third are not equal. -/
theorem equality_intransitive :
    (recordsEqual (eventWithout [.date 600 true, .date 660 false])
        (eventWithout [.date 600 false, .date 660 false]) = true ∧
      recordsEqual (eventWithout [.date 600 false, .date 660 false])
        (eventWithout [.date 660 false, .date 600 false]) = true ∧
      recordsEqual (eventWithout [.date 600 true, .date 660 false])
        (eventWithout [.date 660 false, .date 600 false]) = false) ∧
    ¬ Equivalence fun a b : Record (Cocoa String Int) => recordsEqual a b = true := by
  have hruns : recordsEqual (eventWithout [.date 600 true, .date 660 false])
        (eventWithout [.date 600 false, .date 660 false]) = true ∧
      recordsEqual (eventWithout [.date 600 false, .date 660 false])
        (eventWithout [.date 660 false, .date 600 false]) = true ∧
      recordsEqual (eventWithout [.date 600 true, .date 660 false])
        (eventWithout [.date 660 false, .date 600 false]) = false := by decide +kernel
  refine ⟨hruns, fun h => ?_⟩
  have hac := h.trans hruns.1 hruns.2.1
  rw [hruns.2.2] at hac
  cases hac

end Native
