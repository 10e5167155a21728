import RetroCloudSync.Journal.Tables
import RetroCloudSync.Native.Record

/-!
# What an upload can write

The tables of `RCSyncPolicy.c` that say which fields the encoders can write, which of them can be
written independently of the others, and which relationships lead to children; the plan that
retries independent groups (`planIndependentFields`); and `FieldEqual` of `RCTwoWayFields.m`,
which compares one field of two records.

`fieldEqual_copied`: a field both records have the same value of is equal, even where their
entities are only equal as properties.
-/

set_option autoImplicit false

namespace TwoWay

open Library Journal Native Value

/-! ## Tables -/

/-- The entries of `RCWritableFieldNames`. -/
def writableEntries : List (String × List String) :=
  [("com.apple.contacts.Contact",
    ["first name", "last name", "middle name", "title", "suffix", "nickname", "company name",
      "department", "job title", "birthday", "notes", "image", "first name yomi",
      "middle name yomi", "last name yomi", "company name yomi", "dates", "related names", "IMs",
      "primary phone number", "primary email address", "primary street address", "primary URL",
      "display as company", "phone numbers", "email addresses", "street addresses", "URLs"]),
   ("com.apple.contacts.Street Address",
    ["contact", "street", "city", "state", "postal code", "country", "country code", "type",
      "label"]),
   ("com.apple.contacts.Phone Number", ["contact", "value", "type", "label"]),
   ("com.apple.contacts.Email Address", ["contact", "value", "type", "label"]),
   ("com.apple.contacts.URL", ["contact", "value", "type", "label"]),
   ("com.apple.contacts.Date", ["contact", "value", "type", "label"]),
   ("com.apple.contacts.Related Name", ["contact", "value", "type", "label"]),
   ("com.apple.contacts.IM", ["contact", "user", "service", "type", "label"]),
   ("com.apple.calendars.Event",
    ["summary", "description", "location", "url", "status", "classification", "calendar",
      "main event", "original date", "start date", "end date", "all day", "exception dates",
      "detached events", "recurrences", "attendees", "organizer", "display alarms",
      "audio alarms"]),
   ("com.apple.calendars.Recurrence",
    ["owner", "frequency", "interval", "count", "until", "bymonth", "bymonthday", "byyearday",
      "byweeknumber", "bysetpos", "bydaydays", "bydayfreq", "weekstartday"]),
   ("com.apple.calendars.Attendee",
    ["owner", "email", "common name", "role", "status", "user type", "rsvp"]),
   ("com.apple.calendars.Organizer",
    ["owner", "email", "common name", "role", "status", "user type", "rsvp"]),
   ("com.apple.calendars.AudioAlarm",
    ["owner", "description", "triggerdate", "triggerduration", "repeat count",
      "repeat interval", "sound", "com.apple.ical.sound"]),
   ("com.apple.calendars.DisplayAlarm",
    ["owner", "description", "triggerdate", "triggerduration", "repeat count",
      "repeat interval", "sound", "com.apple.ical.sound"])]

/-- `RCWritableFieldNames`. -/
def writableFieldNames (entity : Option String) : Option (List String) :=
  entity.bind fun e => (writableEntries.find? fun entry => entry.1 = e).map Prod.snd

/-- `RCIndependentFieldGroup`, all indices at once. -/
def independentFieldGroups (entity : Option String) : List (List String) :=
  if entity = some "com.apple.contacts.Contact" then
    [["first name", "last name", "middle name", "title", "suffix"],
      ["company name", "department"], ["first name yomi"], ["middle name yomi"],
      ["last name yomi"], ["company name yomi"], ["notes"], ["image"], ["job title"],
      ["nickname"], ["birthday"], ["display as company"]]
  else if entity = some "com.apple.contacts.Street Address" then
    [["street", "city", "state", "postal code", "country"]]
  else if entity = some "com.apple.contacts.Phone Number" ∨
      entity = some "com.apple.contacts.Email Address" ∨
      entity = some "com.apple.contacts.URL" then
    [["value"]]
  else if entity = some "com.apple.calendars.Event" then
    [["summary"], ["description"], ["location"], ["url"], ["status"], ["classification"]]
  else if entity = some "com.apple.calendars.AudioAlarm" then
    [["sound", "com.apple.ical.sound"]]
  else []

/-- `RCContactTypeSupported`. -/
def contactTypeSupported (entity : Option String) (type : String) : Bool :=
  if type ∈ ["home", "work", "other"] then true
  else if entity = some "com.apple.contacts.Phone Number" then
    type ∈ ["mobile", "pager", "home fax", "work fax"]
  else if entity = some "com.apple.contacts.URL" then type = "home page"
  else if entity = some "com.apple.contacts.Date" then type = "anniversary"
  else entity = some "com.apple.contacts.Related Name" &&
    type ∈ ["father", "mother", "parent", "child", "brother", "sister", "friend", "spouse",
      "partner", "assistant", "manager"]

/-- `RCFollowChildRelationship`. -/
def followChildRelationship (field : String) (entity : Option String) : Bool :=
  field ∉ ["contact", "owner", "calendar", "main event", "parent groups"] &&
    entity ≠ some "com.apple.calendars.Calendar" && entity ≠ some "com.apple.contacts.Contact"

/-- The fields no fallback reinterprets. -/
def ownershipFields : List String :=
  [entityKey, "contact", "owner", "calendar", "main event", "original date"]

/-! ## Independent groups -/

/-- `RCIndependentPlan`: how a plan in state `σ` encodes and rejects groups `γ`. -/
structure IndependentPlan (σ γ : Type) where
  encodeStructure : σ → Except RCError σ
  restoreStructure : σ → σ
  groupChanged : σ → γ → Bool
  encodeGroup : σ → γ → Except RCError σ
  rejectGroup : σ → γ → σ

namespace IndependentPlan

variable {σ γ : Type} (ops : IndependentPlan σ γ)

/-- One group of `RCPlanIndependentFields`. -/
def planGroup (s : σ) (g : γ) : σ :=
  if ops.groupChanged s g then
    match ops.encodeGroup s g with
    | .ok s' => s'
    | .error _ => ops.rejectGroup s g
  else s

/-- `RCPlanIndependentFields`. -/
def planIndependentFields (groups : List γ) (s : σ) : Except RCError σ := do
  let s ← match ops.encodeStructure s with
    | .ok s => pure s
    | .error _ => ops.encodeStructure (ops.restoreStructure s)
  pure (groups.foldl ops.planGroup s)

variable {ops}

/-- **The rule of the plan**: what both ways to encode the structure establish and every group
makes smaller holds, at its smallest, of the outcome. -/
theorem plan_rule {I : List γ → σ → Prop} {groups : List γ} {s out : σ}
    (hdirect : ∀ s', ops.encodeStructure s = .ok s' → I groups s')
    (hrestored : ∀ s', ops.encodeStructure (ops.restoreStructure s) = .ok s' → I groups s')
    (hgroup : ∀ g rest s, I (g :: rest) s → I rest (ops.planGroup s g))
    (h : ops.planIndependentFields groups s = .ok out) : I [] out := by
  have hloop : ∀ (l : List γ) (s : σ), I l s → I [] (l.foldl ops.planGroup s) := by
    intro l
    induction l with
    | nil => exact fun _ h => h
    | cons g l ih => exact fun s hs => ih _ (hgroup g l s hs)
  unfold planIndependentFields at h
  cases hd : ops.encodeStructure s with
  | ok s' =>
    rw [hd] at h
    cases h
    exact hloop _ _ (hdirect s' hd)
  | error e =>
    rw [hd] at h
    cases hr : ops.encodeStructure (ops.restoreStructure s) with
    | error e' => simp [hr, bind, Except.bind] at h
    | ok s' =>
      simp only [hr, bind, Except.bind, pure, Except.pure, Except.ok.injEq] at h
      rw [← h]
      exact hloop _ _ (hrestored s' hr)

end IndependentPlan

/-! ## Comparing one field -/

variable {V : Type} [Value V]

/-- The fields that are compared together with a field: the two forms of a sound. -/
def coupled (key : String) : List String :=
  if key = "sound" ∨ key = "com.apple.ical.sound" then ["sound", "com.apple.ical.sound"]
  else [key]

/-- The part of a record `FieldEqual` looks at. -/
def fieldOf (r : Record V) (key : String) : Record V := scopedRecord r (some (coupled key))

/-- `FieldEqual`. -/
def FieldEqual (a b : Option (Record V)) (key : String) : Bool :=
  recordsEqual? (a.map (fieldOf · key)) (b.map (fieldOf · key))

/-- `ChangedFields`. -/
def ChangedFields (a b : Option (Record V)) (names : List String) : Bool :=
  names.any fun key => !FieldEqual a b key

theorem mem_coupled (key : String) : key ∈ coupled key := by
  unfold coupled
  split
  · rename_i h
    rcases h with rfl | rfl <;> simp
  · simp

theorem coupled_eq {key f : String} (h : f ∈ coupled key) : coupled f = coupled key := by
  unfold coupled at h ⊢
  split at h
  · rename_i hk
    rw [if_pos (by simpa using h), if_pos hk]
  · rw [List.mem_singleton] at h
    rw [h]

/-! ### What a part of a record holds -/

omit [Value V] in
theorem scopedRecord_lookup (r : Record V) (fields : List String) (f : String) :
    (scopedRecord r (some fields)).lookup f =
      if f ∈ fields ∨ f = entityKey then r.lookup f else none := by
  have hloop : ∀ (l : List String) (s : Record V),
      (l.foldl (fun s f => if (r.lookup f).isSome then s.put f (r.lookup f) else s) s).lookup f =
        if f ∈ l ∧ (r.lookup f).isSome then r.lookup f else s.lookup f := by
    intro l
    induction l with
    | nil => simp
    | cons g l ih =>
      intro s
      rw [List.foldl_cons, ih]
      by_cases hl : f ∈ l ∧ (r.lookup f).isSome
      · rw [if_pos hl, if_pos ⟨List.mem_cons_of_mem _ hl.1, hl.2⟩]
      · rw [if_neg hl]
        by_cases hg : f = g
        · subst hg
          by_cases hs : (r.lookup f).isSome
          · rw [if_pos hs, if_pos ⟨List.mem_cons_self, hs⟩, Dict.lookup_put, if_pos rfl]
          · rw [if_neg hs, if_neg fun h => hs h.2]
        · have hn : ¬ (f ∈ g :: l ∧ (r.lookup f).isSome) := by
            rw [List.mem_cons]
            tauto
          rw [if_neg hn]
          by_cases hs : (r.lookup g).isSome
          · rw [if_pos hs, Dict.lookup_put, if_neg hg]
          · rw [if_neg hs]
  simp only [scopedRecord]
  by_cases he : f = entityKey
  · subst he
    rw [if_pos (Or.inr rfl)]
    split
    · rw [Dict.lookup_put, if_pos rfl]
    · rename_i hs
      rw [hloop, if_neg fun h => hs h.2]
      cases hr : r.lookup entityKey with
      | none => rfl
      | some v => simp [hr] at hs
  · have hrest : ∀ s : Record V, (if (r.lookup entityKey).isSome then
        s.put entityKey (r.lookup entityKey) else s).lookup f = s.lookup f := by
      intro s
      split
      · rw [Dict.lookup_put, if_neg he]
      · rfl
    rw [hrest, hloop]
    by_cases hm : f ∈ fields
    · cases hr : r.lookup f <;> simp [hm]
    · simp [hm, he]

omit [Value V] in
/-- The part is made of what the record answers for its fields and its entity. -/
theorem scopedRecord_congr {r r' : Record V} {fields : List String}
    (he : r.lookup entityKey = r'.lookup entityKey)
    (h : ∀ f ∈ fields, r.lookup f = r'.lookup f) :
    scopedRecord r (some fields) = scopedRecord r' (some fields) := by
  have hloop : ∀ (l : List String), (∀ f ∈ l, f ∈ fields) → ∀ s : Record V,
      l.foldl (fun s f => if (r.lookup f).isSome then s.put f (r.lookup f) else s) s =
        l.foldl (fun s f => if (r'.lookup f).isSome then s.put f (r'.lookup f) else s) s := by
    intro l hl s
    induction l generalizing s with
    | nil => rfl
    | cons f l ih =>
      rw [List.foldl_cons, List.foldl_cons, h f (hl f List.mem_cons_self)]
      exact ih (fun g hg => hl g (List.mem_cons_of_mem _ hg)) _
  simp only [scopedRecord, he, hloop fields (fun f hf => hf)]

omit [Value V] in
theorem fieldOf_congr {r r' : Record V} {key : String}
    (he : r.lookup entityKey = r'.lookup entityKey)
    (h : ∀ f ∈ coupled key, r.lookup f = r'.lookup f) : fieldOf r key = fieldOf r' key :=
  scopedRecord_congr he h

theorem fieldEqual_of_eq {a b : Option (Record V)} {key : String}
    (h : a.map (fieldOf · key) = b.map (fieldOf · key)) : FieldEqual a b key = true := by
  unfold FieldEqual
  rw [h]
  cases b with
  | none => rfl
  | some b => exact recordsEqual_refl _

/-! ### Fields of two records -/

theorem entity_fieldOf (r : Record V) (key : String) : entity (fieldOf r key) = entity r := by
  unfold entity fieldOf
  rw [scopedRecord_lookup, if_pos (Or.inr rfl)]

/-- The entity two records are compared under. -/
def jointEntity (a b : Record V) : Option String := if entity a = entity b then entity a else none

/-- Whether the sounds of two parts are equal, where that is asked. -/
def jointAlarm (a b : Record V) (key : String) : Option Bool :=
  if jointEntity a b = some "com.apple.calendars.AudioAlarm" then
    alarmEqual (fieldOf a key) (fieldOf b key)
  else none

theorem fieldEqual_some {a b : Record V} {key : String} :
    FieldEqual (some a) (some b) key = true ↔
      jointAlarm a b key ≠ some false ∧
      ∀ f ∈ (fieldOf a key).keys ++ (fieldOf b key).keys,
        fieldEqual (jointEntity a b) (jointAlarm a b key) (fieldOf a key) (fieldOf b key) f =
          true := by
  simp only [FieldEqual, Option.map_some, recordsEqual?, recordsEqual, entity_fieldOf,
    Bool.and_eq_true, List.all_eq_true, decide_eq_true_eq]
  rfl

omit [Value V] in
theorem fieldOf_mem_keys {r : Record V} {key f : String} (h : f ∈ (fieldOf r key).keys) :
    f ∈ coupled key ∨ f = entityKey := by
  rw [Dict.mem_keys_iff, fieldOf, scopedRecord_lookup] at h
  by_contra hn
  exact h (if_neg hn)

omit [Value V] in
theorem fieldOf_lookup {r : Record V} {key f : String} (h : f ∈ coupled key ∨ f = entityKey) :
    (fieldOf r key).lookup f = r.lookup f := by
  rw [fieldOf, scopedRecord_lookup, if_pos h]

/-- Equal entities are equal as a property of the records. -/
theorem fieldEqual_entity {a b : Record V} (h : FieldEqual (some a) (some b) entityKey = true) :
    propertyEqual (jointEntity a b) entityKey (a.lookup entityKey) (b.lookup entityKey) = true := by
  rw [fieldEqual_some] at h
  by_cases hk : entityKey ∈ (fieldOf a entityKey).keys ++ (fieldOf b entityKey).keys
  · have he := h.2 entityKey hk
    rw [fieldEqual, fieldOf_lookup (.inr rfl), fieldOf_lookup (.inr rfl)] at he
    have hs : ¬ (entityKey = "sound" ∨ entityKey = "com.apple.ical.sound") := by decide
    have hu : unorderedField entityKey = false := by decide
    have hi : ignoredNativeField (jointEntity a b) entityKey = false := by
      unfold ignoredNativeField
      rw [show List.contains _ entityKey = false by decide, Bool.and_false]
    simpa [hs, hu, hi] using he
  · rw [List.mem_append, not_or, Dict.mem_keys_iff, Dict.mem_keys_iff, not_not, not_not,
      fieldOf_lookup (.inr rfl), fieldOf_lookup (.inr rfl)] at hk
    rw [hk.1, hk.2]
    exact propertyEqual_refl _ _ _

/-- **A copied field is equal**, once the entities are. -/
theorem fieldEqual_copied {a b : Record V} {key : String}
    (he : FieldEqual (some a) (some b) entityKey = true)
    (h : ∀ f ∈ coupled key, a.lookup f = b.lookup f) : FieldEqual (some a) (some b) key = true := by
  have hsound : ∀ f, f = "sound" ∨ f = "com.apple.ical.sound" →
      (fieldOf a key).lookup f = (fieldOf b key).lookup f := by
    intro f hf
    by_cases hc : f ∈ coupled key
    · rw [fieldOf_lookup (.inl hc), fieldOf_lookup (.inl hc), h f hc]
    · have hn : ¬ (f ∈ coupled key ∨ f = entityKey) := by
        rintro (hc' | rfl)
        · exact hc hc'
        · revert hf
          decide
      rw [fieldOf, fieldOf, scopedRecord_lookup, scopedRecord_lookup, if_neg hn, if_neg hn]
  rw [fieldEqual_some]
  refine ⟨?_, fun f hf => ?_⟩
  · unfold jointAlarm
    split
    · exact alarmEqual_sound _ _ (hsound _ (.inl rfl)) (hsound _ (.inr rfl))
    · simp
  · have hk : f ∈ coupled key ∨ f = entityKey := by
      rw [List.mem_append] at hf
      rcases hf with hf | hf <;> exact fieldOf_mem_keys hf
    have hp : propertyEqual (jointEntity a b) f ((fieldOf a key).lookup f)
        ((fieldOf b key).lookup f) = true := by
      rw [fieldOf_lookup hk, fieldOf_lookup hk]
      by_cases hc : f ∈ coupled key
      · rw [h f hc]
        exact propertyEqual_refl _ _ _
      · obtain rfl := hk.resolve_left hc
        exact fieldEqual_entity he
    simp [fieldEqual, hp]

end TwoWay
