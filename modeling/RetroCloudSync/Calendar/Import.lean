import RetroCloudSync.TwoWay.Fields
import RetroCloudSync.Library.Fallible

/-!
# Importing a calendar resource

`RCCalendarResourceGraph` of `RCCalendarGraph.m` and `Paths` of `RCCalendarTwoWay.m`, as far as
they decide which records there are, under which ids, and how they are linked. A body is given by
its `VEVENT` components; what the mapper makes of the other properties of a component is carried
along (`Scalars`).

`importGraph_children`: every list of children names distinct records of the graph.
-/

set_option autoImplicit false

namespace Calendar

open Library Journal Native TwoWay Value FieldValue

/-- Values whose arrays can be rewritten item by item. -/
class GraphValue (V : Type) extends FieldValue V where
  /-- The array with every string in it replaced; what is not an array stays. -/
  mapItems : (String → String) → V → V
  children_mapItems : ∀ f v, children (mapItems f v) = (children v).map (List.map f)
  children_array : ∀ l, children (array l : V) = some l

instance : GraphValue Plist where
  mapItems f
    | .list ids => .list (ids.map f)
    | .text s => .text s
  children_mapItems f v := by cases v <;> rfl
  children_array _ := rfl

open GraphValue

/-! ## Identities -/

/-- The persistent identity table: an owner and a key have the same `sync_id` whenever they are
asked for, and no two rows share one. -/
structure Identity where
  /-- `lowercaseString`, which the keys of people are made with. -/
  lowercase : String → String
  syncId : String → String → String
  injective : ∀ {owner key owner' key'}, syncId owner key = syncId owner' key' →
    owner = owner' ∧ key = key'

/-- `Identity` of `RCCalendarGraph.m`, over `RCCalendarStoreIdentity`. -/
def Identity.id (identity : Identity) (owner key : String) : String :=
  "cal-" ++ identity.syncId owner key

theorem Identity.id_inj (identity : Identity) {owner key owner' key' : String}
    (h : identity.id owner key = identity.id owner' key') : owner = owner' ∧ key = key' :=
  identity.injective ((String.append_right_inj _).1 h)

/-- `childLinks`. -/
def childLinks : List String :=
  ["recurrences", "display alarms", "audio alarms", "attendees", "organizer"]

/-- The fields that list children. -/
def relationships : List String := "detached events" :: childLinks

variable {V : Type} [GraphValue V]

/-- Fields of a record that are not relationships. -/
structure Scalars (V : Type) where
  record : Record V
  scalar : ∀ f ∈ relationships, record.lookup f = none

/-! ## Components -/

/-- An `ATTENDEE` or `ORGANIZER` property. -/
structure Participant (V : Type) where
  address : Option String
  fields : Scalars V

/-- A `VALARM` component. -/
structure AlarmComponent (V : Type) where
  action : Option String
  trigger : Option String
  /-- `RELATED=END`. -/
  relatedToEnd : Bool
  fields : Except RCError (Scalars V)

/-- A `VEVENT` component. -/
structure EventComponent (V : Type) where
  /-- `RCICalendarRecurrenceKey`, empty for the master. -/
  recurrenceKey : String
  cancelled : Bool
  fields : Except RCError (Scalars V)
  /-- The rule in normal form, with what it maps to. -/
  rule : Option (Except RCError (String × Scalars V))
  attendees : List (Participant V)
  organizers : List (Participant V)
  alarms : List (AlarmComponent V)

/-- A body; the store refuses one whose events disagree about the `UID`. -/
structure Body (V : Type) where
  uid : String
  events : List (EventComponent V)

/-- A child of an event, before it has an id. -/
structure Child (V : Type) where
  link : String
  key : String
  entity : String
  fields : Scalars V

/-! ## Children -/

/-- `Recurrence`; `versioned` for the backend that versions rules. -/
def ruleChildren (versioned : Bool) :
    Option (Except RCError (String × Scalars V)) → Except RCError (List (Child V))
  | none => pure []
  | some (.error e) => throw e
  | some (.ok (normalized, fields)) =>
    pure [⟨"recurrences", if versioned then "recurrence-v2:" ++ normalized else "recurrence",
      "Recurrence", fields⟩]

/-- `!strncasecmp(address,"mailto:",7)`. -/
def isMailto (address : String) : Bool :=
  "mailto:".toList.isPrefixOf (address.toList.map Char.toLower)

/-- One of the two loops of `People`. -/
def people (identity : Identity) (owner tag link entity : String) (l : List (Participant V)) :
    Except RCError (List (Child V)) :=
  let found := l.filterMap fun p => (p.address.filter isMailto).map fun address =>
    (⟨link, tag ++ identity.lowercase address, entity, p.fields⟩ : Child V)
  if (found.map fun child => identity.id owner child.key).Nodup then pure found
  else throw ⟨1, "Duplicate calendar participant"⟩

/-- The key of the `n`-th alarm with a base. -/
def occurrenceKey (base : String) (n : Nat) : String := base ++ ":" ++ toString n

/-- `Alarms`; `seen` are the bases of the alarms before. -/
def alarmChildren (seen : List String) : List (AlarmComponent V) → Except RCError (List (Child V))
  | [] => pure []
  | a :: rest =>
    match a.action.filter fun action => action = "DISPLAY" || action = "AUDIO" with
    | none => alarmChildren seen rest
    | some action =>
      match a.trigger with
      | none => throw ⟨1, "Alarm has no trigger"⟩
      | some trigger =>
        if a.relatedToEnd then throw ⟨1, "End-relative alarms are not yet mapped"⟩
        else do
          let base := "alarm:" ++ action ++ ":" ++ trigger
          let fields ← a.fields
          let others ← alarmChildren (base :: seen) rest
          let key := occurrenceKey base (seen.count base)
          pure ((if action = "DISPLAY" then ⟨"display alarms", key, "DisplayAlarm", fields⟩
            else ⟨"audio alarms", key, "AudioAlarm", fields⟩) :: others)

/-- The children of one event. -/
def eventChildren (identity : Identity) (versioned : Bool) (id : String) (c : EventComponent V) :
    Except RCError (List (Child V)) := do
  let rules ← ruleChildren versioned c.rule
  let attendees ← people identity id "0:" "attendees" "Attendee" c.attendees
  let organizers ← people identity id "1:" "organizer" "Organizer" c.organizers
  if organizers.length > 1 then throw ⟨1, "Multiple event organizers"⟩
  else
    let alarms ← alarmChildren [] c.alarms
    pure (rules ++ attendees ++ organizers ++ alarms)

/-! ## The graph -/

def entityName (s : String) : String := "com.apple.calendars." ++ s

/-- The record of a child. -/
def childRecord (id : String) (child : Child V) : Record V :=
  (child.fields.record.put "owner" (some (array [id]))).put entityKey
    (some (string (entityName child.entity)))

/-- The ids of the children of one link. -/
def childIds (identity : Identity) (id : String) (children : List (Child V)) (link : String) :
    List String :=
  (children.filter fun child => child.link = link).map fun child => identity.id id child.key

/-- The record of an event. -/
def eventRecord (identity : Identity) (calendar id : String) (mainEvent : List String)
    (fields : Scalars V) (children : List (Child V)) : Record V :=
  childLinks.foldl (fun r link => r.put link (some (array (childIds identity id children link))))
    ((((fields.record.put entityKey (some (string (entityName "Event")))).put "main event"
      (some (array mainEvent))).put "calendar" (some (array [calendar]))).put "detached events"
        (some (array [])))

section
variable (identity : Identity) (versioned : Bool) (owner calendar uid : String)

/-- The id of an event. -/
def eventId (c : EventComponent V) : String := identity.id owner (uid ++ ":" ++ c.recurrenceKey)

/-- What one event adds to the graph: nothing for a cancelled occurrence. -/
def eventEntries (master c : EventComponent V) : Except RCError (List (String × Record V)) :=
  if c.recurrenceKey ≠ "" ∧ c.cancelled = true then pure []
  else do
    let fields ← c.fields
    let children ← eventChildren identity versioned (eventId identity owner uid c) c
    pure (children.map (fun child =>
        (identity.id (eventId identity owner uid c) child.key,
          childRecord (eventId identity owner uid c) child)) ++
      [(eventId identity owner uid c, eventRecord identity calendar (eventId identity owner uid c)
        (if c.recurrenceKey = "" then [] else [eventId identity owner uid master]) fields
        children)])

end

/-- The key of the resource's events in the identity table. -/
def resourceOwner (resource : Int) : String := "resource-" ++ toString resource

/-- The detached occurrences that are in the graph. -/
def detachedIds (identity : Identity) (owner : String) (body : Body V) : List String :=
  (body.events.filter fun c => c.recurrenceKey ≠ "" && !c.cancelled).map
    (eventId identity owner body.uid)

/-- `RCCalendarResourceGraph`. -/
def importGraph (identity : Identity) (versioned : Bool) (resource : Int) (calendar : String)
    (body : Body V) : Except RCError (Graph V) :=
  if ¬ (body.events.map EventComponent.recurrenceKey).Nodup then
    throw ⟨1, "Duplicate recurrence identity"⟩
  else
    match body.events.find? fun c => c.recurrenceKey = "" with
    | none => throw ⟨1, "A detached recurrence set without a master is not yet supported"⟩
    | some master => do
      let owner := resourceOwner resource
      let entries ← body.events.mapM
        (eventEntries identity versioned owner calendar body.uid master)
      let records := Dict.putAll ∅ entries.flatten
      let masterID := eventId identity owner body.uid master
      pure (records.put masterID ((records.lookup masterID).map fun r =>
        r.put "detached events" (some (array (detachedIds identity owner body)))))

/-! ## Paths -/

/-- The ids a record lists under a link. -/
def linked (r : Record V) (link : String) : List String := ((r.lookup link).bind children).getD []

/-- The paths of one event. -/
def eventPaths (identity : Identity) (owner uid : String) (graph : Graph V)
    (c : EventComponent V) : List (String × String) :=
  let id := eventId identity owner uid c
  let path := "event:" ++ c.recurrenceKey
  match graph.lookup id with
  | none => []
  | some record => (path, id) :: childLinks.flatMap fun link =>
    (linked record link).zipIdx.map fun child =>
      (path ++ "/" ++ link ++ ":" ++ toString child.2, child.1)

/-- `Paths`. -/
def paths (identity : Identity) (resource : Int) (body : Body V) (graph : Graph V) :
    Dict String String :=
  Dict.putAll ∅ (body.events.flatMap (eventPaths identity (resourceOwner resource) body.uid graph))

/-- The root `Paths` finds. -/
def rootId (identity : Identity) (resource : Int) (body : Body V) (graph : Graph V) :
    Option String :=
  (body.events.find? fun c => c.recurrenceKey = "" &&
    (graph.lookup (eventId identity (resourceOwner resource) body.uid c)).isSome).map
      (eventId identity (resourceOwner resource) body.uid)

/-! ## Keys of alarms -/

theorem toString_inj {m n : Nat} (h : toString m = toString n) : m = n := by
  have hd := congrArg String.toList h
  rw [Nat.toString_eq_repr, Nat.toString_eq_repr, Nat.toList_repr, Nat.toList_repr] at hd
  rw [← Nat.ofDigitChars_toDigits (b := 10) (n := m) (by decide) (by decide), hd,
    Nat.ofDigitChars_toDigits (by decide) (by decide)]

/-- The occurrence of a key is what follows its last colon. -/
theorem append_colon_inj {l l' d d' : List Char} (hd : ':' ∉ d) (hd' : ':' ∉ d')
    (h : l ++ ':' :: d = l' ++ ':' :: d') : l = l' ∧ d = d' := by
  induction l generalizing l' with
  | nil =>
    cases l' with
    | nil => exact ⟨rfl, by simpa using h⟩
    | cons c l' =>
      rw [List.nil_append, List.cons_append, List.cons.injEq] at h
      exact absurd (h.2 ▸ List.mem_append_right l' List.mem_cons_self) hd
  | cons c l ih =>
    cases l' with
    | nil =>
      rw [List.nil_append, List.cons_append, List.cons.injEq] at h
      exact absurd (h.2.symm ▸ List.mem_append_right l List.mem_cons_self) hd'
    | cons c' l' =>
      rw [List.cons_append, List.cons_append, List.cons.injEq] at h
      obtain ⟨hl, hd⟩ := ih h.2
      exact ⟨by rw [h.1, hl], hd⟩

theorem occurrenceKey_inj {base base' : String} {m n : Nat}
    (h : occurrenceKey base m = occurrenceKey base' n) : base = base' ∧ m = n := by
  have hcolon : ∀ n : Nat, ':' ∉ (toString n).toList := by
    intro n hm
    rw [Nat.toString_eq_repr, Nat.toList_repr] at hm
    have hdigit := Nat.isDigit_of_mem_toDigits (by decide) (by decide) hm
    revert hdigit
    decide
  have hl := congrArg String.toList h
  simp only [occurrenceKey, String.toList_append, List.append_assoc] at hl
  obtain ⟨hb, hn⟩ := append_colon_inj (hcolon m) (hcolon n) hl
  exact ⟨String.toList_inj.1 hb, toString_inj (String.toList_inj.1 hn)⟩

omit [GraphValue V] in
theorem alarmChildren_keys {seen : List String} {l : List (AlarmComponent V)}
    {children : List (Child V)} (h : alarmChildren seen l = .ok children) :
    (children.map Child.key).Nodup ∧
    ∀ key ∈ children.map Child.key, ∃ base n, key = occurrenceKey base n ∧ seen.count base ≤ n := by
  induction l generalizing seen children with
  | nil =>
    cases h
    exact ⟨List.nodup_nil, fun _ h => absurd h List.not_mem_nil⟩
  | cons a l ih =>
    unfold alarmChildren at h
    split at h
    · exact ih h
    · rename_i action haction
      split at h
      · cases h
      · rename_i trigger htrigger
        split at h
        · cases h
        · simp only [bind, Except.bind, pure, Except.pure] at h
          split at h
          · cases h
          split at h
          · cases h
          rename_i others hothers
          cases h
          obtain ⟨hnodup, hkeys⟩ := ih hothers
          have hkey : ∀ f : Scalars V, (if action = "DISPLAY" then
              (⟨"display alarms", occurrenceKey ("alarm:" ++ action ++ ":" ++ trigger)
                (seen.count ("alarm:" ++ action ++ ":" ++ trigger)), "DisplayAlarm", f⟩ : Child V)
              else ⟨"audio alarms", occurrenceKey ("alarm:" ++ action ++ ":" ++ trigger)
                (seen.count ("alarm:" ++ action ++ ":" ++ trigger)), "AudioAlarm", f⟩).key =
              occurrenceKey ("alarm:" ++ action ++ ":" ++ trigger)
                (seen.count ("alarm:" ++ action ++ ":" ++ trigger)) := by
            intro f
            split <;> rfl
          rw [List.map_cons, hkey, List.nodup_cons]
          refine ⟨⟨fun hm => ?_, hnodup⟩, fun key hm => ?_⟩
          · -- the keys that follow have a later occurrence of this base
            obtain ⟨base, n, hk, hn⟩ := hkeys _ hm
            obtain ⟨rfl, rfl⟩ := occurrenceKey_inj hk
            rw [List.count_cons_self] at hn
            omega
          · rcases List.mem_cons.1 hm with rfl | hm
            · exact ⟨_, _, rfl, le_refl _⟩
            · obtain ⟨base, n, hk, hn⟩ := hkeys _ hm
              exact ⟨base, n, hk, le_trans List.count_le_count_cons hn⟩

/-! ## Children of an event -/

omit [GraphValue V] in
theorem alarmChildren_links {seen : List String} {l : List (AlarmComponent V)}
    {children : List (Child V)} (h : alarmChildren seen l = .ok children) :
    ∀ child ∈ children, child.link ∈ ["display alarms", "audio alarms"] := by
  induction l generalizing seen children with
  | nil =>
    cases h
    exact fun _ h => absurd h List.not_mem_nil
  | cons a l ih =>
    unfold alarmChildren at h
    split at h
    · exact ih h
    · split at h
      · cases h
      · split at h
        · cases h
        · simp only [bind, Except.bind, pure, Except.pure] at h
          split at h
          · cases h
          split at h
          · cases h
          rename_i others hothers
          cases h
          intro child hm
          rcases List.mem_cons.1 hm with rfl | hm
          · split <;> simp
          · exact ih hothers child hm

omit [GraphValue V] in
theorem people_spec {identity : Identity} {owner tag link entity : String}
    {l : List (Participant V)} {children : List (Child V)}
    (h : people identity owner tag link entity l = .ok children) :
    (∀ child ∈ children, child.link ∈ [link]) ∧
      (children.map fun child => identity.id owner child.key).Nodup := by
  unfold people at h
  dsimp only at h
  split at h
  · rename_i hn
    cases h
    refine ⟨fun child hm => ?_, hn⟩
    obtain ⟨p, -, hp⟩ := List.mem_filterMap.1 hm
    obtain ⟨address, -, rfl⟩ := Option.map_eq_some_iff.1 hp
    exact List.mem_singleton_self link
  · cases h

omit [GraphValue V] in
theorem ruleChildren_spec {identity : Identity} {owner : String} {versioned : Bool}
    {rule : Option (Except RCError (String × Scalars V))} {children : List (Child V)}
    (h : ruleChildren versioned rule = .ok children) :
    (∀ child ∈ children, child.link ∈ ["recurrences"]) ∧
      (children.map fun child => identity.id owner child.key).Nodup := by
  unfold ruleChildren at h
  split at h <;> cases h <;> simp

omit [GraphValue V] in
/-- None of the children has a link they do not have. -/
theorem filter_link {l : List (Child V)} {links : List String}
    (h : ∀ child ∈ l, child.link ∈ links) {link : String} (hl : link ∉ links) :
    l.filter (fun child => child.link = link) = [] := by
  rw [List.filter_eq_nil_iff]
  intro child hm hc
  exact hl (of_decide_eq_true hc ▸ h child hm)

omit [GraphValue V] in
theorem nodup_filter_link {identity : Identity} {owner : String} {l : List (Child V)}
    (h : (l.map fun child => identity.id owner child.key).Nodup) (link : String) :
    ((l.filter fun child => child.link = link).map fun child =>
      identity.id owner child.key).Nodup :=
  h.sublist (List.Sublist.map _ List.filter_sublist)

omit [GraphValue V] in
/-- The children an event lists under one link are distinct. -/
theorem childIds_nodup {identity : Identity} {versioned : Bool} {id : String}
    {c : EventComponent V} {children : List (Child V)}
    (h : eventChildren identity versioned id c = .ok children) {link : String}
    (hlink : link ∈ childLinks) : (childIds identity id children link).Nodup := by
  simp only [eventChildren, bind, Except.bind, pure, Except.pure] at h
  split at h
  · cases h
  rename_i rules hrules
  split at h
  · cases h
  rename_i attendees hattendees
  split at h
  · cases h
  rename_i organizers horganizers
  split at h
  · cases h
  split at h
  · cases h
  rename_i alarms halarms
  cases h
  obtain ⟨lr, nr⟩ := @ruleChildren_spec V identity id _ _ _ hrules
  obtain ⟨la, na⟩ := people_spec hattendees
  obtain ⟨lo, no⟩ := people_spec horganizers
  have ll := alarmChildren_links halarms
  have nl : (alarms.map fun child => identity.id id child.key).Nodup := by
    have hn := (alarmChildren_keys halarms).1
    rw [show (fun child : Child V => identity.id id child.key) = identity.id id ∘ Child.key from rfl,
      ← List.map_map]
    exact hn.map fun _ _ he => (identity.id_inj he).2
  have empty : ∀ (l : List (Child V)) (links : List String),
      (∀ child ∈ l, child.link ∈ links) → link ∉ links →
      (l.filter fun child => child.link = link) = [] := fun _ _ h hl => filter_link h hl
  simp only [childIds, List.filter_append]
  simp only [childLinks, List.mem_cons, List.not_mem_nil, or_false] at hlink
  rcases hlink with rfl | rfl | rfl | rfl | rfl
  · rw [empty attendees _ la (by decide), empty organizers _ lo (by decide),
      empty alarms _ ll (by decide)]
    simpa using nodup_filter_link nr "recurrences"
  · rw [empty rules _ lr (by decide), empty attendees _ la (by decide),
      empty organizers _ lo (by decide)]
    simpa using nodup_filter_link nl "display alarms"
  · rw [empty rules _ lr (by decide), empty attendees _ la (by decide),
      empty organizers _ lo (by decide)]
    simpa using nodup_filter_link nl "audio alarms"
  · rw [empty rules _ lr (by decide), empty organizers _ lo (by decide),
      empty alarms _ ll (by decide)]
    simpa using nodup_filter_link na "attendees"
  · rw [empty rules _ lr (by decide), empty attendees _ la (by decide),
      empty alarms _ ll (by decide)]
    simpa using nodup_filter_link no "organizer"

/-! ## Children in the graph -/

theorem linked_put (r : Record V) (f link : String) (l : List String) :
    linked (r.put f (some (array l))) link = if link = f then l else linked r link := by
  unfold linked
  rw [Dict.lookup_put]
  split
  · rw [Option.bind_some, children_array, Option.getD_some]
  · rfl

theorem linked_put_other (r : Record V) {f link : String} (v : Option V) (h : link ≠ f) :
    linked (r.put f v) link = linked r link := by
  unfold linked
  rw [Dict.lookup_put, if_neg h]

theorem linked_scalars (fields : Scalars V) {link : String} (h : link ∈ relationships) :
    linked fields.record link = [] := by
  unfold linked
  rw [fields.scalar link h]
  rfl

theorem linked_childRecord (id : String) (child : Child V) {link : String}
    (h : link ∈ relationships) : linked (childRecord id child) link = [] := by
  have ho : link ≠ entityKey := by
    rintro rfl
    revert h
    decide
  have hk : link ≠ "owner" := by
    rintro rfl
    revert h
    decide
  rw [childRecord, linked_put_other _ _ ho, linked_put_other _ _ hk, linked_scalars _ h]

theorem linked_eventRecord (identity : Identity) (calendar id : String) (mainEvent : List String)
    (fields : Scalars V) (children : List (Child V)) {link : String} (h : link ∈ relationships) :
    linked (eventRecord identity calendar id mainEvent fields children) link =
      if link ∈ childLinks then childIds identity id children link else [] := by
  have hloop : ∀ (l : List String) (r : Record V),
      linked (l.foldl (fun r link => r.put link (some (array (childIds identity id children link))))
        r) link = if link ∈ l then childIds identity id children link else linked r link := by
    intro l
    induction l with
    | nil => exact fun r => by simp
    | cons f l ih =>
      intro r
      rw [List.foldl_cons, ih, linked_put]
      by_cases hf : link = f
      · subst hf
        simp
      · simp [hf]
  unfold eventRecord
  rw [hloop]
  by_cases hl : link ∈ childLinks
  · rw [if_pos hl, if_pos hl]
  · rw [if_neg hl, if_neg hl]
    obtain rfl : link = "detached events" := by
      rcases List.mem_cons.1 h with h | h
      · exact h
      · exact absurd h hl
    rw [linked_put, if_pos rfl]

section
variable {identity : Identity} {versioned : Bool} {owner calendar uid : String}
  {master c : EventComponent V} {entries : List (String × Record V)}

/-- An event that is in the graph is there under its id. -/
theorem eventEntries_id (h : eventEntries identity versioned owner calendar uid master c =
    .ok entries) (hc : ¬ (c.recurrenceKey ≠ "" ∧ c.cancelled = true)) :
    eventId identity owner uid c ∈ entries.map Prod.fst := by
  unfold eventEntries at h
  rw [if_neg hc] at h
  simp only [bind, Except.bind, pure, Except.pure] at h
  split at h
  · cases h
  split at h
  · cases h
  cases h
  simp

/-- What the records of one event list are records of that event. -/
theorem eventEntries_children (h : eventEntries identity versioned owner calendar uid master c =
    .ok entries) {id : String} {r : Record V} (hr : (id, r) ∈ entries) {link : String}
    (hlink : link ∈ relationships) :
    (linked r link).Nodup ∧ ∀ i ∈ linked r link, i ∈ entries.map Prod.fst := by
  unfold eventEntries at h
  split at h
  · cases h
    cases hr
  simp only [bind, Except.bind, pure, Except.pure] at h
  split at h
  · cases h
  split at h
  · cases h
  rename_i children hchildren
  cases h
  rcases List.mem_append.1 hr with hr | hr
  · obtain ⟨child, -, heq⟩ := List.mem_map.1 hr
    cases heq
    rw [linked_childRecord _ _ hlink]
    exact ⟨List.nodup_nil, fun _ h => absurd h List.not_mem_nil⟩
  · rw [List.mem_singleton] at hr
    cases hr
    rw [linked_eventRecord _ _ _ _ _ _ hlink]
    split
    · rename_i hl
      refine ⟨childIds_nodup hchildren hl, fun i hi => ?_⟩
      obtain ⟨child, hm, rfl⟩ := List.mem_map.1 hi
      rw [List.map_append, List.mem_append, List.map_map]
      exact .inl (List.mem_map.2 ⟨child, (List.mem_filter.1 hm).1, rfl⟩)
    · exact ⟨List.nodup_nil, fun _ h => absurd h List.not_mem_nil⟩

end

omit [GraphValue V] in
theorem detachedIds_nodup {identity : Identity} {owner : String} {body : Body V}
    (h : (body.events.map EventComponent.recurrenceKey).Nodup) :
    (detachedIds identity owner body).Nodup := by
  have hall : (body.events.map (eventId identity owner body.uid)).Nodup := by
    rw [show eventId identity owner body.uid =
        (fun key => identity.id owner (body.uid ++ ":" ++ key)) ∘ EventComponent.recurrenceKey
        from rfl, ← List.map_map]
    refine h.map fun a b hab => ?_
    exact (String.append_right_inj _).1 (identity.id_inj hab).2
  exact hall.sublist (List.Sublist.map _ List.filter_sublist)

/-- What an imported graph holds: the entries of the events, and the master's list of detached
occurrences. -/
theorem importGraph_ok {identity : Identity} {versioned : Bool} {resource : Int}
    {calendar : String} {body : Body V} {graph : Graph V}
    (h : importGraph identity versioned resource calendar body = .ok graph) :
    (body.events.map EventComponent.recurrenceKey).Nodup ∧
      ∃ master entries,
        body.events.mapM (eventEntries identity versioned (resourceOwner resource) calendar body.uid
          master) = .ok entries ∧
        graph = (Dict.putAll ∅ entries.flatten).put
          (eventId identity (resourceOwner resource) body.uid master)
          (((Dict.putAll ∅ entries.flatten).lookup
            (eventId identity (resourceOwner resource) body.uid master)).map fun r =>
              r.put "detached events"
                (some (array (detachedIds identity (resourceOwner resource) body)))) := by
  unfold importGraph at h
  split at h
  · cases h
  rename_i hkeys
  rw [not_not] at hkeys
  split at h
  · cases h
  rename_i master hmaster
  simp only [bind, Except.bind, pure, Except.pure] at h
  split at h
  · cases h
  rename_i entries hentries
  cases h
  exact ⟨hkeys, master, entries, hentries, rfl⟩

/-- Every record of an imported graph has an id of the identity table. -/
theorem importGraph_keys {identity : Identity} {versioned : Bool} {resource : Int}
    {calendar : String} {body : Body V} {graph : Graph V}
    (h : importGraph identity versioned resource calendar body = .ok graph) {id : String}
    (hid : id ∈ graph.keys) : ∃ owner key, id = identity.id owner key := by
  obtain ⟨-, master, entries, hentries, rfl⟩ := importGraph_ok h
  obtain ⟨-, hfrom⟩ := forall₂_mem (mapM_ok.1 hentries)
  rw [Dict.mem_keys_iff, Dict.lookup_put] at hid
  split at hid
  · rename_i hm
    exact ⟨_, _, hm⟩
  · have hm := Dict.mem_keys_iff.2 hid
    rw [Dict.mem_keys_putAll] at hm
    obtain ⟨x, hx, rfl⟩ := List.mem_map.1 (hm.resolve_right (by simp))
    obtain ⟨e, he, hxe⟩ := List.mem_flatten.1 hx
    obtain ⟨c, -, hc⟩ := hfrom e he
    unfold eventEntries at hc
    split at hc
    · cases hc
      cases hxe
    · simp only [bind, Except.bind, pure, Except.pure] at hc
      split at hc
      · cases hc
      split at hc
      · cases hc
      cases hc
      rcases List.mem_append.1 hxe with hxe | hxe
      · obtain ⟨child, -, rfl⟩ := List.mem_map.1 hxe
        exact ⟨_, _, rfl⟩
      · rw [List.mem_singleton.1 hxe]
        exact ⟨_, _, rfl⟩

/-- **Children in an imported graph**: what a record lists are distinct records of the graph. -/
theorem importGraph_children {identity : Identity} {versioned : Bool} {resource : Int}
    {calendar : String} {body : Body V} {graph : Graph V}
    (h : importGraph identity versioned resource calendar body = .ok graph) {id : String}
    {r : Record V} (hr : graph.lookup id = some r) {link : String} (hlink : link ∈ relationships) :
    (linked r link).Nodup ∧ ∀ i ∈ linked r link, i ∈ graph.keys := by
  obtain ⟨hkeys, master, entries, hentries, rfl⟩ := importGraph_ok h
  obtain ⟨hto, hfrom⟩ := forall₂_mem (mapM_ok.1 hentries)
  have hkeep : ∀ i ∈ entries.flatten.map Prod.fst,
      i ∈ ((Dict.putAll ∅ entries.flatten).put
        (eventId identity (resourceOwner resource) body.uid master)
        (((Dict.putAll ∅ entries.flatten).lookup
          (eventId identity (resourceOwner resource) body.uid master)).map fun r =>
            r.put "detached events"
              (some (array (detachedIds identity (resourceOwner resource) body))))).keys := by
    intro i hi
    have hm : i ∈ (Dict.putAll ∅ entries.flatten).keys := Dict.mem_keys_putAll.2 (.inl hi)
    rw [Dict.mem_keys_iff] at hm ⊢
    rw [Dict.lookup_put]
    split
    · rename_i he
      rw [← he]
      simpa using hm
    · exact hm
  have hrecord : ∀ r₀, (Dict.putAll ∅ entries.flatten).lookup id = some r₀ →
      (linked r₀ link).Nodup ∧ ∀ i ∈ linked r₀ link, i ∈ entries.flatten.map Prod.fst := by
    intro r₀ hr₀
    rcases Dict.mem_of_lookup_putAll hr₀ with hm | hm
    · obtain ⟨e, he, hre⟩ := List.mem_flatten.1 hm
      obtain ⟨c, -, hc⟩ := hfrom e he
      obtain ⟨hn, hin⟩ := eventEntries_children hc hre hlink
      refine ⟨hn, fun i hi => ?_⟩
      obtain ⟨x, hx, rfl⟩ := List.mem_map.1 (hin i hi)
      exact List.mem_map.2 ⟨x, List.mem_flatten.2 ⟨e, he, hx⟩, rfl⟩
    · simp at hm
  have hdetached : ∀ i ∈ detachedIds identity (resourceOwner resource) body,
      i ∈ entries.flatten.map Prod.fst := by
    intro i hi
    obtain ⟨c, hc, rfl⟩ := List.mem_map.1 hi
    rw [List.mem_filter] at hc
    obtain ⟨e, he, hce⟩ := hto c hc.1
    have hlive : ¬ (c.recurrenceKey ≠ "" ∧ c.cancelled = true) := by
      have hc2 := hc.2
      simp only [Bool.and_eq_true, Bool.not_eq_true'] at hc2
      simp [hc2.2]
    obtain ⟨x, hx, hxe⟩ := List.mem_map.1 (eventEntries_id hce hlive)
    exact List.mem_map.2 ⟨x, List.mem_flatten.2 ⟨e, he, hx⟩, hxe⟩
  rw [Dict.lookup_put] at hr
  split at hr
  · rename_i hid
    rw [← hid] at hr
    obtain ⟨r₀, hr₀, rfl⟩ := Option.map_eq_some_iff.1 hr
    rw [linked_put]
    split
    · exact ⟨detachedIds_nodup hkeys, fun i hi => hkeep i (hdetached i hi)⟩
    · obtain ⟨hn, hin⟩ := hrecord r₀ hr₀
      exact ⟨hn, fun i hi => hkeep i (hin i hi)⟩
  · obtain ⟨hn, hin⟩ := hrecord r hr
    exact ⟨hn, fun i hi => hkeep i (hin i hi)⟩

end Calendar
