import RetroCloudSync.Native.Receipt
import RetroCloudSync.TwoWay.Policy
import Mathlib.Data.List.Sort

/-!
# Encoding the fields of a native edit

`RCTwoWayFields.m`: `encodeFields` turns the graph of the native store (`truth`) into an upload of
the resource it belongs to. It projects the edit onto the fields the encoders can write, asks the
encoder for a replacement of the resource, retries independent groups of fields when the encoder
refuses (`encodeIndependent`), and records which fields the upload represents (`fieldScopes`)
and which it does not (`pendingFields`).

`considered_closed`: the considered records contain the children of a considered record.
-/

set_option autoImplicit false

namespace TwoWay

open Library Journal Native Value

/-- What planning an upload asks of values beyond comparing them. -/
class FieldValue (V : Type) extends Value V where
  string : String → V
  /-- `RCNativeEmptyValue` of a value that is there. -/
  emptyValue : V → Bool
  isDate : V → Bool
  /-- `RCNativeFloatingDate`. -/
  floatingDate : V → Bool
  boolValue : V → Bool

open FieldValue

instance : FieldValue Plist where
  string := .text
  emptyValue
    | .text s => s = ""
    | .list ids => ids = []
  isDate _ := false
  floatingDate _ := false
  boolValue
    | .text s => s = "YES"
    | .list _ => false

/-- A resource dictionary, as an encoder takes and returns it. -/
structure Wire (V : Type) where
  key : String
  href : String
  etag : Option String
  body : Bytes
  revision : Int
  root : String
  graph : Graph V
  paths : Dict String String

/-- An upload: the replacement and what it represents of the native store. -/
structure Desired (V : Type) extends Wire V where
  fieldScopes : Scopes
  pendingFields : Dict String (List String)
  knownFields : Dict String (List String)

/-- `RCTwoWayEncoder`; without a resource it creates one. -/
abbrev Encoder (V : Type) := Option (Wire V) → Graph V → String → Except RCError (Wire V)

variable {V : Type} [FieldValue V]

/-- `sortedArrayUsingSelector:@selector(compare:)`. -/
def sorted (l : List String) : List String := l.insertionSort (· ≤ ·)

omit [FieldValue V] in
theorem mem_sorted {l : List String} {f : String} : f ∈ sorted l ↔ f ∈ l :=
  List.mem_insertionSort (· ≤ ·)

/-! ## Fields of a record -/

/-- The value of a field, where there is a record. -/
def fieldValue (r : Option (Record V)) (f : String) : Option V := r.bind (·.lookup f)

/-- `RemovedOwner`. -/
def removedOwner (old : Option (Record V)) (base truth : Graph V) : Bool :=
  match ((fieldValue old "owner").bind children).getD [] with
  | [owner] => ((base.lookup owner).bind entity) = some "com.apple.calendars.Event" &&
      (truth.lookup owner).isNone
  | _ => false

/-- `Writable`. -/
def writable (old record : Option (Record V)) : List String :=
  match writableFieldNames
      (((fieldValue record entityKey).orElse fun _ => fieldValue old entityKey).bind text) with
  | some names => names ++ [entityKey]
  | none => []

/-- `KnownFields`. -/
def knownFields (record : Record V) : List String :=
  sorted (writable none (some record) ∪ record.keys ∪
    (if entity record = some "com.apple.calendars.Event" then
      ["com.apple.ical.creationdate", "com.apple.ical.datestamp"] else []) ∪
    (if entity record = some "com.apple.calendars.Recurrence" then
      ["owner", "frequency", "interval", "count", "until", "bymonth", "bymonthday", "byyearday",
        "byweeknumber", "bysetpos", "bydaydays", "bydayfreq", "weekstartday"] else []) ∪
    (if entity record = some "com.apple.calendars.Attendee" ∨
        entity record = some "com.apple.calendars.Organizer" then
      ["owner", "email", "common name", "role", "status", "user type", "rsvp"] else []))

/-- `ResolvedFloatingMetadata`. -/
def resolvedFloatingMetadata (record base represented : Option (Record V)) : Bool :=
  record.bind entity = some "com.apple.calendars.Event" && base.isSome && represented.isSome &&
    !((fieldValue record "all day").any boolValue) &&
    (fieldValue record "floatingGMTDate").isNone && (fieldValue record "floatingOffset").isNone &&
    ["start date", "end date"].all (fun key =>
      (fieldValue record key).any (fun date => isDate date && !FieldValue.floatingDate date) &&
        FieldEqual record base key && FieldEqual record represented key) &&
    FieldEqual record base "all day" && FieldEqual record represented "all day"

/-- `IndependentGroups`. -/
def independentGroups (record : Record V) : List (List String) :=
  independentFieldGroups (entity record)

/-- `IntersectFields`. -/
def intersectFields (fields scope : List String) : List String := fields.filter scope.contains

/-- `CopyFields`. -/
def copyFields (graph source : Graph V) (id : String) (fields : List String) : Graph V :=
  graph.put id (some (putFields ((graph.lookup id).getD ∅) ((source.lookup id).getD ∅) fields))

/-! ## The considered records -/

section
variable (truth : Graph V)

/-- One item of a relationship. -/
def visitChild (key : String) (queue : List String) (child : String) : List String :=
  match truth.lookup child with
  | some record =>
    if child ∉ queue ∧ followChildRelationship key (entity record) then queue ++ [child] else queue
  | none => queue

/-- One field of a record. -/
def visitField (record : Record V) (queue : List String) (key : String) : List String :=
  if followChildRelationship key none then
    (((record.lookup key).bind children).getD []).foldl (visitChild truth key) queue
  else queue

/-- One record of the queue. -/
def visitRecord (queue : List String) (id : String) : List String :=
  match truth.lookup id with
  | some record => record.keys.foldl (visitField truth record) queue
  | none => queue

/-- The loop over the queue, from position `n` on. -/
def visit : Nat → Nat → List String → List String
  | 0, _, queue => queue
  | fuel + 1, n, queue =>
    match queue[n]? with
    | none => queue
    | some id => visit fuel (n + 1) (visitRecord truth queue id)

/-- The ids the queue starts with. -/
def startIds (base : Graph V) (root : String) : List String :=
  if root ∈ base.keys then base.keys else base.keys ++ [root]

/-- The ids of the queue when its loop ends. -/
def considered (base : Graph V) (root : String) : List String :=
  visit truth ((startIds base root).length + truth.keys.length) 0 (startIds base root)

end

/-- The loop finds `child` in the record of `id`. -/
def Follows (truth : Graph V) (id child : String) : Prop :=
  ∃ record key r, truth.lookup id = some record ∧ key ∈ record.keys ∧
    followChildRelationship key none = true ∧
    child ∈ ((record.lookup key).bind children).getD [] ∧ truth.lookup child = some r ∧
    followChildRelationship key (entity r) = true

/-- The queue only gets new ids of `truth`. -/
structure Grows (truth : Graph V) (queue queue' : List String) : Prop where
  isPrefix : queue <+: queue'
  nodup : queue.Nodup → queue'.Nodup
  mem : ∀ id ∈ queue', id ∈ queue ∨ id ∈ truth.keys

section
variable {truth : Graph V}

omit [FieldValue V] in
theorem Grows.refl (queue : List String) : Grows truth queue queue :=
  ⟨List.prefix_rfl, id, fun _ h => .inl h⟩

omit [FieldValue V] in
theorem Grows.trans {q q' q'' : List String} (h : Grows truth q q') (h' : Grows truth q' q'') :
    Grows truth q q'' :=
  ⟨h.isPrefix.trans h'.isPrefix, fun hn => h'.nodup (h.nodup hn), fun id hid =>
    (h'.mem id hid).elim (h.mem id) .inr⟩

omit [FieldValue V] in
theorem Grows.foldl {α : Type} {f : List String → α → List String}
    (h : ∀ q x, Grows truth q (f q x)) (l : List α) (q : List String) :
    Grows truth q (l.foldl f q) := by
  induction l generalizing q with
  | nil => exact .refl q
  | cons x l ih => exact (h q x).trans (ih _)

omit [FieldValue V] in
/-- What one step adds for `x` is there after a loop that visits `x`. -/
theorem Grows.foldl_mem {α : Type} {f : List String → α → List String}
    (h : ∀ q x, Grows truth q (f q x)) {l : List α} {x : α} (hx : x ∈ l) {id : String}
    (hid : ∀ q, id ∈ f q x) (q : List String) : id ∈ l.foldl f q := by
  induction l generalizing q with
  | nil => cases hx
  | cons y l ih =>
    rcases List.mem_cons.1 hx with rfl | hl
    · exact (Grows.foldl h l _).isPrefix.subset (hid q)
    · exact ih hl _

theorem visitChild_grows (key : String) (q : List String) (child : String) :
    Grows truth q (visitChild truth key q child) := by
  unfold visitChild
  cases hc : truth.lookup child with
  | none => exact .refl q
  | some record =>
    dsimp only
    split
    · rename_i h
      refine ⟨List.prefix_append _ _, fun hn => ?_, fun id hid => ?_⟩
      · rw [List.nodup_append]
        exact ⟨hn, List.nodup_singleton _, fun a ha b hb => by
          rw [List.mem_singleton.1 hb]
          exact fun he => h.1 (he ▸ ha)⟩
      · rw [List.mem_append, List.mem_singleton] at hid
        refine hid.imp_right fun he => ?_
        rw [he, Dict.mem_keys_iff, hc]
        simp
    · exact .refl q

theorem visitField_grows (record : Record V) (q : List String) (key : String) :
    Grows truth q (visitField truth record q key) := by
  unfold visitField
  split
  · exact Grows.foldl (visitChild_grows key) _ q
  · exact .refl q

theorem visitRecord_grows (q : List String) (id : String) :
    Grows truth q (visitRecord truth q id) := by
  unfold visitRecord
  split
  · exact Grows.foldl (visitField_grows _) _ q
  · exact .refl q

/-- The children of a visited record are in the queue. -/
theorem visitRecord_follows {id child : String} (h : Follows truth id child) (q : List String) :
    child ∈ visitRecord truth q id := by
  obtain ⟨record, key, r, hid, hkey, hfollow, hchild, hr, hfollow'⟩ := h
  have hone : ∀ q, child ∈ visitChild truth key q child := by
    intro q
    by_cases hm : child ∈ q
    · exact (visitChild_grows key q child).isPrefix.subset hm
    · simp [visitChild, hr, hm, hfollow']
  have hfield : ∀ q, child ∈ visitField truth record q key := by
    intro q
    rw [visitField, if_pos hfollow]
    exact Grows.foldl_mem (visitChild_grows key) hchild hone q
  unfold visitRecord
  rw [hid]
  exact Grows.foldl_mem (visitField_grows record) hkey hfield q

theorem visit_grows (fuel n : Nat) (q : List String) : Grows truth q (visit truth fuel n q) := by
  induction fuel generalizing n q with
  | zero => exact .refl q
  | succ fuel ih =>
    unfold visit
    split
    · exact .refl q
    · exact (visitRecord_grows q _).trans (ih _ _)

/-- The loop ends at the end of its queue: each step visits one more of the ids there can be. -/
theorem visit_closed {start : List String} (fuel n : Nat) (q : List String) (hnodup : q.Nodup)
    (hsub : ∀ id ∈ q, id ∈ start ∨ id ∈ truth.keys)
    (hfuel : start.length + truth.keys.length ≤ n + fuel)
    (hdone : ∀ m < n, ∀ id, q[m]? = some id → ∀ child, Follows truth id child → child ∈ q) :
    ∀ id ∈ visit truth fuel n q, ∀ child, Follows truth id child →
      child ∈ visit truth fuel n q := by
  induction fuel generalizing n q with
  | zero =>
    intro id hid child hc
    have hlen : q.length ≤ start.length + truth.keys.length := by
      rw [← List.length_append]
      exact (List.subperm_of_subset hnodup fun id hid =>
        List.mem_append.2 (hsub id hid)).length_le
    obtain ⟨m, hm, rfl⟩ := List.mem_iff_getElem.1 hid
    have hmq : m < q.length := hm
    exact hdone m (by omega) _ (List.getElem?_eq_getElem hmq) child hc
  | succ fuel ih =>
    unfold visit
    cases hq : q[n]? with
    | none =>
      dsimp only
      intro id hid child hc
      obtain ⟨m, hm, rfl⟩ := List.mem_iff_getElem.1 hid
      have hn : q.length ≤ n := List.getElem?_eq_none_iff.1 hq
      exact hdone m (by omega) _ (List.getElem?_eq_getElem hm) child hc
    | some id =>
      have hg : Grows truth q (visitRecord truth q id) := visitRecord_grows q id
      refine ih (n + 1) _ (hg.nodup hnodup) (fun x hx => ?_) (by omega) fun m hm x hx child hc => ?_
      · exact (hg.mem x hx).elim (hsub x) .inr
      · have hn : n < q.length := (List.getElem?_eq_some_iff.1 hq).1
        have hget : q[m]? = some x := by
          rw [← hx]
          obtain ⟨rest, hrest⟩ := hg.isPrefix
          rw [← hrest, List.getElem?_append_left (by omega)]
        rcases Nat.lt_succ_iff_lt_or_eq.1 hm with hlt | rfl
        · exact hg.isPrefix.subset (hdone m hlt x hget child hc)
        · rw [hq, Option.some.injEq] at hget
          rw [← hget] at hc
          exact visitRecord_follows hc q

omit [FieldValue V] in
theorem startIds_nodup (base : Graph V) (root : String) : (startIds base root).Nodup := by
  unfold startIds
  split
  · exact base.keys_nodup
  · rename_i h
    rw [List.nodup_append]
    exact ⟨base.keys_nodup, List.nodup_singleton _, fun a ha b hb => by
      rw [List.mem_singleton.1 hb]
      exact fun he => h (he ▸ ha)⟩

theorem considered_nodup (base : Graph V) (root : String) : (considered truth base root).Nodup :=
  (visit_grows _ _ _).nodup (startIds_nodup base root)

theorem considered_base {base : Graph V} {id : String} (root : String) (h : id ∈ base.keys) :
    id ∈ considered truth base root := by
  refine (visit_grows _ _ _).isPrefix.subset ?_
  unfold startIds
  split
  · exact h
  · exact List.mem_append_left _ h

/-- **The considered records are closed**: with a record, its children are considered. -/
theorem considered_closed {base : Graph V} {root id child : String}
    (hid : id ∈ considered truth base root) (h : Follows truth id child) :
    child ∈ considered truth base root :=
  visit_closed _ 0 _ (startIds_nodup base root) (fun _ h => .inl h) (by omega)
    (fun m hm => absurd hm (Nat.not_lt_zero m)) id hid child h

end

/-! ## Projecting the edit -/

/-- The graph to encode, and the fields of each record it takes from the native store. -/
structure Projection (V : Type) where
  projected : Graph V
  scopes : Scopes

/-- What belongs to one record. -/
def Projection.at (p : Projection V) (id : String) : Option (Record V) × Option (List String) :=
  (p.projected.lookup id, p.scopes.lookup id)

/-- An unfamiliar type of a new record, created as `other`. -/
def foreignType (old record : Option (Record V)) (fields : List String) : Bool :=
  old.isNone && "type" ∈ fields &&
    ((fieldValue record "type").bind text).any fun type =>
      type ≠ "" && !contactTypeSupported (record.bind entity) type

/-- The record to encode for an id, with its scope. -/
def selectFields (old record : Option (Record V)) : Record V × List String :=
  let fields := writable old record
  let selected := putFields (old.getD ∅) (record.getD ∅) fields
  if foreignType old record fields then
    (selected.put "type" (some (string "other")), fields.filter (· ≠ "type"))
  else (selected, fields)

/-- A record that is gone, and whose deletion the encoder has to pass. -/
def projectsDeletion (base truth : Graph V) (id : String) : Bool :=
  (truth.lookup id).isNone &&
    (writable (base.lookup id) (truth.lookup id) ≠ [] || (base.lookup id).isNone ||
      removedOwner (base.lookup id) base truth)

/-- One record of the loop that projects the edit. -/
def projectRecord (base truth : Graph V) (p : Projection V) (id : String) : Projection V :=
  let old := base.lookup id
  let record := truth.lookup id
  if projectsDeletion base truth id then ⟨p.projected, p.scopes.put id (some (writable old record))⟩
  else
    let (selected, fields) := selectFields old record
    ⟨p.projected.put id (if selected.keys = [] then none else some selected),
      p.scopes.put id (some fields)⟩

/-- The loop over the considered records. -/
def project (base truth : Graph V) (ids : List String) : Projection V :=
  ids.foldl (projectRecord base truth) ⟨truth, ∅⟩

/-- Whether a new contact has anything to upload. -/
def hasContent (record : Record V) : Bool :=
  record.entries.any fun e => e.1 ≠ entityKey &&
    !(e.1 = "display as company" && text e.2 = some "person") && !FieldValue.emptyValue e.2

/-! ## Retrying independent groups -/

/-- `RCNativeFieldPlan`, what changes in it. -/
structure FieldPlan (V : Type) where
  scopes : Scopes
  working : Graph V
  result : Option (Wire V)

section
variable (encoder : Encoder V) (resource : Wire V) (projected base : Graph V) (ids : List String)
  (root : String)

/-- One record of `RestoreStructure`. -/
def restoreRecord (c : FieldPlan V) (id : String) : FieldPlan V :=
  let prior := (c.scopes.lookup id).getD []
  let allowed := match base.lookup id, projected.lookup id with
    | some old, some _ => intersectFields ((independentGroups old).flatten ++ ownershipFields) prior
    | _, _ => []
  { c with
    working := c.working.put id (base.lookup id)
    scopes := c.scopes.put id (some allowed) }

/-- `EncodeStructure`, `RestoreStructure`, `GroupChanged`, `EncodeGroup` and `RejectGroup`. -/
def fieldPlanOps : IndependentPlan (FieldPlan V) (String × List String) where
  encodeStructure c := do
    let result ← encoder (some resource) c.working root
    pure { c with result := some result }
  restoreStructure c := ids.foldl (restoreRecord projected base) c
  groupChanged c group :=
    (c.working.lookup group.1).isSome && (projected.lookup group.1).isSome &&
      group.2.any fun name =>
        !FieldEqual (c.working.lookup group.1) (projected.lookup group.1) name
  encodeGroup c group := do
    let candidate := copyFields c.working projected group.1 group.2
    let encoded ← encoder (some resource) candidate root
    pure { c with working := candidate, result := some encoded }
  rejectGroup c group :=
    { c with
      scopes := c.scopes.put group.1 (some (((c.scopes.lookup group.1).getD []).filter
        fun f => f ∉ group.2)) }

/-- The groups of one record that are in its scope. -/
def groupsOf (scopes : Scopes) (id : String) (old : Record V) : List (String × List String) :=
  (((independentGroups old).map fun fields => intersectFields fields ((scopes.lookup id).getD [])
    ).filter fun allowed => allowed ≠ []).map fun allowed => (id, allowed)

/-- The loop that collects the groups, failing where an owner changed. -/
def collectGroups (scopes : Scopes) : List String → Option (List (String × List String))
  | [] => some []
  | id :: rest =>
    match base.lookup id, projected.lookup id with
    | some old, some record =>
      if ChangedFields (some old) (some record) ownershipFields then none
      else (collectGroups scopes rest).map (groupsOf scopes id old ++ ·)
    | _, _ => collectGroups scopes rest

/-- `EncodeIndependent`, after the encoder refused with `e`. -/
def encodeIndependent (scopes : Scopes) (e : RCError) : Except RCError (Scopes × Wire V) :=
  match collectGroups projected base scopes (sorted base.keys) with
  | none => .error e
  | some groups => do
    let working := groups.foldl (fun g group => copyFields g base group.1 group.2) projected
    let plan ← (fieldPlanOps encoder resource projected base ids root).planIndependentFields groups
      ⟨scopes, working, none⟩
    match plan.result with
    | some result => pure (plan.scopes, result)
    | none => throw ⟨0, ""⟩

end

/-! ## The upload -/

/-- The fields in which a record differs from what the upload represents. -/
def differentFields (record represented : Option (Record V)) : List String :=
  if represented.isSome && record.isNone then ["record deletion"]
  else (sorted ((record.map AList.keys).getD [] ∪ (represented.map AList.keys).getD [])).filter
    fun key => !FieldEqual record represented key

/-- The loop that describes an upload. -/
def describe (base truth : Graph V) (ids : List String) (scopes : Scopes) (desired : Wire V) :
    Desired V where
  toWire := desired
  fieldScopes := Dict.collect ids fun id =>
    (desired.graph.lookup id).map fun _ => (scopes.lookup id).getD []
  pendingFields := Dict.collect ids fun id =>
    match differentFields (truth.lookup id) (desired.graph.lookup id) with
    | [] => none
    | different => some different
  knownFields := Dict.collect ids fun id =>
    (desired.graph.lookup id).map fun represented =>
      knownFields represented ++
        if resolvedFloatingMetadata (truth.lookup id) (base.lookup id) (some represented) then
          ["floatingGMTDate", "floatingOffset"]
        else []

/-- `RCTwoWayEncodeFields`. -/
def encodeFields (encoder : Encoder V) (resource : Option (Wire V)) (truth : Graph V)
    (root : String) : Except RCError (Desired V) := do
  let base := (resource.map Wire.graph).getD ∅
  let ids := considered truth base root
  let p := project base truth ids
  if resource.isNone && (p.projected.lookup root).any (fun record =>
      entity record = some "com.apple.contacts.Contact" && !hasContent record) then
    throw ⟨1, "New contact has no supported content to upload"⟩
  else
    let (scopes, desired) ← match encoder resource p.projected root, resource with
      | .ok desired, _ => pure (p.scopes, desired)
      | .error e, some resource =>
        encodeIndependent encoder resource p.projected base ids root p.scopes e
      | .error e, none => throw e
    pure (describe base truth ids scopes desired)

end TwoWay
