import RetroCloudSync.Library.Dict

/-!
# Native records and their comparison

A record is a dictionary from field names to values, a graph a dictionary from record ids to
records. What a value is belongs to the platform (`Value`): the code only compares values, reads
a text or a list of ids out of one, and builds a list of ids.

`RCSyncPolicy.c` decides about whole records (`recordsEqual`) and receipts (`receiptMatches`);
`RCNativeGraphChanges.h` turns a readback into an edit of the wire graph (`changedGraph`).
`lookup_changedGraph` and `changedRecord_lookup` say what it computes, field by field.
-/

set_option autoImplicit false

namespace Native

open Library

abbrev Record (V : Type) := Dict String V

abbrev Graph (V : Type) := Dict String (Record V)

/-- What the platform provides about values. -/
class Value (V : Type) where
  /-- `isEqual:`. -/
  isEqual : V → V → Bool
  /-- The string a value is. -/
  text : V → Option String
  /-- The ids in an array. -/
  children : V → Option (List String)
  array : List String → V
  /-- `RCNativePropertyValuesEqual`, by entity and field. -/
  propertyEqual : Option String → String → Option V → Option V → Bool
  /-- `RCRecordUnorderedEqual`. -/
  unorderedEqual : Option V → Option V → Bool
  /-- `RCRecordAlarmEqual`, `none` when a sound cannot be normalized. -/
  alarmEqual : Record V → Record V → Option Bool
  isEqual_refl : ∀ v, isEqual v v = true
  propertyEqual_refl : ∀ e f v, propertyEqual e f v v = true
  /-- Only the two fields of a sound are compared. -/
  alarmEqual_sound : ∀ r r' : Record V, r.lookup "sound" = r'.lookup "sound" →
    r.lookup "com.apple.ical.sound" = r'.lookup "com.apple.ical.sound" →
      alarmEqual r r' ≠ some false

open Value

variable {V : Type} [Value V]

/-! ## Records -/

def entityKey : String := "com.apple.syncservices.RecordEntityName"

/-- The entity a record names. -/
def entity (r : Record V) : Option String := (r.lookup entityKey).bind text

/-- `RCIgnoredNativeField`. -/
def ignoredNativeField (entity : Option String) (field : String) : Bool :=
  entity = some "com.apple.calendars.Event" &&
    ["com.apple.ical.uid", "com.apple.ical.sequence", "com.apple.ical.creationdate",
      "com.apple.ical.datestamp", "invitationId", "invitationSequence",
      "invitationTimestamp"].contains field

/-- `RCUnorderedField`. -/
def unorderedField (field : String) : Bool :=
  ["phone numbers", "email addresses", "street addresses", "URLs", "events", "tasks",
    "detached events", "exception dates", "attendees", "organizer", "recurrences",
    "display alarms", "audio alarms", "mail alarms"].contains field

/-- `a==b || [a isEqual:b]`, where either may be `nil`. -/
def same : Option V → Option V → Bool
  | none, none => true
  | some a, some b => isEqual a b
  | _, _ => false

theorem same_refl (v : Option V) : same v v = true := by
  cases v with
  | none => rfl
  | some v => exact isEqual_refl v

/-- One field of the comparison in `RCRecordsEqual`. -/
def fieldEqual (entity : Option String) (alarm : Option Bool) (a b : Record V) (f : String) :
    Bool :=
  ignoredNativeField entity f ||
    (alarm = some true && (f = "sound" || f = "com.apple.ical.sound")) ||
    propertyEqual entity f (a.lookup f) (b.lookup f) ||
    (unorderedField f && unorderedEqual (a.lookup f) (b.lookup f))

/-- `RCRecordsEqual` on two records that are there. -/
def recordsEqual (a b : Record V) : Bool :=
  let entity := if entity a = entity b then entity a else none
  let alarm := if entity = some "com.apple.calendars.AudioAlarm" then alarmEqual a b else none
  alarm ≠ some false && (a.keys ++ b.keys).all (fieldEqual entity alarm a b)

/-- `RCRecordsEqual`. -/
def recordsEqual? : Option (Record V) → Option (Record V) → Bool
  | none, none => true
  | some a, some b => recordsEqual a b
  | _, _ => false

theorem recordsEqual_refl (r : Record V) : recordsEqual r r = true := by
  have ha : ∀ e : Option String,
      (if e = some "com.apple.calendars.AudioAlarm" then alarmEqual r r else none) ≠
        some false := by
    intro e
    split
    · exact alarmEqual_sound r r rfl rfl
    · simp
  simp only [recordsEqual, if_true, Bool.and_eq_true, List.all_eq_true, decide_eq_true_iff]
  refine ⟨ha _, fun f _ => ?_⟩
  simp [fieldEqual, propertyEqual_refl]

/-- Property-list values made of strings and arrays of ids, compared by what they are. -/
inductive Plist
  | text (s : String)
  | list (ids : List String)
deriving DecidableEq, Repr

instance : Value Plist where
  isEqual a b := a = b
  text
    | .text s => some s
    | .list _ => none
  children
    | .list ids => some ids
    | .text _ => none
  array := .list
  propertyEqual _ _ a b := a = b
  unorderedEqual
    | some (.list a), some (.list b) => a.all b.contains && b.all a.contains
    | _, _ => false
  alarmEqual a b := some (a.lookup "sound" = b.lookup "sound")
  isEqual_refl _ := decide_eq_true rfl
  propertyEqual_refl _ _ _ := decide_eq_true rfl
  alarmEqual_sound _ _ h _ := by simp [h]

/-! ## Receipts -/

/-- A receipt: the records of an upload, `none` (`NSNull`) for a record it deleted. -/
abbrev Receipt (V : Type) := Dict String (Option (Record V))

/-- The fields an upload represents, for each record; a record without a scope is whole. -/
abbrev Scopes := Dict String (List String)

/-- `RCNativeScopedRecord`. -/
def scopedRecord (r : Record V) : Option (List String) → Record V
  | none => r
  | some fields =>
    let result := fields.foldl (fun s f => if (r.lookup f).isSome then s.put f (r.lookup f) else s) ∅
    if (r.lookup entityKey).isSome then result.put entityKey (r.lookup entityKey) else result

/-- One entry of `RCReceiptMatches`. -/
def entryMatches (current : Graph V) (scopes : Scopes) (key : String)
    (expected : Option (Record V)) : Bool :=
  match expected with
  | none => (current.lookup key).isNone
  | some expected => scopes.lookup key = some [] ||
      match current.lookup key with
      | none => false
      | some record => recordsEqual (scopedRecord record (scopes.lookup key))
          (scopedRecord expected (scopes.lookup key))

/-- `RCNativeScopeMatches`. -/
def scopeMatches (current : Graph V) (receipt : Receipt V) (scopes : Scopes) : Bool :=
  receipt.entries.all fun e => entryMatches current scopes e.1 e.2

/-- A matching graph has none of the records the receipt deleted. -/
theorem scopeMatches_deleted {current : Graph V} {receipt : Receipt V} {scopes : Scopes}
    (h : scopeMatches current receipt scopes = true) {key : String}
    (hk : receipt.lookup key = some none) : current.lookup key = none := by
  have hm : (⟨key, none⟩ : Sigma fun _ => Option (Record V)) ∈ receipt.entries :=
    AList.mem_lookup_iff.1 hk
  have he := List.all_eq_true.1 h _ hm
  simpa [entryMatches] using he

/-! ## What changed since the last readback -/

/-- The relationships whose native-only members stay off the wire. -/
def alarmField (f : String) : Bool := f = "display alarms" || f = "audio alarms"

section
variable (base snapshot current : Graph V)

/-- The members of an alarm list that are not unchanged native-only defaults. -/
def wireChildren (l : List String) : List String :=
  l.filter fun child =>
    !((base.lookup child).isNone && (snapshot.lookup child).isSome &&
      recordsEqual? (snapshot.lookup child) (current.lookup child))

/-- What a changed field carries to the wire. -/
def wireValue (f : String) (b : Option V) : Option V :=
  if alarmField f then
    match b.bind children with
    | some l => some (array (wireChildren base snapshot current l))
    | none => b
  else b

/-- The changed fields of one record, over the record of the wire. -/
def changedFields (record old now : Record V) : Record V :=
  (old.keys ∪ now.keys).foldl (fun r f =>
    if same (old.lookup f) (now.lookup f) then r
    else r.put f (wireValue base snapshot current f (now.lookup f))) record

/-- What `RCChangedGraph` does about one id: nothing (`none`), or the record it puts. -/
def changedRecord (key : String) : Option (Option (Record V)) :=
  match snapshot.lookup key, current.lookup key with
  | _, none => some none
  | none, some now => some (some now)
  | some old, some now =>
    if (base.lookup key).isNone && recordsEqual old now then none
    else some (some (changedFields base snapshot current ((base.lookup key).getD old) old now))

/-- `RCChangedGraph`. -/
def changedGraph : Graph V :=
  (snapshot.keys ∪ current.keys).foldl (fun result key =>
    match changedRecord base snapshot current key with
    | none => result
    | some r => result.put key r) base

end

variable {base snapshot current : Graph V}

theorem nodup_union {l l' : List String} (h' : l'.Nodup) : (l ∪ l').Nodup :=
  List.Nodup.union l h'

/-- Field by field: an unchanged field is the record's, a changed one the readback's. -/
theorem changedFields_lookup (record old now : Record V) (f : String) :
    (changedFields base snapshot current record old now).lookup f =
      if same (old.lookup f) (now.lookup f) then record.lookup f
      else wireValue base snapshot current f (now.lookup f) := by
  have hstep : ∀ (r : Record V) (f f' : String),
      (if same (old.lookup f) (now.lookup f) then r
        else r.put f (wireValue base snapshot current f (now.lookup f))).lookup f' =
      if f' = f then
        (if same (old.lookup f) (now.lookup f) then r.lookup f
          else wireValue base snapshot current f (now.lookup f))
      else r.lookup f' := by
    intro r f f'
    by_cases hs : same (old.lookup f) (now.lookup f) = true
    · rw [if_pos hs]
      by_cases hf : f' = f
      · rw [if_pos hf, hf, if_pos hs]
      · rw [if_neg hf]
    · rw [if_neg hs, Dict.lookup_put, if_neg hs]
  unfold changedFields
  rw [Dict.foldl_view (fun (r : Record V) f => r.lookup f)
    (g := fun f v => if same (old.lookup f) (now.lookup f) then v
      else wireValue base snapshot current f (now.lookup f)) hstep (nodup_union now.keys_nodup)]
  split
  · rfl
  · rename_i hm
    rw [List.mem_union_iff, not_or] at hm
    rw [Dict.lookup_of_not_mem hm.1, Dict.lookup_of_not_mem hm.2, if_pos (same_refl none)]

theorem changedGraph_lookup (key : String) :
    (changedGraph base snapshot current).lookup key =
      if snapshot.lookup key = none ∧ current.lookup key = none then base.lookup key
      else (changedRecord base snapshot current key).getD (base.lookup key) := by
  have hstep : ∀ (g : Graph V) (k k' : String),
      (match changedRecord base snapshot current k with
        | none => g
        | some r => g.put k r).lookup k' =
      if k' = k then (changedRecord base snapshot current k).getD (g.lookup k)
      else g.lookup k' := by
    intro g k k'
    cases changedRecord base snapshot current k with
    | none =>
      by_cases hk : k' = k
      · rw [if_pos hk, hk]
        rfl
      · rw [if_neg hk]
    | some r => exact Dict.lookup_put g k k' r
  unfold changedGraph
  rw [Dict.foldl_view (fun (g : Graph V) k => g.lookup k)
    (g := fun k v => (changedRecord base snapshot current k).getD v) hstep
    (nodup_union current.keys_nodup)]
  by_cases hm : key ∈ snapshot.keys ∪ current.keys
  · have hne : ¬ (snapshot.lookup key = none ∧ current.lookup key = none) := by
      rw [List.mem_union_iff, Dict.mem_keys_iff, Dict.mem_keys_iff] at hm
      tauto
    rw [if_pos hm, if_neg hne]
  · rw [if_neg hm]
    rw [List.mem_union_iff, not_or] at hm
    rw [if_pos ⟨Dict.lookup_of_not_mem hm.1, Dict.lookup_of_not_mem hm.2⟩]

/-- A record on both sides of the comparison, over the record of the wire. -/
theorem changedGraph_both {key : String} {record old now : Record V}
    (hb : base.lookup key = some record) (ho : snapshot.lookup key = some old)
    (hn : current.lookup key = some now) :
    (changedGraph base snapshot current).lookup key =
      some (changedFields base snapshot current record old now) := by
  rw [changedGraph_lookup, if_neg (by simp [ho])]
  simp [changedRecord, hb, ho, hn]

theorem changedGraph_neither {key : String} (ho : snapshot.lookup key = none)
    (hn : current.lookup key = none) :
    (changedGraph base snapshot current).lookup key = base.lookup key := by
  rw [changedGraph_lookup, if_pos ⟨ho, hn⟩]

/-- Only records whose readback is gone are missing from an edit. -/
theorem changedGraph_none {key : String} {record : Record V} (hb : base.lookup key = some record)
    (h : (changedGraph base snapshot current).lookup key = none) : current.lookup key = none := by
  cases hn : current.lookup key with
  | none => rfl
  | some now =>
    rw [changedGraph_lookup, if_neg (by simp [hn])] at h
    cases ho : snapshot.lookup key <;> simp [changedRecord, hb, ho, hn] at h

theorem changedFields_unchanged {record old now : Record V}
    (h : ∀ f, same (old.lookup f) (now.lookup f) = true) :
    changedFields base snapshot current record old now = record := by
  unfold changedFields
  induction old.keys ∪ now.keys with
  | nil => rfl
  | cons f l ih => rw [List.foldl_cons, if_pos (h f), ih]

/-- A record the readback shows as the snapshot did stays what it is on the wire. -/
theorem changedGraph_same {key : String} (h : snapshot.lookup key = current.lookup key) :
    (changedGraph base snapshot current).lookup key = base.lookup key := by
  cases hn : current.lookup key with
  | none => exact changedGraph_neither (h.trans hn) hn
  | some now =>
    cases hb : base.lookup key with
    | none =>
      rw [changedGraph_lookup, if_neg (by simp [hn])]
      simp [changedRecord, hb, hn, h.trans hn, recordsEqual_refl]
    | some record =>
      rw [changedGraph_both hb (h.trans hn) hn, changedFields_unchanged fun f => same_refl _]

/-- A record neither the wire nor the readback has is not made up. -/
theorem changedGraph_gone {key : String} (hb : base.lookup key = none)
    (hn : current.lookup key = none) : (changedGraph base snapshot current).lookup key = none := by
  rw [changedGraph_lookup]
  split
  · exact hb
  · cases ho : snapshot.lookup key <;> simp [changedRecord, hn, ho]

end Native
