import RetroCloudSync.Native.Record

/-!
# The merge of a readback into the wire graph

`changedGraph base snapshot current` is a three-way merge: `snapshot` and `current` are two
readbacks of the native store, `base` is the graph of the wire. `merge_laws` collects what that
means; two graphs are the same when their values are equal (`isEqual:`), so a list of alarms that
was written anew counts as the list it was written from.
-/

set_option autoImplicit false

namespace Native

open Library Value

/-- An array of the ids of an array is equal to it. -/
class LawfulArray (V : Type) [Value V] : Prop where
  array_children : ∀ (v : V) (l : List String), children v = some l → isEqual (array l) v = true

instance : LawfulArray Plist where
  array_children v l h := by
    cases v with
    | text s => cases h
    | list ids =>
      obtain rfl : ids = l := Option.some.inj h
      exact decide_eq_true rfl

variable {V : Type} [Value V]

/-- Field by field, `isEqual:`. -/
def sameRecord (r r' : Record V) : Prop := ∀ f, same (r.lookup f) (r'.lookup f) = true

/-- Record by record. -/
def sameGraph (g g' : Graph V) : Prop :=
  ∀ key, (g.lookup key = none ∧ g'.lookup key = none) ∨
    ∃ r r', g.lookup key = some r ∧ g'.lookup key = some r' ∧ sameRecord r r'

variable {base snapshot current : Graph V}

theorem wireChildren_self (l : List String) : wireChildren base base current l = l := by
  refine List.filter_eq_self.2 fun child _ => ?_
  cases base.lookup child <;> simp

/-- Against its own readback a graph takes every value as it is now. -/
theorem same_wireValue_self [LawfulArray V] (f : String) (b : Option V) :
    same (wireValue base base current f b) b = true := by
  unfold wireValue
  split
  · cases b with
    | none => rfl
    | some v =>
      rw [Option.bind_some]
      cases hl : children v with
      | none => exact isEqual_refl v
      | some l =>
        dsimp only
        rw [wireChildren_self]
        exact LawfulArray.array_children v l hl
  · exact same_refl b

theorem wireValue_eq {f : String} {b : Option V}
    (h : alarmField f = false ∨ b.bind children = none) :
    wireValue base snapshot current f b = b := by
  unfold wireValue
  rcases h with h | h <;> simp [h]

theorem sameRecord_changedFields [LawfulArray V] (old now : Record V) :
    sameRecord (changedFields base base current old old now) now := by
  intro f
  rw [changedFields_lookup]
  split
  · assumption
  · exact same_wireValue_self f _

/-- A record only one readback has: it came or it went. -/
theorem changedGraph_removed {key : String} {old : Record V}
    (ho : snapshot.lookup key = some old) (hn : current.lookup key = none) :
    (changedGraph base snapshot current).lookup key = none := by
  rw [changedGraph_lookup, if_neg (by simp [ho])]
  simp [changedRecord, ho, hn]

theorem changedGraph_added {key : String} {now : Record V}
    (ho : snapshot.lookup key = none) (hn : current.lookup key = some now) :
    (changedGraph base snapshot current).lookup key = some now := by
  rw [changedGraph_lookup, if_neg (by simp [hn])]
  simp [changedRecord, ho, hn]

/-- A graph merged with its own readback is what is read back now. -/
theorem changedGraph_self [LawfulArray V] (snapshot current : Graph V) :
    sameGraph (changedGraph snapshot snapshot current) current := by
  intro key
  cases hn : current.lookup key with
  | none =>
    cases ho : snapshot.lookup key with
    | none => exact .inl ⟨(changedGraph_neither ho hn).trans ho, rfl⟩
    | some old => exact .inl ⟨changedGraph_removed ho hn, rfl⟩
  | some now =>
    right
    cases ho : snapshot.lookup key with
    | none => exact ⟨now, now, changedGraph_added ho hn, rfl, fun f => same_refl _⟩
    | some old =>
      exact ⟨_, now, changedGraph_both ho ho hn, rfl, sameRecord_changedFields old now⟩

/-- **The laws of a three-way merge.** No edit, no change; the edits of a graph that is its own
readback give the current one; each field that changed carries its current value, each other one
the value of the wire; records come, go and stay with the readback. -/
theorem merge_laws [LawfulArray V] (base snapshot current : Graph V) :
    (∀ key, (changedGraph base snapshot snapshot).lookup key = base.lookup key) ∧
    sameGraph (changedGraph snapshot snapshot current) current ∧
    (∀ key record old now, base.lookup key = some record → snapshot.lookup key = some old →
      current.lookup key = some now →
      ∃ merged, (changedGraph base snapshot current).lookup key = some merged ∧
        ∀ f, alarmField f = false ∨ (now.lookup f).bind children = none →
          merged.lookup f = if same (old.lookup f) (now.lookup f) then record.lookup f
            else now.lookup f) ∧
    (∀ key old, snapshot.lookup key = some old → current.lookup key = none →
      (changedGraph base snapshot current).lookup key = none) ∧
    (∀ key now, snapshot.lookup key = none → current.lookup key = some now →
      (changedGraph base snapshot current).lookup key = some now) ∧
    ∀ key, snapshot.lookup key = none → current.lookup key = none →
      (changedGraph base snapshot current).lookup key = base.lookup key := by
  refine ⟨fun key => changedGraph_same rfl, changedGraph_self snapshot current, ?_,
    fun key old => changedGraph_removed, fun key now => changedGraph_added,
    fun key => changedGraph_neither⟩
  intro key record old now hb ho hn
  refine ⟨_, changedGraph_both hb ho hn, fun f hf => ?_⟩
  rw [changedFields_lookup, wireValue_eq hf]

theorem merge_laws_alarm :
    let event (summary : String) : Record Plist := Dict.ofList [("summary", .text summary)]
    let alarm : Record Plist := Dict.ofList [("triggerduration", .text "-900")]
    let base : Graph Plist := Dict.ofList [("e", event "Lunch")]
    let snapshot : Graph Plist := Dict.ofList [("e", event "lunch"), ("a", alarm)]
    let current : Graph Plist := Dict.ofList [("e", event "Dinner"), ("a", alarm)]
    (changedGraph base snapshot snapshot).lookup "a" = none ∧
      sameGraph (changedGraph snapshot snapshot current) current ∧
      ∃ merged, (changedGraph base snapshot current).lookup "e" = some merged ∧
        merged.lookup "summary" = some (.text "Dinner") := by
  intro event alarm base snapshot current
  obtain ⟨hsame, hself, hboth, -, -, -⟩ := merge_laws base snapshot current
  refine ⟨hsame "a", hself, ?_⟩
  obtain ⟨merged, hm, hf⟩ := hboth "e" (event "Lunch") (event "lunch") (event "Dinner")
    rfl rfl rfl
  exact ⟨merged, hm, (hf "summary" (.inl (by decide +kernel))).trans rfl⟩

end Native
