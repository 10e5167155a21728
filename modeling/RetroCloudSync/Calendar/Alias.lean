import Mathlib.Data.List.Induction
import RetroCloudSync.Calendar.Import

/-!
# Identity aliases

A verified upload tells which native record an imported one is: `RCTwoWayComplete` compares the
paths of the verified body with those of the upload and records the pairs in `two_way_aliases`
(`complete`). Every later import is renamed by that table (`RCTwoWayRemap`, `RCTwoWayMapResource`).
Imported ids are derived from the content of a child, so an edited child keeps its native id and
gets a new imported one, while the old row stays.

`merge_free`: as long as no completion gives a native id to a second imported id, imported
graphs keep their records and their lists of children. `edited_alarm_merges`: otherwise they do
not.
-/

set_option autoImplicit false

namespace Calendar

open Library Journal Native TwoWay Value FieldValue GraphValue

variable {V : Type} [GraphValue V]

/-! ## Renaming -/

/-- `[aliases objectForKey:id] ?: id`. -/
def stands (aliases : Dict String String) (id : String) : String := (aliases.lookup id).getD id

/-- One record of `RCTwoWayRemap`. -/
def remapRecord (aliases : Dict String String) (r : Record V) : Record V :=
  r.keys.foldl (fun s f => s.put f ((s.lookup f).map (mapItems (stands aliases)))) r

/-- `RCTwoWayRemap`. -/
def remap (graph : Graph V) (aliases : Dict String String) : Graph V :=
  Dict.putAll ∅ (graph.entries.map fun e => (stands aliases e.1, remapRecord aliases e.2))

/-- `RCTwoWayMapResource`. -/
def mapResource (r : Wire V) (aliases : Dict String String) : Wire V :=
  { r with
    paths := Dict.collect r.paths.keys fun path => (r.paths.lookup path).map (stands aliases)
    graph := remap r.graph aliases
    root := stands aliases r.root }

theorem linked_remapRecord (aliases : Dict String String) (r : Record V) (link : String) :
    linked (remapRecord aliases r) link = (linked r link).map (stands aliases) := by
  have hstep : ∀ (s : Record V) (f f' : String),
      (s.put f ((s.lookup f).map (mapItems (stands aliases)))).lookup f' =
        if f' = f then (s.lookup f).map (mapItems (stands aliases)) else s.lookup f' :=
    fun s f f' => Dict.lookup_put s f f' _
  unfold linked remapRecord
  rw [Dict.foldl_view (fun (s : Record V) f => s.lookup f)
    (g := fun _ v => v.map (mapItems (stands aliases))) hstep r.keys_nodup]
  split
  · cases hl : r.lookup link with
    | none => rfl
    | some v =>
      rw [Option.map_some, Option.bind_some, Option.bind_some, children_mapItems]
      cases children v <;> rfl
  · rename_i hm
    rw [Dict.lookup_of_not_mem hm]
    rfl

theorem remap_lookup {graph : Graph V} {aliases : Dict String String} {id : String}
    {r : Record V} (h : (remap graph aliases).lookup id = some r) :
    ∃ id₀ r₀, graph.lookup id₀ = some r₀ ∧ r = remapRecord aliases r₀ := by
  rcases Dict.mem_of_lookup_putAll h with hm | hm
  · obtain ⟨e, he, heq⟩ := List.mem_map.1 hm
    exact ⟨e.1, e.2, AList.mem_lookup_iff.2 he, (Prod.mk.inj heq).2.symm⟩
  · simp at hm

/-- An injective renaming keeps every record. -/
theorem remap_length {graph : Graph V} {aliases : Dict String String}
    (h : Set.InjOn (stands aliases) {id | id ∈ graph.keys}) :
    (remap graph aliases).keys.length = graph.keys.length := by
  have hnodup : (graph.keys.map (stands aliases)).Nodup :=
    List.Nodup.map_on (fun i hi j hj hij => h hi hj hij) graph.keys_nodup
  have hmem : ∀ id, id ∈ (remap graph aliases).keys ↔ id ∈ graph.keys.map (stands aliases) := by
    intro id
    rw [remap, Dict.mem_keys_putAll, List.map_map]
    have hkeys : graph.entries.map (Prod.fst ∘ fun e => (stands aliases e.1,
        remapRecord aliases e.2)) = graph.keys.map (stands aliases) := by
      rw [AList.keys, List.keys, List.map_map]
      rfl
    rw [hkeys]
    simp
  have hperm := (List.perm_ext_iff_of_nodup (remap graph aliases).keys_nodup hnodup).2 hmem
  rw [hperm.length_eq, List.length_map]

/-! ## Matching an upload -/

/-- `LiveReceipt`. -/
def liveReceipt (receipt : Receipt V) : Graph V :=
  Dict.collect receipt.keys fun id => (receipt.lookup id).join

/-- `RCGraphsEqual`. -/
def graphsEqual (a b : Graph V) : Bool :=
  a.keys.length = b.keys.length && a.keys.all fun id => recordsEqual? (a.lookup id) (b.lookup id)

/-- `RCNativeUploadedGraphMatches`. -/
def uploadedGraphMatches (current receipt : Graph V) (scopes : Option Scopes) : Bool :=
  let represented := receipt.keys.foldl (fun g id =>
    if (receipt.lookup id).any (fun expected =>
        entity expected = some "com.apple.contacts.Contact" &&
          (expected.lookup "image").isNone) &&
        !((scopes.bind (·.lookup id)).getD []).contains "image" &&
        (fieldValue (g.lookup id) "image").isSome then
      g.put id ((g.lookup id).map fun r => r.put "image" none)
    else g) current
  graphsEqual represented receipt

/-- `RCTwoWaySubgraph`. -/
def subgraph (graph : Graph V) (ids : List String) : Graph V := Dict.collect ids graph.lookup

/-! ## Verifying an upload -/

/-- What the calendar store and its parser provide. -/
structure Store (V : Type) where
  identity : Identity
  versioned : Bool
  /-- The components of a body, as the parser gives them. -/
  parse : Bytes → Option (Body V)

/-- The unique calendar of an event. -/
def calendarOf (graph : Graph V) (root : String) : Option String :=
  match ((graph.lookup root).map fun r => linked r "calendar").getD [] with
  | [calendar] => some calendar
  | _ => none

/-- `RCCalendarNativeGraph` with `Paths`. -/
def Store.project (store : Store V) (resource : Int) (calendar : String) (bytes : Bytes) :
    Option (Graph V × Dict String String × Option String) :=
  (store.parse bytes).bind fun body =>
    match importGraph store.identity store.versioned resource calendar body with
    | .error _ => none
    | .ok graph => some (graph, paths store.identity resource body graph,
        rootId store.identity resource body graph)

/-- `Validate` of `RCCalendarTwoWay.m`. -/
def Store.validate (store : Store V) (body : Bytes) (wanted : Dict String String)
    (truth : Graph V) (root : String) : Bool :=
  ((calendarOf truth root).bind fun calendar => store.project (-1) calendar body).any
    fun (mapped, generated, _) =>
      let aliases := generated.keys.foldl (fun a path =>
        match generated.lookup path, wanted.lookup path with
        | some id, some native => a.put id (some native)
        | _, _ => a) ∅
      graphsEqual (remap mapped aliases) (subgraph truth (wanted.entries.map Sigma.snd))

/-- The resource a key names. -/
def resourceIdentifier (key : String) : Option Int :=
  if "resource-".toList.isPrefixOf key.toList then
    ((String.ofList (key.toList.drop 9)).toInt?).filter fun n => 0 < n
  else none

/-- `RCCalendarProjectVerified`, for an upload whose resource is still imported. -/
def Store.projectVerified (store : Store V) (current : Wire V) (body : Bytes) : Option (Wire V) :=
  match resourceIdentifier current.key, calendarOf current.graph current.root with
  | some resource, some calendar =>
    match store.project resource calendar body with
    | some (graph, paths, root) =>
      if root = some current.root then
        some { current with body := body, graph := graph, paths := paths }
      else none
    | none => none
  | _, _ => none

/-- A verified write, as `RCTwoWayComplete` reads it with its intent. -/
structure Upload (V : Type) where
  deletes : Bool
  acknowledged : Bool
  resourceKey : String
  href : String
  resultBody : Bytes
  resultETag : Option String
  receipt : Receipt V
  /-- The native id at each path of the uploaded body. -/
  wantedPaths : Dict String String
  scopes : Option Scopes

/-- An upload without an imported resource, checked against its own receipt. -/
def Upload.detached (o : Upload V) (root : String) : Wire V where
  key := o.resourceKey
  href := o.href
  etag := none
  body := o.resultBody
  revision := 0
  root := root
  graph := liveReceipt o.receipt
  paths := o.wantedPaths

/-- What the verified body is, in terms of imported ids: the imported resource, or a projection
of the saved result. -/
def Store.verified (store : Store V) (o : Upload V) : Option (Wire V) → Option (Wire V)
  | some resource =>
    if resource.etag.getD "" = o.resultETag.getD "" ∧ resource.body = o.resultBody then
      some resource
    else if o.resultETag.isSome ∧ o.resultBody ≠ [] then
      store.projectVerified resource o.resultBody
    else none
  | none =>
    ((o.wantedPaths.lookup "root").orElse fun _ => o.wantedPaths.lookup "event:").bind fun root =>
      if store.validate o.resultBody o.wantedPaths (liveReceipt o.receipt) root then
        some (o.detached root)
      else none

/-- `newAliases`: the imported id at each path of the upload is the native one there. -/
def pathAliases (wanted verified : Dict String String) : Option (Dict String String) :=
  if wanted.keys.all fun path => (verified.lookup path).isSome then
    some (wanted.keys.foldl (fun a path =>
      match verified.lookup path with
      | some imported => a.put imported (wanted.lookup path)
      | none => a) ∅)
  else none

/-- One item of `RCTwoWayComplete`: the upload, the imported resource of its `href`, and whether
its transaction commits. -/
structure Completion (V : Type) where
  upload : Upload V
  resource : Option (Wire V)
  committed : Bool

/-- The aliases a completion records, if it records any. -/
def Store.newAliases (store : Store V) (c : Completion V) : Option (Dict String String) :=
  if (c.upload.acknowledged ∧ c.resource.isNone) ∨ c.upload.deletes then none
  else
    (store.verified c.upload c.resource).bind fun verified =>
      (pathAliases c.upload.wantedPaths verified.paths).bind fun new =>
        if uploadedGraphMatches (remap verified.graph new) (liveReceipt c.upload.receipt)
            c.upload.scopes ∧ c.committed then some new
        else none

/-- `two_way_aliases` after a completion. -/
def Store.complete (store : Store V) (aliases : Dict String String) (c : Completion V) :
    Dict String String :=
  match store.newAliases c with
  | none => aliases
  | some new => aliases.update new

/-- `two_way_aliases` after a history of completions. -/
def Store.after (store : Store V) (history : List (Completion V)) : Dict String String :=
  history.foldl store.complete ∅

/-! ## Imported resources -/

/-- A resource as it is imported: its graph, paths and root are those of its body. -/
def Store.Imported (store : Store V) (r : Wire V) : Prop :=
  ∃ resource calendar body, store.parse r.body = some body ∧
    importGraph store.identity store.versioned resource calendar body = .ok r.graph ∧
    paths store.identity resource body r.graph = r.paths ∧
    rootId store.identity resource body r.graph = some r.root

/-- Two ids that one resource can be imported with. -/
def Store.Together (store : Store V) (i j : String) : Prop :=
  ∃ r, store.Imported r ∧ i ∈ r.graph.keys ∧ j ∈ r.graph.keys

/-- Aliases keep the records of every imported graph apart, and with them the number of records
and the lists of children. -/
def Store.NeverMerges (store : Store V) (aliases : Dict String String) : Prop :=
  ∀ r, store.Imported r →
    Set.InjOn (stands aliases) {id | id ∈ r.graph.keys} ∧
    (remap r.graph aliases).keys.length = r.graph.keys.length ∧
    (mapResource r aliases).graph.keys.length = r.graph.keys.length ∧
    ∀ id record, (mapResource r aliases).graph.lookup id = some record →
      ∀ link ∈ relationships, (linked record link).Nodup

/-- The completion gives no native id to a second imported id: imported records of the verified
body that differ get native ids that differ, and an imported id that is not in the verified body
does not stand for a native id of the upload. -/
structure Store.KeepsApart (store : Store V) (aliases : Dict String String) (c : Completion V) :
    Prop where
  within : ∀ v p q i j n, store.verified c.upload c.resource = some v →
    v.paths.lookup p = some i → v.paths.lookup q = some j →
    c.upload.wantedPaths.lookup p = some n → c.upload.wantedPaths.lookup q = some n →
    store.Together i j → i = j
  beside : ∀ v p i j n, store.verified c.upload c.resource = some v →
    v.paths.lookup p = some i → c.upload.wantedPaths.lookup p = some n → store.Together i j →
    (∀ q, c.upload.wantedPaths.lookup q ≠ none → v.paths.lookup q ≠ some j) →
    stands aliases j ≠ n

/-! ## What a completion records -/

/-- An alias comes from a path of the upload, and an id at such a path has one. -/
theorem pathAliases_lookup {wanted verified new : Dict String String}
    (h : pathAliases wanted verified = some new) (i : String) :
    (∀ n, new.lookup i = some n →
      ∃ p, verified.lookup p = some i ∧ wanted.lookup p = some n) ∧
    (new.lookup i = none → ∀ q, wanted.lookup q ≠ none → verified.lookup q ≠ some i) := by
  have hloop : ∀ (l : List String) (a : Dict String String), (∀ p ∈ l, p ∈ wanted.keys) →
      (∀ n, (l.foldl (fun a path =>
          match verified.lookup path with
          | some imported => a.put imported (wanted.lookup path)
          | none => a) a).lookup i = some n →
        (∃ p, verified.lookup p = some i ∧ wanted.lookup p = some n) ∨ a.lookup i = some n) ∧
      ((l.foldl (fun a path =>
          match verified.lookup path with
          | some imported => a.put imported (wanted.lookup path)
          | none => a) a).lookup i = none →
        (∀ q ∈ l, verified.lookup q ≠ some i) ∧ a.lookup i = none) := by
    intro l
    induction l with
    | nil => exact fun a _ => ⟨fun n h => .inr h, fun h => ⟨fun _ h => absurd h List.not_mem_nil, h⟩⟩
    | cons path l ih =>
      intro a hl
      obtain ⟨hsome, hnone⟩ := ih (match verified.lookup path with
        | some imported => a.put imported (wanted.lookup path)
        | none => a) fun p hp => hl p (List.mem_cons_of_mem _ hp)
      obtain ⟨native, hnative⟩ := Option.ne_none_iff_exists'.1
        (Dict.mem_keys_iff.1 (hl path List.mem_cons_self))
      cases hv : verified.lookup path with
      | none =>
        rw [hv] at hsome hnone
        rw [List.foldl_cons, hv]
        refine ⟨hsome, fun h => ⟨fun q hq => ?_, (hnone h).2⟩⟩
        rcases List.mem_cons.1 hq with rfl | hq
        · rw [hv]
          simp
        · exact (hnone h).1 q hq
      | some imported =>
        rw [hv] at hsome hnone
        dsimp only at hsome hnone
        rw [List.foldl_cons, hv]
        dsimp only
        rw [Dict.lookup_put] at hsome hnone
        refine ⟨fun n hn => ?_, fun h => ?_⟩
        · rcases hsome n hn with hp | ha
          · exact .inl hp
          · split at ha
            · rename_i hi
              exact .inl ⟨path, hi ▸ hv, ha⟩
            · exact .inr ha
        · obtain ⟨hq, ha⟩ := hnone h
          by_cases hi : i = imported
          · rw [if_pos hi, hnative] at ha
            cases ha
          · rw [if_neg hi] at ha
            refine ⟨fun q hm => ?_, ha⟩
            rcases List.mem_cons.1 hm with rfl | hm
            · rw [hv, Ne, Option.some.injEq]
              exact fun he => hi he.symm
            · exact hq q hm
  unfold pathAliases at h
  split at h
  · cases h
    obtain ⟨hsome, hnone⟩ := hloop wanted.keys ∅ fun p hp => hp
    refine ⟨fun n hn => (hsome n hn).resolve_right (by simp), fun hi q hq => ?_⟩
    exact (hnone hi).1 q (Dict.mem_keys_iff.2 hq)
  · cases h

theorem newAliases_some {store : Store V} {c : Completion V} {new : Dict String String}
    (h : store.newAliases c = some new) :
    ∃ v, store.verified c.upload c.resource = some v ∧
      pathAliases c.upload.wantedPaths v.paths = some new := by
  unfold Store.newAliases at h
  split at h
  · cases h
  · obtain ⟨v, hv, h⟩ := Option.bind_eq_some_iff.1 h
    obtain ⟨a, ha, h⟩ := Option.bind_eq_some_iff.1 h
    split at h
    · cases h
      exact ⟨v, hv, ha⟩
    · cases h

theorem stands_update (aliases new : Dict String String) (i : String) :
    stands (aliases.update new) i = (new.lookup i).getD (stands aliases i) := by
  unfold stands
  rw [Dict.lookup_update]
  cases new.lookup i <;> rfl

/-! ## No merge -/

/-- No two ids of one import stand for the same native id. -/
def Store.Apart (store : Store V) (aliases : Dict String String) : Prop :=
  ∀ i j, store.Together i j → stands aliases i = stands aliases j → i = j

theorem Store.Together.symm {store : Store V} {i j : String} (h : store.Together i j) :
    store.Together j i := by
  obtain ⟨r, hr, hi, hj⟩ := h
  exact ⟨r, hr, hj, hi⟩

/-- **One completion** that keeps native ids apart. -/
theorem Store.Apart.complete {store : Store V} {aliases : Dict String String}
    (h : store.Apart aliases) {c : Completion V} (hc : store.KeepsApart aliases c) :
    store.Apart (store.complete aliases c) := by
  unfold Store.complete
  cases hnew : store.newAliases c with
  | none => exact h
  | some new =>
    obtain ⟨v, hv, hpaths⟩ := newAliases_some hnew
    intro i j hij hstands
    dsimp only at hstands
    rw [stands_update, stands_update] at hstands
    obtain ⟨hi, hni⟩ := pathAliases_lookup hpaths i
    obtain ⟨hj, hnj⟩ := pathAliases_lookup hpaths j
    cases ha : new.lookup i with
    | none =>
      cases hb : new.lookup j with
      | none =>
        rw [ha, hb] at hstands
        exact h i j hij hstands
      | some n =>
        obtain ⟨q, hvq, hwq⟩ := hj n hb
        rw [ha, hb] at hstands
        exact absurd hstands (hc.beside v q j i n hv hvq hwq hij.symm (hni ha))
    | some n =>
      obtain ⟨p, hvp, hwp⟩ := hi n ha
      cases hb : new.lookup j with
      | none =>
        rw [ha, hb] at hstands
        exact absurd hstands.symm (hc.beside v p i j n hv hvp hwp hij (hnj hb))
      | some m =>
        obtain ⟨q, hvq, hwq⟩ := hj m hb
        rw [ha, hb] at hstands
        obtain rfl : n = m := hstands
        exact hc.within v p q i j n hv hvp hvq hwp hwq hij

theorem Store.Apart.neverMerges {store : Store V} {aliases : Dict String String}
    (h : store.Apart aliases) : store.NeverMerges aliases := by
  intro r hr
  have hinj : Set.InjOn (stands aliases) {id | id ∈ r.graph.keys} :=
    fun i hi j hj hij => h i j ⟨r, hr, hi, hj⟩ hij
  refine ⟨hinj, remap_length hinj, remap_length hinj, fun id record hrecord link hlink => ?_⟩
  obtain ⟨id₀, r₀, hr₀, rfl⟩ := remap_lookup hrecord
  obtain ⟨resource, calendar, body, -, hgraph, -⟩ := hr
  obtain ⟨hnodup, hin⟩ := importGraph_children hgraph hr₀ hlink
  rw [linked_remapRecord]
  exact List.Nodup.map_on (fun i hi j hj hij => hinj (hin i hi) (hin j hj) hij) hnodup

/-- **No merge.** In a history whose completions give no native id to a second imported id,
the aliases keep the records of every imported graph apart at every point. -/
theorem merge_free (store : Store V) {history : List (Completion V)}
    (h : ∀ past c, past ++ [c] <+: history → store.KeepsApart (store.after past) c) :
    ∀ past, past <+: history → store.NeverMerges (store.after past) := by
  suffices hapart : ∀ past, past <+: history → store.Apart (store.after past) from
    fun past hp => (hapart past hp).neverMerges
  intro past
  induction past using List.reverseRecOn with
  | nil =>
    intro _ i j _ hij
    simpa [Store.after, stands] using hij
  | append_singleton past c ih =>
    intro hp
    have hbefore : past <+: history := (List.prefix_append past [c]).trans hp
    rw [Store.after, List.foldl_append]
    exact (ih hbefore).complete (h past c hp)

/-! ## A case -/

/-- An identity table that spells out its owner and its key. -/
def spelled (owner key : String) : String :=
  String.ofList (owner.toList.flatMap (fun c => ['-', c]) ++ ':' :: key.toList)

theorem spelled_inj {owner key owner' key' : String}
    (h : spelled owner key = spelled owner' key') : owner = owner' ∧ key = key' := by
  have hlist : ∀ l l' d d' : List Char,
      l.flatMap (fun c => ['-', c]) ++ ':' :: d = l'.flatMap (fun c => ['-', c]) ++ ':' :: d' →
        l = l' ∧ d = d' := by
    intro l
    induction l with
    | nil =>
      intro l' d d' h
      cases l' with
      | nil => exact ⟨rfl, by simpa using h⟩
      | cons c l' => simp at h
    | cons c l ih =>
      intro l' d d' h
      cases l' with
      | nil => simp at h
      | cons c' l' =>
        simp only [List.flatMap_cons, List.cons_append, List.nil_append, List.cons.injEq,
          true_and] at h
        obtain ⟨hl, hd⟩ := ih l' d d' h.2
        exact ⟨by rw [h.1, hl], hd⟩
  have hc := congrArg String.toList h
  simp only [spelled, String.toList_ofList] at hc
  obtain ⟨ho, hk⟩ := hlist _ _ _ _ hc
  exact ⟨String.toList_inj.1 ho, String.toList_inj.1 hk⟩

def noScalars : Scalars Plist := ⟨∅, fun _ _ => rfl⟩

def reminder (trigger : String) : AlarmComponent Plist :=
  ⟨some "DISPLAY", some trigger, false, .ok noScalars⟩

def reminders (triggers : List String) : Body Plist :=
  ⟨"uid", [⟨"", false, .ok noScalars, none, [], [], triggers.map reminder⟩]⟩

/-- Bodies of one event with one reminder, or with two. -/
def reminderStore : Store Plist where
  identity := ⟨fun s => String.ofList (s.toList.map Char.toLower), spelled, spelled_inj⟩
  versioned := false
  parse
    | [10] => some (reminders ["-PT10M"])
    | [30] => some (reminders ["-PT30M"])
    | [30, 10] => some (reminders ["-PT30M", "-PT10M"])
    | _ => none

/-- The resource as it is imported from a body. -/
def Store.importOf (store : Store V) (bytes : Bytes) : Wire V :=
  match store.project 1 "calendar" bytes with
  | some (graph, paths, some root) =>
    ⟨"resource-1", "/calendar/event.ics", some "\"v2\"", bytes, 1, root, graph, paths⟩
  | _ => ⟨"", "", none, bytes, 0, "", ∅, ∅⟩

theorem importOf_imported {store : Store V} {bytes : Bytes}
    (h : ((store.project 1 "calendar" bytes).any fun p => p.2.2.isSome) = true) :
    store.Imported (store.importOf bytes) := by
  unfold Store.importOf
  cases hp : store.project 1 "calendar" bytes with
  | none => rw [hp] at h; cases h
  | some p =>
    obtain ⟨graph, pathsOf, root⟩ := p
    cases root with
    | none => rw [hp] at h; cases h
    | some root =>
      unfold Store.project at hp
      obtain ⟨body, hbody, hp⟩ := Option.bind_eq_some_iff.1 hp
      split at hp
      · cases hp
      · rename_i g hg
        simp only [Option.some.injEq, Prod.mk.injEq] at hp
        obtain ⟨rfl, rfl, hroot⟩ := hp
        exact ⟨1, "calendar", body, hbody, hg, rfl, hroot⟩

/-- The id of the reminder in a body with only one. -/
def reminderId (bytes : Bytes) : String :=
  ((reminderStore.importOf bytes).paths.lookup "event:/display alarms:0").getD ""

/-- The reminder was moved from 10 to 30 minutes before the event in the native store, where it
keeps its id, and the edit was uploaded and verified. -/
def movedReminder : Completion Plist where
  upload :=
    { deletes := false
      acknowledged := false
      resourceKey := "resource-1"
      href := "/calendar/event.ics"
      resultBody := [30]
      resultETag := some "\"v2\""
      receipt := Dict.ofList ((remap (reminderStore.importOf [30]).graph
        (Dict.ofList [(reminderId [30], reminderId [10])])).entries.map fun e => (e.1, some e.2))
      wantedPaths := Dict.ofList [("event:", (reminderStore.importOf [30]).root),
        ("event:/display alarms:0", reminderId [10])]
      scopes := none }
  resource := some (reminderStore.importOf [30])
  committed := true

/-- **An edited reminder merges with a new one**: when the old trigger comes back beside the new
one, both imported reminders stand for the same native one. -/
theorem edited_alarm_merges :
    ¬ ∀ (store : Store Plist) (history : List (Completion Plist)),
      (∀ c ∈ history, ∀ r, c.resource = some r → store.Imported r) →
        ∀ past, past <+: history → store.NeverMerges (store.after past) := by
  intro h
  have himported : ∀ c ∈ [movedReminder], ∀ r, c.resource = some r → reminderStore.Imported r := by
    intro c hc r hr
    rw [List.mem_singleton.1 hc] at hr
    cases hr
    exact importOf_imported (by decide +kernel)
  obtain ⟨hinj, -⟩ := h reminderStore [movedReminder] himported [movedReminder] List.prefix_rfl
    (reminderStore.importOf [30, 10]) (importOf_imported (by decide +kernel))
  have heq : reminderId [30] = reminderId [10] :=
    hinj (show reminderId [30] ∈ (reminderStore.importOf [30, 10]).graph.keys by decide +kernel)
      (show reminderId [10] ∈ (reminderStore.importOf [30, 10]).graph.keys by decide +kernel)
      (by decide +kernel)
  revert heq
  decide +kernel

/-- The native ids of an event with one reminder that was created in the native store. -/
def createdPaths : Dict String String :=
  Dict.ofList [("event:", "native-event"), ("event:/display alarms:0", "native-reminder")]

/-- The event was created in the native store, uploaded and verified. -/
def createdEvent : Completion Plist where
  upload :=
    { movedReminder.upload with
      resultBody := [10]
      receipt := Dict.ofList ((remap (reminderStore.importOf [10]).graph
        (Dict.ofList [((reminderStore.importOf [10]).root, "native-event"),
          (reminderId [10], "native-reminder")])).entries.map fun e => (e.1, some e.2))
      wantedPaths := createdPaths }
  resource := some (reminderStore.importOf [10])
  committed := true

theorem createdPaths_lookup {p n : String} (h : createdPaths.lookup p = some n) :
    p = "event:" ∧ n = "native-event" ∨
      p = "event:/display alarms:0" ∧ n = "native-reminder" := by
  have hm : (⟨p, n⟩ : Sigma fun _ : String => String) ∈ createdPaths.entries :=
    AList.mem_lookup_iff.1 h
  have hentries : createdPaths.entries =
      [⟨"event:", "native-event"⟩, ⟨"event:/display alarms:0", "native-reminder"⟩] := by
    decide +kernel
  rw [hentries] at hm
  simpa using hm

theorem createdPaths_inj {p q n : String} (hp : createdPaths.lookup p = some n)
    (hq : createdPaths.lookup q = some n) : p = q := by
  rcases createdPaths_lookup hp with ⟨rfl, rfl⟩ | ⟨rfl, rfl⟩ <;>
    rcases createdPaths_lookup hq with ⟨rfl, h⟩ | ⟨rfl, h⟩ <;> first | rfl | simp at h

/-- The native ids of the upload are not ids of an import. -/
theorem createdPaths_native {store : Store V} {i j p n : String} (h : store.Together i j)
    (hp : createdPaths.lookup p = some n) : j ≠ n := by
  obtain ⟨r, ⟨_, _, _, -, hgraph, -⟩, -, hj⟩ := h
  obtain ⟨owner, key, rfl⟩ := importGraph_keys hgraph hj
  intro he
  have hc := congrArg (fun s : String => s.toList.head?) he
  rcases createdPaths_lookup hp with ⟨-, rfl⟩ | ⟨-, rfl⟩ <;>
    simp [Identity.id, String.toList_append] at hc

theorem merge_free_created :
    reminderStore.NeverMerges (reminderStore.after [createdEvent]) ∧
      stands (reminderStore.after [createdEvent]) (reminderId [10]) = "native-reminder" := by
  have hkeeps : reminderStore.KeepsApart ∅ createdEvent := by
    constructor
    · intro v p q i j n _ hi hj hn hm _
      rw [createdPaths_inj hn hm] at hi
      exact Option.some.inj (hi.symm.trans hj)
    · intro v p i j n _ _ hn hij _
      exact createdPaths_native hij hn
  refine ⟨@merge_free Plist _ reminderStore [createdEvent] (fun past c hp => ?_) _
    List.prefix_rfl, by decide +kernel⟩
  obtain ⟨rest, hrest⟩ := hp
  cases past with
  | nil =>
    cases hrest
    exact hkeeps
  | cons d past =>
    have hlen := congrArg List.length hrest
    simp at hlen

end Calendar
