import RetroCloudSync.Journal.Tables
import RetroCloudSync.Native.Record

/-!
# Receipts of native uploads

`captureReceipt` and `acceptReceipt` of `RCNativeSystemStore.m`. When an upload is queued its
native readback is captured; when the upload was acknowledged, `acceptReceipt` advances the saved
graph (what the wire holds) and the saved snapshot (what the native store showed for it) of the
resource, in the fields the receipt acknowledges and in no other.

`accept_then_changed`: after that the next comparison reports exactly the edits made since.
-/

set_option autoImplicit false

namespace Native

open Library Journal

/-- A saved native resource, as `RCLoadNative` reads it. -/
structure Resource (V : Type) where
  root : String
  graph : Graph V
  snapshot : Graph V
  ids : Dict String String
  pending : Bool
  body : Bytes
  etag : Option Bytes
  paths : Dict String String

/-- A row of `native_upload_receipts`; what does not decode is `none`. -/
structure UploadReceipt (V : Type) where
  root : Option String
  ids : Option (Dict String String)
  snapshot : Option (Graph V)

/-- What the two methods ask of the database and of the native store. -/
structure Surroundings (V : Type) where
  /-- The row of `native_upload_receipts`, if there is one. -/
  uploadReceipt : Except RCError (Option (UploadReceipt V))
  /-- `RCLoadNative`. -/
  load : String → Except RCError (Option (Resource V))
  /-- `rawGraph:`. -/
  rawGraph : Resource V → Except RCError (Graph V)
  /-- `readResource:`. -/
  readResource : Resource V → Except RCError (Graph V)
  /-- `RCWriteJournalGet` of the acknowledged operation. -/
  operation : Except RCError Operation
  /-- `two_way_intents.paths`, if the row is there. -/
  intentPaths : Except RCError (Option (Dict String String))
  /-- `RCSaveNative`. -/
  save : Resource V → Except RCError Unit

open Value

variable {V : Type} [Value V]

/-- The dictionaries `isEqual:` each other. -/
def idsEqual (a b : Dict String String) : Bool :=
  (a.keys ++ b.keys).all fun k => a.lookup k = b.lookup k

/-- `captureReceipt:`, giving the row it stores. -/
def captureReceipt (env : Surroundings V) (receipt : Receipt V) (scopes : Scopes)
    (resource : Resource V) : Except RCError (UploadReceipt V) := do
  let raw ← env.rawGraph resource
  if scopeMatches (changedGraph resource.graph resource.snapshot raw) receipt scopes then
    pure ⟨some resource.root, some resource.ids, some raw⟩
  else throw ⟨1, "Native edit changed while preparing its upload"⟩

/-! ## Advancing the saved graphs -/

/-- `Put` of each listed field from `src`. -/
def putFields (record src : Record V) (fields : List String) : Record V :=
  fields.foldl (fun r f => r.put f (src.lookup f)) record

/-- The saved graphs of a resource while its receipt is accepted. -/
structure Saved (V : Type) where
  graph : Graph V
  snapshot : Graph V
  touched : Bool

/-- What belongs to one record in both graphs. -/
def Saved.at (s : Saved V) (key : String) : Option (Record V) × Option (Record V) :=
  (s.graph.lookup key, s.snapshot.lookup key)

section
variable (contacts captured : Bool) (root : String) (raw : Graph V) (receipt : Receipt V)
  (scopes : Scopes)

/-- A newly acknowledged alarm of this resource. -/
def newAlarm (key : String) : Option (Record V) → Bool
  | none => false
  | some value => !contacts && (raw.lookup key).isSome &&
      ((entity value).map fun e => "Alarm".toList.isSuffixOf e.toList).getD false &&
      (((value.lookup "owner").bind children).getD []).contains root

/-- Whether an entry of the receipt concerns this resource. -/
def concerns (key : String) (value base : Option (Record V)) : Bool :=
  base.isSome || root = key || newAlarm contacts root raw key value ||
    (captured && (raw.lookup key).isSome)

/-- The two records of an id after its entry was accepted. -/
def advanced (key : String) (value : Option (Record V)) :
    Option (Record V) × Option (Record V) → Option (Record V) × Option (Record V)
  | (base, snapshot) =>
    match value with
    | none => (none, none)
    | some value =>
      match scopes.lookup key with
      | some fields => (some (putFields (base.getD ∅) value fields),
          (raw.lookup key).map fun native => putFields (snapshot.getD ∅) native fields)
      | none => (some value, raw.lookup key)

/-- One entry of the loop over the receipt. -/
def acceptEntry (s : Saved V) (key : String) : Saved V :=
  match receipt.lookup key with
  | none => s
  | some value =>
    if concerns contacts captured root raw key value (s.graph.lookup key) then
      let (base, snapshot) := advanced raw scopes key value (s.at key)
      ⟨s.graph.put key base, s.snapshot.put key snapshot, true⟩
    else s

/-- The loop over the receipt. -/
def acceptGraphs (graph snapshot : Graph V) : Saved V :=
  receipt.keys.foldl (acceptEntry contacts captured root raw receipt scopes)
    ⟨graph, snapshot, false⟩

end

/-! ## Accepting a receipt -/

/-- The resources a receipt may concern: the captured root, or every id of the receipt. -/
def loadSaved (env : Surroundings V) : List String → Except RCError (List (Resource V))
  | [] => pure []
  | key :: keys => do
    let r ← env.load key
    if (r.map Resource.pending).getD false then
      throw ⟨1, "An interrupted native save requires reconciliation"⟩
    else do
      let rest ← loadSaved env keys
      pure (r.toList ++ rest)

/-- Save one resource whose graphs were advanced, pinned to the verified version. -/
def saveAdvanced (env : Surroundings V) (r : Resource V) (s : Saved V) :
    Except RCError (Resource V) := do
  let verified ← env.operation
  let version := match verified.resultBody, verified.resultETag with
    | some body, some etag => (body, some etag)
    | _, _ => (r.body, r.etag)
  match ← env.intentPaths with
  | none => throw ⟨1, "Missing uploaded native paths"⟩
  | some paths => do
    let updated : Resource V :=
      ⟨r.root, s.graph, s.snapshot, r.ids, false, version.1, version.2, paths⟩
    env.save updated
    pure updated

/-- The last loop of `acceptReceipt:`: advance every saved resource the receipt touches. -/
def acceptAll (env : Surroundings V) (contacts : Bool) (captured : Option (Graph V))
    (receipt : Receipt V) (scopes : Scopes) :
    List (Resource V) → Except RCError (List (Resource V))
  | [] => pure []
  | r :: rest => do
    let raw ← match captured with
      | some native => pure native
      | none => env.rawGraph r
    let s := acceptGraphs contacts captured.isSome r.root raw receipt scopes r.graph r.snapshot
    let updated ← if s.touched then (fun u => [u]) <$> saveAdvanced env r s else pure []
    let others ← acceptAll env contacts captured receipt scopes rest
    pure (updated ++ others)

/-- The graphs of the saved resources together. -/
def union (graphs : List (Graph V)) : Graph V :=
  graphs.foldl (fun all g => g.keys.foldl (fun all k => all.put k (g.lookup k)) all) ∅

/-- `acceptReceipt:`, giving the newer truth it reports and the resources it saves. A receipt
without a captured row is checked against the checkpointed graph of a creation, else against a
fresh read. -/
def acceptReceipt (env : Surroundings V) (contacts : Bool) (receipt : Receipt V)
    (scopes : Scopes) : Option (Graph V) × Except RCError (List (Resource V)) :=
  match env.uploadReceipt with
  | .error e => (none, .error e)
  | .ok (some ⟨some root, some ids, some native⟩) =>
    (none, do
      let saved ← loadSaved env [root]
      if (saved.map fun r => idsEqual ids r.ids) = [true] then
        acceptAll env contacts (some native) receipt scopes saved
      else throw ⟨1, "Native upload ownership changed; reconciliation required"⟩)
  | .ok (some _) => (none, .error ⟨1, "Invalid native upload receipt"⟩)
  | .ok none =>
    match loadSaved env receipt.keys with
    | .error e => (none, .error e)
    | .ok saved =>
      match saved, scopeMatches (union (saved.map Resource.graph)) receipt scopes with
      | [r], true => (none, acceptAll env contacts (some r.snapshot) receipt scopes [r])
      | _, _ =>
        match saved.mapM env.readResource with
        | .error e => (none, .error e)
        | .ok graphs =>
          (some (union graphs),
            if scopeMatches (union graphs) receipt scopes then
              acceptAll env contacts none receipt scopes saved
            else .error ⟨1, "Newer native edits remain pending"⟩)

/-! ## What the loop over the receipt does -/

section
variable {contacts captured : Bool} {root : String} {raw : Graph V} {receipt : Receipt V}
  {scopes : Scopes}

omit [Value V] in
theorem putFields_lookup (record src : Record V) (fields : List String) (f : String) :
    (putFields record src fields).lookup f =
      if f ∈ fields then src.lookup f else record.lookup f := by
  induction fields generalizing record with
  | nil => simp [putFields]
  | cons g fields ih =>
    show (putFields (record.put g (src.lookup g)) src fields).lookup f = _
    rw [ih, Dict.lookup_put]
    by_cases hg : f = g
    · subst hg
      simp
    · simp [hg]

/-- One entry advances the two records of its own id. -/
def entryStep (contacts captured : Bool) (root : String) (raw : Graph V) (receipt : Receipt V)
    (scopes : Scopes) (key : String) (at' : Option (Record V) × Option (Record V)) :
    Option (Record V) × Option (Record V) :=
  match receipt.lookup key with
  | none => at'
  | some value =>
    if concerns contacts captured root raw key value at'.1 then advanced raw scopes key value at'
    else at'

theorem acceptEntry_at (s : Saved V) (key key' : String) :
    (acceptEntry contacts captured root raw receipt scopes s key).at key' =
      if key' = key then entryStep contacts captured root raw receipt scopes key (s.at key)
      else s.at key' := by
  have hself : s.at key' = if key' = key then s.at key else s.at key' := by
    by_cases hk : key' = key
    · rw [if_pos hk, hk]
    · rw [if_neg hk]
  unfold acceptEntry entryStep
  cases receipt.lookup key with
  | none => exact hself
  | some value =>
    dsimp only
    by_cases hc : concerns contacts captured root raw key value (s.graph.lookup key) = true
    · rw [if_pos hc, if_pos (show concerns _ _ _ _ _ _ (s.at key).1 = true from hc)]
      show (_, _) = _
      rw [Dict.lookup_put, Dict.lookup_put]
      by_cases hk : key' = key
      · simp only [if_pos hk]
      · simp only [if_neg hk]
        rfl
    · rw [if_neg hc, if_neg (show ¬ concerns _ _ _ _ _ _ (s.at key).1 = true from hc)]
      exact hself

theorem acceptGraphs_at (graph snapshot : Graph V) (key : String) :
    (acceptGraphs contacts captured root raw receipt scopes graph snapshot).at key =
      entryStep contacts captured root raw receipt scopes key
        (graph.lookup key, snapshot.lookup key) := by
  unfold acceptGraphs
  rw [Dict.foldl_view Saved.at acceptEntry_at receipt.keys_nodup]
  split
  · rfl
  · rename_i hk
    unfold entryStep
    rw [Dict.lookup_of_not_mem hk]
    rfl

theorem acceptEntry_touched (s : Saved V) (key : String) :
    acceptEntry contacts captured root raw receipt scopes s key = s ∨
      (acceptEntry contacts captured root raw receipt scopes s key).touched = true := by
  unfold acceptEntry
  cases receipt.lookup key with
  | none => exact .inl rfl
  | some value =>
    dsimp only
    split
    · exact .inr rfl
    · exact .inl rfl

theorem acceptGraphs_untouched {graph snapshot : Graph V}
    (h : (acceptGraphs contacts captured root raw receipt scopes graph snapshot).touched = false) :
    acceptGraphs contacts captured root raw receipt scopes graph snapshot =
      ⟨graph, snapshot, false⟩ := by
  have stays : ∀ (l : List String) (s : Saved V), s.touched = true →
      (l.foldl (acceptEntry contacts captured root raw receipt scopes) s).touched = true := by
    intro l
    induction l with
    | nil => exact fun s hs => hs
    | cons k l ih =>
      intro s hs
      rcases acceptEntry_touched s k with he | ht
      · exact ih _ (by rw [he]; exact hs)
      · exact ih _ ht
  have keeps : ∀ (l : List String) (s : Saved V),
      (l.foldl (acceptEntry contacts captured root raw receipt scopes) s).touched = false →
      l.foldl (acceptEntry contacts captured root raw receipt scopes) s = s := by
    intro l
    induction l with
    | nil => exact fun s _ => rfl
    | cons k l ih =>
      intro s hs
      rw [List.foldl_cons] at hs ⊢
      rcases acceptEntry_touched s k with he | ht
      · rw [he] at hs ⊢
        exact ih s hs
      · rw [stays l _ ht] at hs
        cases hs
  exact keeps _ _ h

end

/-! ## What is saved for a captured receipt -/

/-- The resource as it is saved after the receipt was accepted. -/
def latest (r : Resource V) (out : List (Resource V)) : Resource V := out.getLast?.getD r

omit [Value V] in
theorem saveAdvanced_graphs {env : Surroundings V} {r u : Resource V} {s : Saved V}
    (h : saveAdvanced env r s = .ok u) : u.graph = s.graph ∧ u.snapshot = s.snapshot := by
  unfold saveAdvanced at h
  cases ho : env.operation with
  | error e => rw [ho] at h; cases h
  | ok verified =>
    cases hp : env.intentPaths with
    | error e => rw [ho, hp] at h; cases h
    | ok paths =>
      cases paths with
      | none => rw [ho, hp] at h; cases h
      | some paths =>
        rw [ho, hp] at h
        simp only [bind, Except.bind] at h
        split at h
        · cases h
        · cases h
          exact ⟨rfl, rfl⟩

omit [Value V] in
theorem loadSaved_one {env : Surroundings V} {root : String} {r : Resource V}
    {saved : List (Resource V)} (hload : env.load root = .ok (some r))
    (h : loadSaved env [root] = .ok saved) : saved = [r] := by
  simp only [loadSaved, hload, bind, Except.bind, pure, Except.pure] at h
  split at h
  · cases h
  · cases h
    rfl

section
variable {env : Surroundings V} {contacts : Bool} {receipt : Receipt V} {scopes : Scopes}
  {K : Graph V} {r : Resource V} {out : List (Resource V)}

theorem acceptAll_one (h : acceptAll env contacts (some K) receipt scopes [r] = .ok out) :
    (latest r out).graph =
        (acceptGraphs contacts true r.root K receipt scopes r.graph r.snapshot).graph ∧
      (latest r out).snapshot =
        (acceptGraphs contacts true r.root K receipt scopes r.graph r.snapshot).snapshot := by
  simp only [acceptAll, bind, Except.bind, pure, Except.pure, Option.isSome_some] at h
  cases ht : (acceptGraphs contacts true r.root K receipt scopes r.graph r.snapshot).touched with
  | false =>
    rw [if_neg (by simp [ht])] at h
    cases h
    rw [acceptGraphs_untouched ht]
    exact ⟨rfl, rfl⟩
  | true =>
    rw [if_pos ht] at h
    cases hu : saveAdvanced env r
        (acceptGraphs contacts true r.root K receipt scopes r.graph r.snapshot) with
    | error e => rw [hu] at h; cases h
    | ok u =>
      rw [hu] at h
      cases h
      exact saveAdvanced_graphs hu

/-- **What `acceptReceipt:` saves** for a captured receipt: the advanced graphs. -/
theorem acceptReceipt_captured {root : String} {ids : Dict String String}
    (hrow : env.uploadReceipt = .ok (some ⟨some root, some ids, some K⟩))
    (hload : env.load root = .ok (some r))
    (hok : (acceptReceipt env contacts receipt scopes).2 = .ok out) :
    (latest r out).graph =
        (acceptGraphs contacts true r.root K receipt scopes r.graph r.snapshot).graph ∧
      (latest r out).snapshot =
        (acceptGraphs contacts true r.root K receipt scopes r.graph r.snapshot).snapshot := by
  unfold acceptReceipt at hok
  rw [hrow] at hok
  simp only [bind, Except.bind] at hok
  cases hs : loadSaved env [root] with
  | error e => rw [hs] at hok; cases hok
  | ok saved =>
    rw [hs, loadSaved_one hload hs] at hok
    dsimp only at hok
    split at hok
    · exact acceptAll_one hok
    · cases hok

end

/-! ## What the next comparison finds -/

/-- A field of a record of a graph. -/
def field (g : Graph V) (key f : String) : Option V := (g.lookup key).bind fun r => r.lookup f

/-- The receipt acknowledges field `f` of record `key`: it is in its scope, or the receipt is of
the whole record. -/
def acknowledged (scopes : Scopes) (key f : String) : Bool :=
  match scopes.lookup key with
  | some fields => fields.contains f
  | none => true

/-- The records a receipt deletes are records of the graph it started from. -/
def RetiresBase (receipt : Receipt V) (base : Graph V) : Prop :=
  ∀ key, receipt.lookup key = some none → base.lookup key ≠ none

section
variable {contacts : Bool} {root : String} {receipt : Receipt V} {scopes : Scopes}
  {base snapshot K C : Graph V} {key : String}

/-- Both records of an acknowledged record that was captured. -/
theorem accepted_record {value kr : Record V} (hv : receipt.lookup key = some (some value))
    (hk : K.lookup key = some kr) :
    ∃ record observed,
      (acceptGraphs contacts true root K receipt scopes base snapshot).at key =
        (some record, some observed) ∧
      ∀ f, record.lookup f =
          (if acknowledged scopes key f then value.lookup f else field base key f) ∧
        observed.lookup f =
          if acknowledged scopes key f then field K key f else field snapshot key f := by
  have hc : concerns contacts true root K key (some value) (base.lookup key) = true := by
    simp [concerns, hk]
  rw [acceptGraphs_at, entryStep, hv]
  dsimp only
  rw [if_pos hc]
  unfold advanced acknowledged
  cases hs : scopes.lookup key with
  | none => exact ⟨value, kr, by rw [hk], fun f => by simp [field, hk]⟩
  | some fields =>
    refine ⟨_, _, by rw [hk]; rfl, fun f => ?_⟩
    simp only [putFields_lookup, List.contains_iff_mem]
    have empty : ∀ (g : Graph V), ((g.lookup key).getD ∅).lookup f = field g key f := by
      intro g
      unfold field
      cases g.lookup key with
      | none => exact AList.lookup_empty f
      | some r => rfl
    have native : field K key f = kr.lookup f := by simp [field, hk]
    rw [empty, empty, native]
    exact ⟨rfl, rfl⟩

/-- The field a comparison finds in a record of the receipt. -/
theorem accepted_field {value kr cr : Record V} (hv : receipt.lookup key = some (some value))
    (hk : K.lookup key = some kr) (hc : C.lookup key = some cr) :
    let s := acceptGraphs contacts true root K receipt scopes base snapshot
    (changedGraph s.graph s.snapshot C).lookup key ≠ none ∧
      ∀ f, alarmField f = false →
        field (changedGraph s.graph s.snapshot C) key f =
          if acknowledged scopes key f then
            if same (field K key f) (field C key f) then value.lookup f else field C key f
          else if same (field snapshot key f) (field C key f) then field base key f
          else field C key f := by
  intro s
  obtain ⟨record, observed, hat, hfields⟩ : ∃ record observed, s.at key = _ ∧ _ :=
    accepted_record hv hk
  have hnext : (changedGraph s.graph s.snapshot C).lookup key =
      some (changedFields s.graph s.snapshot C record observed cr) :=
    changedGraph_both (Prod.ext_iff.1 hat).1 (Prod.ext_iff.1 hat).2 hc
  refine ⟨by rw [hnext]; simp, fun f hf => ?_⟩
  have hcf : field C key f = cr.lookup f := by simp [field, hc]
  have hnf : field (changedGraph s.graph s.snapshot C) key f =
      (changedFields s.graph s.snapshot C record observed cr).lookup f := by
    simp [field, hnext]
  rw [hnf, changedFields_lookup, (hfields f).1, (hfields f).2, wireValue, hf, hcf]
  cases acknowledged scopes key f <;> simp

/-- A live record of the receipt that the readback shows is found as it was acknowledged, when
nothing changed in it. -/
theorem accepted_unchanged {value kr : Record V} (hv : receipt.lookup key = some (some value))
    (hk : K.lookup key = some kr) (hc : C.lookup key = some kr)
    (hrest : ∀ f, acknowledged scopes key f = false →
      same (field snapshot key f) (field K key f) = true) :
    let s := acceptGraphs contacts true root K receipt scopes base snapshot
    (changedGraph s.graph s.snapshot C).lookup key = s.graph.lookup key := by
  intro s
  obtain ⟨record, observed, hat, hfields⟩ : ∃ record observed, s.at key = _ ∧ _ :=
    accepted_record hv hk
  have hg : s.graph.lookup key = some record := (Prod.ext_iff.1 hat).1
  have hkf : ∀ f, field K key f = kr.lookup f := fun f => by simp [field, hk]
  rw [changedGraph_both hg (Prod.ext_iff.1 hat).2 hc, hg, changedFields_unchanged]
  intro f
  rw [(hfields f).2]
  cases ha : acknowledged scopes key f with
  | true => rw [if_pos rfl, hkf]; exact same_refl _
  | false =>
    rw [if_neg (by simp), ← hkf]
    exact hrest f ha

/-- **Nothing changed, nothing found**: when the readback is the captured one and nothing out of
scope had changed, the next comparison gives back the accepted graph. -/
theorem accepted_quiet (hmatch : scopeMatches (changedGraph base snapshot K) receipt scopes = true)
    (hretires : RetiresBase receipt base) (hsame : C.Same K)
    (hrecords : ∀ key, receipt.lookup key = none → K.lookup key = snapshot.lookup key)
    (hfields : ∀ key value, receipt.lookup key = some (some value) → K.lookup key ≠ none →
      ∀ f, acknowledged scopes key f = false →
        same (field snapshot key f) (field K key f) = true) :
    let s := acceptGraphs contacts true root K receipt scopes base snapshot
    (changedGraph s.graph s.snapshot C).Same s.graph := by
  intro s key
  have hstep : s.at key = entryStep contacts true root K receipt scopes key
      (base.lookup key, snapshot.lookup key) := acceptGraphs_at base snapshot key
  cases hv : receipt.lookup key with
  | none =>
    -- not in the receipt: what is shown is what was shown
    rw [entryStep, hv] at hstep
    have hs : s.snapshot.lookup key = C.lookup key :=
      (Prod.ext_iff.1 hstep).2.trans ((hrecords key hv).symm.trans (hsame key).symm)
    exact changedGraph_same hs
  | some value =>
    cases value with
    | none =>
      -- deleted: the base had it, and the readback that was captured does not
      have hb : base.lookup key ≠ none := hretires key hv
      obtain ⟨record, hrec⟩ := Option.ne_none_iff_exists'.1 hb
      have hK : K.lookup key = none := changedGraph_none hrec (scopeMatches_deleted hmatch hv)
      have hc : concerns contacts true root K key none (base.lookup key) = true := by
        simp [concerns, hrec]
      rw [entryStep, hv] at hstep
      dsimp only at hstep
      rw [if_pos hc] at hstep
      exact changedGraph_neither (Prod.ext_iff.1 hstep).2 ((hsame key).trans hK)
    | some value =>
      cases hK : K.lookup key with
      | some kr =>
        exact accepted_unchanged hv hK ((hsame key).trans hK)
          (hfields key value hv (by simp [hK]))
      | none =>
        have hC : C.lookup key = none := (hsame key).trans hK
        rw [entryStep, hv] at hstep
        dsimp only at hstep
        by_cases hc : concerns contacts true root K key (some value) (base.lookup key) = true
        · -- a wire-only record: it has no native snapshot
          rw [if_pos hc] at hstep
          have hs : s.snapshot.lookup key = none := by
            rw [show s.snapshot.lookup key = (s.at key).2 from rfl, hstep, advanced]
            cases scopes.lookup key <;> simp [hK]
          exact changedGraph_neither hs hC
        · rw [if_neg hc] at hstep
          have hb : s.graph.lookup key = none := by
            rw [show s.graph.lookup key = base.lookup key from (Prod.ext_iff.1 hstep).1]
            have hnc : (base.lookup key).isSome = false := by
              simp only [concerns, Bool.or_eq_true, not_or, Bool.not_eq_true] at hc
              exact hc.1.1.1
            simpa using hnc
          rw [hb]
          exact changedGraph_gone hb hC

end

/-! ## The receipt of an upload -/

/-- The receipt `RCNativeQueue` builds: the uploaded records, and the deletion of those base
records that neither the native store nor the upload has. -/
def uploadReceipt (base truth desired : Graph V) : Receipt V :=
  base.keys.foldl (fun receipt key =>
    if (truth.lookup key).isNone && (receipt.lookup key).isNone then receipt.put key (some none)
    else receipt)
    (desired.keys.foldl (fun receipt key => receipt.put key ((desired.lookup key).map some)) ∅)

omit [Value V] in
theorem uploadReceipt_retires (base truth desired : Graph V) :
    RetiresBase (uploadReceipt base truth desired) base := by
  intro key hk hb
  have hlive : ∀ (l : List String) (receipt : Receipt V), receipt.lookup key ≠ some none →
      (l.foldl (fun receipt k => receipt.put k ((desired.lookup k).map some))
        receipt).lookup key ≠ some none := by
    intro l
    induction l with
    | nil => exact fun _ h => h
    | cons k l ih =>
      refine fun receipt h => ih _ ?_
      rw [Dict.lookup_put]
      split
      · cases desired.lookup k <;> simp
      · exact h
  have hkeep : ∀ (l : List String) (receipt : Receipt V), key ∉ l →
      receipt.lookup key ≠ some none →
      (l.foldl (fun receipt k =>
        if (truth.lookup k).isNone && (receipt.lookup k).isNone then receipt.put k (some none)
        else receipt) receipt).lookup key ≠ some none := by
    intro l
    induction l with
    | nil => exact fun _ _ h => h
    | cons k l ih =>
      intro receipt hm h
      rw [List.mem_cons, not_or] at hm
      refine ih _ hm.2 ?_
      dsimp only
      split
      · rw [Dict.lookup_put, if_neg hm.1]
        exact h
      · exact h
  exact hkeep base.keys _ (fun hm => Dict.mem_keys_iff.1 hm hb) (hlive _ ∅ (by simp)) hk

/-! ## The theorem -/

/-- **Accepting a receipt swallows no newer edit.** After `acceptReceipt:` the next comparison
finds, in each record of the receipt that is captured and still there: in an acknowledged field
the new value if it differs from the captured one and the acknowledged value otherwise; in any
other field the new value if it differs from the old snapshot and the old base's value otherwise.
When the readback is the captured one and nothing out of scope had changed, it finds exactly the
graph that was saved. -/
theorem accept_then_changed {env : Surroundings V} {contacts : Bool} {receipt : Receipt V}
    {scopes : Scopes} {root : String} {ids : Dict String String} {K : Graph V} {r : Resource V}
    {out : List (Resource V)} (hrow : env.uploadReceipt = .ok (some ⟨some root, some ids, some K⟩))
    (hload : env.load root = .ok (some r))
    (hok : (acceptReceipt env contacts receipt scopes).2 = .ok out) (C : Graph V) :
    (∀ key value, receipt.lookup key = some (some value) → K.lookup key ≠ none →
      C.lookup key ≠ none →
        (changedGraph (latest r out).graph (latest r out).snapshot C).lookup key ≠ none ∧
        ∀ f, alarmField f = false →
          field (changedGraph (latest r out).graph (latest r out).snapshot C) key f =
            if acknowledged scopes key f then
              if same (field K key f) (field C key f) then value.lookup f else field C key f
            else if same (field r.snapshot key f) (field C key f) then field r.graph key f
            else field C key f) ∧
    (∀ env₀ row, captureReceipt env₀ receipt scopes r = .ok row → row.snapshot = some K →
      RetiresBase receipt r.graph → C.Same K →
      (∀ key, receipt.lookup key = none → K.lookup key = r.snapshot.lookup key) →
      (∀ key value, receipt.lookup key = some (some value) → K.lookup key ≠ none →
        ∀ f, acknowledged scopes key f = false →
          same (field r.snapshot key f) (field K key f) = true) →
      (changedGraph (latest r out).graph (latest r out).snapshot C).Same (latest r out).graph) := by
  obtain ⟨hg, hs⟩ := acceptReceipt_captured hrow hload hok
  rw [hg, hs]
  refine ⟨fun key value hv hK hC => ?_, ?_⟩
  · obtain ⟨kr, hkr⟩ := Option.ne_none_iff_exists'.1 hK
    obtain ⟨cr, hcr⟩ := Option.ne_none_iff_exists'.1 hC
    exact accepted_field hv hkr hcr
  · intro env₀ row hcap hrowK hretires hsame hrecords hfields
    have hmatch : scopeMatches (changedGraph r.graph r.snapshot K) receipt scopes = true := by
      unfold captureReceipt at hcap
      cases hraw : env₀.rawGraph r with
      | error e => rw [hraw] at hcap; cases hcap
      | ok raw =>
        rw [hraw] at hcap
        simp only [bind, Except.bind] at hcap
        split at hcap
        · rename_i hm
          cases hcap
          cases hrowK
          exact hm
        · cases hcap
    exact accepted_quiet hmatch hretires hsame hrecords hfields

/-! ## A case -/

def contact (nickname notes : String) : Graph Plist :=
  Dict.ofList [("c", Dict.ofList [("nickname", .text nickname), ("notes", .text notes)])]

/-- A saved contact; the notes of the native store cannot be uploaded. -/
def savedContact : Resource Plist where
  root := "c"
  graph := contact "Al" "wire"
  snapshot := contact "Al" "native"
  ids := ∅
  pending := false
  body := []
  etag := none
  paths := ∅

/-- The nickname was changed to Bob, uploaded and acknowledged. -/
def renamed : Surroundings Plist where
  uploadReceipt := .ok (some ⟨some "c", some ∅, some (contact "Bob" "native")⟩)
  load _ := .ok (some savedContact)
  rawGraph _ := .ok (contact "Bob" "native")
  readResource r := .ok r.graph
  operation := .ok ⟨1, 7, ascii "c1", ascii "c", ascii "https://dav/c", .update, .applied, 1,
    some (ascii "\"v1\""), none, none, 1, 0, some 200, some (ascii "\"v2\""), some (ascii "new")⟩
  intentPaths := .ok (some ∅)
  save _ := .ok ()

/-- A second rename after the capture is found, the notes stay as they were on the wire. -/
theorem accept_then_changed_renamed :
    ∃ out, (acceptReceipt renamed true (Dict.ofList [("c", (contact "Bob" "wire").lookup "c")])
        (Dict.ofList [("c", ["nickname"])])).2 = .ok out ∧
      let next := changedGraph (latest savedContact out).graph (latest savedContact out).snapshot
        (contact "Bobby" "native")
      field next "c" "nickname" = some (.text "Bobby") ∧
      field next "c" "notes" = some (.text "wire") := by
  cases h : (acceptReceipt renamed true
      (Dict.ofList [("c", (contact "Bob" "wire").lookup "c")])
      (Dict.ofList [("c", ["nickname"])])).2 with
  | error e =>
    have hok : (match (acceptReceipt renamed true
        (Dict.ofList [("c", (contact "Bob" "wire").lookup "c")])
        (Dict.ofList [("c", ["nickname"])])).2 with
      | .ok _ => true
      | .error _ => false) = true := by decide +kernel
    rw [h] at hok
    cases hok
  | ok out =>
    obtain ⟨-, hf⟩ := (accept_then_changed rfl rfl h (contact "Bobby" "native")).1 "c"
      (Dict.ofList [("nickname", .text "Bob"), ("notes", .text "wire")]) rfl
      (Option.ne_none_iff_exists'.2 ⟨_, rfl⟩) (Option.ne_none_iff_exists'.2 ⟨_, rfl⟩)
    refine ⟨out, rfl, (hf "nickname" (by decide)).trans ?_, (hf "notes" (by decide)).trans ?_⟩ <;>
      decide +kernel

end Native
