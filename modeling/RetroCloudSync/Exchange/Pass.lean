import RetroCloudSync.Exchange.World

/-!
# A pass of the native exchange

`RCNativeExchange.m`, with the two functions of `RCCalendarOperations.m` it calls. The stages of
`exchange` are those of the source: complete verified uploads, protect what a calendar operation
is working on, reconcile the resources of the mirror (`reconcile`), then the owned ones the mirror
no longer has (`reconcileAbsent`), then the ones the native store created (`reconcileNew`).
-/

set_option autoImplicit false

namespace Exchange

open Library Journal Native TwoWay Calendar Value FieldValue

variable {V : Type} [GraphValue V]

/-! ## Asking -/

/-- Hand on what a fallible call answered. -/
def orStop {α : Type} : Except Stop α → ExchangeM V α
  | .ok a => .ret a
  | .error s => .raise s

/-- A call that needs nothing but to succeed. -/
def act (q : Request V) (h : q.Answer = Except Stop Unit) : ExchangeM V Unit :=
  .ask (.other q) fun a => orStop (h ▸ a)

/-- `RCTwoWayInitialize`. -/
abbrev twoWayTables : ExchangeM V Unit := act .twoWayTables rfl

abbrev savePendingFields (root : String) (desired : Outgoing V) : ExchangeM V Unit :=
  act (.savePendingFields root desired) rfl

abbrev saveIntent (operation : Int) (receipt : Receipt V) (paths : Dict String String)
    (scopes : Option Scopes) : ExchangeM V Unit :=
  act (.saveIntent operation receipt paths scopes) rfl

abbrev saveResource (operation : Int) (resource : Wire V) : ExchangeM V Unit :=
  act (.saveResource operation resource) rfl

/-- Fail without an exception. -/
def refuse {α : Type} (code : Int) (message : String) : ExchangeM V α :=
  .raise (.failed ⟨code, message⟩)

/-- Go on with `f` where `x` fails; an exception passes. -/
def orElse {α : Type} (x : ExchangeM V α) (f : RCError → ExchangeM V α) : ExchangeM V α :=
  x.rescue fun
    | .failed e => f e
    | .thrown name => .raise (.thrown name)

/-- A step that is made only under a condition. -/
def onlyIf (p : Bool) (x : ExchangeM V Unit) : ExchangeM V Unit := if p then x else pure ()

/-- `RCCheckCancellation`. -/
def checkCancellation : ExchangeM V Unit :=
  .ask (.other .cancelled) fun (stop : Bool) =>
    if stop then refuse Writer.RC_ERROR_CANCELLED "Shutdown requested" else .ret ()

def attention (root reason : String) : ExchangeM V Unit := act (.attention root reason) rfl

def clearAttention (root : String) (names : List String) (series : Bool) : ExchangeM V Unit :=
  act (.clearAttention root ⟨names, series⟩) rfl

def newIdentifier : ExchangeM V String := .ask (.other .newIdentifier) .ret

/-- `RCNativePendingFields`. -/
def pendingFields (root : String) : ExchangeM V Bool := .ask (.other (.pendingFields root)) orStop

def readResource (saved : Wire V) : ExchangeM V (Graph V) := .ask (.readResource saved) orStop

/-- `RCNativeBusy`. -/
def busy (href : String) : ExchangeM V Bool := .ask (.nativeBusy href) orStop

def begin : ExchangeM V Unit := .ask .begin orStop

def commit : ExchangeM V Unit := .ask .commit orStop

/-- `ROLLBACK`, whose own failure nobody looks at. -/
def rollback : ExchangeM V Unit := .ask .rollback fun _ => .ret ()

def journal (q : Call) : ExchangeM V q.Answer :=
  .ask (.journal q) fun
    | .ok a => .ret a
    | .error e => .raise (.failed e)

/-! ## Graphs -/

/-- The ids a field of a record lists; none where there is no list. -/
def items (graph : Graph V) (id field : String) : List String :=
  ((fieldValue (graph.lookup id) field).bind children).getD []

/-- The record of `root` has recurrences. -/
def recurring (graph : Graph V) (root : String) : Bool := items graph root "recurrences" ≠ []

/-- `isEqual:`, which `nil` answers with `NO`. -/
def valueEqual : Option V → Option V → Bool
  | some a, some b => isEqual a b
  | _, _ => false

/-- The native store shows the event of `base` in another calendar. -/
def relocated (base : Wire V) (truth : Graph V) (root : String) : Bool :=
  !valueEqual (fieldValue (base.graph.lookup root) "calendar")
    (fieldValue (truth.lookup root) "calendar")

/-- `RCNativeParticipantsUnchanged`. -/
def participantsUnchanged (base : Option (Wire V)) (truth : Graph V) (root : String) : Bool :=
  let graph := (base.map Wire.graph).getD ∅
  ["attendees", "organizer"].all fun link =>
    isEqual ((fieldValue (graph.lookup root) link).getD (array []))
      ((fieldValue (truth.lookup root) link).getD (array [])) &&
    (items graph root link).all fun id => recordsEqual? (graph.lookup id) (truth.lookup id)

/-- A graph without the exception dates of its root. -/
def withoutExceptions (graph : Graph V) (root : String) : Graph V :=
  graph.put root (some (((graph.lookup root).getD ∅).put "exception dates" none))

/-! ## Calendar operations -/

/-- `hasPrefix:`, which no string has an empty one of. -/
def hasPrefix (s start : String) : Bool := start ≠ "" && start.toList.isPrefixOf s.toList

/-- The part of a URL before and after its last slash; the slash stays with the former. -/
def splitURL (s : String) : Option (String × String) :=
  let last := (s.toList.reverse.takeWhile fun c => c ≠ '/').reverse
  if '/' ∈ s.toList then
    some (String.ofList (s.toList.take (s.toList.length - last.length)), String.ofList last)
  else none

def endsWithSlash (s : String) : Bool := s.toList.getLast? = some '/'

/-- The collection homes the calendars of the account lie in. -/
def homes (urls : List String) : List String :=
  (urls.filterMap fun url =>
    (splitURL (if endsWithSlash url then String.ofList url.toList.dropLast else url)).map
      Prod.fst).dedup

/-- `NativeCollectionURL`. -/
def nativeCollectionURL (native : String) : ExchangeM V (Option String) :=
  .ask (.other (.collectionURL native)) .ret

/-- `INSERT OR IGNORE INTO calendar_actions`. -/
def insertAction (a : Action) : ExchangeM V Unit := .ask (.addAction a) orStop

/-- A local calendar that is neither known, nor published, nor protected. -/
def creatable (baseline : List String) (identifier : String) (record : Record V) : Bool :=
  !baseline.contains identifier && (record.lookup "url").all FieldValue.emptyValue &&
    !(record.lookup "read only").any boolValue

/-- One record of the loop that collects new calendars. -/
def collectCreation (c : Context V) (first : Bool) (baseline : List String) (graph truth : Graph V)
    (identifier : String) : ExchangeM V Unit := do
  match truth.lookup identifier with
  | none => pure ()
  | some record =>
    if entity record ≠ some "com.apple.calendars.Calendar" ∨ (graph.lookup identifier).isSome then
      pure ()
    else if first then act (.addBaseline identifier) rfl
    else if !creatable baseline identifier record then pure ()
    else if (← nativeCollectionURL identifier).isSome then pure ()
    else
      match homes (← .ask (.other .collectionURLs) orStop) with
      | [home] => do
        let marker ← newIdentifier
        insertAction
          { account := c.account, native := identifier, kind := .create, source := none,
            target := home ++ marker ++ "/", etag := none, body := none,
            title := some (((record.lookup "title").bind text).getD "Calendar"),
            notes := (record.lookup "notes").bind text, marker := some marker, state := .queued }
      | _ => pure ()

/-- Whether a rejected move was overtaken by another choice of the user. -/
def overtaken (truth : Graph V) (move : String × String) : ExchangeM V Bool :=
  match items truth move.1 "calendar" with
  | [calendar] => do
    match ← nativeCollectionURL calendar with
    | some collection => pure !(hasPrefix move.2 collection)
    | none => pure false
  | _ => pure false

/-- One rejected move. -/
def collectOvertaken (truth : Graph V) (cancelled : List String) (move : String × String) :
    ExchangeM V (List String) := do
  if ← overtaken truth move then pure (move.1 :: cancelled) else pure cancelled

/-- The record of a rejected move is free again. -/
def retireMove (busy : List String) (native : String) : ExchangeM V (List String) := do
  .ask (.retire native) orStop
  pure (busy.filter (· ≠ native))

/-- The move of a resource into a collection on the same host. -/
def moveInto (c : Context V) (resource : Wire V) (collection : String) : Option Action :=
  if !etagIsStrong (resource.etag.map cstring) || (c.host resource.href).isNone ||
      c.host resource.href ≠ c.host collection then none
  else (splitURL resource.href).map fun url =>
    { account := c.account, native := resource.root, kind := .move, source := some resource.href,
      target := collection ++ (if endsWithSlash collection then "" else "/") ++ url.2,
      etag := resource.etag, body := some resource.body, title := none, notes := none,
      marker := none, state := .queued }

/-- One resource of the loop that collects moves. -/
def collectMove (c : Context V) (truth : Graph V) (busy : List String) (resource : Wire V) :
    ExchangeM V (List String) :=
  if (resource.graph.lookup resource.root).isNone || (truth.lookup resource.root).isNone ||
      busy.contains resource.root || !relocated resource truth resource.root then pure busy
  else
    match items truth resource.root "calendar" with
    | [calendar] => do
      match (← nativeCollectionURL calendar).bind (moveInto c resource) with
      | none => pure busy
      | some move => do
        insertAction move
        pure (resource.root :: busy)
    | _ => pure busy

/-- `RCCalendarCollectOperations`, with the set it leaves. -/
def collectOperations (c : Context V) (truth graph : Graph V) (resources : List (Wire V))
    (busy : List String) : ExchangeM V (List String) := do
  act .actionTables rfl
  let first ← .ask (.other .actionAccount) orStop
  let baseline ← .ask (.other .baseline) orStop
  truth.keys.foldlM (fun _ identifier => collectCreation c first baseline graph truth identifier) ()
  onlyIf first (act .addActionAccount rfl)
  let moves ← .ask .conflictMoves orStop
  let cancelled ← moves.foldlM (collectOvertaken truth) []
  let busy ← cancelled.foldlM retireMove busy
  resources.foldlM (collectMove c truth) busy

/-- What one operation that is not done protects. -/
def protectAction (c : Context V) (busy : List String) (a : String × String × String) :
    ExchangeM V (List String) :=
  let sources := c.resources.filter fun r => r.href = a.2.1
  let protects := sources.flatMap fun r => r.graph.keys ++ items r.graph r.root "calendar"
  c.graph.keys.foldlM (fun busy identifier => do
    if (c.graph.lookup identifier).bind entity = some "com.apple.calendars.Calendar" then
      match ← nativeCollectionURL identifier with
      | some collection => pure (if hasPrefix a.2.2 collection then identifier :: busy else busy)
      | none => pure busy
    else pure busy) (a.1 :: protects ++ busy)

/-- `RCCalendarProtectOperations`. -/
def protectOperations (c : Context V) (busy : List String) : ExchangeM V (List String) := do
  act .actionTables rfl
  let live ← .ask .liveActions orStop
  live.foldlM (protectAction c) busy

/-- The pass's own set of busy records is `busy` from here on. -/
def setCalendarBusy (busy : List String) : ExchangeM V Unit := .ask (.calendarBusy busy) .ret

/-! ## Queueing an upload -/

/-- `RCTwoWayDeletion`, only for a resource that is gone as a whole. -/
def deletion (resource : Wire V) (truth : Graph V) : Option (Outgoing V) :=
  if resource.graph.keys.any fun key => (truth.lookup key).isSome then none
  else some
    { resource := { resource with graph := ∅ }, body := none, fieldScopes := none,
      pendingFields := ∅, knownFields := ∅ }

def outgoing (d : Desired V) : Outgoing V where
  resource := d.toWire
  body := some d.body
  fieldScopes := some d.fieldScopes
  pendingFields := d.pendingFields
  knownFields := d.knownFields

def Outgoing.buf (d : Outgoing V) : Buf := d.body.elim (.null 0) .data

/-- What an event must not have to be moved as it is. -/
def immovable (base : Wire V) (root : String) : Bool :=
  ["recurrences", "main event", "detached events", "attendees", "organizer"].any fun field =>
    items base.graph root field ≠ []

/-- The branch of `RCNativeQueue` for an event in another calendar. -/
def queueMove (c : Context V) (base : Wire V) (truth : Graph V) (root : String) :
    ExchangeM V Unit :=
  if immovable base root then refuse 0 ""
  else do
    let busy ← collectOperations c truth c.graph [base] []
    if busy.contains root then pure () else refuse 0 ""

/-- The upload of an edit, a creation or a deletion. -/
def desiredUpload (c : Context V) (base : Option (Wire V)) (truth : Graph V) (root : String) :
    Except RCError (Outgoing V) :=
  match base, truth.lookup root with
  | some base, none =>
    match deletion base truth with
    | some d => .ok d
    | none => .error ⟨1, "Native edit cannot be represented safely"⟩
  | base, _ =>
    match encodeFields c.encoder base truth root with
    | .ok d => .ok (outgoing d)
    | .error e =>
      .error (if e.code = 0 then ⟨1, "Native edit cannot be represented safely"⟩ else e)

def uploadKind (base : Option (Wire V)) (truth : Graph V) (root : String) : Kind :=
  match base, truth.lookup root with
  | none, _ => .create
  | some _, none => .delete
  | some _, some _ => .update

/-- The published version an edit or a deletion starts from. -/
def pinBase (base : Option (Wire V)) (desired : Outgoing V) : ExchangeM V Unit :=
  match base with
  | some base =>
    journal (.setBase (some (cstring desired.resource.key)) (some (cstring desired.resource.href))
      (base.etag.map cstring) (.data base.body) base.revision)
  | none => pure ()

/-- What `RCNativeQueue` writes in its transaction. -/
def writeUpload (base : Option (Wire V)) (truth : Graph V) (root : String)
    (observed : Option (Untracked V)) (desired : Outgoing V) : ExchangeM V Unit := do
  pinBase base desired
  let receipt := uploadReceipt ((base.map Wire.graph).getD ∅) truth desired.resource.graph
  let change ← newIdentifier
  let operation : Int ← journal (.enqueue (some (cstring change))
    (some (cstring desired.resource.key)) (some (cstring desired.resource.href))
    (some (uploadKind base truth root).name) ((base.map Wire.revision).getD 0) desired.buf)
  saveIntent operation receipt desired.resource.paths desired.fieldScopes
  saveResource operation (base.getD desired.resource)
  act (.captureReceipt receipt operation desired.fieldScopes
    ((observed.map Owner.untracked).orElse fun _ => base.map Owner.saved)) rfl
  onlyIf base.isNone (act (.rememberResource desired.resource (observed.map .untracked)) rfl)
  clearAttention root ["unsupported-native-creation", "unsupported-native-edit",
    "remote-delete-local-edit", "native-series-unverified"] false
  commit

/-- `RCNativeQueue`. -/
def queue (c : Context V) (base : Option (Wire V)) (truth : Graph V) (root : String)
    (observed : Option (Untracked V)) : ExchangeM V Unit :=
  if base.isNone && (truth.lookup root).isNone then
    refuse 1 "Unowned native deletion has no publication base"
  else if c.isEvent && !participantsUnchanged base truth root then
    refuse 1 "EventKit cannot upload invitation deletion or participant changes"
  else if base.any fun base =>
      (truth.lookup root).isSome && c.isEvent && relocated base truth root then
    match base with
    | some base => queueMove c base truth root
    | none => pure ()
  else
    match desiredUpload c base truth root with
    | .error e => .raise (.failed e)
    | .ok desired => do
      savePendingFields root desired
      if base.any fun base => (truth.lookup root).isSome && desired.body = some base.body then
        pure ()
      else do
        begin
        orElse (writeUpload base truth root observed desired) fun e => do
          rollback
          .raise (.failed e)

/-! ## The resources of the mirror -/

/-- The attention a series needs, where it needs one. -/
def seriesReason (old r : Wire V) (found : Option String) : Option String :=
  let reason := if found = some "native-series-open-ended" then
      if old.body = r.body then none else some "native-series-remote-edit"
    else found
  match reason with
  | some reason => some reason
  | none =>
    if graphsEqual (withoutExceptions old.graph r.root) (withoutExceptions r.graph r.root) then none
    else some "native-series-remote-edit"

/-- An owned series: nothing is written to the native store. -/
def reconcileSeries (old r : Wire V) : ExchangeM V Bool := do
  let found ← .ask (.other (.seriesAttention old)) orStop
  clearAttention r.root [] true
  match seriesReason old r found with
  | some reason => do
    attention r.root reason
    pure false
  | none => do
    onlyIf (found ≠ some "native-series-open-ended")
      (act (.rememberResource r (some (.saved old))) rfl)
    pure true

/-- Fields that were pending are encoded again; `true` when none is left. -/
def recheckPending (c : Context V) (twoWay : Bool) (old : Wire V) (truth : Graph V)
    (root : String) : ExchangeM V Bool := do
  if !twoWay then pure true
  else if ← pendingFields root then
    match encodeFields c.encoder (some old) truth root with
    | .error _ => pure false
    | .ok desired =>
      if desired.body = old.body then do
        savePendingFields root (outgoing desired)
        pure !(← pendingFields root)
      else pure false
  else pure true

/-- The mirror, the saved resource and the native store agree. -/
def published (old r : Wire V) (truth : Graph V) : Bool :=
  old.body = r.body && (old.etag.isSome && old.etag = r.etag) && graphsEqual old.graph truth

/-- Whether the native store may take a resource; if not, it stays pending. -/
def canPublish (r : Wire V) : ExchangeM V Bool :=
  orElse (do
    act (.canPublishResource r) rfl
    pure true) fun _ => do
      attention r.root "native-publication-pending"
      pure false

/-- The end of the loop body. -/
def publish (r : Wire V) : ExchangeM V Bool := do
  if ← canPublish r then do
    orElse (.ask (.publishResource r) orStop) fun e => do
      orElse (attention r.root "native-publication-pending") fun _ => pure ()
      .raise (.failed e)
    clearAttention r.root ["native-publication-pending", "unsupported-native-edit"] true
    pure true
  else pure false

/-- A resource the pass owns and that is no series. -/
def reconcileOwned (c : Context V) (twoWay : Bool) (old r : Wire V) : ExchangeM V Bool := do
  let truth ← readResource old
  if twoWay && !graphsEqual old.graph truth then do
    orElse (queue c (some old) truth r.root none) fun _ =>
      attention r.root "unsupported-native-edit"
    pure false
  else if !(← recheckPending c twoWay old truth r.root) then pure false
  else if published old r truth then do
    clearAttention r.root ["unsupported-native-edit", "native-publication-pending"] false
    pure true
  else publish r

/-- What the loops carry: whether everything was published, the roots the mirror has, and
`calendarBusy`. -/
structure Pass where
  all : Bool
  present : List String
  busy : List String

/-- A move that is under way may be cancelled by another choice of the user. -/
def recollect (c : Context V) (twoWay : Bool) (old : Option (Wire V)) (root : String)
    (busy : List String) : ExchangeM V (List String) :=
  match old with
  | some old =>
    if twoWay && busy.contains root then do
      let truth ← readResource old
      let busy ← collectOperations c truth c.graph [old] busy
      setCalendarBusy busy
      pure busy
    else pure busy
  | none => pure busy

/-- One resource that nothing keeps busy: whether it is published. -/
def reconcileFree (c : Context V) (twoWay : Bool) (old : Option (Wire V)) (r : Wire V) :
    ExchangeM V Bool :=
  match old with
  | some old =>
    if twoWay && (recurring old.graph r.root || recurring r.graph r.root) then reconcileSeries old r
    else reconcileOwned c twoWay old r
  | none => publish r

/-- One resource of the mirror. -/
def reconcile (c : Context V) (twoWay : Bool) (saved : Dict String (Wire V))
    (aliases : Dict String String) (p : Pass) (resource : Wire V) : ExchangeM V Pass := do
  checkCancellation
  let r := mapResource resource aliases
  let old := saved.lookup r.root
  let now ← recollect c twoWay old r.root p.busy
  let p : Pass := { p with present := r.root :: p.present, busy := now }
  if p.busy.contains r.root then pure { p with all := false }
  else if ← busy r.href then pure { p with all := false }
  else do
    let done ← reconcileFree c twoWay old r
    pure { p with all := p.all && done }

/-! ## The resources the mirror no longer has -/

/-- One owned resource; those of the mirror are passed over. -/
def reconcileAbsent (c : Context V) (twoWay : Bool) (p : Pass) (resource : Wire V) :
    ExchangeM V Pass := do
  let root := resource.root
  if p.present.contains root then pure p
  else do
    checkCancellation
    if p.busy.contains root then pure { p with all := false }
    else
      match ← .ask (.other (.retained resource.href)) orStop with
      | some excluded => pure { p with all := p.all && excluded ≠ 0 }
      | none =>
        if ← busy resource.href then pure { p with all := false }
        else if twoWay && recurring resource.graph root then do
          attention root "native-series-remote-delete"
          pure { p with all := false }
        else do
          let truth ← readResource resource
          if twoWay && truth.keys ≠ [] && !graphsEqual resource.graph truth then do
            orElse (queue c (some resource) truth root none) fun _ =>
              attention root "remote-delete-local-edit"
            pure { p with all := false }
          else do
            .ask (.removeResource resource) orStop
            pure p

/-! ## The resources of the native store -/

/-- One resource that is not owned; whether it was queued or not, the pass is not complete. -/
def reconcileNew (c : Context V) (_ : Unit) (resource : Untracked V) : ExchangeM V Unit :=
  if resource.detached || recurring resource.graph resource.root then
    attention resource.root "native-series-unverified"
  else
    orElse (queue c none resource.graph resource.root (some resource)) fun _ =>
      attention resource.root "unsupported-native-creation"

/-- One creation that was rejected and is not kept. -/
def collectDeleted (kept deleted : List String) (root : String) : ExchangeM V (List String) := do
  checkCancellation
  if kept.contains root then pure deleted
  else if ← .ask (.other (.untrackedCalendarDeleted root)) orStop then pure (deleted ++ [root])
  else pure deleted

/-- `RCNativeClearDeletedCreations`. -/
def clearDeletedCreations (saved : Dict String (Wire V)) (discovered : List (Untracked V)) :
    ExchangeM V Unit := do
  let candidates ← .ask (.other .rejectedCreations) orStop
  if candidates = [] then pure ()
  else do
    let roots ← .ask (.other .unresolvedRoots) orStop
    if roots.any fun root => root.getD "" = "" then pure ()
    else do
      let kept := saved.keys ++ discovered.map Untracked.root ++ roots.filterMap id
      let deleted ← candidates.foldlM (collectDeleted kept) []
      if deleted = [] then pure ()
      else do
        checkCancellation
        begin
        deleted.foldlM (fun _ root =>
          clearAttention root ["unsupported-native-creation", "native-series-unverified"] false) ()
        commit

/-! ## The pass -/

/-- Whether every resource of the mirror took part. -/
def mirrorComplete (c : Context V) : Option (Int × Option Int) → Bool
  | none => false
  | some (count, unparsed) =>
    count = c.resources.length && (!c.isContact || unparsed.getD 0 = 0)

/-- `RCTwoWayComplete`, in a two-way pass; it adds to the aliases. -/
def complete (c : Context V) (twoWay : Bool) (aliases : Dict String String) :
    ExchangeM V (Dict String String) :=
  let byHref := Dict.putAll ∅ (c.resources.map fun r => (r.href, r))
  if twoWay then .ask (.complete byHref aliases) orStop else pure aliases

/-- `calendarBusy` before the loops. -/
def protect (c : Context V) : ExchangeM V (List String) :=
  if c.isEvent then protectOperations c [] else pure []

/-- The stage of the native creations, in a two-way pass: whether there are none. -/
def reconcileCreated (c : Context V) (twoWay : Bool) (saved : Dict String (Wire V)) :
    ExchangeM V Bool :=
  if twoWay then do
    let records ← .ask .untrackedResources orStop
    records.foldlM (reconcileNew c) ()
    clearDeletedCreations saved records
    pure records.isEmpty
  else pure true

/-- From the factory of the native store to `didPublishAll`. -/
def pass (c : Context V) (twoWay : Bool) : ExchangeM V Bool := do
  act .createStore rfl
  act .syncContainers rfl
  let aliases ← .ask (.other .aliases) orStop
  let aliases ← complete c twoWay aliases
  let saved ← .ask .savedResources orStop
  let busy ← protect c
  setCalendarBusy busy
  let p ← c.resources.foldlM (reconcile c twoWay saved aliases) ⟨true, [], busy⟩
  let p ← (saved.entries.map Sigma.snd).foldlM (reconcileAbsent c twoWay) p
  let unchanged ← reconcileCreated c twoWay saved
  let count ← .ask (.other .mirrored) orStop
  pure (p.all && unchanged && mirrorComplete c count)

/-- What is left of a pass: an error or an exception is reported. -/
def outcome (x : ExchangeM V Bool) : ExchangeM V (Except RCError Bool) :=
  (x >>= fun all => pure (.ok all)).rescue fun
    | .failed e => .ret (.error e)
    | .thrown name => .ret (.error ⟨1, "Native store operation failed (" ++ name ++ ")"⟩)

/-- `if(!sqlite3_get_autocommit(j->db))`. -/
def rollbackOpen : ExchangeM V Unit :=
  .ask .autocommit fun (autocommit : Bool) => if autocommit then .ret () else rollback

/-- `RCNativeExchange`: `didPublishAll` of a pass that went through, or its error. -/
def exchange (c : Context V) (twoWay : Bool) : ExchangeM V (Except RCError Bool) :=
  orElse (do
      twoWayTables
      let result ← outcome (pass c twoWay)
      rollbackOpen
      pure result) fun e => .ret (.error e)

end Exchange
