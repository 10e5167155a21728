import RetroCloudSync.Dav.SyncCollection
import RetroCloudSync.Library.Fallible

/-!
# Inventories

`RCDAVListCollections` and `RCListResources`: a `PROPFIND` of depth 1 is read as a whole or not at
all. What an accepted inventory does not name is then taken to be gone, so a response that it can
not make sense of must not be passed over: `inventory_exact`.
-/

set_option autoImplicit false

namespace Dav

open Library Journal

/-! ## Any namespace -/

namespace Node

/-- `RCNodeIs`. -/
def isIn (space name : Bytes) : Node → Bool
  | element n (some s) _ => n = name && s = space
  | _ => false

/-- `RCFindChild`. -/
def findChildIn (parent : Node) (space name : Bytes) : Option Node :=
  parent.children.find? (isIn space name)

/-- `RCSuccessfulProperty`. -/
def successfulPropertyIn (response : Node) (space name : Bytes) : Option Node :=
  response.children.findSome? fun propstat =>
    if propstat.is (ascii "propstat") && propstat.successful then
      (propstat.findChild (ascii "prop")).bind fun prop => prop.findChildIn space name
    else none

/-- `RCNodeText` of such a property. -/
def propertyText (response : Node) (space name : Bytes) : Option Bytes :=
  (response.successfulPropertyIn space name).map content

end Node

/-! ## Documents -/

/-- `RCRequireMultiStatus`; an HTTP status is the code of its error. -/
def requireMultiStatus (operation : String) (r : Report) : Except RCError Unit :=
  if r.statusCode ≠ 207 then
    .error ⟨r.statusCode, operation ++ " returned HTTP " ++ toString r.statusCode⟩
  else .ok ()

/-- `RCParseXML`. -/
def parseXML (r : Report) : Except RCError Node :=
  if 0x7fffffff < r.bodyLength then .error ⟨1, "DAV XML response is too large"⟩
  else match r.document with
    | none => .error ⟨1, "Could not parse DAV XML response"⟩
    | some document =>
      if document.dtd then .error ⟨1, "DAV XML must not contain a DTD"⟩
      else if document.root.is (ascii "multistatus") then .ok document.root
      else .error ⟨1, "DAV response is not a multistatus document"⟩

/-- An error that was cleared and not set. -/
def unset : RCError := ⟨0, ""⟩

/-- The root of an answer to `operation`. -/
def multistatus (operation : String) (r : Report) : Except RCError Node := do
  requireMultiStatus operation r
  parseXML r

/-- `RCURLResolve`. -/
def resolved (resolve : Bytes → Bytes → Option Bytes) (base href : Bytes) : Except RCError Bytes :=
  match resolve base href with
  | some url => .ok url
  | none => .error ⟨1, "Could not resolve DAV href"⟩

/-! ## Discovery -/

/-- `RCDAVDiscoverHref`, of the answer to its request. -/
def discoverHref (resolve : Bytes → Bytes → Option Bytes) (space name : Bytes) (r : Report) :
    Except RCError Bytes := do
  let root ← multistatus "DAV discovery" r
  let property := root.children.findSome? fun response =>
    if response.is (ascii "response") then response.successfulPropertyIn space name else none
  match (property.bind fun p => p.findDescendant (ascii "href")).map Node.content with
  | none => .error ⟨1, "DAV discovery response omitted " ++ asciiName name⟩
  | some href => resolved resolve r.effectiveURL href
where
  asciiName (name : Bytes) : String := String.ofList (name.map fun c => Char.ofNat c.toNat)

/-! ## Collections -/

/-- `RCDAVCollection`. -/
structure Collection where
  url : Bytes
  displayName : Option Bytes
  description : Option Bytes
  color : Option Bytes
  syncToken : Option Bytes
  supportsSync : Bool
deriving DecidableEq, Repr

def caldavNamespace : Bytes := ascii "urn:ietf:params:xml:ns:caldav"

def carddavNamespace : Bytes := ascii "urn:ietf:params:xml:ns:carddav"

def appleNamespace : Bytes := ascii "http://apple.com/ns/ical/"

/-- What a `response` says about a collection at `url`; an empty token is none. -/
def readCollection (response : Node) (url : Bytes) : Collection :=
  let token := (response.propertyText davNamespace (ascii "sync-token")).filter fun t => t ≠ []
  { url := url
    displayName := response.propertyText davNamespace (ascii "displayname")
    description := response.propertyText caldavNamespace (ascii "calendar-description")
    color := response.propertyText appleNamespace (ascii "calendar-color")
    syncToken := token
    supportsSync := token.isSome ||
      ((response.successfulProperty (ascii "supported-report-set")).bind fun set =>
        set.findDescendant (ascii "sync-collection")).isSome }

/-- What is wrong with a `response` of a listing, or the collection it is about if it is of the
type. -/
def listingResponse (resolve : Bytes → Bytes → Option Bytes) (base space type : Bytes)
    (response : Node) : Except RCError (Option Collection) :=
  match response.successfulProperty (ascii "resourcetype") with
  | none => .error ⟨1, "Collection listing omitted a successful resource type"⟩
  | some resourceType =>
    if (resourceType.findChildIn space type).isNone then .ok none
    else match response.childText (ascii "href") with
      | none => .error unset
      | some href => do
        let url ← resolved resolve base href
        .ok (some (readCollection response url))

/-- One node below the root. -/
def listNode (resolve : Bytes → Bytes → Option Bytes) (base space type : Bytes)
    (l : List Collection) (node : Node) : Except RCError (List Collection) :=
  if node.is (ascii "response") then do
    let found ← listingResponse resolve base space type node
    .ok (l ++ found.toList)
  else .ok l

/-- `RCDAVListCollections`, of the answer to its request. -/
def listCollections (resolve : Bytes → Bytes → Option Bytes) (space type : Bytes) (r : Report) :
    Except RCError (List Collection) := do
  let root ← multistatus "Collection listing" r
  root.children.foldlM (listNode resolve r.effectiveURL space type) []

/-! ## Resources -/

/-- The resource that a `response` is about, by its href and its ETag. -/
def readResource (resolve : Bytes → Bytes → Option Bytes) (base : Bytes) (response : Node) :
    Except RCError Change :=
  match response.childText (ascii "href") with
  | none => .error unset
  | some href =>
    match (response.successfulProperty (ascii "getetag")).map Node.content with
    | none => .error unset
    | some etag => do
      let url ← resolved resolve base href
      .ok ⟨url, some etag⟩

/-- A `response` of an inventory; one about a collection is passed over. -/
def inventoryResponse (resolve : Bytes → Bytes → Option Bytes) (base : Bytes) (response : Node) :
    Except RCError (Option Change) :=
  if (response.findChild (ascii "status")).isSome && !response.successful then
    .error ⟨1, "DAV inventory contains an unsuccessful resource response"⟩
  else if ((response.successfulProperty (ascii "resourcetype")).bind fun resourceType =>
      resourceType.findChild (ascii "collection")).isSome then .ok none
  else do
    let resource ← readResource resolve base response
    .ok (some resource)

def inventoryNode (resolve : Bytes → Bytes → Option Bytes) (base : Bytes) (l : List Change)
    (node : Node) : Except RCError (List Change) :=
  if node.is (ascii "response") then do
    let found ← inventoryResponse resolve base node
    .ok (l ++ found.toList)
  else .ok l

/-- `RCListResources`, of the answer to its request. -/
def listResources (resolve : Bytes → Bytes → Option Bytes) (r : Report) :
    Except RCError (List Change) := do
  let root ← multistatus "Resource inventory" r
  if (root.findDescendant (ascii "error")).isSome then
    .error ⟨1, "DAV inventory contains an error or truncated result"⟩
  else root.children.foldlM (inventoryNode resolve r.effectiveURL) []

/-! ## What an accepted inventory accounts for -/

/-- `node` is somewhere below `parent`. -/
inductive Below : Node → Node → Prop
  | child {parent node : Node} (h : node ∈ parent.children) : Below parent node
  | deeper {parent child node : Node} (hc : child ∈ parent.children) (h : Below child node) :
      Below parent node

theorem findAmong_none {name : Bytes} {nodes : List Node} :
    Node.findAmong name nodes = none ↔
      ∀ child ∈ nodes, child.is name = false ∧ child.findDescendant name = none := by
  induction nodes with
  | nil => simp [Node.findAmong]
  | cons first rest ih =>
    rw [Node.findAmong, List.forall_mem_cons, ← ih]
    cases hfirst : first.is name with
    | true => simp
    | false => cases hbelow : first.findDescendant name <;> simp

theorem findDescendant_eq (parent : Node) (name : Bytes) :
    parent.findDescendant name = Node.findAmong name parent.children := by
  cases parent <;> simp [Node.findDescendant, Node.children, Node.findAmong]

/-- A search finds nothing when there is nothing to be found. -/
theorem findDescendant_none {name : Bytes} {parent : Node} :
    parent.findDescendant name = none ↔ ∀ node, Below parent node → node.is name = false := by
  constructor
  · intro hn node h
    induction h with
    | child h =>
      rw [findDescendant_eq, findAmong_none] at hn
      exact (hn _ h).1
    | deeper hc h ih =>
      rw [findDescendant_eq, findAmong_none] at hn
      exact ih (hn _ hc).2
  · intro h
    induction hs : sizeOf parent using Nat.strongRecOn generalizing parent with
    | ind size ih =>
      rw [findDescendant_eq, findAmong_none]
      intro child hc
      refine ⟨h child (.child hc), ih (sizeOf child) ?_ (fun node hb => h node (.deeper hc hb)) rfl⟩
      cases parent with
      | text content => cases hc
      | element n space children =>
        have hlt := List.sizeOf_lt_of_mem hc
        simp only [Node.children, Node.element.sizeOf_spec] at hlt hs
        omega

theorem resolved_ok {resolve : Bytes → Bytes → Option Bytes} {base href url : Bytes} :
    resolved resolve base href = .ok url ↔ resolve base href = some url := by
  unfold resolved
  cases resolve base href <;> simp

/-- The document is a multistatus, delivered whole. -/
structure Multistatus (r : Report) (root : Node) : Prop where
  status : r.statusCode = 207
  short : r.bodyLength ≤ 0x7fffffff
  document : r.document = some ⟨false, root⟩
  name : root.is (ascii "multistatus") = true

theorem multistatus_ok {operation : String} {r : Report} {root : Node} :
    multistatus operation r = .ok root ↔ Multistatus r root := by
  unfold multistatus
  rw [bind_ok]
  constructor
  · rintro ⟨u, hs, hx⟩
    unfold requireMultiStatus at hs
    split at hs
    · cases hs
    · rename_i hstatus
      unfold parseXML at hx
      split at hx
      · cases hx
      · rename_i hshort
        split at hx
        · cases hx
        · rename_i document hdocument
          split at hx
          · cases hx
          · rename_i hdtd
            split at hx
            · rename_i hname
              cases hx
              refine ⟨by simpa using hstatus, by omega, ?_, hname⟩
              rw [hdocument]
              cases document
              simpa using hdtd
            · cases hx
  · intro h
    refine ⟨(), ?_, ?_⟩
    · unfold requireMultiStatus
      rw [if_neg (by simp [h.status])]
    · unfold parseXML
      have hshort := h.short
      rw [if_neg (by omega), h.document]
      simp [h.name]

/-- What a `response` of an inventory stands for: a collection, or a resource by its URL and its
ETag. -/
def Stands (resolve : Bytes → Bytes → Option Bytes) (base : Bytes) (response : Node) :
    Option Change → Prop
  | none => ∃ resourceType collection,
      response.successfulProperty (ascii "resourcetype") = some resourceType ∧
      resourceType.findChild (ascii "collection") = some collection
  | some c =>
      (∀ resourceType, response.successfulProperty (ascii "resourcetype") = some resourceType →
        resourceType.findChild (ascii "collection") = none) ∧
      ∃ href etag, response.childText (ascii "href") = some href ∧
        (response.successfulProperty (ascii "getetag")).map Node.content = some etag ∧
        resolve base href = some c.url ∧ c.etag = some etag

theorem readResource_ok {resolve : Bytes → Bytes → Option Bytes} {base : Bytes} {response : Node}
    {c : Change} :
    readResource resolve base response = .ok c ↔
      ∃ href etag, response.childText (ascii "href") = some href ∧
        (response.successfulProperty (ascii "getetag")).map Node.content = some etag ∧
        resolve base href = some c.url ∧ c.etag = some etag := by
  unfold readResource
  cases hhref : response.childText (ascii "href") with
  | none => simp
  | some href =>
    cases hetag : (response.successfulProperty (ascii "getetag")).map Node.content with
    | none => simp
    | some etag =>
      simp only [bind_ok, resolved_ok, Option.some.injEq, Except.ok.injEq]
      constructor
      · intro ⟨url, hurl, hc⟩
        subst hc
        exact ⟨href, etag, rfl, rfl, hurl, rfl⟩
      · intro ⟨_, _, h, h', hurl, hc⟩
        subst h h'
        refine ⟨c.url, hurl, ?_⟩
        rw [← hc]

theorem inventoryResponse_ok {resolve : Bytes → Bytes → Option Bytes} {base : Bytes}
    {response : Node} {found : Option Change} :
    inventoryResponse resolve base response = .ok found ↔
      ((response.findChild (ascii "status")).isSome = true → response.successful = true) ∧
        Stands resolve base response found := by
  unfold inventoryResponse
  by_cases hfailed : ((response.findChild (ascii "status")).isSome && !response.successful) = true
  · rw [if_pos hfailed]
    simp only [Bool.and_eq_true, Bool.not_eq_true'] at hfailed
    simp [hfailed.1, hfailed.2]
  rw [if_neg hfailed]
  have hstated : (response.findChild (ascii "status")).isSome = true →
      response.successful = true := by simpa using hfailed
  rw [and_iff_right hstated]
  cases htype : response.successfulProperty (ascii "resourcetype") with
  | none =>
    cases found with
    | none => simp [Stands, htype, bind_ok]
    | some c => simp [Stands, htype, bind_ok, readResource_ok]
  | some resourceType =>
    cases hcollection : resourceType.findChild (ascii "collection") with
    | none =>
      cases found with
      | none => simp [Stands, htype, hcollection, bind_ok]
      | some c => simp [Stands, htype, hcollection, bind_ok, readResource_ok]
    | some collection =>
      cases found with
      | none => simp [Stands, htype, hcollection]
      | some c => simp [Stands, htype, hcollection]

/-- An inventory is accepted exactly when every response of it is accounted for: the whole document
names no error, and of its responses, in their order, each stands for a collection, which is passed
over, or for one entry of the inventory. -/
theorem inventory_exact {resolve : Bytes → Bytes → Option Bytes} {r : Report} {l : List Change} :
    listResources resolve r = .ok l ↔
      ∃ root, Multistatus r root ∧
        (∀ node, Below root node → node.is (ascii "error") = false) ∧
        ∃ founds,
          List.Forall₂ (fun response found =>
            ((response.findChild (ascii "status")).isSome = true → response.successful = true) ∧
              Stands resolve r.effectiveURL response found)
            (root.children.filter (Node.is (ascii "response"))) founds ∧
          l = founds.flatMap Option.toList := by
  have hgather (root : Node) :
      root.children.foldlM (inventoryNode resolve r.effectiveURL) [] = .ok l ↔
        ∃ founds,
          List.Forall₂ (fun response found =>
            inventoryResponse resolve r.effectiveURL response = .ok found)
            (root.children.filter (Node.is (ascii "response"))) founds ∧
          l = [] ++ founds.flatMap Option.toList := foldlM_gather
  unfold listResources
  rw [bind_ok]
  refine exists_congr fun root => and_congr multistatus_ok ?_
  cases herror : root.findDescendant (ascii "error") with
  | some node =>
    simp only [Option.isSome_some, if_true, reduceCtorEq, false_iff]
    intro ⟨hnone, _⟩
    rw [findDescendant_none.2 hnone] at herror
    cases herror
  | none =>
    rw [and_iff_right (findDescendant_none.1 herror), if_neg (by simp)]
    simpa only [inventoryResponse_ok, List.nil_append] using hgather root

/-! ## What an accepted listing accounts for -/

/-- What a `response` of a listing stands for: a collection of the type at its URL, or one of
another type, which it has to say. -/
def Describes (resolve : Bytes → Bytes → Option Bytes) (base space type : Bytes) (response : Node) :
    Option Collection → Prop
  | none => ∃ resourceType,
      response.successfulProperty (ascii "resourcetype") = some resourceType ∧
      resourceType.findChildIn space type = none
  | some c => ∃ resourceType found href url,
      response.successfulProperty (ascii "resourcetype") = some resourceType ∧
      resourceType.findChildIn space type = some found ∧
      response.childText (ascii "href") = some href ∧ resolve base href = some url ∧
      c = readCollection response url

theorem listingResponse_ok {resolve : Bytes → Bytes → Option Bytes} {base space type : Bytes}
    {response : Node} {found : Option Collection} :
    listingResponse resolve base space type response = .ok found ↔
      Describes resolve base space type response found := by
  unfold listingResponse
  cases htype : response.successfulProperty (ascii "resourcetype") with
  | none => cases found <;> simp [Describes, htype]
  | some resourceType =>
    cases hfound : resourceType.findChildIn space type with
    | none => cases found <;> simp [Describes, htype, hfound]
    | some node =>
      cases hhref : response.childText (ascii "href") with
      | none => cases found <;> simp [Describes, htype, hfound, hhref]
      | some href =>
        cases found with
        | none => simp [Describes, htype, hfound, bind_ok]
        | some c =>
          dsimp only
          rw [if_neg (by simp [hfound]), bind_ok]
          constructor
          · intro ⟨url, hurl, hc⟩
            cases hc
            exact ⟨_, _, _, _, htype, hfound, hhref, resolved_ok.1 hurl, rfl⟩
          · intro ⟨_, _, _, url, _, _, h, hurl, hc⟩
            rw [hhref] at h
            cases h
            exact ⟨url, resolved_ok.2 hurl, by rw [hc]⟩

/-- A listing is accepted exactly when every response of it says of what type it is and those of
the type have a URL: its collections are theirs, in their order. -/
theorem listing_exact {resolve : Bytes → Bytes → Option Bytes} {space type : Bytes} {r : Report}
    {l : List Collection} :
    listCollections resolve space type r = .ok l ↔
      ∃ root founds, Multistatus r root ∧
        List.Forall₂ (Describes resolve r.effectiveURL space type)
          (root.children.filter (Node.is (ascii "response"))) founds ∧
        l = founds.flatMap Option.toList := by
  have hgather (root : Node) :
      root.children.foldlM (listNode resolve r.effectiveURL space type) [] = .ok l ↔
        ∃ founds,
          List.Forall₂ (fun response found =>
            listingResponse resolve r.effectiveURL space type response = .ok found)
            (root.children.filter (Node.is (ascii "response"))) founds ∧
          l = [] ++ founds.flatMap Option.toList := foldlM_gather
  unfold listCollections
  rw [bind_ok]
  refine exists_congr fun root => ?_
  rw [multistatus_ok, hgather root]
  simp [listingResponse_ok]

end Dav
