import RetroCloudSync.Dav.Inventory
import RetroCloudSync.ContactMirror.Commit

/-!
# The download of contacts

`RCCardDAVMirrorFetch` up to the commit, as a program: what it asks are the requests to the server,
the reads of the mirror, the statements on the staging database, and last the commit of what was
staged. The texts of the progress log and the counters of `RCCardDAVMirrorResult`, which nothing
here reads, are left out, and so are the checks of the configuration.
-/

set_option autoImplicit false

namespace ContactMirror

open Library Library.Prog
open Journal (Bytes Buf RCError ascii)

/-- The fields of `RCHTTPResponse` that a download reads. -/
structure Response where
  statusCode : Int
  etag : Option Bytes
  body : Buf

/-- What a `PROPFIND` asks for; the first two have depth 0, the others depth 1. -/
inductive Propfind
  | principal
  | home
  | collections
  | inventory
deriving DecidableEq

/-- A collection is known to the staging database by its index. A `GET` is about the href; the
collection says on whose behalf. -/
inductive Question
  | cancelled
  | client
  | autocommit
  | openStage
  | propfind (what : Propfind) (url : Bytes)
  | report (url token : Bytes)
  | get (url href : Bytes)
  | load (url : Bytes)
  | current (url href etag : Bytes)
  | has (index : Nat) (href : Bytes)
  | save (index : Nat) (x : Staged)
  | reset (index : Nat)
  | commit (l : List (Dav.Collection × Bool × Option Bytes))

def Question.Answer : Question → Type
  | cancelled | autocommit => Bool
  | client | openStage | save .. | reset _ | commit _ => Except RCError Unit
  | propfind .. | report .. => Except RCError Dav.Report
  | get .. => Except RCError Response
  | load _ => Except RCError (Option Bytes × Option Bytes)
  | current .. | has .. => Except RCError Bool

/-- An error that is reported, or a write beyond the end of an array. -/
inductive Failure
  | error (e : RCError)
  | overflow (o : Dav.Overflow)

abbrev FetchProg := Prog Question Question.Answer Failure

def orFail {α : Type} : Except RCError α → FetchProg α
  | .ok a => .ret a
  | .error e => .raise (.error e)

/-- Run `x` and answer with its outcome. -/
def attempt {α : Type} (x : FetchProg α) : FetchProg (Except RCError α) :=
  (x >>= fun a => .ret (.ok a)).rescue fun f =>
    match f with
    | .error e => .ret (.error e)
    | .overflow o => .raise (.overflow o)

/-- `RCCheckCancellation`. -/
def checkStopped : FetchProg Unit :=
  .ask .cancelled fun (stop : Bool) => if stop then .raise (.error Dav.shutdown) else .ret ()

def stage (index : Nat) (x : Staged) : FetchProg Unit := .ask (.save index x) orFail

/-! ## One collection -/

/-- The `GET` of a contact. -/
def download (index : Nat) (url href etag : Bytes) : FetchProg Unit :=
  .ask (.get url href) fun (answer : Except RCError Response) => do
    let r ← orFail answer
    if r.statusCode ≠ 200 then
      .raise (.error ⟨r.statusCode, "Contact GET returned HTTP " ++ toString r.statusCode⟩)
    else stage index (.downloaded href (r.etag.getD etag) r.body)

/-- One turn of the loop of `RCApplyContactChanges`. -/
def applyContactChange (index : Nat) (url : Bytes) (c : Dav.Change) : FetchProg Unit := do
  checkStopped
  match c.etag with
  | none => stage index (.deleted c.url)
  | some etag =>
    .ask (.current url c.url etag) fun (answer : Except RCError Bool) => do
      let current ← orFail answer
      .ask (.has index c.url) fun (answer : Except RCError Bool) => do
        let staged ← orFail answer
        if current && !staged then stage index (.seen c.url etag)
        else download index url c.url etag

/-- `RCApplyContactChanges`. -/
def applyContactChanges (index : Nat) (url : Bytes) (changes : List Dav.Change) : FetchProg Unit :=
  changes.forM (applyContactChange index url)

/-- What the loop of `RCDAVSyncCollection` asks, asked here. -/
def answerPage (index : Nat) (url : Bytes) : (q : Dav.Question) → FetchProg q.Answer
  | .cancelled => .ask .cancelled .ret
  | .report token => .ask (.report url token) .ret
  | .page changes => attempt (applyContactChanges index url changes)

/-- `RCDAVSyncCollection` for the collection. -/
def syncChanges (resolve : Bytes → Bytes → Option Bytes) (index : Nat) (url : Bytes)
    (base : Option Bytes) : FetchProg Dav.Synced :=
  (Dav.syncCollection resolve true base).interpret (answerPage index url) .overflow

/-- `RCDAVListResources` and what is done with its inventory. -/
def listContacts (resolve : Bytes → Bytes → Option Bytes) (index : Nat) (url : Bytes) :
    FetchProg Unit :=
  .ask (.propfind .inventory url) fun (answer : Except RCError Dav.Report) => do
    let r ← orFail answer
    let changes ← orFail (Dav.listResources resolve r)
    applyContactChanges index url changes

/-- The attempts of `RCFetchCollection`, each from the token that it tries, and the inventory when
none is left: whether the collection is kept, and its next token. -/
def fetchFrom (resolve : Bytes → Bytes → Option Bytes) (index : Nat) (url : Bytes) :
    List (Option Bytes) → FetchProg (Bool × Option Bytes)
  | [] => do
    listContacts resolve index url
    .ret (false, none)
  | base :: rest => do
    let o ← syncChanges resolve index url base
    match o.result with
    | .failed e => .raise (.error e)
    | .complete => .ret (base.isSome, o.nextToken)
    | .fallback =>
      .ask (.reset index) fun (answer : Except RCError Unit) => do
        orFail answer
        fetchFrom resolve index url rest

/-- The tokens that are tried: the saved one, and none. -/
def bases (supportsSync : Bool) (token : Option Bytes) : List (Option Bytes) :=
  if supportsSync then (if token.isSome then [token, none] else [none]) else []

/-- `RCFetchCollection`. -/
def fetchCollection (resolve : Bytes → Bytes → Option Bytes) (index : Nat)
    (collection : Dav.Collection) : FetchProg (Bool × Option Bytes) :=
  .ask (.load collection.url) fun (answer : Except RCError (Option Bytes × Option Bytes)) => do
    let saved ← orFail answer
    fetchFrom resolve index collection.url (bases collection.supportsSync saved.1)

/-! ## All of them -/

/-- `RCDAVDiscoverHref`. -/
def discover (resolve : Bytes → Bytes → Option Bytes) (what : Propfind) (space name url : Bytes) :
    FetchProg Bytes :=
  .ask (.propfind what url) fun (answer : Except RCError Dav.Report) => do
    let r ← orFail answer
    orFail (Dav.discoverHref resolve space name r)

/-- `RCDAVListCollections`. -/
def listAddressBooks (resolve : Bytes → Bytes → Option Bytes) (homeURL : Bytes) :
    FetchProg (List Dav.Collection) :=
  .ask (.propfind .collections homeURL) fun (answer : Except RCError Dav.Report) => do
    let r ← orFail answer
    orFail (Dav.listCollections resolve Dav.carddavNamespace (ascii "addressbook") r)

/-- The loop over the collections, from the one with this index on. -/
def fetchCollections (resolve : Bytes → Bytes → Option Bytes) :
    Nat → List Dav.Collection → FetchProg (List (Dav.Collection × Bool × Option Bytes))
  | _, [] => .ret []
  | index, collection :: rest => do
    checkStopped
    let fetched ← fetchCollection resolve index collection
    let l ← fetchCollections resolve (index + 1) rest
    .ret ((collection, fetched) :: l)

/-- `RCCardDAVMirrorFetch`. -/
def fetch (resolve : Bytes → Bytes → Option Bytes) (serviceURL : Bytes) : FetchProg Unit :=
  .ask .client fun (client : Except RCError Unit) =>
    .ask .autocommit fun (idle : Bool) =>
      if !idle then
        .raise (.error ⟨1, "Contact download requires an idle mirror transaction"⟩)
      else .ask .openStage fun (opened : Except RCError Unit) => do
        orFail opened
        orFail client
        let principalURL ← discover resolve .principal Dav.davNamespace
          (ascii "current-user-principal") serviceURL
        let homeURL ← discover resolve .home Dav.carddavNamespace (ascii "addressbook-home-set")
          principalURL
        let collections ← listAddressBooks resolve homeURL
        let l ← fetchCollections resolve 0 collections
        .ask (.commit l) orFail

end ContactMirror
