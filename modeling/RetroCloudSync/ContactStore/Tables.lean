import RetroCloudSync.Journal.Spec
import RetroCloudSync.Resource.Parse
import RetroCloudSync.Dav.SyncState

/-!
# The tables of the contact store

The schema `kRCSchema` of `RCContactStore.c`, beside the write journal and the sync tokens that the
same database holds. A parsed card is a `VCardDocument`; what libvc reads in an accepted text, and
how its properties are mapped, is the field `document` of `Reader`.

The rows of `contact_parameters` and `contact_value_parts` live and die with their property, so they
are kept in it. Times of day are left out.
-/

set_option autoImplicit false

namespace ContactStore

open Library Journal

/-! ## Parsed cards -/

structure VCardParameter where
  name : Bytes
  value : Bytes
  position : Int
deriving DecidableEq, Repr

structure VCardValuePart where
  value : Bytes
  component : Int
  position : Int
deriving DecidableEq, Repr

structure VCardProperty where
  group : Option Bytes
  name : Bytes
  decodedValue : Bytes
  originalValue : Bytes
  valueType : Option Bytes
  position : Int
  parameters : List VCardParameter
  parts : List VCardValuePart
deriving DecidableEq, Repr

/-- The columns of `contacts` that a parsed card fills. -/
structure Projection where
  uid : Option Bytes
  version : Option Bytes
  formattedName : Option Bytes
  givenName : Option Bytes
  familyName : Option Bytes
  organization : Option Bytes
  title : Option Bytes
  birthday : Option Bytes
deriving DecidableEq, Repr

def Projection.none : Projection :=
  ⟨.none, .none, .none, .none, .none, .none, .none, .none⟩

structure VCardDocument where
  projection : Projection
  properties : List VCardProperty
deriving DecidableEq, Repr

/-- The parsers, and the document that libvc's components of an unfolded text are mapped to. -/
structure Reader extends Resource.Parsers where
  document : Bytes → VCardDocument

/-- `RCVCardParse`. -/
def Reader.parse (reader : Reader) : Buf → Except RCError VCardDocument
  | .null _ => .error ⟨1, "Response is not a complete vCard"⟩
  | .data b => do
    Resource.parseVCard reader.toParsers b
    .ok (reader.document (Resource.unfold b.length b))

/-! ## Rows -/

/-- `accounts`; `username` compares without regard to ASCII case. -/
structure Account where
  id : Int
  username : Bytes
  syncID : Bytes
  generation : Int
  publishedGeneration : Int
deriving DecidableEq, Repr

/-- `COLLATE NOCASE`. -/
def Account.name (a : Account) : Bytes := a.username.map Resource.upper

/-- `sync_runs`. -/
structure SyncRun where
  id : Int
  account : Int
  succeeded : Option Bool
  message : Option Bytes
deriving DecidableEq, Repr

/-- `collections`. -/
structure Collection where
  id : Int
  account : Int
  url : Bytes
  displayName : Option Bytes
  lastCompleteRun : Option Int
  remoteMissing : Bool
deriving DecidableEq, Repr

/-- `UNIQUE(account_id,url)`. -/
def Collection.place (c : Collection) : Int × Bytes := (c.account, c.url)

/-- `contacts`. -/
structure Contact where
  id : Int
  collection : Int
  href : Bytes
  etag : Option Bytes
  projection : Projection
  rawVCard : Bytes
  usableVCard : Option Bytes
  usableETag : Option Bytes
  parseError : Option String
  syncRecordID : Bytes
  seenRun : Int
  remoteMissing : Bool
deriving DecidableEq, Repr

/-- `UNIQUE(collection_id, href)`. -/
def Contact.place (c : Contact) : Int × Bytes := (c.collection, c.href)

/-- `contact_properties`. -/
structure PropertyRow where
  id : Int
  contact : Int
  property : VCardProperty
  syncRecordID : Bytes
deriving DecidableEq, Repr

structure Tables where
  accounts : Table Account.id Account.name
  runs : Table SyncRun.id SyncRun.id
  collections : Table Collection.id Collection.place
  /-- The ids are unique too: each is larger than those before it. -/
  contacts : Table Contact.place Contact.syncRecordID
  properties : Table PropertyRow.id PropertyRow.syncRecordID
  journal : Journal.Tables
  sync : Dav.SyncTable

def Tables.empty : Tables := ⟨.empty, .empty, .empty, .empty, .empty, Journal.Tables.empty, .empty⟩

/-! ## Queries -/

namespace Tables

def findCollection (t : Tables) (account : Int) (url : Bytes) : Option Collection :=
  t.collections.find? fun c => c.account = account && c.url = url

def findContact (t : Tables) (collection : Int) (href : Bytes) : Option Contact :=
  t.contacts.find? fun c => c.collection = collection && c.href = href

/-- The collections of an account that are not missing. -/
def listed (t : Tables) (account : Int) (collection : Int) : Bool :=
  t.collections.any fun b => b.id = collection && b.account = account && !b.remoteMissing

end Tables

end ContactStore
