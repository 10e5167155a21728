import Mathlib.Data.List.Infix
import RetroCloudSync.Library.Table

/-!
# The tables of the write journal

The rows that `RCWriteJournalInitialize` creates room for, with the keys and the `UNIQUE`
constraints of their tables. A text or a blob is its bytes; a `const void *` with its length is a
`Buf`; a `const char *` is an `Option Bytes`, `none` being `NULL`.

`write_operations.id` is an `INTEGER PRIMARY KEY`: a new row gets one more than the largest id in
use (`newRowid`). No statement deletes from that table.
-/

set_option autoImplicit false

namespace Journal

open Library

abbrev Bytes := List UInt8

/-- The bytes of an ASCII literal. -/
def ascii (s : String) : Bytes := s.toList.map fun c => c.toNat.toUInt8

/-- An error as `RCErrorSet` leaves it. -/
structure RCError where
  code : Int
  message : String
deriving DecidableEq, Repr

/-- The result code that SQLite gives with a message. -/
def resultCode (m : String) : Int :=
  if "constraint failed".toList <:+: m.toList then 19
  else match m with
    | "database is locked" => 5
    | "database table is locked" => 6
    | "out of memory" => 7
    | "attempt to write a readonly database" => 8
    | "interrupted" => 9
    | "disk I/O error" => 10
    | "database disk image is malformed" => 11
    | "database or disk is full" => 13
    | "unable to open database file" => 14
    | "database schema has changed" => 17
    | "string or blob too big" => 18
    | _ => 1

def INT_MAX : Nat := 2147483647
def LLONG_MAX : Int := 9223372036854775807

/-- A `const void *` argument with its length. -/
inductive Buf
  | null (len : Nat)
  | data (bytes : Bytes)
deriving DecidableEq, Repr

namespace Buf

def len : Buf → Nat
  | null n => n
  | data b => b.length

/-- What `blob` binds: `NULL` for a null pointer. -/
def column : Buf → Option Bytes
  | null _ => none
  | data b => some b

end Buf

/-! ## Enumerations of the schema -/

/-- `CHECK(kind IN ('create','update','delete'))`. -/
inductive Kind
  | create | update | delete
deriving DecidableEq, Repr

/-- `CHECK(state IN ('queued', …))`. -/
inductive OpState
  | queued | uncertain | applied | conflict | acknowledged | cancelled
deriving DecidableEq, Repr

def Kind.name : Kind → Bytes
  | create => ascii "create"
  | update => ascii "update"
  | delete => ascii "delete"

/-- The kind a C string names, by `strcmp`. -/
def Kind.ofName (s : Bytes) : Option Kind :=
  if s = Kind.create.name then some .create
  else if s = Kind.update.name then some .update
  else if s = Kind.delete.name then some .delete
  else none

def OpState.name : OpState → Bytes
  | queued => ascii "queued"
  | uncertain => ascii "uncertain"
  | applied => ascii "applied"
  | conflict => ascii "conflict"
  | acknowledged => ascii "acknowledged"
  | cancelled => ascii "cancelled"

/-- The body an operation of kind `k` is given: none to a delete, a non-empty one otherwise. -/
def Kind.desired : Kind → Buf → Option (Option Bytes)
  | .delete, .null 0 => some none
  | .delete, _ => none
  | _, .data (c :: b) => some (some (c :: b))
  | _, _ => none

theorem Kind.desired_some {k : Kind} {b : Buf} {d : Option Bytes} (h : k.desired b = some d) :
    (d = none ↔ k = .delete) ∧ d ≠ some [] := by
  revert h
  unfold Kind.desired
  split <;> intro h <;> cases h <;> simp_all

/-- The body fixes the buffer it was read from. -/
theorem Kind.desired_eq {k : Kind} {b : Buf} {d : Option Bytes} (h : k.desired b = some d) :
    b = d.elim (.null 0) .data := by
  revert h
  unfold Kind.desired
  split <;> intro h <;> cases h <;> rfl

theorem Kind.ofName_some {s : Bytes} {k : Kind} (h : Kind.ofName s = some k) : s = k.name := by
  unfold Kind.ofName at h
  split_ifs at h with hc hu hd <;> cases h <;> assumption

/-- `state NOT IN ('acknowledged','cancelled')`. -/
def OpState.unresolved (s : OpState) : Bool := s ≠ .acknowledged && s ≠ .cancelled

/-- `RCWriteETagIsStrong`: quoted, and free of spaces, controls, quotes and deletes inside. -/
def etagIsStrong : Option Bytes → Bool
  | none => false
  | some s =>
    2 ≤ s.length && s.head? = some 0x22 && s.getLast? = some 0x22 &&
      s.tail.dropLast.all fun c => 0x21 ≤ c && c ≠ 0x22 && c ≠ 0x7f

theorem etagIsStrong_some {e : Option Bytes} (h : etagIsStrong e = true) : ∃ s, e = some s := by
  cases e with
  | none => cases h
  | some s => exact ⟨s, rfl⟩

example : etagIsStrong (some (ascii "\"v1\"")) = true := by decide

example : etagIsStrong (some (ascii "W/\"v1\"")) = false := by decide

/-! ## Rows -/

/-- `write_bases`: the published version an edit starts from. -/
structure Base where
  account : Int
  resourceKey : Bytes
  href : Bytes
  etag : Option Bytes
  body : Bytes
  localRevision : Int
deriving DecidableEq, Repr

/-- `PRIMARY KEY(account_id,resource_key)`. -/
def Base.key (b : Base) : Int × Bytes := (b.account, b.resourceKey)

/-- `write_operations`. -/
structure Operation where
  id : Int
  account : Int
  changeID : Bytes
  resourceKey : Bytes
  href : Bytes
  kind : Kind
  state : OpState
  localRevision : Int
  baseETag : Option Bytes
  baseBody : Option Bytes
  desiredBody : Option Bytes
  attempts : Nat
  retryAt : Int
  httpStatus : Option Int
  resultETag : Option Bytes
  resultBody : Option Bytes
deriving DecidableEq, Repr

/-- `UNIQUE(account_id,change_id)`. -/
def Operation.change (o : Operation) : Int × Bytes := (o.account, o.changeID)

def Operation.unresolved (o : Operation) : Bool := o.state.unresolved

/-- `http_status` as `sqlite3_column_int` reads it. -/
def Operation.status (o : Operation) : Int := o.httpStatus.getD 0

/-- The columns no statement sets after the `INSERT`. -/
def Operation.intent (o : Operation) : Operation :=
  { o with state := .queued, attempts := 0, retryAt := 0, httpStatus := none, resultETag := none,
           resultBody := none }

/-- The columns that operations of one intent share. -/
structure Operation.Same (o o' : Operation) : Prop where
  id : o.id = o'.id
  account : o.account = o'.account
  changeID : o.changeID = o'.changeID
  resourceKey : o.resourceKey = o'.resourceKey
  href : o.href = o'.href
  kind : o.kind = o'.kind
  localRevision : o.localRevision = o'.localRevision
  baseETag : o.baseETag = o'.baseETag
  baseBody : o.baseBody = o'.baseBody
  desiredBody : o.desiredBody = o'.desiredBody

theorem Operation.same_of_intent {o o' : Operation} (h : o.intent = o'.intent) :
    Operation.Same o o' := by
  simp only [Operation.intent, Operation.mk.injEq, true_and, and_true] at h
  obtain ⟨hid, hacc, hch, hkey, hhref, hkind, hrev, hbe, hbb, hdes⟩ := h
  exact ⟨hid, hacc, hch, hkey, hhref, hkind, hrev, hbe, hbb, hdes⟩

/-- `write_resolutions`. -/
structure Resolution where
  operation : Int
  successor : Int
  receipt : Bytes
  mirrorCommitted : Bool
deriving DecidableEq, Repr

/-- `write_attention`. -/
structure Attention where
  operation : Int
  reason : Bytes
deriving DecidableEq, Repr

structure Tables where
  bases : Table Base.key Base.key
  operations : Table Operation.id Operation.change
  resolutions : Table Resolution.operation Resolution.successor
  attention : Table Attention.operation Attention.operation

def Tables.empty : Tables := ⟨.empty, .empty, .empty, .empty⟩

/-! ## Row identifiers -/

/-- The id SQLite gives the next row of `write_operations`. -/
def newRowid (t : Table Operation.id Operation.change) : Int := t.nextRowid Operation.id

theorem lt_newRowid {t : Table Operation.id Operation.change} {o : Operation} (h : o ∈ t) :
    o.id < newRowid t :=
  Table.lt_nextRowid Operation.id h

end Journal
