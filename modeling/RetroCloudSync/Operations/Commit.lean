import RetroCloudSync.CalendarStore.Pairs
import RetroCloudSync.Exchange.World

/-!
# The commit of a verified move

`RCCalendarCommitVerifiedMove` with `CheckpointNativeMove`, over the tables it touches: the mirror,
the actions, the attention of the user, the aliases of native calendars and the receipts of the
native store. The statement on the mirror is the one of the calendar store (`moveRows`).

- `commit_spec`: a commit that returns has updated the receipt, the mirror, the action and the
  attention (`Committed`), and one that fails has left every image as it was.
- `commit_refines`: on the mirror alone it is `CalendarStore.commitVerifiedMove`.
-/

set_option autoImplicit false

namespace Operations

open Library Library.Tx Journal Native TwoWay Exchange
open CalendarStore (unset twoWayError recoveryError collectionOf moveRows)

variable {V : Type}

/-! ## Tables -/

/-- `two_way_attention`. -/
structure Attention where
  account : Int
  record : String
  reason : String
deriving DecidableEq, Repr

/-- `PRIMARY KEY(account_id,record_id)`. -/
def Attention.key (a : Attention) : Int × String := (a.account, a.record)

/-- `two_way_aliases`. -/
structure Alias where
  account : Int
  imported : String
  native : String
deriving DecidableEq, Repr

/-- `PRIMARY KEY(account_id,imported_id)`. -/
def Alias.key (a : Alias) : Int × String := (a.account, a.imported)

/-- `native_store_resources`, as far as it is read here. -/
structure StoredResource (V : Type) where
  account : Int
  root : String
  resource : Wire V
  snapshot : Graph V
  pending : Bool

/-- `PRIMARY KEY(account_id,root)`. -/
def StoredResource.key (r : StoredResource V) : Int × String := (r.account, r.root)

abbrev StoredResources (V : Type) :=
  Table (StoredResource.key (V := V)) (StoredResource.key (V := V))

structure Tables (V : Type) where
  mirror : CalendarStore.Tables
  actions : Actions
  attention : Table Attention.key Attention.key
  aliases : Table Alias.key Alias.key
  /-- There is no such table before a native store was opened. -/
  stored : Option (StoredResources V)

abbrev TablesM (V α : Type) := Tx RCError (Tables V) α

/-! ## The receipt -/

/-- The text of ASCII bytes. -/
def asciiText (b : Bytes) : String := String.ofList (b.map fun c => Char.ofNat c.toNat)

/-- The native calendar of a listed collection: its alias, or the name it was imported under. -/
def Tables.nativeCalendar (t : Tables V) (account : Int) (url : Bytes) : Option String :=
  (t.mirror.calendars.find? fun c => c.account = account && c.url = url && !c.remoteMissing).map
    fun c =>
      let imported := "calendar-" ++ asciiText c.syncID
      ((t.aliases.find? fun a => a.account = account && a.imported = imported).map
        Alias.native).getD imported

section
variable [Value V]

/-- The record of a root in another calendar. -/
def inCalendar (calendar root : String) (g : Graph V) : Graph V :=
  g.put root (some (((g.lookup root).getD ∅).put "calendar" (some (Value.array [calendar]))))

/-- The receipt of a resource that was moved. -/
def StoredResource.moved (target etag calendar : String) (r : StoredResource V) :
    StoredResource V :=
  { r with
    resource := { r.resource with
      href := target
      etag := some etag
      graph := inCalendar calendar r.root r.resource.graph }
    snapshot := inCalendar calendar r.root r.snapshot }

/-- The receipt is settled, and it is about the very bytes that were moved. -/
def StoredResource.awaited (source : String) (body : Option Bytes) (r : StoredResource V) : Bool :=
  !r.pending && r.resource.href = source && some r.resource.body = body &&
    r.resource.root = r.root && (r.snapshot.lookup r.root).isSome

def awaitingReceipt : RCError := ⟨1, "Verified calendar move awaits matching native receipt"⟩

/-- The columns of another receipt. -/
def StoredResource.rewritten (new r : StoredResource V) : StoredResource V :=
  { r with resource := new.resource, snapshot := new.snapshot }

/-- `account_id=? AND root=?`. -/
def StoredResource.about (account : Int) (root : String) (r : StoredResource V) : Bool :=
  r.account = account && r.root = root

/-- `UPDATE native_store_resources … AND pending=0`, and how many rows it changed. -/
def updateReceipt (account : Int) (root : String) (new : StoredResource V)
    (rows : StoredResources V) (t : Tables V) : Except String (Nat × Tables V) :=
  let p (r : StoredResource V) : Bool := r.about account root && !r.pending
  .ok (rows.count p, { t with stored := some (rows.update p new.rewritten (fun _ => rfl)
    fun _ => rfl) })

/-- `CheckpointNativeMove`. Sync Services has no native receipts. -/
def checkpointNativeMove (account : Int) (root source target etag : String) (body : Option Bytes)
    (collection : Bytes) : TablesM V Unit := do
  match ← select (fun _ => unset) Tables.stored with
  | none => pure ()
  | some rows => do
    gate fun _ => unset
    match ← select (fun _ => awaitingReceipt) fun _ =>
        rows.find? (StoredResource.about account root) with
    | none => pure ()
    | some row =>
      if row.awaited source body then do
        match ← select (fun _ => unset) fun t => t.nativeCalendar account collection with
        | none => throw unset
        | some calendar => do
          let changes ← stmt (fun _ => unset)
            (updateReceipt account root (row.moved target etag calendar) rows)
          if changes = 1 then pure () else throw unset
      else throw awaitingReceipt

/-! ## The commit -/

/-- A statement on the mirror. -/
def onMirror {α : Type} (f : CalendarStore.Tables → Except String (α × CalendarStore.Tables))
    (t : Tables V) : Except String (α × Tables V) :=
  (f t.mirror).map fun r => (r.1, { t with mirror := r.2 })

/-- `DELETE FROM calendar_actions WHERE account_id=… AND native_id=…`. -/
def deleteAction (account : Int) (native : String) (t : Tables V) : Tables V :=
  { t with actions := t.actions.delete fun a => a.account = account && a.native = native }

/-- `DELETE FROM two_way_attention …`, of the reasons a move settles. -/
def deleteAttention (account : Int) (record : String) (t : Tables V) : Tables V :=
  { t with attention := t.attention.delete fun a => a.account = account && a.record = record &&
      ["calendar-move-conflict", "unsupported-native-edit"].contains a.reason }

/-- A failure that set no error. -/
def orRecovery (e : RCError) : RCError := if e.code = 0 then recoveryError else e

/-- The body of the transaction. -/
def moveEverywhere (account : Int) (root source target etag : String) (body : Option Bytes)
    (collection : Bytes) : TablesM V Unit := do
  checkpointNativeMove account root source target etag body collection
  let changes ← stmt twoWayError
    (onMirror (moveRows account (cstring source) (cstring target) (cstring etag) collection))
  if changes ≠ 1 then throw unset
  else do
    stmt twoWayError fun t => .ok ((), deleteAction account root t)
    stmt twoWayError fun t => .ok ((), deleteAttention account root t)

/-- `RCCalendarCommitVerifiedMove`. -/
def commitVerifiedMove (account : Int) (root source target etag : String) (body : Option Bytes) :
    TablesM V Unit := do
  let idle ← autocommit
  match collectionOf (cstring target) with
  | none => throw unset
  | some collection =>
    if etagIsStrong (some (cstring etag)) = false ∨ idle = false then throw unset
    else transaction twoWayError do
      mapError orRecovery (moveEverywhere account root source target etag body collection)

/-! ## All together or not at all -/

/-- What became of the receipt of a root. -/
inductive ReceiptMoved (t : Tables V) (account : Int) (root source target etag : String)
    (body : Option Bytes) (collection : Bytes) : Option (StoredResources V) → Prop
  | noStore (h : t.stored = none) : ReceiptMoved t account root source target etag body collection none
  | noReceipt {rows : StoredResources V} (h : t.stored = some rows)
      (hn : ∀ r ∈ rows, r.about account root = false) :
      ReceiptMoved t account root source target etag body collection (some rows)
  | moved {rows rows' : StoredResources V} {row : StoredResource V} {calendar : String}
      (h : t.stored = some rows) (about : row.about account root = true)
      (awaited : row.awaited source body = true)
      (known : t.nativeCalendar account collection = some calendar)
      (rewrote : Table.Rewrote rows rows' row (row.moved target etag calendar)) :
      ReceiptMoved t account root source target etag body collection (some rows')

/-- Everything that belongs to a move has been done to `t`. -/
structure Committed (account : Int) (root source target etag : String) (body : Option Bytes)
    (collection : Bytes) (t t' : Tables V) : Prop where
  into : collectionOf (cstring target) = some collection
  strong : etagIsStrong (some (cstring etag)) = true
  receipt : ReceiptMoved t account root source target etag body collection t'.stored
  mirror : moveRows account (cstring source) (cstring target) (cstring etag) collection t.mirror =
    .ok (1, t'.mirror)
  actions : t'.actions = t.actions.delete fun a => a.account = account && a.native = root
  attention : t'.attention = t.attention.delete fun a => a.account = account && a.record = root &&
    ["calendar-move-conflict", "unsupported-native-edit"].contains a.reason
  aliases : t'.aliases = t.aliases

variable {account : Int} {root source target etag : String} {body : Option Bytes}
  {collection : Bytes} {c : Conn (Tables V)}

omit [Value V] in
theorem about_unique {rows : StoredResources V} {r s : StoredResource V} (hr : r ∈ rows)
    (hs : s ∈ rows) (hpr : r.about account root = true) (hps : s.about account root = true) :
    r = s := by
  simp only [StoredResource.about, Bool.and_eq_true, decide_eq_true_iff] at hpr hps
  refine Table.eq_of_key hr hs ?_
  rw [StoredResource.key, StoredResource.key, hpr.1, hpr.2, hps.1, hps.2]

/-- The receipt is updated, or there is none. -/
theorem checkpoint_spec :
    wp (checkpointNativeMove account root source target etag body collection)
      (fun _ c' => c'.undo = c.undo ∧
        c'.now = { c.now with stored := c'.now.stored } ∧
        ReceiptMoved c.now account root source target etag body collection c'.now.stored)
      (fun _ c' => c'.undo = c.undo) c := by
  refine wp_bind (wp_select ?_ fun _ => rfl)
  cases hstored : c.now.stored with
  | none => exact wp_pure ⟨rfl, rfl, hstored ▸ .noStore hstored⟩
  | some rows =>
    refine wp_bind (wp_gate (wp_bind (wp_select ?_ fun _ => rfl)) fun _ => rfl)
    cases hrow : rows.find? (StoredResource.about account root) with
    | none =>
      refine wp_pure ⟨rfl, rfl, ?_⟩
      rw [hstored]
      exact .noReceipt hstored fun r hr => Table.find?_none hrow hr
    | some row =>
      obtain ⟨hm, habout⟩ := Table.find?_some hrow
      dsimp only
      split
      · rename_i hawaited
        refine wp_bind (wp_select ?_ fun _ => rfl)
        cases hcalendar : c.now.nativeCalendar account collection with
        | none => exact wp_throw rfl
        | some calendar =>
          refine wp_bind (wp_stmt (fun changes t ht => ?_) fun _ => rfl)
          cases ht
          split
          · rename_i hone
            refine wp_pure ⟨rfl, rfl, .moved hstored habout hawaited hcalendar ?_⟩
            -- the row read is the row updated
            have hunique : ∀ x ∈ rows, ∀ y ∈ rows, (x.about account root && !x.pending) = true →
                (y.about account root && !y.pending) = true → x = y := by
              intro x hx y hy hpx hpy
              simp only [Bool.and_eq_true] at hpx hpy
              exact about_unique hx hy hpx.1 hpy.1
            obtain ⟨r, hr, hw⟩ := Table.update_one (f := (row.moved target etag calendar).rewritten)
              (fun _ => rfl) (fun _ => rfl) hunique hone
            simp only [Bool.and_eq_true] at hr
            obtain rfl := about_unique hw.mem hm hr.1 habout
            exact hw
          · exact wp_throw rfl
      · exact wp_throw rfl

omit [Value V] in
theorem onMirror_ok {α : Type} {a : α} {t t' : Tables V}
    {f : CalendarStore.Tables → Except String (α × CalendarStore.Tables)}
    (h : onMirror f t = .ok (a, t')) :
    f t.mirror = .ok (a, t'.mirror) ∧ t' = { t with mirror := t'.mirror } := by
  unfold onMirror at h
  cases hf : f t.mirror with
  | error m =>
    rw [hf] at h
    cases h
  | ok r =>
    rw [hf] at h
    cases h
    exact ⟨rfl, rfl⟩

/-- **All together or not at all**: a commit that returns has done everything, outside any
transaction, and one that fails leaves every image one that was there. -/
theorem commit_spec {P : Tables V → Prop} (hc : c.All P) :
    wp (commitVerifiedMove account root source target etag body)
      (fun _ c' => (∃ collection,
        Committed account root source target etag body collection c.now c'.now) ∧ c'.undo = [])
      (fun _ c' => c'.All P) c := by
  refine wp_bind (wp_autocommit ?_)
  split
  · exact wp_throw hc
  · rename_i collection hinto
    split
    · exact wp_throw hc
    · rename_i hstrong
      simp only [not_or, Bool.not_eq_false] at hstrong
      refine wp_transaction (Q := fun t' => ∃ collection,
        Committed account root source target etag body collection c.now t') hc (wp_mapError ?_)
      refine wp_bind (wp_mono checkpoint_spec (fun _ c₁ h => ?_) fun _ _ h => h)
      obtain ⟨hu, hframe, hreceipt⟩ := h
      refine wp_bind (wp_stmt (fun changes t ht => ?_) fun _ => hu)
      split
      · exact wp_throw hu
      · rename_i hone
        obtain rfl : changes = 1 := by omega
        refine wp_bind (wp_stmt (fun _ t₂ ht₂ => ?_) fun _ => hu)
        cases ht₂
        refine wp_stmt (fun _ t₃ ht₃ => ?_) fun _ => hu
        cases ht₃
        obtain ⟨hmirror, hframe'⟩ := onMirror_ok ht
        have hframe : c₁.now = { c.now with stored := c₁.now.stored } := hframe
        refine ⟨⟨collection, hinto, hstrong.1, ?_, ?_, ?_, ?_, ?_⟩, hu⟩
        · show ReceiptMoved _ _ _ _ _ _ _ _ t.stored
          rw [hframe']
          exact hreceipt
        · show _ = Except.ok (1, t.mirror)
          rw [← hmirror, hframe]
        · show t.actions.delete _ = _
          rw [hframe', hframe]
        · show t.attention.delete _ = _
          rw [hframe', hframe]
        · show t.aliases = _
          rw [hframe', hframe]

/-- **On the mirror alone** this is the commit of the calendar store. -/
theorem commit_refines {t t' : Tables V}
    (h : Committed account root source target etag body collection t t') :
    Tx.runs (CalendarStore.commitVerifiedMove account (cstring source) (cstring target)
      (cstring etag)) ⟨t.mirror, []⟩ () ⟨t'.mirror, []⟩ := by
  refine runs_bind runs_autocommit ?_
  rw [h.into]
  dsimp only
  rw [if_neg (by simp [h.strong, Conn.autocommit])]
  have hopen : (⟨t'.mirror, [t.mirror]⟩ : Conn CalendarStore.Tables).undo ≠ [] :=
    List.cons_ne_nil _ _
  refine runs_transaction rfl ?_ hopen
  refine runs_bind runs_gate (runs_bind (runs_stmt h.mirror) ?_)
  rw [if_neg (by simp)]
  exact runs_bind runs_gate runs_gate

end

end Operations
