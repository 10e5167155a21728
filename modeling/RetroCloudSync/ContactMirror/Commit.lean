import RetroCloudSync.ContactStore.Reach
import Mathlib.Logic.Function.Basic

/-!
# The commit of a contact download

`RCCardDAVMirrorFetch` from `RCContactStoreBeginRun` on: what was staged for each collection is
replayed onto the store inside one transaction.

A `Shelf` is what a collection has under each href: the ETag, the body, and whether the resource is
present. `replay` says what staged rows do to it; `applyStaged` does just that to the rows of
`contacts` (`ventures_applyStaged`), and `commitRun` to all collections at once (`wp_commitRun`).
-/

set_option autoImplicit false

namespace ContactMirror

open Library Library.Tx ContactStore
open Journal (Bytes Buf RCError ascii)

/-! ## The commit -/

/-- A row of the staging database; its `action` is `RCDAVStageDeleted`, `RCDAVStageSeen` or
`RCDAVStageDownloaded`. -/
inductive Staged
  | deleted (href : Bytes)
  | seen (href etag : Bytes)
  | downloaded (href etag : Bytes) (body : Buf)
deriving DecidableEq, Repr

def Staged.href : Staged → Bytes
  | deleted href => href
  | seen href _ => href
  | downloaded href _ _ => href

/-- `RCContactFetch`, with the collection it is about and what was staged for it, in sequence; each
row has the values of `randomblob` that its commit would get. -/
structure Fetch where
  url : Bytes
  displayName : Option Bytes
  keep : Bool
  token : Option Bytes
  staged : List (Staged × (Nat → Bytes))

/-- `RCCheckCancellation`. -/
def checkCancellation : StoreM Unit := gate fun _ => ⟨-9999, "Shutdown requested"⟩

/-- `RCCommitContact`. -/
def commitContact (reader : Reader) (s : Store) (collection : Int) :
    Staged × (Nat → Bytes) → StoreM Unit
  | (.deleted href, _) => syncDelete s collection href s.activeRun
  | (.seen href _, _) => markSeen s collection href s.activeRun
  | (.downloaded href etag body, random) => do
    let _ ← saveResource reader s collection s.activeRun href (some etag) body random
    pure ()

def stageFailed (_ : String) : RCError := ⟨1, "Could not stage DAV inventory"⟩

/-- `RCDAVStageApply`. -/
def applyStaged (reader : Reader) (s : Store) (collection : Int) :
    List (Staged × (Nat → Bytes)) → StoreM Unit
  | [] => gate stageFailed
  | x :: rest => do
    gate stageFailed
    checkCancellation
    commitContact reader s collection x
    applyStaged reader s collection rest

/-- The commit of one collection. -/
def commitFetch (reader : Reader) (s : Store) (f : Fetch) : StoreM Unit := do
  checkCancellation
  let collection ← getCollection s f.url f.displayName
  (if f.keep then keepCollection s collection s.activeRun else pure ())
  gate stageFailed
  applyStaged reader s collection f.staged
  onSyncState (Dav.SyncState.save s.account f.url f.token (some []) s.activeRun)
  finishCollection s collection s.activeRun

/-- All collections, and what is to be done once. -/
def commitFetches (reader : Reader) (s : Store) (fetches : List Fetch) : StoreM Unit := do
  fetches.forM (commitFetch reader s)
  onSyncState (Dav.SyncState.finish s.account s.activeRun)
  checkCancellation

/-- `RCCardDAVMirrorFetch` from the last check before `RCContactStoreBeginRun` on. -/
def commitRun (reader : Reader) (account : Int) (fetches : List Fetch) : StoreM Unit := do
  checkCancellation
  let run ← beginRun ⟨account, 0⟩
  let outcome ← attempt (commitFetches reader ⟨account, run⟩ fetches)
  match outcome with
  | .ok () => finishRun ⟨account, run⟩ run true none
  | .error e => do
    let _ ← attempt (finishRun ⟨account, run⟩ run false (some (ascii e.message)))
    throw e

/-! ## Shelves -/

/-- A resource of a collection; one that is not present was deleted, or never listed again. -/
structure Slot where
  etag : Option Bytes
  raw : Bytes
  present : Bool
deriving DecidableEq, Repr

/-- What a collection has under each href. -/
abbrev Shelf := Bytes → Option Slot

/-- What a staged row leaves of the slot under its href. -/
def Staged.onto : Staged → Option Slot → Option Slot
  | deleted _, x => x.map fun x => { x with present := false }
  | seen _ _, x => x.map fun x => { x with present := true }
  | downloaded _ etag body, _ => some ⟨some etag, body.column.getD [], true⟩

def Shelf.put (S : Shelf) (x : Staged) : Shelf := Function.update S x.href (x.onto (S x.href))

def Shelf.replay (S : Shelf) (l : List Staged) : Shelf := l.foldl Shelf.put S

/-- Before the replay: what was present still is when the collection is kept, and nothing when it is
not. -/
def Shelf.start (S : Shelf) (keep : Bool) : Shelf := fun href =>
  (S href).map fun x => { x with present := keep && x.present }

theorem Shelf.put_self (S : Shelf) (x : Staged) : S.put x x.href = x.onto (S x.href) :=
  Function.update_self ..

theorem Shelf.put_other {S : Shelf} {x : Staged} {href : Bytes} (h : href ≠ x.href) :
    S.put x href = S href := Function.update_of_ne h ..

theorem Shelf.replay_append (S : Shelf) (l : List Staged) (x : Staged) :
    S.replay (l ++ [x]) = (S.replay l).put x := by
  simp [Shelf.replay]

/-- What is not staged is as it was. -/
theorem Shelf.replay_other {S : Shelf} {l : List Staged} {href : Bytes}
    (h : ∀ x ∈ l, x.href ≠ href) : S.replay l href = S href := by
  induction l using List.reverseRecOn with
  | nil => rfl
  | append_singleton l x ih =>
    rw [Shelf.replay_append, Shelf.put_other (h x (by simp)).symm]
    exact ih fun y hy => h y (by simp [hy])

def slot (c : Contact) : Slot := ⟨c.etag, c.rawVCard, !c.remoteMissing⟩

/-- The slot of a row inside a run, where only what the run has seen is present. -/
def marked (run : Int) (c : Contact) : Slot := ⟨c.etag, c.rawVCard, c.seenRun = run⟩

/-- The shelf of a collection by its identifier. -/
def shelfOf (t : Tables) (collection : Int) : Shelf := fun href =>
  (t.findContact collection href).map slot

/-- The shelf of a collection of an account by its URL. -/
def shelf (t : Tables) (account : Int) (url : Bytes) : Shelf := fun href =>
  (t.findCollection account url).bind fun c => shelfOf t c.id href

/-! ## Rows by their place -/

section
variable {t : Tables} {collection : Int} {href : Bytes} {c : Contact}

theorem findContact_eq (hc : c ∈ t.contacts) : t.findContact c.collection c.href = some c := by
  refine Table.find?_eq hc (by simp) fun x hx => ?_
  simp only [Bool.and_eq_true, decide_eq_true_iff] at hx
  exact Prod.ext hx.1 hx.2

theorem findContact_some (h : t.findContact collection href = some c) :
    c ∈ t.contacts ∧ c.collection = collection ∧ c.href = href := by
  obtain ⟨hc, hp⟩ := Table.find?_some h
  simpa using And.intro hc hp

/-- An update leaves a row at its place. -/
theorem findContact_update {p : Contact → Bool} {f : Contact → Contact}
    {hf : ∀ c, (f c).place = c.place} {hf' : ∀ c, (f c).syncRecordID = c.syncRecordID} :
    (t.updateContacts p f hf hf').findContact collection href =
      (t.findContact collection href).map fun c => if p c then f c else c := by
  unfold Tables.updateContacts Tables.findContact Table.find?
  show (t.contacts.rows.map fun c => if p c then f c else c).find? _ = _
  rw [List.find?_map]
  congr 2
  funext c
  have hplace : (if p c then f c else c).place = c.place := by
    split
    · exact hf c
    · rfl
  obtain ⟨hcollection, hhref⟩ := Prod.mk.inj hplace
  simp only [Function.comp_apply, hcollection, hhref]

/-- A row is there, or is made when its identifier is new. -/
theorem findContact_ensure {raw random : Bytes} {run : Int}
    (hnew : ∀ c ∈ t.contacts, c.syncRecordID ≠ random) :
    (ensureContact collection href raw run random t).findContact collection href =
      some ((t.findContact collection href).getD
        (newContact t collection href raw run random)) := by
  unfold ensureContact Table.insertOrIgnore
  cases hi : t.contacts.insert (newContact t collection href raw run random) with
  | none =>
    obtain ⟨c, hc, hclash⟩ := Table.insert_none hi
    obtain ⟨hcollection, hhref⟩ := Prod.mk.inj (hclash.resolve_right (hnew c hc))
    have hfind := findContact_eq hc
    change c.collection = collection at hcollection
    change c.href = href at hhref
    rw [hcollection, hhref] at hfind
    show t.findContact collection href = _
    rw [hfind]
    rfl
  | some contacts =>
    have hfind : t.findContact collection href = none := by
      cases hf : t.findContact collection href with
      | none => rfl
      | some c =>
        obtain ⟨hc, hcollection, hhref⟩ := findContact_some hf
        exact absurd (Prod.ext hcollection hhref) (Table.insert_fresh hi c hc).1
    rw [hfind]
    refine findContact_eq (t := { t with contacts := contacts })
      (c := newContact t collection href raw run random) ?_
    exact (Table.mem_insert hi _).2 (.inr rfl)

theorem findContact_ensure_other {raw random : Bytes} {run collection' : Int} {href' : Bytes}
    (hne : ¬ (collection' = collection ∧ href' = href)) :
    (ensureContact collection href raw run random t).findContact collection' href' =
      t.findContact collection' href' := by
  unfold ensureContact Table.insertOrIgnore
  cases hi : t.contacts.insert (newContact t collection href raw run random) with
  | none => rfl
  | some contacts =>
    show contacts.rows.find? _ = t.contacts.rows.find? _
    rw [Table.insert_rows hi, List.find?_append]
    have hlast : [newContact t collection href raw run random].find?
        (fun c => c.collection = collection' && c.href = href') = none := by
      simp only [List.find?_cons, newContact, List.find?_nil]
      split
      · rename_i h
        simp only [Bool.and_eq_true, decide_eq_true_iff] at h
        exact absurd ⟨h.1.symm, h.2.symm⟩ hne
      · rfl
    rw [hlast, Option.or_none]

theorem mem_ensure {raw random : Bytes} {run : Int}
    (hc : c ∈ (ensureContact collection href raw run random t).contacts) :
    c ∈ t.contacts ∨ c = newContact t collection href raw run random :=
  Table.mem_insertOrIgnore hc

end

end ContactMirror
