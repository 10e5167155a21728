import RetroCloudSync.Library.Feed
import RetroCloudSync.ContactMirror.Fetch
import RetroCloudSync.ContactMirror.Replay

/-!
# A server that changes

The surroundings of a download. The server is a `Feed` for each collection: it changes at any time,
between any two requests, and what its answers say (`Says`) is true of the moment at which they are
given. The mirror and the staging database are where the download left them, and any statement on
them may fail (`Answers`).

`Shelf.copy` is what a collection of the mirror shows, to be compared with what the server holds;
`Genuine`: nothing on the shelf is made up.
-/

set_option autoImplicit false

namespace ContactMirror

open Library Library.Prog Library.Feed ContactStore
open Journal (Bytes Buf RCError ascii)

/-! ## Server and download -/

/-- What the server holds under an href: the ETag and the vCard. -/
abbrev Version := Bytes × Bytes

/-- The server, collection by collection. -/
abbrev Server := Bytes → Feed Bytes Version Bytes

/-- An ETag stands for one body. -/
def Strong (F : Feed Bytes Version Bytes) : Prop :=
  ∀ {href etag body body' : Bytes} {i j : Nat}, F.holds i href = some (etag, body) →
    F.holds j href = some (etag, body') → body = body'

/-- What is named in `m` has been held. -/
def Held (F : Feed Bytes Version Bytes) (m : List (Bytes × Option Version)) : Prop :=
  ∀ e ∈ m, ∀ v, e.2 = some v → ∃ i, F.holds i e.1 = some v

/-- An entry as a report or an inventory names it. -/
def change (e : Bytes × Option Version) : Dav.Change := ⟨e.1, e.2.map Prod.fst⟩

def Slot.shown (x : Slot) : Option Version :=
  if x.present then x.etag.map fun etag => (etag, x.raw) else none

def Shelf.copy (S : Shelf) (href : Bytes) : Option Version := (S href).bind Slot.shown

/-- Present or not, what is on the shelf came from the server. -/
def Genuine (F : Feed Bytes Version Bytes) (S : Shelf) : Prop :=
  ∀ href x, S href = some x → ∃ etag i, x.etag = some etag ∧ F.holds i href = some (etag, x.raw)

/-- The moment, the mirror outside any transaction, and the staging database. -/
structure World where
  time : Nat
  tables : Tables
  stage : Nat → List Staged

namespace World

def at' (w : World) (n : Nat) : World := { w with time := n }

def setStage (w : World) (index : Nat) (l : List Staged) : World :=
  { w with stage := Function.update w.stage index l }

end World

/-- An empty token asks for everything. -/
def since (token : Bytes) : Option Bytes := if token = [] then none else some token

/-- `RCDAVSyncStateLoad`. -/
def loaded (t : Tables) (account : Int) (url : Bytes) : Option Bytes × Option Bytes :=
  match Dav.SyncState.find account url t.sync with
  | none => (none, none)
  | some r => (r.token, some r.scope)

/-- `RCDAVMirrorResourceCurrent`. -/
def mirrorResourceCurrent (t : Tables) (account : Int) (url href etag : Bytes) : Bool :=
  (shelf t account url href).any fun x => x.etag = some etag

/-- What is committed, with the identifiers that `randomblob` would give. -/
def fetchesOf (stage : Nat → List Staged) (random : Nat → Nat → Nat → Bytes) :
    Nat → List (Dav.Collection × Bool × Option Bytes) → List Fetch
  | _, [] => []
  | index, (collection, keep, token) :: rest =>
    ⟨collection.url, collection.displayName, keep, token,
      (stage index).zipIdx.map fun e => (e.1, random index e.2)⟩ ::
        fetchesOf stage random (index + 1) rest

section
variable (resolve : Bytes → Bytes → Option Bytes) (server : Server)

/-- What the answers of the server say at time `n`: an inventory is complete, a report leads on from
its token, a `GET` has the ETag of what it delivers, and a listing names no collection twice. -/
def Says (n : Nat) : (q : Question) → q.Answer → Prop
  | .propfind .collections _, (answer : Except RCError Dav.Report) => ∀ r l, answer = .ok r →
    Dav.listCollections resolve Dav.carddavNamespace (ascii "addressbook") r = .ok l →
      (l.map Dav.Collection.url).Nodup
  | .propfind .inventory url, (answer : Except RCError Dav.Report) => ∀ r l, answer = .ok r →
    Dav.listResources resolve r = .ok l →
      ∃ m, (server url).Inventory n m ∧ l = m.map change
  | .report url token, (answer : Except RCError Dav.Report) => ∀ r used p, answer = .ok r →
    Dav.readReport resolve used r = .page p →
      ∃ m, (server url).Answer n (since token) p.token m ∧ Held (server url) m ∧
        (p.more = false → ∀ href, ¬ (server url).owes n p.token href) ∧ p.changes = m.map change
  | .get url href, (answer : Except RCError Response) => ∀ r, answer = .ok r → r.statusCode = 200 →
    ∃ etag, r.etag = some etag ∧ (server url).holds n href = some (etag, r.body.column.getD [])
  | _, _ => True

/-- The request is answered after a while. -/
def Served (w : World) (q : Question) (answer : q.Answer) (w' : World) : Prop :=
  ∃ n, w.time ≤ n ∧ w' = w.at' n ∧ Says resolve server n q answer

variable (reader : Reader) (account : Int)

/-- Nothing else writes the mirror meanwhile. Statements may fail. -/
def Answers (w : World) : (q : Question) → q.Answer → World → Prop
  | .openStage, (answer : Except RCError Unit), w' => w' = match answer with
    | .ok () => { w with stage := fun _ => [] }
    | .error _ => w
  | .load url, (answer : Except RCError (Option Bytes × Option Bytes)), w' =>
    w' = w ∧ ∀ x, answer = .ok x → x = loaded w.tables account url
  | .current url href etag, (answer : Except RCError Bool), w' =>
    w' = w ∧ ∀ b, answer = .ok b → b = mirrorResourceCurrent w.tables account url href etag
  | .has index href, (answer : Except RCError Bool), w' =>
    w' = w ∧ ∀ b, answer = .ok b → b = (w.stage index).any fun x => x.href = href
  | .save index x, (answer : Except RCError Unit), w' => w' = match answer with
    | .ok () => w.setStage index (w.stage index ++ [x])
    | .error _ => w
  | .reset index, (answer : Except RCError Unit), w' => w' = match answer with
    | .ok () => w.setStage index []
    | .error _ => w
  | .commit l, (answer : Except RCError Unit), w' => ∃ random faults,
    (((fetchesOf w.stage random 0 l).flatMap fun f => fresh f.staged).Nodup ∧
      ∀ x ∈ w.tables.contacts,
        x.syncRecordID ∉ (fetchesOf w.stage random 0 l).flatMap fun f => fresh f.staged) ∧
      match commitRun reader account (fetchesOf w.stage random 0 l) ⟨⟨w.tables, []⟩, faults⟩ with
      | .ok () s => answer = .ok () ∧ w' = { w with tables := s.conn.now }
      | .error e s => answer = .error e ∧ w' = { w with tables := s.conn.now }
  | .propfind what url, answer, w' => Served resolve server w (.propfind what url) answer w'
  | .report url token, answer, w' => Served resolve server w (.report url token) answer w'
  | .get url href, answer, w' => Served resolve server w (.get url href) answer w'
  | .cancelled, _, w' | .client, _, w' | .autocommit, _, w' => w' = w

end

/-! ## Shelves and copies -/

section
variable {F : Feed Bytes Version Bytes} {S : Shelf} {x : Staged} {href : Bytes} {keep : Bool}

theorem copy_start_true (S : Shelf) : S.start true = S := by
  funext href
  unfold Shelf.start
  cases S href <;> rfl

theorem copy_start_false (S : Shelf) : (S.start false).copy = fun _ => none := by
  funext href
  unfold Shelf.copy Shelf.start
  cases S href <;> rfl

theorem genuine_start (h : Genuine F S) : Genuine F (S.start keep) := by
  intro href x hx
  obtain ⟨y, hy, rfl⟩ := Option.map_eq_some_iff.1 hx
  exact h href y hy

theorem copy_put_self (S : Shelf) (x : Staged) :
    (S.put x).copy x.href = (x.onto (S x.href)).bind Slot.shown := by
  unfold Shelf.copy
  rw [Shelf.put_self]

theorem copy_put_other (h : href ≠ x.href) : (S.put x).copy href = S.copy href := by
  unfold Shelf.copy
  rw [Shelf.put_other h]

/-- A staged row is genuine when it brings nothing new, or what was held. -/
theorem genuine_put (h : Genuine F S)
    (hx : ∀ href etag body, x = .downloaded href etag body →
      ∃ i, F.holds i href = some (etag, body.column.getD [])) : Genuine F (S.put x) := by
  intro href y hy
  by_cases hhref : href = x.href
  · subst hhref
    rw [Shelf.put_self] at hy
    cases x with
    | deleted href =>
      obtain ⟨z, hz, rfl⟩ := Option.map_eq_some_iff.1 hy
      exact h href z hz
    | seen href etag =>
      obtain ⟨z, hz, rfl⟩ := Option.map_eq_some_iff.1 hy
      exact h href z hz
    | downloaded href etag body =>
      cases hy
      obtain ⟨i, hi⟩ := hx href etag body rfl
      exact ⟨etag, i, rfl, hi⟩
  · rw [Shelf.put_other hhref] at hy
    exact h href y hy

/-- A list says what it means by its ETags. -/
theorem change_inj (hF : Strong F) {m m' : List (Bytes × Option Version)} (hm : Held F m)
    (hm' : Held F m') (h : m.map change = m'.map change) : m = m' := by
  induction m generalizing m' with
  | nil =>
    cases m' with
    | nil => rfl
    | cons e m' => cases h
  | cons e m ih =>
    cases m' with
    | nil => cases h
    | cons e' m' =>
      rw [List.map_cons, List.map_cons, List.cons.injEq] at h
      rw [ih (fun x hx => hm x (List.mem_cons_of_mem _ hx))
        (fun x hx => hm' x (List.mem_cons_of_mem _ hx)) h.2]
      congr 1
      have hhead := hm e List.mem_cons_self
      have hhead' := hm' e' List.mem_cons_self
      obtain ⟨k, v⟩ := e
      obtain ⟨k', v'⟩ := e'
      obtain ⟨hk, hv⟩ := Dav.Change.mk.inj h.1
      change k = k' at hk
      subst hk
      cases v with
      | none =>
        cases v' with
        | none => rfl
        | some v' => cases hv
      | some v =>
        cases v' with
        | none => cases hv
        | some v' =>
          obtain ⟨etag, body⟩ := v
          obtain ⟨etag', body'⟩ := v'
          obtain rfl : etag = etag' := Option.some.inj hv
          obtain ⟨i, hi⟩ := hhead _ rfl
          obtain ⟨j, hj⟩ := hhead' _ rfl
          rw [hF hi hj]

end

end ContactMirror
