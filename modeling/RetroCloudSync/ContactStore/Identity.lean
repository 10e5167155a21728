import RetroCloudSync.Library.Smooth
import RetroCloudSync.ContactStore.Reach

/-!
# Identities of contacts and of their properties

The native store knows a contact and each of its properties by a `sync_record_id`. A save finds the
contact by its href, deletes its property rows and inserts those of the new body, each with the
identifier that the row at the same position, in the same group and of the same name had.

`Advances` says what one call can do to these rows. `Orderly` (ids and positions are used once,
every property has its contact), `Mirrored` (the rows of a contact are those of its usable card) and
`Named` (a property is known by an identifier) are carried along it over whole runs.
-/

set_option autoImplicit false

namespace ContactStore

open Library Library.Tx Journal

/-! ## What one call does -/

/-- What a property is found by in the next body of its contact. -/
def VCardProperty.key (p : VCardProperty) : Int × Option Bytes × Bytes :=
  (p.position, p.group, p.name)

/-- The columns of a contact that name it, and those that a parsed body fills. -/
structure Card where
  id : Int
  place : Int × Bytes
  syncID : Bytes
  usable : Option Bytes
  projection : Projection

def Contact.card (c : Contact) : Card :=
  ⟨c.id, c.place, c.syncRecordID, c.usableVCard, c.projection⟩

/-- The columns that no statement writes again. -/
def Card.label (k : Card) : Int × (Int × Bytes) × Bytes := (k.id, k.place, k.syncID)

/-- A body was parsed for the resource at `place`. -/
def Card.filled (place : Int × Bytes) (raw : Bytes) (projection : Projection) (k : Card) : Card :=
  if k.place = place then { k with usable := some raw, projection := projection } else k

def Tables.cards (t : Tables) : List Card := t.contacts.rows.map Contact.card

/-- The rows of a contact, in the order they were inserted. -/
def Tables.propertiesOf (t : Tables) (contact : Int) : List PropertyRow :=
  t.properties.rows.filter fun x => x.contact = contact

structure SameCards (t t' : Tables) : Prop where
  cards : t'.cards = t.cards
  properties : t'.properties = t.properties

/-- The row of a resource is there, or has been added under a new id. -/
def Ensured (place : Int × Bytes) (l l' : List Card) : Prop :=
  l' = l ∨ ∃ id syncID, l' = l ++ [⟨id, place, syncID, none, .none⟩] ∧
    ∀ k ∈ l, k.id < id ∧ k.place ≠ place

/-- A row of the new body: its identifier is the previous one of its key, or random. -/
structure Carried (contact : Int) (random : Nat → Bytes) (t : Tables) (x : PropertyRow) :
    Prop where
  owner : x.contact = contact
  syncID : previousIdentifier contact x.property t = some x.syncRecordID ∨
    previousIdentifier contact x.property t = none ∧ ∃ k, x.syncRecordID = random k

/-- The rows of a contact are those of the document, in its order; all others are as they were. -/
def Rebuilt (contact : Int) (document : VCardDocument) (random : Nat → Bytes) (t t' : Tables) :
    Prop :=
  ∃ fresh : List PropertyRow,
    t'.properties.rows = t.properties.rows.filter (fun x => x.contact ≠ contact) ++ fresh ∧
    fresh.map PropertyRow.property = document.properties ∧ ∀ x ∈ fresh, Carried contact random t x

/-- The body `raw` was saved for the resource at `place`, parsed as `document` or not at all. -/
structure Stored (place : Int × Bytes) (raw : Bytes) (document : Option VCardDocument)
    (random : Nat → Bytes) (t t' : Tables) : Prop where
  malformed : document = none → Ensured place t.cards t'.cards ∧ t'.properties = t.properties
  parsed : ∀ d, document = some d → ∃ l, Ensured place t.cards l ∧
    t'.cards = l.map (Card.filled place raw d.projection) ∧
    ∃ k ∈ l, k.place = place ∧ Rebuilt k.id d random t t'

/-- What `RCVCardParse` makes of a body, if it accepts it. -/
def Reader.accepted (reader : Reader) (body : Buf) : Option VCardDocument :=
  (reader.parse body).toOption

/-- What a call can do to these rows. -/
inductive Advances (reader : Reader) : Call → Tables → Tables → Prop
  | same {t t' : Tables} (q : Call) (h : SameCards t t') : Advances reader q t t'
  | stored {t t' : Tables} (collection run : Int) (href : Bytes) (etag : Option Bytes) (body : Buf)
      (random : Nat → Bytes)
      (h : Stored (collection, href) (body.column.getD []) (reader.accepted body) random t t') :
      Advances reader (.saveResource collection run href etag body random) t t'

/-! ## The statements of a save -/

section
variable {t t' t₁ : Tables} {s : Store} {c : Conn Tables}

theorem Tables.mem_cards {k : Card} : k ∈ t.cards ↔ ∃ c ∈ t.contacts, c.card = k := List.mem_map

theorem Card.filled_label (place : Int × Bytes) (raw : Bytes) (projection : Projection) (k : Card) :
    (k.filled place raw projection).label = k.label := by
  unfold Card.filled
  split <;> rfl

/-- An update of the contacts that leaves these columns alone. -/
theorem sameCards_updateContacts {p : Contact → Bool} {f : Contact → Contact}
    {hf : ∀ c, (f c).place = c.place} {hf' : ∀ c, (f c).syncRecordID = c.syncRecordID}
    (hcard : ∀ c, (f c).card = c.card) : SameCards t (t.updateContacts p f hf hf') := by
  refine ⟨?_, rfl⟩
  show (t.contacts.rows.map fun c => if p c then f c else c).map Contact.card = t.cards
  rw [List.map_map]
  refine List.map_congr_left fun c _ => ?_
  by_cases hp : p c <;> simp [hp, hcard]

theorem cards_parsed {collection run : Int} {href raw : Bytes} {etag : Option Bytes}
    {projection : Projection} :
    (t.updateContacts (fun c => c.collection = collection && c.href = href)
      (Contact.parsed run etag raw projection) (fun _ => rfl) fun _ => rfl).cards =
      t.cards.map (Card.filled (collection, href) raw projection) := by
  show (t.contacts.rows.map fun c => if c.collection = collection && c.href = href then
    Contact.parsed run etag raw projection c else c).map Contact.card = _
  unfold Tables.cards
  rw [List.map_map, List.map_map]
  refine List.map_congr_left fun c _ => ?_
  have hp : c.card.place = (collection, href) ↔ c.collection = collection ∧ c.href = href :=
    Prod.ext_iff
  by_cases h : c.collection = collection ∧ c.href = href
  · simp only [Function.comp_apply, Card.filled, if_pos (hp.2 h), h, decide_true, Bool.and_self,
      if_true]
    rfl
  · simp [Card.filled, hp, h]

theorem ensured_ensureContact {collection run : Int} {href raw random : Bytes} (t : Tables) :
    Ensured (collection, href) t.cards
      (ensureContact collection href raw run random t).cards := by
  unfold ensureContact Table.insertOrIgnore
  cases hi : t.contacts.insert (newContact t collection href raw run random) with
  | none => exact .inl rfl
  | some contacts =>
    refine .inr ⟨t.contacts.nextRowid Contact.id, random, ?_, fun k hk => ?_⟩
    · show contacts.rows.map Contact.card = _
      rw [Table.insert_rows hi, List.map_append]
      rfl
    · obtain ⟨c, hc, rfl⟩ := Tables.mem_cards.1 hk
      exact ⟨Table.lt_nextRowid Contact.id hc, (Table.insert_fresh hi c hc).1⟩

theorem wp_copyPreviousPropertyIdentifiers {contact : Int} {document : VCardDocument}
    {Q : List (Option Bytes) → Conn Tables → Prop} {E : RCError → Conn Tables → Prop}
    (h : Q (document.properties.map fun p => previousIdentifier contact p c.now) c)
    (hE : ∀ e, E e c) : wp (copyPreviousPropertyIdentifiers contact document) Q E c := by
  refine wp_bind (wp_gate ?_ fun _ => hE _)
  generalize document.properties = l at h
  induction l generalizing Q with
  | nil => exact wp_pure h
  | cons p l ih =>
    rw [List.mapM_cons]
    refine wp_bind (wp_select (wp_bind (ih ?_)) fun _ => hE _)
    exact wp_pure h

/-- The rows that a list of properties with identifiers is stored as. -/
def Inserted (contact : Int) (random : Nat → Bytes) (l : List (VCardProperty × Option Bytes))
    (t t' : Tables) : Prop :=
  ∃ fresh : List PropertyRow, t'.properties.rows = t.properties.rows ++ fresh ∧
    fresh.map PropertyRow.property = l.map Prod.fst ∧
    ∀ x ∈ fresh, x.contact = contact ∧ ∃ e ∈ l, e.1 = x.property ∧
      (e.2 = some x.syncRecordID ∨ e.2 = none ∧ ∃ k, x.syncRecordID = random k)

theorem wp_insertProperties {contact : Int} {random : Nat → Bytes}
    {E : RCError → Conn Tables → Prop} (k : Nat) (l : List (VCardProperty × Option Bytes))
    (hE : ∀ e c', c'.undo = c.undo → E e c') :
    wp (insertProperties contact random k l) (fun _ c' => Inserted contact random l c.now c'.now ∧
      c'.now.contacts = c.now.contacts ∧ c'.undo = c.undo) E c := by
  induction l generalizing c k with
  | nil => exact wp_pure ⟨⟨[], by simp⟩, rfl, rfl⟩
  | cons e l ih =>
    obtain ⟨p, syncID⟩ := e
    refine wp_bind (wp_stmt (fun a t ht => ?_) fun _ => hE _ _ rfl)
    unfold insertProperty at ht
    split at ht
    · rename_i properties hi
      cases ht
      refine wp_mono (ih (k + 1) hE) (fun _ c' hc => ?_) fun _ _ he => he
      obtain ⟨⟨fresh, hrows, hdoc, hfresh⟩, hcontacts, hundo⟩ := hc
      refine ⟨⟨⟨c.now.properties.nextRowid PropertyRow.id, contact, p, syncID.getD (random k)⟩ ::
        fresh, ?_, ?_, ?_⟩, hcontacts, hundo⟩
      · rw [hrows]
        show properties.rows ++ fresh = _
        rw [Table.insert_rows hi, List.append_assoc]
        rfl
      · simp [hdoc]
      · refine List.forall_mem_cons.2 ⟨⟨rfl, (p, syncID), List.mem_cons_self, rfl, ?_⟩, fun x hx => ?_⟩
        · cases syncID with
          | none => exact .inr ⟨rfl, k, rfl⟩
          | some id => exact .inl rfl
        · obtain ⟨hcontact, e, he, hs⟩ := hfresh x hx
          exact ⟨hcontact, e, List.mem_cons_of_mem _ he, hs⟩
    · cases ht

/-- Deleting the rows of a contact and inserting those of a document rebuilds them. -/
theorem rebuilt_of_inserted {document : VCardDocument} {random : Nat → Bytes} {contact : Int}
    (hp : t₁.properties = t.properties)
    (hi : Inserted contact random (document.properties.zip
      (document.properties.map fun p => previousIdentifier contact p t₁))
      (deleteProperties contact t₁) t') : Rebuilt contact document random t t' := by
  obtain ⟨fresh, hrows, hdoc, hfresh⟩ := hi
  have hprev (p : VCardProperty) :
      previousIdentifier contact p t₁ = previousIdentifier contact p t := by
    unfold previousIdentifier
    rw [hp]
  refine ⟨fresh, ?_, ?_, ?_⟩
  · rw [hrows, ← hp]
    congr 1
    exact List.filter_congr fun x _ => by simp
  · rw [hdoc, List.map_fst_zip (by simp)]
  · intro x hx
    obtain ⟨hcontact, e, he, hpe, hs⟩ := hfresh x hx
    refine ⟨hcontact, ?_⟩
    have hz := List.zip_map' (f := id) (g := fun p => previousIdentifier contact p t₁)
      (l := document.properties)
    rw [List.map_id] at hz
    rw [hz] at he
    obtain ⟨p, -, rfl⟩ := List.mem_map.1 he
    dsimp only [id_eq] at hpe hs
    rwa [hpe, hprev] at hs

theorem stays_saveVCard_stored {P : Tables → Prop} {collection run : Int} {href raw : Bytes}
    {etag : Option Bytes} {document : VCardDocument} {random : Nat → Bytes}
    (hP : ∀ t t', P t → Stored (collection, href) raw (some document) random t t' → P t') :
    stays P (saveVCard s collection run href etag raw document random) := by
  refine stays_checked (stays_savepointOnce_keeps fun c hc => ?_)
  refine wp_bind (wp_change (wp_bind (wp_change ?_ fun _ => rfl)) fun _ => rfl)
  refine wp_bind (wp_gate (wp_bind (wp_select ?_ fun _ => rfl)) fun _ => rfl)
  have he := @ensured_ensureContact collection run href raw (random 0) c.now
  generalize hu : ensureContact collection href raw run (random 0) c.now = u at he
  have hprops : u.properties = c.now.properties := by rw [← hu]; rfl
  have hcards := @cards_parsed u collection run href raw etag document.projection
  generalize hv : u.updateContacts (fun c => c.collection = collection && c.href = href)
    (Contact.parsed run etag raw document.projection) (fun _ => rfl) (fun _ => rfl) = v at hcards
  have hprops' : v.properties = c.now.properties := by rw [← hprops, ← hv]; rfl
  cases hf : v.findContact collection href with
  | none => exact wp_throw rfl
  | some row =>
    obtain ⟨hrow, hplace⟩ := Table.find?_some hf
    simp only [Bool.and_eq_true, decide_eq_true_iff] at hplace
    refine wp_bind (wp_copyPreviousPropertyIdentifiers ?_ fun _ => rfl)
    refine wp_bind (wp_change ?_ fun _ => rfl)
    refine wp_bind (wp_gate (wp_bind (wp_gate (wp_bind (wp_gate ?_ fun _ => rfl)) fun _ => rfl))
      fun _ => rfl)
    refine wp_mono (wp_insertProperties 1 _ fun _ _ hu => hu) (fun _ c' hc' => ?_) fun _ _ hu => hu
    obtain ⟨hi, hcontacts, hundo⟩ := hc'
    refine ⟨hP _ _ hc ⟨fun h => by simp at h, fun d hd => ?_⟩, hundo⟩
    obtain rfl := Option.some.inj hd
    refine ⟨u.cards, he, ?_, ?_⟩
    · rw [← hcards]
      unfold Tables.cards
      rw [hcontacts]
      rfl
    -- the row found is one of those ensured
    · have hk : row.card ∈ v.cards := Tables.mem_cards.2 ⟨row, hrow, rfl⟩
      rw [hcards] at hk
      obtain ⟨k, hk, hke⟩ := List.mem_map.1 hk
      have hlabel := Card.filled_label (collection, href) raw document.projection k
      rw [hke] at hlabel
      refine ⟨k, hk, ?_, ?_⟩
      · rw [show k.place = row.card.place from (congrArg (fun l => l.2.1) hlabel).symm]
        exact Prod.ext hplace.1 hplace.2
      · rw [show k.id = row.id from (congrArg (fun l => l.1) hlabel).symm]
        exact rebuilt_of_inserted hprops' hi

theorem stays_saveMalformed_stored {P : Tables → Prop} {collection run : Int} {href raw : Bytes}
    {etag : Option Bytes} {message : String} {random : Nat → Bytes}
    (hP : ∀ t t', P t → Stored (collection, href) raw none random t t' → P t') :
    stays P (saveMalformed s collection run href etag raw message random) := by
  refine stays_checked (stays_savepointOnce_keeps fun c hc => ?_)
  have hs : SameCards (ensureContact collection href raw run (random 0) c.now)
      ((ensureContact collection href raw run (random 0) c.now).updateContacts
        (fun c => c.collection = collection && c.href = href)
        (Contact.malformed run etag raw message) (fun _ => rfl) fun _ => rfl) :=
    sameCards_updateContacts fun _ => rfl
  refine wp_bind (wp_change (wp_change ⟨hP _ _ hc ⟨fun _ => ⟨?_, rfl⟩, fun d hd => ?_⟩, rfl⟩
    fun _ => rfl) fun _ => rfl)
  · rw [hs.cards]
    exact ensured_ensureContact c.now
  · simp at hd

end

/-! ## Every call -/

section
variable {P : Tables → Prop} {reader : Reader} {s : Store}

theorem stays_same_change {operation : String} {f : Tables → Tables}
    (hP : ∀ t t', P t → SameCards t t' → P t') (hl : ∀ t, (f t).contacts = t.contacts)
    (hp : ∀ t, (f t).properties = t.properties) : stays P (change operation f) :=
  stays_change fun t h => hP t _ h ⟨by unfold Tables.cards; rw [hl], hp t⟩

theorem stays_same_updateContacts {operation : String} {p : Tables → Contact → Bool}
    {f : Contact → Contact} {hf : ∀ c, (f c).place = c.place}
    {hf' : ∀ c, (f c).syncRecordID = c.syncRecordID}
    (hP : ∀ t t', P t → SameCards t t' → P t') (hcard : ∀ c, (f c).card = c.card) :
    stays P (change operation fun t => t.updateContacts (p t) f hf hf') :=
  stays_change fun t h => hP t _ h (sameCards_updateContacts hcard)

theorem stays_same_openAccount (hP : ∀ t t', P t → SameCards t t' → P t')
    (username random : Bytes) : stays P (openAccount username random) := by
  refine stays_bind stays_gate fun _ => stays_bind (stays_stmt fun t a t' h he => ?_) fun _ => ?_
  · cases he
    exact hP _ _ h ⟨rfl, rfl⟩
  refine stays_bind stays_gate fun _ => stays_bind stays_select fun row => ?_
  cases row with
  | none => exact stays_throw _
  | some a =>
    dsimp only
    split
    · exact stays_pure _
    · exact stays_throw _

theorem stays_same_markPublished {generation : Int} (hP : ∀ t t', P t → SameCards t t' → P t') :
    stays P (markPublished s generation) := by
  unfold markPublished
  split
  · exact stays_throw _
  · refine stays_transaction (stays_bind stays_gate fun _ => ?_)
    refine stays_bind (stays_stmt fun t a t' h he => ?_) fun changes => ?_
    · cases he
      exact hP _ _ h ⟨rfl, rfl⟩
    split
    · exact stays_throw _
    · refine stays_bind (stays_same_change hP (fun _ => rfl) fun _ => rfl) fun _ => ?_
      refine stays_bind stays_gate fun _ => stays_stmt fun t a t' h he => ?_
      unfold insertBases at he
      split at he <;> cases he
      exact hP _ _ h ⟨rfl, rfl⟩

theorem stays_same_finishRun {run : Int} {succeeded : Bool} {message : Option Bytes}
    (hP : ∀ t t', P t → SameCards t t' → P t') : stays P (finishRun s run succeeded message) := by
  refine stays_bind (stays_checkRun run) fun _ => stays_orRollback ?_
  have hclose (b : Bool) : stays P (change "Could not finish contact inventory"
      (closeRun s.account run b message)) := stays_same_change hP (fun _ => rfl) fun _ => rfl
  split
  · refine stays_bind ?_ fun _ => stays_bind (hclose true) fun _ => stays_commit
    refine stays_bind (stays_same_change hP (fun _ => rfl) fun _ => rfl) fun _ => ?_
    refine stays_bind (stays_same_updateContacts hP fun _ => rfl) fun _ => ?_
    exact stays_same_change hP (fun _ => rfl) fun _ => rfl
  · exact stays_bind stays_rollback fun _ => hclose false

/-- **Whatever is refused**, what a call does to these rows is in `Advances`. -/
theorem stays_call (q : Call) (hP : ∀ t t', P t → Advances reader q t t' → P t') :
    stays P (q.run reader s) := by
  have hS : ∀ t t', P t → SameCards t t' → P t' := fun t t' h hs => hP t t' h (.same q hs)
  cases q with
  | getPublicationState =>
    show stays P (getPublicationState s)
    unfold getPublicationState
    split
    · exact stays_throw _
    · refine stays_bind stays_gate fun _ => stays_bind stays_select fun row => ?_
      cases row
      · exact stays_throw _
      · exact stays_pure _
  | markPublished generation => exact stays_same_markPublished hS
  | beginRun =>
    show stays P (beginRun s)
    unfold beginRun
    split
    · exact stays_throw _
    · refine stays_bind stays_gate fun _ => stays_bind (stays_stmt fun t a t' h he => ?_) fun _ =>
        stays_bind stays_begin fun _ => stays_pure _
      unfold insertRun at he
      split at he <;> cases he
      exact hS _ _ h ⟨rfl, rfl⟩
  | getCollection url displayName =>
    refine stays_bind (stays_same_change hS (fun _ => rfl) fun _ => rfl) fun _ => ?_
    refine stays_bind (stays_same_change hS (fun _ => rfl) fun _ => rfl) fun _ => ?_
    refine stays_bind stays_gate fun _ => stays_bind stays_select fun row => ?_
    cases row
    · exact stays_throw _
    · exact stays_pure _
  | resourceIsCurrent collection href etag =>
    exact stays_bind (stays_checkCollection _) fun _ => stays_bind stays_gate fun _ => stays_select
  | keepCollection collection run =>
    exact stays_checked (stays_same_updateContacts hS fun _ => rfl)
  | syncDelete collection href run =>
    exact stays_checked (stays_same_updateContacts hS fun _ => rfl)
  | markSeen collection href run =>
    exact stays_checked (stays_same_updateContacts hS fun _ => rfl)
  | saveResource collection run href etag body random =>
    have hA : ∀ t t', P t → Stored (collection, href) (body.column.getD []) (reader.accepted body)
        random t t' → P t' := fun t t' h hs =>
      hP t t' h (.stored collection run href etag body random hs)
    show stays P (saveResource reader s collection run href etag body random)
    unfold saveResource
    unfold Reader.accepted at hA
    cases hp : reader.parse body <;> rw [hp] at hA
    · exact stays_bind (stays_saveMalformed_stored hA) fun _ => stays_pure _
    · exact stays_bind (stays_saveVCard_stored hA) fun _ => stays_pure _
  | finishCollection collection run =>
    refine stays_checked (stays_savepointOnce ?_)
    exact stays_bind (stays_same_updateContacts hS fun _ => rfl) fun _ =>
      stays_same_change hS (fun _ => rfl) fun _ => rfl
  | finishRun run succeeded message => exact stays_same_finishRun hS
  | journal q =>
    show stays P (onJournal (q.run s.account))
    refine stays_within (call_keeps q) fun c hc => wp_mono (wp_any _) ?_ ?_
    · exact fun _ _ _ => hS _ _ hc.now ⟨rfl, rfl⟩
    · exact fun _ _ _ => hS _ _ hc.now ⟨rfl, rfl⟩
  | loadSync url =>
    exact stays_onSyncState Dav.SyncState.keeps_load fun t y h => hS _ _ h ⟨rfl, rfl⟩
  | saveSync url token scope run =>
    exact stays_onSyncState Dav.SyncState.keeps_save fun t y h => hS _ _ h ⟨rfl, rfl⟩
  | finishSync run =>
    exact stays_onSyncState Dav.SyncState.keeps_finish fun t y h => hS _ _ h ⟨rfl, rfl⟩

end

/-! ## The rows of a reachable store -/

/-- `RCVCardParse` numbers the properties of a card. -/
def Reader.Numbered (reader : Reader) : Prop :=
  ∀ text, ((reader.document text).properties.map VCardProperty.position).Nodup

/-- Ids and positions are used once, and every property has its contact. -/
structure Orderly (t : Tables) : Prop where
  ids : (t.cards.map Card.id).Nodup
  homed : ∀ x ∈ t.properties, x.contact ∈ t.cards.map Card.id
  positions : ∀ x ∈ t.properties, ∀ y ∈ t.properties, x.contact = y.contact →
    x.property.position = y.property.position → x = y

/-- The rows of a contact, and what its own row shows, are those of its usable card. -/
def Card.Mirrored (reader : Reader) (t : Tables) (k : Card) : Prop :=
  match k.usable with
  | none => k.projection = .none ∧ t.propertiesOf k.id = []
  | some raw => ∃ d, reader.parse (.data raw) = .ok d ∧ k.projection = d.projection ∧
    (t.propertiesOf k.id).map PropertyRow.property = d.properties

structure Mirrors (reader : Reader) (t : Tables) : Prop extends Orderly t where
  mirrored : ∀ k ∈ t.cards, k.Mirrored reader t

section
variable {reader : Reader} {t t' : Tables} {place : Int × Bytes} {l l' : List Card}

theorem Reader.accepted_eq {body : Buf} {d : VCardDocument} (h : reader.accepted body = some d) :
    ∃ raw, body = .data raw ∧ reader.parse (.data raw) = .ok d ∧
      d = reader.document (Resource.unfold raw.length raw) := by
  unfold Reader.accepted at h
  cases body with
  | null => cases h
  | data raw =>
    cases hp : reader.parse (.data raw) with
    | error e =>
      rw [hp] at h
      cases h
    | ok d' =>
      rw [hp] at h
      cases h
      refine ⟨raw, rfl, hp, ?_⟩
      unfold Reader.parse at hp
      cases hv : Resource.parseVCard reader.toParsers raw with
      | error e => simp [hv, bind, Except.bind] at hp
      | ok => simpa [hv, bind, Except.bind] using hp.symm

theorem Reader.Numbered.accepted (hn : reader.Numbered) {body : Buf} {d : VCardDocument}
    (h : reader.accepted body = some d) : (d.properties.map VCardProperty.position).Nodup := by
  obtain ⟨raw, -, -, rfl⟩ := Reader.accepted_eq h
  exact hn _

theorem Ensured.mem (h : Ensured place l l') {k : Card} (hk : k ∈ l) : k ∈ l' := by
  obtain rfl | ⟨id, syncID, rfl, -⟩ := h
  · exact hk
  · exact List.mem_append_left _ hk

/-- A card is an old one, or new and empty. -/
theorem Ensured.cases (h : Ensured place l l') {k : Card} (hk : k ∈ l') :
    k ∈ l ∨ k.usable = none ∧ k.projection = .none ∧ k.place = place ∧ k.id ∉ l.map Card.id := by
  obtain rfl | ⟨id, syncID, rfl, hnew⟩ := h
  · exact .inl hk
  rcases List.mem_append.1 hk with hk | hk
  · exact .inl hk
  · obtain rfl := List.mem_singleton.1 hk
    refine .inr ⟨rfl, rfl, rfl, fun hm => ?_⟩
    obtain ⟨k, hk, he⟩ := List.mem_map.1 hm
    have := (hnew k hk).1
    dsimp only at he
    omega

theorem Ensured.ids (h : Ensured place l l') (hl : (l.map Card.id).Nodup) :
    (l'.map Card.id).Nodup := by
  obtain rfl | ⟨id, syncID, rfl, hnew⟩ := h
  · exact hl
  rw [List.map_append]
  refine hl.append (List.nodup_singleton _) ?_
  simp only [List.map_cons, List.map_nil, List.disjoint_singleton, List.mem_map, not_exists,
    not_and]
  intro k hk he
  have := (hnew k hk).1
  omega

theorem map_filled_id (place : Int × Bytes) (raw : Bytes) (projection : Projection)
    (l : List Card) : (l.map (Card.filled place raw projection)).map Card.id = l.map Card.id := by
  rw [List.map_map]
  exact List.map_congr_left fun k _ => congrArg Prod.fst (Card.filled_label place raw projection k)

/-- The ids in use, after a save. -/
theorem Stored.ids {raw : Bytes} {document : Option VCardDocument} {random : Nat → Bytes}
    (h : Stored place raw document random t t') :
    ∃ l, Ensured place t.cards l ∧ t'.cards.map Card.id = l.map Card.id := by
  cases document with
  | none => exact ⟨t'.cards, (h.malformed rfl).1, rfl⟩
  | some d =>
    obtain ⟨l, he, hl, -⟩ := h.parsed d rfl
    exact ⟨l, he, by rw [hl, map_filled_id]⟩

/-! ### Rebuilt rows -/

section
variable {contact : Int} {d : VCardDocument} {random : Nat → Bytes}

/-- The rows of a rebuilt contact are new, those of the others are old. -/
theorem Rebuilt.mem (h : Rebuilt contact d random t t') {x : PropertyRow}
    (hx : x ∈ t'.properties) : x.contact ≠ contact ∧ x ∈ t.properties ∨
      x.contact = contact ∧ x.property ∈ d.properties ∧ Carried contact random t x := by
  obtain ⟨fresh, hrows, hdoc, hfresh⟩ := h
  rw [← Table.mem_rows, hrows, List.mem_append, List.mem_filter] at hx
  rcases hx with ⟨hx, hc⟩ | hx
  · exact .inl ⟨of_decide_eq_true hc, hx⟩
  · refine .inr ⟨(hfresh x hx).owner, ?_, hfresh x hx⟩
    rw [← hdoc]
    exact List.mem_map_of_mem hx

theorem Rebuilt.kept (h : Rebuilt contact d random t t') {x : PropertyRow}
    (hx : x ∈ t.properties) (hc : x.contact ≠ contact) : x ∈ t'.properties := by
  obtain ⟨fresh, hrows, -⟩ := h
  rw [← Table.mem_rows, hrows]
  exact List.mem_append_left _ (List.mem_filter.2 ⟨hx, decide_eq_true hc⟩)

theorem Rebuilt.has (h : Rebuilt contact d random t t') {p : VCardProperty}
    (hp : p ∈ d.properties) : ∃ x ∈ t'.properties, x.property = p ∧ Carried contact random t x := by
  obtain ⟨fresh, hrows, hdoc, hfresh⟩ := h
  rw [← hdoc] at hp
  obtain ⟨x, hx, rfl⟩ := List.mem_map.1 hp
  refine ⟨x, ?_, rfl, hfresh x hx⟩
  rw [← Table.mem_rows, hrows]
  exact List.mem_append_right _ hx

theorem Rebuilt.propertiesOf (h : Rebuilt contact d random t t') :
    (t'.propertiesOf contact).map PropertyRow.property = d.properties := by
  obtain ⟨fresh, hrows, hdoc, hfresh⟩ := h
  unfold Tables.propertiesOf
  have hnone : (t.properties.rows.filter fun x => x.contact ≠ contact).filter
      (fun x => x.contact = contact) = [] := by simp
  have hall : fresh.filter (fun x => x.contact = contact) = fresh :=
    List.filter_eq_self.2 fun x hx => decide_eq_true (hfresh x hx).owner
  rw [hrows, List.filter_append, hnone, hall, List.nil_append, hdoc]

theorem Rebuilt.propertiesOf_other (h : Rebuilt contact d random t t') {other : Int}
    (hne : other ≠ contact) : t'.propertiesOf other = t.propertiesOf other := by
  obtain ⟨fresh, hrows, -, hfresh⟩ := h
  unfold Tables.propertiesOf
  have hnone : fresh.filter (fun x => x.contact = other) = [] := by
    refine List.filter_eq_nil_iff.2 fun x hx => ?_
    simp [(hfresh x hx).owner, Ne.symm hne]
  rw [hrows, List.filter_append, hnone, List.append_nil, List.filter_filter]
  refine List.filter_congr fun x _ => ?_
  by_cases hx : x.contact = other <;> simp [hx, hne]

theorem Rebuilt.positions (h : Rebuilt contact d random t t')
    (hd : (d.properties.map VCardProperty.position).Nodup) (ht : Orderly t) :
    ∀ x ∈ t'.properties, ∀ y ∈ t'.properties, x.contact = y.contact →
      x.property.position = y.property.position → x = y := by
  intro x hx y hy hc hp
  by_cases hxc : x.contact = contact
  · -- both are among the new rows
    have hof {z : PropertyRow} (hz : z ∈ t'.properties) (hzc : z.contact = contact) :
        z ∈ t'.propertiesOf contact := List.mem_filter.2 ⟨hz, decide_eq_true hzc⟩
    rw [← h.propertiesOf, List.map_map] at hd
    exact List.inj_on_of_nodup_map hd (hof hx hxc) (hof hy (hc ▸ hxc)) hp
  · -- both are old rows
    have hold {z : PropertyRow} (hz : z ∈ t'.properties) (hzc : z.contact ≠ contact) :
        z ∈ t.properties := by
      rcases h.mem hz with hz | hz
      · exact hz.2
      · exact absurd hz.1 hzc
    exact ht.positions x (hold hx hxc) y (hold hy (hc ▸ hxc)) hc hp

end

/-! ### The invariants -/

namespace Orderly

theorem empty : Orderly Tables.empty where
  ids := List.nodup_nil
  homed _ h := absurd h (Table.not_mem_empty _)
  positions _ h := absurd h (Table.not_mem_empty _)

theorem same (h : Orderly t) (hs : SameCards t t') : Orderly t' := by
  obtain ⟨hl, hp⟩ := hs
  exact ⟨hl ▸ h.ids, hl ▸ hp ▸ h.homed, hp ▸ h.positions⟩

theorem stored {raw : Bytes} {document : Option VCardDocument} {random : Nat → Bytes}
    (h : Orderly t) (hs : Stored place raw document random t t')
    (hd : ∀ d, document = some d → (d.properties.map VCardProperty.position).Nodup) :
    Orderly t' := by
  obtain ⟨l, he, hl⟩ := hs.ids
  have hid {id : Int} (hm : id ∈ t.cards.map Card.id) : id ∈ t'.cards.map Card.id := by
    obtain ⟨k, hk, rfl⟩ := List.mem_map.1 hm
    rw [hl]
    exact List.mem_map_of_mem (he.mem hk)
  have hids : (t'.cards.map Card.id).Nodup := by
    rw [hl]
    exact he.ids h.ids
  cases document with
  | none =>
    have hp := (hs.malformed rfl).2
    exact ⟨hids, fun x hx => hid (h.homed x (hp ▸ hx)), hp ▸ h.positions⟩
  | some d =>
    obtain ⟨l', -, hl', k, hk, -, hr⟩ := hs.parsed d rfl
    refine ⟨hids, fun x hx => ?_, hr.positions (hd d rfl) h⟩
    rcases hr.mem hx with ⟨-, hx⟩ | ⟨hx, -⟩
    · exact hid (h.homed x hx)
    · rw [hx, hl', map_filled_id]
      exact List.mem_map_of_mem hk

theorem advances (hn : reader.Numbered) (h : Orderly t) {q : Call}
    (ha : Advances reader q t t') : Orderly t' := by
  cases ha with
  | same q hs => exact h.same hs
  | stored collection run href etag body random hs => exact h.stored hs fun d => hn.accepted

/-- No row is under an id that no contact has. -/
theorem propertiesOf_nil (h : Orderly t) {id : Int} (hn : id ∉ t.cards.map Card.id) :
    t.propertiesOf id = [] :=
  List.filter_eq_nil_iff.2 fun x hx hc => hn (of_decide_eq_true hc ▸ h.homed x hx)

end Orderly

/-- A place is used once. -/
theorem Tables.card_of_place {k k' : Card} (hk : k ∈ t.cards) (hk' : k' ∈ t.cards)
    (he : k.place = k'.place) : k = k' := by
  obtain ⟨c, hc, rfl⟩ := Tables.mem_cards.1 hk
  obtain ⟨c', hc', rfl⟩ := Tables.mem_cards.1 hk'
  rw [Table.eq_of_key hc hc' he]

theorem Card.Mirrored.congr {k : Card} (h : k.Mirrored reader t)
    (he : t'.propertiesOf k.id = t.propertiesOf k.id) : k.Mirrored reader t' := by
  unfold Card.Mirrored at *
  rwa [he]

theorem Card.filled_mirrored {k : Card} {raw : Bytes} {d : VCardDocument} (hk : k.place = place)
    (hp : reader.parse (.data raw) = .ok d)
    (hd : (t.propertiesOf k.id).map PropertyRow.property = d.properties) :
    (k.filled place raw d.projection).Mirrored reader t := by
  unfold Card.filled
  rw [if_pos hk]
  exact ⟨d, hp, rfl, hd⟩

namespace Mirrors

theorem empty : Mirrors reader Tables.empty := ⟨.empty, fun _ h => by cases h⟩

theorem same (h : Mirrors reader t) (hs : SameCards t t') : Mirrors reader t' := by
  refine ⟨h.toOrderly.same hs, fun k hk => (h.mirrored k (hs.cards ▸ hk)).congr ?_⟩
  unfold Tables.propertiesOf
  rw [hs.properties]

/-- The row that a save adds has no rows yet. -/
theorem ensured (h : Mirrors reader t) (he : Ensured place t.cards l) {k : Card} (hk : k ∈ l) :
    k.Mirrored reader t := by
  rcases he.cases hk with hk | ⟨husable, hproj, -, hid⟩
  · exact h.mirrored k hk
  · unfold Card.Mirrored
    rw [husable]
    exact ⟨hproj, h.propertiesOf_nil hid⟩

theorem stored {raw : Bytes} {document : Option VCardDocument} {random : Nat → Bytes}
    (h : Mirrors reader t) (hs : Stored place raw document random t t')
    (hd : ∀ d, document = some d → reader.parse (.data raw) = .ok d ∧
      (d.properties.map VCardProperty.position).Nodup) : Mirrors reader t' := by
  refine ⟨h.toOrderly.stored hs fun d he => (hd d he).2, fun k hk => ?_⟩
  cases document with
  | none =>
    obtain ⟨he, hp⟩ := hs.malformed rfl
    refine (h.ensured he hk).congr ?_
    unfold Tables.propertiesOf
    rw [hp]
  | some d =>
    obtain ⟨l, he, hl, k₀, hk₀, hplace, hr⟩ := hs.parsed d rfl
    have hids := he.ids h.ids
    have hmem {k : Card} (hk : k ∈ l) : k.filled place raw d.projection ∈ t'.cards :=
      hl ▸ List.mem_map_of_mem hk
    rw [hl] at hk
    obtain ⟨k, hkl, rfl⟩ := List.mem_map.1 hk
    by_cases hkp : k.place = place
    · -- the card that was saved
      have hlabel {k : Card} : (k.filled place raw d.projection).place = k.place :=
        congrArg (fun l => l.2.1) (Card.filled_label place raw d.projection k)
      rw [Tables.card_of_place (hmem hkl) (hmem hk₀) (by rw [hlabel, hlabel, hkp, hplace])]
      exact Card.filled_mirrored hplace (hd d rfl).1 hr.propertiesOf
    · -- another one
      have hne : k.id ≠ k₀.id := fun hid =>
        hkp (List.inj_on_of_nodup_map hids hkl hk₀ hid ▸ hplace)
      have hsame : k.filled place raw d.projection = k := if_neg hkp
      rw [hsame]
      exact (h.ensured he hkl).congr (hr.propertiesOf_other hne)

/-- Every call keeps the rows those of the usable cards. -/
theorem advances (hn : reader.Numbered) (h : Mirrors reader t) {q : Call}
    (ha : Advances reader q t t') : Mirrors reader t' := by
  cases ha with
  | same q hs => exact h.same hs
  | stored collection run href etag body random hs =>
    refine h.stored hs fun d hd => ?_
    obtain ⟨raw, rfl, hp, -⟩ := Reader.accepted_eq hd
    exact ⟨hp, hn.accepted hd⟩

end Mirrors

/-! ### Identifiers -/

/-- The property `key` of a contact is known by `syncID`. -/
def Named (t : Tables) (contact : Int) (key : Int × Option Bytes × Bytes) (syncID : Bytes) : Prop :=
  ∃ x ∈ t.properties, x.contact = contact ∧ x.property.key = key ∧ x.syncRecordID = syncID

/-- The call saves a body for the resource at `place` that parses without the property `key`. -/
def Call.Drops (reader : Reader) (place : Int × Bytes) (key : Int × Option Bytes × Bytes) :
    Call → Prop
  | .saveResource collection _ href _ body _ => (collection, href) = place ∧
    ∃ d, reader.accepted body = some d ∧ ∀ p ∈ d.properties, p.key ≠ key
  | _ => False

/-- The name is the only one of its key. -/
theorem Orderly.named_unique (h : Orderly t) {contact : Int} {key : Int × Option Bytes × Bytes}
    {syncID : Bytes} (hn : Named t contact key syncID) {x : PropertyRow} (hx : x ∈ t.properties)
    (hc : x.contact = contact) (hk : x.property.key = key) : x.syncRecordID = syncID := by
  obtain ⟨y, hy, hyc, hyk, rfl⟩ := hn
  rw [h.positions x hx y hy (hc.trans hyc.symm)
    (congrArg (fun k => k.1) (hk.trans hyk.symm))]

/-- `RCCopyPreviousPropertyIdentifiers` finds it. -/
theorem Orderly.previousIdentifier (h : Orderly t) {contact : Int} {p : VCardProperty}
    {syncID : Bytes} (hn : Named t contact p.key syncID) :
    previousIdentifier contact p t = some syncID := by
  obtain ⟨y, hy, hyc, hyk, hys⟩ := hn
  have hfound : (fun r : PropertyRow => r.contact = contact && r.property.position = p.position &&
      r.property.group = p.group && r.property.name = p.name : PropertyRow → Bool) y = true := by
    simp only [VCardProperty.key, Prod.mk.injEq] at hyk
    simp [hyc, hyk.1, hyk.2.1, hyk.2.2]
  unfold ContactStore.previousIdentifier
  cases hf : t.properties.find? fun r => r.contact = contact &&
      r.property.position = p.position && r.property.group = p.group &&
      r.property.name = p.name with
  | none => simp [Table.find?_none hf hy] at hfound
  | some r =>
    obtain ⟨hr, hrp⟩ := Table.find?_some hf
    simp only [Bool.and_eq_true, decide_eq_true_iff] at hrp
    simp only [Option.map_some, Option.some.injEq]
    refine h.named_unique ⟨y, hy, hyc, hyk, hys⟩ hr hrp.1.1.1 ?_
    simp [VCardProperty.key, hrp]

/-- A contact keeps its id and its identifier. -/
theorem label_advances {k : Card} {q : Call} (h : ∃ k' ∈ t.cards, k'.label = k.label)
    (ha : Advances reader q t t') : ∃ k' ∈ t'.cards, k'.label = k.label := by
  obtain ⟨k', hk', he⟩ := h
  cases ha with
  | same q hs => exact ⟨k', hs.cards ▸ hk', he⟩
  | stored collection run href etag body random hs =>
    generalize hd : reader.accepted body = document at hs
    cases document with
    | none => exact ⟨k', (hs.malformed rfl).1.mem hk', he⟩
    | some d =>
      obtain ⟨l, hl, hcards, -⟩ := hs.parsed d rfl
      rw [hcards]
      exact ⟨_, List.mem_map_of_mem (hl.mem hk'), (Card.filled_label _ _ _ k').trans he⟩

/-- The contact of `k` is there, and its property `key` is known by `syncID`. -/
structure Known (k : Card) (key : Int × Option Bytes × Bytes) (syncID : Bytes) (t : Tables) :
    Prop where
  orderly : Orderly t
  contact : ∃ k' ∈ t.cards, k'.label = k.label
  named : Named t k.id key syncID

theorem Known.same {k : Card} {key : Int × Option Bytes × Bytes} {syncID : Bytes}
    (h : Known k key syncID t) (hs : SameCards t t') : Known k key syncID t' := by
  refine ⟨h.orderly.same hs, hs.cards ▸ h.contact, ?_⟩
  unfold Named
  rw [hs.properties]
  exact h.named

/-- A save of another contact, of a body that does not parse, or of one that still has the
property. -/
theorem Known.advances {k : Card} {key : Int × Option Bytes × Bytes} {syncID : Bytes} {q : Call}
    (hn : reader.Numbered) (hq : ¬ q.Drops reader k.place key) (h : Known k key syncID t)
    (ha : Advances reader q t t') : Known k key syncID t' := by
  have ha' := ha
  cases ha with
  | same q hs => exact h.same hs
  | stored collection run href etag body random hs =>
    refine ⟨h.orderly.advances hn ha', label_advances h.contact ha', ?_⟩
    obtain ⟨x, hx, hxc, hxk, hxs⟩ := h.named
    generalize hd : reader.accepted body = document at hs
    cases document with
    | none => exact ⟨x, (hs.malformed rfl).2 ▸ hx, hxc, hxk, hxs⟩
    | some d =>
      obtain ⟨l, hl, -, k₀, hk₀, hplace, hr⟩ := hs.parsed d rfl
      by_cases hid : k.id = k₀.id
      · -- the contact that was saved: its new body has the property
        obtain ⟨k', hk', hlabel⟩ := h.contact
        have hk : k' = k₀ := List.inj_on_of_nodup_map (hl.ids h.orderly.ids) (hl.mem hk') hk₀
          ((congrArg Prod.fst hlabel).trans hid)
        have hkp : (collection, href) = k.place := by
          rw [← hplace, ← hk]
          exact congrArg (fun l => l.2.1) hlabel
        obtain ⟨p, hp, hpk⟩ : ∃ p ∈ d.properties, p.key = key := by
          by_contra hnone
          refine hq ⟨hkp, d, hd, fun p hp he => hnone ⟨p, hp, he⟩⟩
        obtain ⟨y, hy, rfl, hyc, hys⟩ := hr.has hp
        have hprev := h.orderly.previousIdentifier (p := y.property) (hpk ▸ h.named)
        rw [← hid, hprev] at hys
        refine ⟨y, hy, hyc.trans hid.symm, hpk, ?_⟩
        rcases hys with hys | ⟨hys, -⟩
        · exact (Option.some.inj hys).symm
        · cases hys
      · exact ⟨x, hr.kept hx (hxc ▸ hid), hxc, hxk, hxs⟩

end

/-! ## Whole runs -/

section
variable {reader : Reader} {w w' : Site} {past : List Site}

theorem Reached.mirrors (hn : reader.Numbered) (h : Reached reader w past) :
    w.conn.All (Mirrors reader) :=
  h.images (P := fun _ => Mirrors reader) .empty (fun _ _ _ h => h)
    (fun _ => stays_same_openAccount fun _ _ => Mirrors.same)
    fun _ _ q => stays_call q fun _ _ ht ha => ht.advances hn ha

/-- **The rows of a reachable store mirror its usable cards**: what a contact shows and its property
rows, in their order, are those of the body that parsed last, whatever has been refused, rolled back
or overwritten by bodies that do not parse; and no property is left without its contact. -/
theorem rows_mirror (hn : reader.Numbered) (h : Reached reader w past) :
    ∀ t ∈ w.conn.images,
      (∀ c ∈ t.contacts,
        (c.usableVCard = none → c.projection = .none ∧ t.propertiesOf c.id = []) ∧
        ∀ raw, c.usableVCard = some raw → ∃ d, reader.parse (.data raw) = .ok d ∧
          c.projection = d.projection ∧
          (t.propertiesOf c.id).map PropertyRow.property = d.properties) ∧
      ∀ x ∈ t.properties, ∃ c ∈ t.contacts, c.id = x.contact := by
  intro t ht
  have hm := h.mirrors hn t ht
  refine ⟨fun c hc => ?_, fun x hx => ?_⟩
  · have hk := hm.mirrored c.card (Tables.mem_cards.2 ⟨c, hc, rfl⟩)
    unfold Card.Mirrored at hk
    refine ⟨fun hu => ?_, fun raw hu => ?_⟩
    · rwa [show c.card.usable = none from hu] at hk
    · rwa [show c.card.usable = some raw from hu] at hk
  · obtain ⟨k, hk, he⟩ := List.mem_map.1 (hm.homed x hx)
    obtain ⟨c, hc, rfl⟩ := Tables.mem_cards.1 hk
    exact ⟨c, hc, he⟩

/-- What a step does to each image is in `Advances` of the call it makes, if it makes one. -/
theorem step_advances (h : Step reader w w') : ∃ calls, w'.log = calls ++ w.log ∧
    ∀ P : Tables → Prop, (∀ t t', P t → SameCards t t' → P t') →
      (∀ e ∈ calls, ∀ t t', P t → Advances reader e.2 t t' → P t') →
      w.conn.All P → w'.conn.All P := by
  cases h with
  | opened username random faults closed =>
    refine ⟨[], ?_, fun P hS _ hw => ?_⟩
    · exact (open_spec (P := fun _ => True) (fun c _ => wp_mono (wp_any _)
        (fun _ _ _ _ _ => trivial) fun _ _ _ _ _ => trivial) (fun _ _ => trivial) faults).2
    · exact (open_spec (stays_same_openAccount hS username random) hw faults).1
  | closed => exact ⟨[], rfl, fun P _ _ hw t ht => hw t (Conn.images_rollback ht)⟩
  | call s q faults here =>
    refine ⟨[(s.account, q)], call_log s q faults, fun P _ hA hw => ?_⟩
    exact call_spec (P := fun c => c.All P)
      (stays_call q (hA _ List.mem_cons_self) w.conn hw) faults
  | push => exact ⟨[], rfl, fun P _ _ hw t ht => hw t (Conn.images_push ht)⟩
  | release => exact ⟨[], rfl, fun P _ _ hw t ht => hw t (Conn.images_release ht)⟩
  | restore => exact ⟨[], rfl, fun P _ _ hw t ht => hw t (Conn.images_restore ht)⟩
  | commit => exact ⟨[], rfl, fun P _ _ hw t ht => hw t (Conn.images_commit ht)⟩
  | rollback => exact ⟨[], rfl, fun P _ _ hw t ht => hw t (Conn.images_rollback ht)⟩

/-- The same over the steps of a run. -/
theorem steps_advance (h : Relation.ReflTransGen (Step reader) w w') :
    ∃ calls, w'.log = calls ++ w.log ∧
      ∀ P : Tables → Prop, (∀ t t', P t → SameCards t t' → P t') →
        (∀ e ∈ calls, ∀ t t', P t → Advances reader e.2 t t' → P t') →
        w.conn.All P → w'.conn.All P := by
  induction h with
  | refl => exact ⟨[], rfl, fun P _ _ hw => hw⟩
  | tail _ hs ih =>
    obtain ⟨calls, hlog, hP⟩ := ih
    obtain ⟨more, hlog', hP'⟩ := step_advances hs
    refine ⟨more ++ calls, by rw [hlog', hlog, List.append_assoc], fun P hS hA hw => ?_⟩
    refine hP' P hS (fun e he => hA e (List.mem_append_left _ he)) (hP P hS (fun e he => ?_) hw)
    exact hA e (List.mem_append_right _ he)

/-- **Identities last.** A contact that is there keeps its id and its identifier on whatever run
follows, the only one of its href; and each of its properties keeps its identifier as long as no
body is saved for the contact that parses without a property of that position, group and name. -/
theorem identity_stable (hn : reader.Numbered) (h : Reached reader w past)
    (hl : Relation.ReflTransGen (Step reader) w w') :
    ∃ calls, w'.log = calls ++ w.log ∧
      ∀ c₀ : Contact, (w.conn.All fun t => ∃ c ∈ t.contacts, c.card.label = c₀.card.label) →
        ∀ t ∈ w'.conn.images,
          (∃ c ∈ t.contacts, c.place = c₀.place) ∧
          (∀ c ∈ t.contacts, c.place = c₀.place →
            c.id = c₀.id ∧ c.syncRecordID = c₀.syncRecordID) ∧
          ∀ key syncID, (w.conn.All fun t => Named t c₀.id key syncID) →
            (∀ e ∈ calls, ¬ e.2.Drops reader c₀.place key) →
            Named t c₀.id key syncID ∧
              ∀ x ∈ t.properties, x.contact = c₀.id → x.property.key = key →
                x.syncRecordID = syncID := by
  obtain ⟨calls, hlog, hP⟩ := steps_advance hl
  refine ⟨calls, hlog, fun c₀ hc₀ t ht => ?_⟩
  have hlabel : ∃ k ∈ t.cards, k.label = c₀.card.label := by
    refine hP (fun t => ∃ k ∈ t.cards, k.label = c₀.card.label) (fun t t' ht hs => hs.cards ▸ ht)
      (fun e _ t t' ht ha => label_advances ht ha) (fun t ht => ?_) t ht
    obtain ⟨c, hc, he⟩ := hc₀ t ht
    exact ⟨c.card, Tables.mem_cards.2 ⟨c, hc, rfl⟩, he⟩
  obtain ⟨k, hk, he⟩ := hlabel
  obtain ⟨c₁, hc₁, rfl⟩ := Tables.mem_cards.1 hk
  have hplace : c₁.place = c₀.place := congrArg (fun l => l.2.1) he
  refine ⟨⟨c₁, hc₁, hplace⟩, fun c hc hcp => ?_, fun key syncID hname hdrop => ?_⟩
  · rw [Table.eq_of_key hc hc₁ (hcp.trans hplace.symm)]
    exact ⟨congrArg (fun l => l.1) he, congrArg (fun l => l.2.2) he⟩
  · have hknown : Known c₀.card key syncID t := by
      refine hP (Known c₀.card key syncID) (fun t t' ht hs => ?_)
        (fun e he t t' ht ha => ht.advances hn (hdrop e he) ha) (fun t ht => ?_) t ht
      · exact ht.same hs
      · obtain ⟨c, hc, he⟩ := hc₀ t ht
        exact ⟨(h.mirrors hn t ht).toOrderly, ⟨c.card, Tables.mem_cards.2 ⟨c, hc, rfl⟩, he⟩,
          hname t ht⟩
    exact ⟨hknown.named, fun x hx => hknown.orderly.named_unique hknown.named hx⟩

end

/-! ### A contact that is replaced twice -/

/-- A list of calls is a run, and the log is theirs. -/
theorem perform_steps {reader : Reader} (qs : List Call) {w : Site} :
    Relation.ReflTransGen (Step reader) w (w.perform reader qs) ∧
      ∃ es, (w.perform reader qs).log = es ++ w.log ∧ ∀ e ∈ es, e.2 ∈ qs := by
  induction qs generalizing w with
  | nil => exact ⟨.refl, [], rfl, by simp⟩
  | cons q qs ih =>
    unfold Site.perform
    cases hs : w.store with
    | none => exact ⟨.refl, [], rfl, by simp⟩
    | some s =>
      obtain ⟨hsteps, es, hlog, hmem⟩ := ih (w := w.call reader s q [])
      refine ⟨.head (.call w s q [] hs) hsteps, es ++ [(s.account, q)], ?_, fun e he => ?_⟩
      · rw [hlog, call_log, List.append_assoc]
        rfl
      · rcases List.mem_append.1 he with he | he
        · exact List.mem_cons_of_mem q (hmem e he)
        · rw [List.mem_singleton.1 he]
          exact List.mem_cons_self

/-- Of the texts tried here, the cards begin with `B`; each letter after it is a property. -/
def letterReader : Reader where
  vcard b := b.head? = some 0x42
  calendar _ := true
  document b := ⟨.none, (b.tail.filter fun x => x ≠ 10).mapIdx fun i x =>
    ⟨none, [x], [], [], none, i, [], []⟩⟩

theorem letterReader_numbered : letterReader.Numbered := by
  intro text
  have he : (letterReader.document text).properties.map VCardProperty.position =
      (List.range (text.tail.filter fun x => x ≠ 10).length).map Int.ofNat :=
    List.ext_getElem (by simp [letterReader]) fun i _ _ => by simp [letterReader]
  rw [he]
  exact List.nodup_range.map fun _ _ h => Int.ofNat.inj h

/-- One inventory of a book with one contact. -/
def downloaded (run : Int) (body syncID : String) : List Call :=
  [.beginRun, .getCollection (ascii "https://dav/book/") none,
    .saveResource 1 run (ascii "https://dav/book/1") (some (ascii "\"v\"")) (.data (ascii body))
      fun k => ascii syncID ++ [k.toUInt8],
    .finishCollection 1 run, .finishRun run true none]

/-- A contact with the properties `T` and `A`. -/
def letterSite : Site := Site.start.perform letterReader (downloaded 1 "BTA" "a")

/-- Its replacements: a body that does not parse, and one with `E` where `A` was. -/
def replacements : List Call := downloaded 2 "xTA" "b" ++ downloaded 3 "BTE" "c"

def replacedSite : Site := letterSite.perform letterReader replacements

/-- What is left in the end: `T` under its first identifier, and `E` under a new one. -/
theorem rows_mirror_replaced :
    (replacedSite.conn.now.properties.rows.map fun x => (x.property.name, x.syncRecordID)) =
        [(ascii "T", ascii "a" ++ [1]), (ascii "E", ascii "c" ++ [2])] ∧
      ∀ t ∈ replacedSite.conn.images, ∀ c ∈ t.contacts, ∀ raw, c.usableVCard = some raw →
        ∃ d, letterReader.parse (.data raw) = .ok d ∧
          (t.propertiesOf c.id).map PropertyRow.property = d.properties := by
  obtain ⟨past, h⟩ : ∃ past, Reached letterReader replacedSite past := by
    unfold replacedSite letterSite
    exact (reached_start letterReader).elim fun _ h => (h.perform _).elim fun _ h => h.perform _
  refine ⟨by decide +kernel, fun t ht c hc raw hu => ?_⟩
  obtain ⟨d, hp, -, hd⟩ := ((rows_mirror letterReader_numbered h t ht).1 c hc).2 raw hu
  exact ⟨d, hp, hd⟩

/-- `T` keeps its identifier. -/
theorem identity_stable_replaced :
    Named replacedSite.conn.now 1 (0, none, ascii "T") (ascii "a" ++ [1]) := by
  obtain ⟨past, h⟩ : ∃ past, Reached letterReader letterSite past := by
    unfold letterSite
    exact (reached_start letterReader).elim fun _ h => h.perform _
  obtain ⟨hsteps, es, hlog, hes⟩ := @perform_steps letterReader replacements letterSite
  obtain ⟨calls, hlog', hid⟩ := identity_stable letterReader_numbered h hsteps
  obtain rfl : es = calls := List.append_cancel_right (hlog.symm.trans hlog')
  let c₀ : Contact :=
    newContact Tables.empty 1 (ascii "https://dav/book/1") [] 1 (ascii "a" ++ [0])
  obtain ⟨hundo, hcontact, hname⟩ : letterSite.conn.undo = [] ∧
      (letterSite.conn.now.contacts.any fun c => c.card.label = c₀.card.label) ∧
      letterSite.conn.now.properties.any fun x => x.contact = 1 &&
        x.property.key = (0, none, ascii "T") && x.syncRecordID = ascii "a" ++ [1] := by
    decide +kernel
  have hdrop : ∀ q ∈ replacements, ¬ q.Drops letterReader c₀.place (0, none, ascii "T") := by
    simp only [replacements, downloaded, List.cons_append, List.nil_append, List.forall_mem_cons]
    refine ⟨id, id, ?_, id, id, id, id, ?_, id, id, by simp⟩
    · rintro ⟨-, d, hd, -⟩
      cases hd
    · rintro ⟨-, d, hd, hall⟩
      cases hd
      exact hall _ List.mem_cons_self rfl
  have hthere := hid c₀ (Conn.all_single ?_ hundo) _ replacedSite.conn.now_mem_images
  · refine (hthere.2.2 (0, none, ascii "T") (ascii "a" ++ [1])
      (Conn.all_single ?_ hundo) fun e he => hdrop e.2 (hes e he)).1
    obtain ⟨x, hx, he⟩ := Table.any_iff.1 hname
    simp only [Bool.and_eq_true, decide_eq_true_iff] at he
    exact ⟨x, hx, he.1.1, he.1.2, he.2⟩
  · obtain ⟨c, hc, he⟩ := Table.any_iff.1 hcontact
    exact ⟨c, hc, of_decide_eq_true he⟩

end ContactStore
