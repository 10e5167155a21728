import RetroCloudSync.Journal.Pairs
import RetroCloudSync.ContactStore.Reach

/-!
# Entity tag and body of a contact

A contact has a raw copy of the last body downloaded and a usable copy of the last one that parsed,
each with its entity tag. Only the usable pair goes on: publication copies it into the write bases,
and an operation is pinned to its base. `Matched` says that each of these pairs was handed over by
one call, and every statement of the store and of its journal keeps it.
-/

set_option autoImplicit false

namespace ContactStore

open Library Library.Tx Journal

/-! ## Where a pair comes from -/

section
variable (reader : Reader) (log : List (Int × Call))

/-- One `SaveResource` call for the place delivered the pair, and its body parsed. -/
def Saved (collection : Int) (href : Bytes) (etag : Option Bytes) (body : Bytes) : Prop :=
  ∃ account run random document,
    (account, Call.saveResource collection run href etag (.data body) random) ∈ log ∧
      reader.parse (.data body) = .ok document

/-- One `SetBase` call delivered the pair. -/
def SetAsBase (etag : Option Bytes) (body : Bytes) : Prop :=
  ∃ account key href revision,
    (account, Call.journal (.setBase key href etag (.data body) revision)) ∈ log

/-- The pair was recorded as the remote version that one attempt found. -/
def Recorded (etag : Option Bytes) (body : Bytes) : Prop :=
  ∃ account id state, (account, Call.journal (.recordResult id state 200 etag (.data body))) ∈ log

/-- What a write base may hold. -/
def Published (etag : Option Bytes) (body : Bytes) : Prop :=
  (∃ collection href, Saved reader log collection href etag body) ∨ SetAsBase log etag body

/-- The usable pair of a contact is absent, or was saved whole at the contact's place. -/
def Contact.Matched (c : Contact) : Prop :=
  (c.usableETag = none ∧ c.usableVCard = none) ∨
    ∃ body, c.usableVCard = some body ∧
      Saved reader log c.collection c.href c.usableETag body

structure Matched (t : Tables) : Prop where
  contacts : ∀ c ∈ t.contacts, c.Matched reader log
  journal : Paired (Published reader log) (Recorded log) t.journal

end

variable {reader : Reader} {log : List (Int × Call)} {t t' : Tables} {s : Store}

theorem Saved.cons {collection : Int} {href body : Bytes} {etag : Option Bytes} (e : Int × Call)
    (h : Saved reader log collection href etag body) :
    Saved reader (e :: log) collection href etag body := by
  obtain ⟨account, run, random, document, hm, hp⟩ := h
  exact ⟨account, run, random, document, List.mem_cons_of_mem e hm, hp⟩

theorem Contact.Matched.cons {c : Contact} (e : Int × Call) (h : c.Matched reader log) :
    c.Matched reader (e :: log) := by
  rcases h with h | ⟨body, hb, h⟩
  · exact .inl h
  · exact .inr ⟨body, hb, h.cons e⟩

theorem Contact.Matched.of_pair {c c' : Contact} (h : c.Matched reader log)
    (hp : c'.place = c.place) (he : c'.usableETag = c.usableETag)
    (hb : c'.usableVCard = c.usableVCard) : c'.Matched reader log := by
  obtain ⟨hcollection, hhref⟩ := Prod.mk.inj hp
  unfold Contact.Matched
  rwa [he, hb, hcollection, hhref]

namespace Matched

theorem empty : Matched reader [] Tables.empty where
  contacts _ h := absurd h (Table.not_mem_empty _)
  journal := .empty

theorem cons (e : Int × Call) (h : Matched reader log t) : Matched reader (e :: log) t where
  contacts c hc := (h.contacts c hc).cons e
  journal := by
    refine h.journal.mono ?_ ?_
    · rintro etag body (⟨collection, href, h⟩ | ⟨account, key, href, revision, hm⟩)
      · exact .inl ⟨collection, href, h.cons e⟩
      · exact .inr ⟨account, key, href, revision, List.mem_cons_of_mem e hm⟩
    · rintro etag body ⟨account, id, state, hm⟩
      exact ⟨account, id, state, List.mem_cons_of_mem e hm⟩

/-- A statement on other tables. -/
theorem beside (h : Matched reader log t) (hc : t'.contacts = t.contacts)
    (hj : t'.journal = t.journal) : Matched reader log t' :=
  ⟨fun c hm => h.contacts c (hc ▸ hm), hj ▸ h.journal⟩

theorem updateContacts {p : Contact → Bool} {f : Contact → Contact}
    {hf : ∀ c, (f c).place = c.place} {hf' : ∀ c, (f c).syncRecordID = c.syncRecordID}
    (h : Matched reader log t)
    (hm : ∀ c, p c = true → c.Matched reader log → (f c).Matched reader log) :
    Matched reader log (t.updateContacts p f hf hf') where
  contacts c hc := by
    obtain ⟨x, hx, rfl⟩ := Tables.mem_updateContacts.1 hc
    split
    · rename_i hp
      exact hm x hp (h.contacts x hx)
    · exact h.contacts x hx
  journal := h.journal

theorem ensureContact {collection run : Int} {href raw random : Bytes}
    (h : Matched reader log t) :
    Matched reader log (ensureContact collection href raw run random t) where
  contacts c hc := by
    rcases Table.mem_insertOrIgnore hc with hc | rfl
    · exact h.contacts c hc
    · exact .inl ⟨rfl, rfl⟩
  journal := h.journal

/-- The bases of a publication are usable pairs. -/
theorem insertBases {account generation : Int} (h : Matched reader log t) {a : Unit}
    (hi : insertBases account generation t = .ok (a, t')) : Matched reader log t' := by
  unfold ContactStore.insertBases at hi
  split at hi
  · rename_i bases hb
    cases hi
    refine ⟨h.contacts, h.journal.beside rfl (fun b hm => ?_) fun r hr => ⟨r, hr, rfl⟩⟩
    rcases (Table.mem_insertAll hb b).1 hm with hm | hm
    · exact h.journal.bases b hm
    · obtain ⟨c, hc, hrow⟩ := List.mem_filterMap.1 hm
      split at hrow
      · obtain ⟨body, hbody, rfl⟩ := Option.map_eq_some_iff.1 hrow
        rcases h.contacts c hc with ⟨-, hn⟩ | ⟨body', hbody', hs⟩
        · rw [hn] at hbody
          cases hbody
        · rw [hbody'] at hbody
          cases hbody
          exact .inl ⟨c.collection, c.href, hs⟩
      · cases hrow
  · cases hi

theorem clearBases {account : Int} (h : Matched reader log t) :
    Matched reader log (clearBases account t) where
  contacts := h.contacts
  journal := h.journal.beside rfl
    (fun b hb => h.journal.bases b ((Table.mem_delete b).1 hb).1) fun r hr => ⟨r, hr, rfl⟩

end Matched

/-! ## Every call -/

/-- A statement on other tables than those of the contacts and the journal. -/
theorem stays_beside {operation : String} {f : Tables → Tables}
    (hc : ∀ t, (f t).contacts = t.contacts) (hj : ∀ t, (f t).journal = t.journal) :
    stays (Matched reader log) (change operation f) :=
  stays_change fun t h => h.beside (hc t) (hj t)

/-- An update of the contacts that leaves their usable pairs alone. -/
theorem stays_updateContacts {operation : String} {p : Tables → Contact → Bool}
    {f : Contact → Contact} {hf : ∀ c, (f c).place = c.place}
    {hf' : ∀ c, (f c).syncRecordID = c.syncRecordID} (he : ∀ c, (f c).usableETag = c.usableETag)
    (hb : ∀ c, (f c).usableVCard = c.usableVCard) :
    stays (Matched reader log) (change operation fun t => t.updateContacts (p t) f hf hf') :=
  stays_change fun _ h => h.updateContacts fun c _ hc => hc.of_pair (hf c) (he c) (hb c)

theorem stays_insertProperties {contact : Int} {random : Nat → Bytes} (k : Nat)
    (l : List (VCardProperty × Option Bytes)) :
    stays (Matched reader log) (insertProperties contact random k l) := by
  induction l generalizing k with
  | nil => exact stays_pure _
  | cons p l ih =>
    obtain ⟨p, syncID⟩ := p
    refine stays_bind (stays_stmt fun t a t' h he => ?_) fun _ => ih (k + 1)
    unfold insertProperty at he
    split at he <;> cases he
    exact h.beside rfl rfl

theorem stays_saveVCard {collection run : Int} {href raw : Bytes} {etag : Option Bytes}
    {document : VCardDocument} {random : Nat → Bytes}
    (hs : Saved reader log collection href etag raw) :
    stays (Matched reader log) (saveVCard s collection run href etag raw document random) := by
  refine stays_checked (stays_savepointOnce ?_)
  refine stays_bind (stays_change fun _ h => h.ensureContact) fun _ => ?_
  refine stays_bind (stays_change fun _ h => h.updateContacts fun c hp _ => ?_) fun _ => ?_
  · -- the statement changes the row at the place of the call only
    simp only [Bool.and_eq_true, decide_eq_true_eq] at hp
    obtain ⟨rfl, rfl⟩ := hp
    exact .inr ⟨raw, rfl, hs⟩
  refine stays_bind stays_gate fun _ => stays_bind stays_select fun row => ?_
  cases row with
  | none => exact stays_throw _
  | some c =>
    refine stays_bind (stays_bind stays_gate fun _ => stays_mapM _ fun _ => stays_select)
      fun syncIDs => ?_
    refine stays_bind (stays_beside (fun _ => rfl) fun _ => rfl) fun _ => ?_
    refine stays_bind stays_gate fun _ => stays_bind stays_gate fun _ => ?_
    exact stays_bind stays_gate fun _ => stays_insertProperties 1 _

theorem stays_saveMalformed {collection run : Int} {href raw : Bytes} {etag : Option Bytes}
    {message : String} {random : Nat → Bytes} :
    stays (Matched reader log) (saveMalformed s collection run href etag raw message random) :=
  stays_checked (stays_savepointOnce (stays_bind (stays_change fun _ h => h.ensureContact)
    fun _ => stays_updateContacts (fun _ => rfl) fun _ => rfl))

theorem stays_markPublished {generation : Int} :
    stays (Matched reader log) (markPublished s generation) := by
  unfold markPublished
  split
  · exact stays_throw _
  · refine stays_transaction (stays_bind stays_gate fun _ => ?_)
    refine stays_bind (stays_stmt fun t a t' h he => ?_) fun changes => ?_
    · cases he
      exact h.beside rfl rfl
    split
    · exact stays_throw _
    · refine stays_bind (stays_change fun _ h => h.clearBases) fun _ => ?_
      exact stays_bind stays_gate fun _ => stays_stmt fun t a t' h he => h.insertBases he

theorem stays_finishRun {run : Int} {succeeded : Bool} {message : Option Bytes} :
    stays (Matched reader log) (finishRun s run succeeded message) := by
  refine stays_bind (stays_checkRun run) fun _ => stays_orRollback ?_
  split
  · refine stays_bind ?_ fun _ => stays_bind (stays_beside (fun _ => rfl) fun _ => rfl) fun _ =>
      stays_commit
    refine stays_bind (stays_beside (fun _ => rfl) fun _ => rfl) fun _ => ?_
    refine stays_bind (stays_updateContacts (fun _ => rfl) fun _ => rfl) fun _ => ?_
    exact stays_beside (fun _ => rfl) fun _ => rfl
  · exact stays_bind stays_rollback fun _ => stays_beside (fun _ => rfl) fun _ => rfl

theorem stays_openAccount (username random : Bytes) :
    stays (Matched reader log) (openAccount username random) := by
  refine stays_bind stays_gate fun _ => stays_bind (stays_stmt fun t a t' h he => ?_) fun _ => ?_
  · cases he
    exact h.beside rfl rfl
  refine stays_bind stays_gate fun _ => stays_bind stays_select fun row => ?_
  cases row with
  | none => exact stays_throw _
  | some a =>
    dsimp only
    split
    · exact stays_pure _
    · exact stays_throw _

/-- The pairs a journal call hands over are in the log with it. -/
theorem delivers_logged (account : Int) (q : Journal.Call) :
    q.Delivers (Published reader ((account, .journal q) :: log))
      (Recorded ((account, .journal q) :: log)) := by
  cases q with
  | setBase key href etag body revision =>
    rintro b rfl
    exact .inr ⟨account, key, href, revision, List.mem_cons_self⟩
  | recordResult id state status etag body =>
    rintro rfl b rfl
    exact ⟨account, id, state, List.mem_cons_self⟩
  | _ => trivial

theorem stays_onJournal (q : Journal.Call) :
    stays (Matched reader ((s.account, .journal q) :: log)) (onJournal (q.run s.account)) := by
  refine stays_within (call_keeps q) fun c hc => ?_
  refine wp_mono (call_paired q (delivers_logged s.account q) hc.now.journal) ?_ ?_
  · exact fun _ c' h => ⟨hc.now.contacts, h⟩
  · rintro _ c' rfl
    exact hc.now

/-- **Every call keeps the pairs together**, once it is in the log. -/
theorem call_matched (q : Call) :
    stays (Matched reader ((s.account, q) :: log)) (q.run reader s) := by
  cases q with
  | getPublicationState =>
    show stays _ (getPublicationState s)
    unfold getPublicationState
    split
    · exact stays_throw _
    · refine stays_bind stays_gate fun _ => stays_bind stays_select fun row => ?_
      cases row
      · exact stays_throw _
      · exact stays_pure _
  | markPublished generation => exact stays_markPublished
  | beginRun =>
    show stays _ (beginRun s)
    unfold beginRun
    split
    · exact stays_throw _
    · refine stays_bind stays_gate fun _ => stays_bind (stays_stmt fun t a t' h he => ?_) fun _ =>
        stays_bind stays_begin fun _ => stays_pure _
      unfold insertRun at he
      split at he <;> cases he
      exact h.beside rfl rfl
  | getCollection url displayName =>
    refine stays_bind (stays_beside (fun _ => rfl) fun _ => rfl) fun _ => ?_
    refine stays_bind (stays_beside (fun _ => rfl) fun _ => rfl) fun _ => ?_
    refine stays_bind stays_gate fun _ => stays_bind stays_select fun row => ?_
    cases row
    · exact stays_throw _
    · exact stays_pure _
  | resourceIsCurrent collection href etag =>
    exact stays_bind (stays_checkCollection _) fun _ => stays_bind stays_gate fun _ => stays_select
  | keepCollection collection run =>
    exact stays_checked (stays_updateContacts (fun _ => rfl) fun _ => rfl)
  | syncDelete collection href run =>
    exact stays_checked (stays_updateContacts (fun _ => rfl) fun _ => rfl)
  | markSeen collection href run =>
    exact stays_checked (stays_updateContacts (fun _ => rfl) fun _ => rfl)
  | saveResource collection run href etag body random =>
    show stays _ (saveResource reader s collection run href etag body random)
    unfold saveResource
    cases hp : reader.parse body with
    | ok document =>
      cases body with
      | null => cases hp
      | data raw =>
        refine stays_bind (stays_saveVCard ?_) fun _ => stays_pure _
        exact ⟨s.account, run, random, document, List.mem_cons_self, hp⟩
    | error e => exact stays_bind stays_saveMalformed fun _ => stays_pure _
  | finishCollection collection run =>
    refine stays_checked (stays_savepointOnce ?_)
    exact stays_bind (stays_updateContacts (fun _ => rfl) fun _ => rfl) fun _ =>
      stays_beside (fun _ => rfl) fun _ => rfl
  | finishRun run succeeded message => exact stays_finishRun
  | journal q => exact stays_onJournal q
  | loadSync url =>
    exact stays_onSyncState Dav.SyncState.keeps_load fun t y h => h.beside rfl rfl
  | saveSync url token scope run =>
    exact stays_onSyncState Dav.SyncState.keeps_save fun t y h => h.beside rfl rfl
  | finishSync run =>
    exact stays_onSyncState Dav.SyncState.keeps_finish fun t y h => h.beside rfl rfl

theorem Reached.matched {w : Site} {past : List Site} (h : Reached reader w past) :
    Matched reader w.log w.conn.now :=
  (h.images (P := fun log => Matched reader log) .empty (fun _ e _ => Matched.cons e)
    (fun _ => stays_openAccount) fun _ _ => call_matched).now

/-! ## A body that does not parse -/

/-- Each usable pair found in `t'` was the pair of the same resource in `t`, or there is none. -/
def Unmixed (t t' : Tables) : Prop :=
  ∀ c ∈ t'.contacts, (c.usableETag = none ∧ c.usableVCard = none) ∨
    ∃ c₀ ∈ t.contacts, c₀.place = c.place ∧ c₀.usableETag = c.usableETag ∧
      c₀.usableVCard = c.usableVCard

theorem Unmixed.refl (t : Tables) : Unmixed t t := fun c hc => .inr ⟨c, hc, rfl, rfl, rfl⟩

theorem Unmixed.ensureContact {collection run : Int} {href raw random : Bytes} (t : Tables) :
    Unmixed t (ensureContact collection href raw run random t) := by
  intro c hc
  rcases Table.mem_insertOrIgnore hc with hc | rfl
  · exact Unmixed.refl t c hc
  · exact .inl ⟨rfl, rfl⟩

theorem Unmixed.updateContacts {p : Contact → Bool} {run : Int} {etag : Option Bytes} {raw : Bytes}
    {message : String} (h : Unmixed t t') :
    Unmixed t (t'.updateContacts p (Contact.malformed run etag raw message) (fun _ => rfl)
      fun _ => rfl) := by
  intro c hc
  obtain ⟨x, hx, rfl⟩ := Tables.mem_updateContacts.1 hc
  have hx' := h x hx
  split
  · exact hx'
  · exact hx'

/-- A replacement that does not parse leaves every usable pair as it was. -/
theorem saveResource_malformed {collection run : Int} {href : Bytes} {etag : Option Bytes}
    {body : Buf} {random : Nat → Bytes} {e : RCError} (hp : reader.parse body = .error e)
    (c : Conn Tables) :
    wp (saveResource reader s collection run href etag body random)
      (fun _ c' => Unmixed c.now c'.now) (fun _ c' => Unmixed c.now c'.now) c := by
  unfold saveResource
  rw [hp]
  refine wp_bind (wp_mono (Q := fun _ c' => Unmixed c.now c'.now)
    (wp_checked (wp_savepointOnce ?_ fun _ => .refl _) fun _ => .refl _)
    (fun _ _ h => wp_pure h) fun _ _ h => h)
  -- inside the savepoint: the row, then its raw columns
  refine wp_bind (wp_change (wp_change ?_ fun _ => ?_) fun _ => ?_)
  · exact ⟨(Unmixed.ensureContact _).updateContacts,
      fun _ => (Unmixed.ensureContact _).updateContacts⟩
  · exact .refl _
  · exact .refl _

/-! ## The main theorem -/

/-- **Entity tag and body belong together.** In a reachable store the usable pair of a contact was
saved whole at its place with a body that parsed, a write base was saved so or set whole, and an
operation is pinned to such a pair or, as the successor of a conflict, to a remote version recorded
whole. A save whose body does not parse, whether it succeeds or not, mixes no pair. -/
theorem pairs_together {w : Site} {past : List Site} (h : Reached reader w past) :
    (∀ c ∈ w.conn.now.contacts, c.Matched reader w.log) ∧
    (∀ b ∈ w.conn.now.journal.bases, Published reader w.log b.etag b.body) ∧
    (∀ o ∈ w.conn.now.journal.operations,
      Sourced (Published reader w.log) (Recorded w.log) w.conn.now.journal o) ∧
    ∀ s collection run href etag body random faults e, w.store = some s →
      reader.parse body = .error e →
      Unmixed w.conn.now
        (w.call reader s (.saveResource collection run href etag body random) faults).conn.now := by
  refine ⟨h.matched.contacts, h.matched.journal.bases, h.matched.journal.operations, ?_⟩
  intro s collection run href etag body random faults e _ hp
  exact call_spec (q := .saveResource collection run href etag body random)
    (P := fun c => Unmixed w.conn.now c.now) (saveResource_malformed hp w.conn) faults

/-! ### A malformed replacement, and a base set from elsewhere -/

/-- Of the texts tried here, the cards begin with `B`. -/
def cardReader : Reader where
  vcard b := b.head? = some 0x42
  calendar _ := true
  document _ := ⟨.none, []⟩

/-- One inventory of a book with one contact, published. -/
def inventory (run : Int) (etag : String) (body : Bytes) : List Call :=
  [.beginRun, .getCollection (ascii "https://dav/book/") none,
    .saveResource 1 run (ascii "https://dav/book/1") (some (ascii etag)) (.data body)
      fun _ => ascii "id",
    .finishCollection 1 run, .finishRun run true none, .markPublished run]

/-- A published contact whose replacement does not parse, published again. -/
def malformedSite : Site :=
  Site.start.perform cardReader
    (inventory 1 "\"v1\"" (ascii "B1") ++ inventory 2 "\"v2\"" (ascii "x2"))

/-- The base keeps the first entity tag with the first body. -/
theorem pairs_together_malformed :
    (⟨1, ascii "id", ascii "https://dav/book/1", some (ascii "\"v1\""), ascii "B1", 2⟩ : Base) ∈
        malformedSite.conn.now.journal.bases.rows ∧
      ∀ b ∈ malformedSite.conn.now.journal.bases,
        Published cardReader malformedSite.log b.etag b.body := by
  refine ⟨by decide +kernel, ?_⟩
  obtain ⟨past, h⟩ := (reached_start cardReader).elim fun _ h =>
    h.perform (inventory 1 "\"v1\"" (ascii "B1") ++ inventory 2 "\"v2\"" (ascii "x2"))
  exact (pairs_together h).2.1

/-- `SetBase` does not parse the body it is given: no card holds a zero byte. -/
theorem pairs_together_unparsed : ∃ w past, Reached cardReader w past ∧
    ∃ b ∈ w.conn.now.journal.bases.rows, ∃ e, cardReader.parse (.data b.body) = .error e := by
  let q : Call := .journal (.setBase (some (ascii "k")) (some (ascii "https://dav/k"))
    (some (ascii "\"v1\"")) (.data [0x42, 0]) 1)
  obtain ⟨past, h⟩ := (reached_start cardReader).elim fun _ h => h.perform [q]
  refine ⟨_, past, h, ⟨1, ascii "k", ascii "https://dav/k", some (ascii "\"v1\""), [0x42, 0], 1⟩,
    by decide +kernel, ⟨1, "Response is not a complete vCard"⟩, by rfl⟩

end ContactStore
