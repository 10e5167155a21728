import RetroCloudSync.ContactMirror.Commit

/-!
# Replaying staged rows

What the statements of one collection do to the store. `During`: inside the commit of a collection
the rows of `contacts` show some shelf, and the rest of the store is as it was. Each staged row puts
itself on that shelf (`ventures_commitContact`), all of them replay (`ventures_applyStaged`), and
at the end the shelf is what the collection has (`ventures_finishCollection`).
-/

set_option autoImplicit false

namespace ContactMirror

open Library Library.Tx ContactStore
open Journal (Bytes Buf RCError ascii)

/-- The tables that the commit of a collection leaves alone between its first and last calls. -/
structure Beside (t t' : Tables) : Prop where
  collections : t'.collections = t.collections
  sync : t'.sync = t.sync
  runs : t'.runs = t.runs

/-- Inside the commit of a collection of `s` that began with `t₀`: its rows show `S` when read as
`view` reads them, the rest is as it was, and no row has an identifier of `spare`. -/
structure Within (s : Store) (view : Contact → Slot) (t₀ : Tables) (collection : Int) (S : Shelf)
    (spare : List Bytes) (t : Tables) : Prop where
  beside : Beside t₀ t
  shows : ∀ href, (t.findContact collection href).map view = S href
  others : ∀ b, b ≠ collection → ∀ href, t.findContact b href = t₀.findContact b href
  owned : ∀ c ∈ t.contacts, c.collection = collection ∨
    ∃ c₀ ∈ t₀.contacts, c₀.collection = c.collection
  seen : ∀ c ∈ t.contacts, c.seenRun ≤ s.activeRun
  spare : ∀ c ∈ t.contacts, c.syncRecordID ∉ spare

/-- Before the run of `s` is settled, what it has seen is present. -/
abbrev During (s : Store) := Within s (marked s.activeRun)

namespace Within

variable {s : Store} {view view' : Contact → Slot} {t₀ t t' : Tables} {collection : Int}
  {S S' : Shelf} {spare : List Bytes}

/-- A statement on other tables. -/
theorem same (h : Within s view t₀ collection S spare t) (hc : t'.contacts = t.contacts)
    (hb : Beside t t') : Within s view t₀ collection S spare t' where
  beside := ⟨hb.collections.trans h.beside.collections, hb.sync.trans h.beside.sync,
    hb.runs.trans h.beside.runs⟩
  shows href := by
    unfold Tables.findContact
    rw [hc]
    exact h.shows href
  others b hb href := by
    unfold Tables.findContact
    rw [hc]
    exact h.others b hb href
  owned c hm := h.owned c (hc ▸ hm)
  seen c hm := h.seen c (hc ▸ hm)
  spare c hm := h.spare c (hc ▸ hm)

theorem spend {random : Bytes} (h : Within s view t₀ collection S (random :: spare) t) :
    Within s view t₀ collection S spare t where
  beside := h.beside
  shows := h.shows
  others := h.others
  owned := h.owned
  seen := h.seen
  spare c hc hm := h.spare c hc (List.mem_cons_of_mem _ hm)

/-- An update of rows of the collection. -/
theorem update (h : Within s view t₀ collection S spare t) {p : Contact → Bool} {f : Contact → Contact}
    {hf : ∀ c, (f c).place = c.place} {hf' : ∀ c, (f c).syncRecordID = c.syncRecordID}
    (hp : ∀ c, p c = true → c.collection = collection)
    (hseen : ∀ c, c.seenRun ≤ s.activeRun → (f c).seenRun ≤ s.activeRun)
    (hS : ∀ href, ((t.findContact collection href).map fun c =>
      view' (if p c then f c else c)) = S' href) :
    Within s view' t₀ collection S' spare (t.updateContacts p f hf hf') where
  beside := ⟨h.beside.collections, h.beside.sync, h.beside.runs⟩
  shows href := by
    rw [findContact_update, Option.map_map]
    exact hS href
  others b hb href := by
    rw [findContact_update, ← h.others b hb href]
    cases hfind : t.findContact b href with
    | none => rfl
    | some c =>
      obtain ⟨-, hcollection, -⟩ := findContact_some hfind
      have hpc : p c = false := by
        rw [← Bool.not_eq_true]
        exact fun hpc => hb (hcollection.symm.trans (hp c hpc))
      simp [hpc]
  owned c hc := by
    obtain ⟨x, hx, rfl⟩ := Tables.mem_updateContacts.1 hc
    split
    · rw [show (f x).collection = x.collection from congrArg Prod.fst (hf x)]
      exact h.owned x hx
    · exact h.owned x hx
  seen c hc := by
    obtain ⟨x, hx, rfl⟩ := Tables.mem_updateContacts.1 hc
    split
    · exact hseen x (h.seen x hx)
    · exact h.seen x hx
  spare c hc := by
    obtain ⟨x, hx, rfl⟩ := Tables.mem_updateContacts.1 hc
    split
    · rw [hf']
      exact h.spare x hx
    · exact h.spare x hx

/-- The update of one row, which does to its slot what a staged row does. -/
theorem put (h : During s t₀ collection S spare t) {x : Staged} {f : Contact → Contact}
    {hf : ∀ c, (f c).place = c.place} {hf' : ∀ c, (f c).syncRecordID = c.syncRecordID}
    (hseen : ∀ c, c.seenRun ≤ s.activeRun → (f c).seenRun ≤ s.activeRun)
    (hnone : S x.href = none → x.onto none = none)
    (hsome : ∀ c, x.onto (some (marked s.activeRun c)) = some (marked s.activeRun (f c))) :
    During s t₀ collection (S.put x) spare
      (t.updateContacts (fun c => c.collection = collection && c.href = x.href) f hf hf') := by
  refine h.update (fun c hc => ?_) hseen fun href => ?_
  · simp only [Bool.and_eq_true, decide_eq_true_iff] at hc
    exact hc.1
  · have hshows := h.shows href
    by_cases hhref : href = x.href
    · subst hhref
      rw [Shelf.put_self, ← hshows]
      rw [← hshows] at hnone
      cases hfind : t.findContact collection x.href with
      | none =>
        rw [hfind] at hnone
        simp [hnone rfl]
      | some c =>
        obtain ⟨-, hcollection, hplace⟩ := findContact_some hfind
        simp [hcollection, hplace, hsome]
    · rw [Shelf.put_other hhref, ← hshows]
      cases hfind : t.findContact collection href with
      | none => rfl
      | some c =>
        obtain ⟨-, -, hplace⟩ := findContact_some hfind
        simp [hplace, hhref]

/-- The row of a resource is there, or has been made under a new identifier. -/
theorem ensure {href raw random : Bytes} (h : During s t₀ collection S (random :: spare) t)
    (hnew : random ∉ spare) :
    ∃ S', (∀ href', href' ≠ href → S' href' = S href') ∧ S' href ≠ none ∧
      During s t₀ collection S' spare
        (ensureContact collection href raw s.activeRun random t) := by
  have hfresh : ∀ c ∈ t.contacts, c.syncRecordID ≠ random := fun c hc he =>
    h.spare c hc (he ▸ List.mem_cons_self)
  refine ⟨fun href' => ((ensureContact collection href raw s.activeRun random t).findContact
    collection href').map (marked s.activeRun), fun href' hne => ?_, ?_, ?_⟩
  · dsimp only
    rw [findContact_ensure_other fun he => hne he.2]
    exact h.shows href'
  · dsimp only
    rw [findContact_ensure hfresh]
    simp
  · refine ⟨⟨h.beside.collections, h.beside.sync, h.beside.runs⟩, fun _ => rfl, fun b hb href' => ?_,
      fun c hc => ?_, fun c hc => ?_, fun c hc hm => ?_⟩
    · rw [findContact_ensure_other fun he => hb he.1]
      exact h.others b hb href'
    · rcases mem_ensure hc with hc | rfl
      · exact h.owned c hc
      · exact .inl rfl
    · rcases mem_ensure hc with hc | rfl
      · exact h.seen c hc
      · exact Int.le_refl _
    · rcases mem_ensure hc with hc | rfl
      · exact h.spare c hc (List.mem_cons_of_mem _ hm)
      · exact hnew hm

end Within

/-- A downloaded row does not look at what was under its href. -/
theorem Shelf.put_downloaded {S S' : Shelf} {href etag : Bytes} {body : Buf}
    (h : ∀ href', href' ≠ href → S' href' = S href') :
    S'.put (.downloaded href etag body) = S.put (.downloaded href etag body) := by
  funext href'
  by_cases he : href' = href
  · subst he
    have hself := fun S : Shelf => Shelf.put_self S (.downloaded href' etag body)
    exact (hself S').trans (hself S).symm
  · rw [Shelf.put_other he, Shelf.put_other he, h href' he]

/-! ## The calls of the commit -/

section
variable {P : Tables → Prop} {s : Store} {operation : String}

theorem turns_change {f : Tables → Tables} {Q : Unit → Tables → Prop}
    (hf : ∀ t, P t → Q () (f t)) : turns P (change operation f) Q :=
  fun c hc => wp_change ⟨hf c.now hc, rfl⟩ fun _ => rfl

theorem ventures_checked {α : Type} {run id : Int} {x : StoreM α} {Q : α → Tables → Prop}
    (hx : ventures P x Q) : ventures P (do checkRun s run; checkCollection s id; x) Q :=
  fun c hc => wp_checked (hx c hc) fun _ => List.suffix_refl _

theorem keeps_copyPreviousPropertyIdentifiers {contact : Int} {document : VCardDocument} :
    keeps P (copyPreviousPropertyIdentifiers contact document) := by
  refine keeps_bind keeps_gate fun _ => ?_
  generalize document.properties = l
  induction l with
  | nil => exact keeps_pure _
  | cons p l ih =>
    rw [List.mapM_cons]
    exact keeps_bind keeps_select fun _ => keeps_bind ih fun _ => keeps_pure _

theorem keeps_insertProperties {contact : Int} {random : Nat → Bytes}
    (hP : ∀ t properties, P t → P { t with properties := properties }) (k : Nat)
    (l : List (VCardProperty × Option Bytes)) :
    keeps P (insertProperties contact random k l) := by
  induction l generalizing k with
  | nil => exact keeps_pure _
  | cons e l ih =>
    obtain ⟨p, syncID⟩ := e
    refine keeps_bind (keeps_stmt fun t a t' h ht => ?_) fun _ => ih (k + 1)
    unfold insertProperty at ht
    split at ht <;> cases ht
    exact hP t _ h

end

section
variable {s : Store} {t₀ : Tables} {collection : Int} {S : Shelf} {spare : List Bytes}
  {reader : Reader}

theorem ventures_syncDelete {href : Bytes} (hrun : 0 < s.activeRun) :
    ventures (During s t₀ collection S spare) (syncDelete s collection href s.activeRun)
      fun _ => During s t₀ collection (S.put (.deleted href)) spare := by
  refine ventures_checked (turns_change fun t h => ?_).ventures
  refine h.put (x := .deleted href) (fun _ _ => Int.le_of_lt hrun) (fun _ => rfl) fun c => ?_
  have hzero : ¬ 0 = s.activeRun := by omega
  simp [Staged.onto, marked, Contact.deleted, hzero]

theorem ventures_markSeen {href etag : Bytes} :
    ventures (During s t₀ collection S spare) (markSeen s collection href s.activeRun)
      fun _ => During s t₀ collection (S.put (.seen href etag)) spare := by
  refine ventures_checked (turns_change fun t h => ?_).ventures
  refine h.put (x := .seen href etag) (fun _ _ => Int.le_refl _) (fun _ => rfl) fun c => ?_
  simp [Staged.onto, marked, Contact.present]

/-- The two statements that a save makes on `contacts`. -/
theorem turns_saved {href etag random : Bytes} {body : Buf} {f : Contact → Contact}
    {hf : ∀ c, (f c).place = c.place} {hf' : ∀ c, (f c).syncRecordID = c.syncRecordID}
    {o o' : String} (hnew : random ∉ spare)
    (hsome : ∀ c, marked s.activeRun (f c) = ⟨some etag, body.column.getD [], true⟩)
    (hseen : ∀ c, (f c).seenRun = s.activeRun) :
    turns (During s t₀ collection S (random :: spare))
      (do
        change o (ensureContact collection href (body.column.getD []) s.activeRun random)
        change o' fun t => t.updateContacts
          (fun c => c.collection = collection && c.href = href) f hf hf')
      fun _ => During s t₀ collection (S.put (.downloaded href etag body)) spare := by
  refine turns_bind (R := fun _ t => ∃ S', (∀ href', href' ≠ href → S' href' = S href') ∧
    S' href ≠ none ∧ During s t₀ collection S' spare t) ?_ fun _ => ?_
  · exact turns_change fun t h => h.ensure hnew
  · refine turns_change fun t h => ?_
    obtain ⟨S', hother, hthere, h⟩ := h
    rw [← Shelf.put_downloaded hother]
    refine h.put (x := .downloaded href etag body) (fun c _ => Int.le_of_eq (hseen c)) ?_ fun c => ?_
    · exact fun hnone => absurd hnone hthere
    · rw [hsome]
      rfl

theorem ventures_saveVCard {href etag : Bytes} {body : Buf} {document : VCardDocument}
    {random : Nat → Bytes} (hnew : random 0 ∉ spare) :
    ventures (During s t₀ collection S (random 0 :: spare))
      (saveVCard s collection s.activeRun href (some etag) (body.column.getD []) document random)
      fun _ => During s t₀ collection (S.put (.downloaded href etag body)) spare := by
  refine ventures_checked (ventures_savepointOnce ?_)
  have hsaved := @turns_saved s t₀ collection S spare href etag (random 0) body
    (Contact.parsed s.activeRun (some etag) (body.column.getD []) document.projection)
    (fun _ => rfl) (fun _ => rfl) "Could not create contact row" "Could not update contact row" hnew
    (fun c => by simp [marked, Contact.parsed]) fun _ => rfl
  rw [← bind_assoc]
  refine turns_bind hsaved fun _ => keeps.turns ?_
  refine keeps_bind keeps_gate fun _ => keeps_bind keeps_select fun row => ?_
  cases row with
  | none => exact keeps_throw _
  | some c =>
    refine keeps_bind keeps_copyPreviousPropertyIdentifiers fun syncIDs => ?_
    refine keeps_bind (turns_change fun t h => h.same rfl ⟨rfl, rfl, rfl⟩) fun _ => ?_
    refine keeps_bind keeps_gate fun _ => keeps_bind keeps_gate fun _ =>
      keeps_bind keeps_gate fun _ => ?_
    exact keeps_insertProperties (fun t properties h => h.same rfl ⟨rfl, rfl, rfl⟩) 1 _

theorem ventures_saveMalformed {href etag : Bytes} {body : Buf} {message : String}
    {random : Nat → Bytes} (hnew : random 0 ∉ spare) :
    ventures (During s t₀ collection S (random 0 :: spare))
      (saveMalformed s collection s.activeRun href (some etag) (body.column.getD []) message random)
      fun _ => During s t₀ collection (S.put (.downloaded href etag body)) spare := by
  refine ventures_checked (ventures_savepointOnce ?_)
  exact turns_saved hnew (fun c => by simp [marked, Contact.malformed]) fun _ => rfl

/-- A staged row is put on the shelf. -/
theorem ventures_commitContact {x : Staged × (Nat → Bytes)} (hrun : 0 < s.activeRun)
    (hnew : x.2 0 ∉ spare) :
    ventures (During s t₀ collection S (x.2 0 :: spare)) (commitContact reader s collection x)
      fun _ => During s t₀ collection (S.put x.1) spare := by
  obtain ⟨x, random⟩ := x
  have hspend : ∀ t, During s t₀ collection S (random 0 :: spare) t →
      During s t₀ collection S spare t := fun t h => h.spend
  cases x with
  | deleted href => exact ventures_mono (ventures_syncDelete hrun) hspend fun _ _ h => h
  | seen href etag => exact ventures_mono ventures_markSeen hspend fun _ _ h => h
  | downloaded href etag body =>
    refine ventures_bind ?_ fun _ => (keeps_pure _).turns.ventures
    unfold saveResource
    cases reader.parse body with
    | error e =>
      exact ventures_bind (ventures_saveMalformed hnew) fun _ => (keeps_pure _).turns.ventures
    | ok document =>
      exact ventures_bind (ventures_saveVCard hnew) fun _ => (keeps_pure _).turns.ventures

/-- The identifiers that new contacts would get. -/
def fresh (l : List (Staged × (Nat → Bytes))) : List Bytes := l.map fun x => x.2 0

/-- **The staged rows replay onto the shelf.** -/
theorem ventures_applyStaged {l : List (Staged × (Nat → Bytes))} (hrun : 0 < s.activeRun)
    (hnew : (fresh l ++ spare).Nodup) :
    ventures (During s t₀ collection S (fresh l ++ spare)) (applyStaged reader s collection l)
      fun _ => During s t₀ collection (S.replay (l.map Prod.fst)) spare := by
  induction l generalizing S with
  | nil => exact keeps_gate.turns.ventures
  | cons x l ih =>
    obtain ⟨hx, hl⟩ := List.nodup_cons.1 hnew
    refine ventures_bind keeps_gate.turns.ventures fun _ => ?_
    refine ventures_bind keeps_gate.turns.ventures fun _ => ?_
    exact ventures_bind (ventures_commitContact hrun hx) fun _ => ih hl

/-- A run begins a collection with its shelf, of which it has seen nothing. -/
theorem during_start (hle : ∀ c ∈ t₀.contacts, c.seenRun ≤ s.activeRun)
    (hunseen : ∀ c ∈ t₀.contacts, c.collection = collection → c.seenRun ≠ s.activeRun)
    (hspare : ∀ c ∈ t₀.contacts, c.syncRecordID ∉ spare) :
    During s t₀ collection ((shelfOf t₀ collection).start false) spare t₀ where
  beside := ⟨rfl, rfl, rfl⟩
  shows href := by
    unfold Shelf.start shelfOf
    cases hfind : t₀.findContact collection href with
    | none => rfl
    | some c =>
      obtain ⟨hc, hcollection, -⟩ := findContact_some hfind
      simp [marked, slot, hunseen c hc hcollection]
  others _ _ _ := rfl
  owned c hc := .inr ⟨c, hc, rfl⟩
  seen := hle
  spare := hspare

/-- A collection that is kept begins with all of its shelf. -/
theorem ventures_keepCollection (hle : ∀ c ∈ t₀.contacts, c.seenRun ≤ s.activeRun)
    (hunseen : ∀ c ∈ t₀.contacts, c.collection = collection → c.seenRun ≠ s.activeRun)
    (hspare : ∀ c ∈ t₀.contacts, c.syncRecordID ∉ spare) {keep : Bool} :
    ventures (fun t => t = t₀)
      (if keep then keepCollection s collection s.activeRun else pure ())
      fun _ => During s t₀ collection ((shelfOf t₀ collection).start keep) spare := by
  have hstart := during_start hle hunseen hspare
  cases keep with
  | false =>
    refine ventures_mono (keeps_pure _).turns.ventures (fun t ht => ?_) fun _ _ h => h
    exact ht ▸ hstart
  | true =>
    refine ventures_checked (turns_change fun t ht => ?_).ventures
    subst ht
    refine hstart.update (fun c hc => ?_) (fun _ _ => Int.le_refl _) fun href => ?_
    · simp only [Bool.and_eq_true, decide_eq_true_iff] at hc
      exact hc.1
    · unfold Shelf.start shelfOf
      cases hfind : t.findContact collection href with
      | none => rfl
      | some c =>
        obtain ⟨hc, hcollection, -⟩ := findContact_some hfind
        have hne := hunseen c hc hcollection
        cases hm : c.remoteMissing <;> simp [marked, slot, hcollection, hm, hne, Contact.seen]

/-- What the run has seen is what is present from then on. -/
theorem ventures_finishCollection :
    ventures (During s t₀ collection S spare) (finishCollection s collection s.activeRun)
      fun _ => Within s slot
        (t₀.updateCollections (fun c => c.id = collection) (Collection.completed s.activeRun)
          (fun _ => rfl) fun _ => rfl) collection S spare := by
  refine ventures_checked (ventures_savepointOnce (turns_bind
    (R := fun _ => Within s slot t₀ collection S spare) (turns_change fun t h => ?_) fun _ =>
      turns_change fun t h => ?_))
  · refine h.update (fun c hc => by simpa using hc) (fun _ hle => hle) fun href => ?_
    rw [← h.shows href]
    cases hfind : t.findContact collection href with
    | none => rfl
    | some c =>
      obtain ⟨-, hcollection, -⟩ := findContact_some hfind
      simp [hcollection, slot, marked, Contact.settled]
  · refine ⟨⟨?_, h.beside.sync, h.beside.runs⟩, h.shows, h.others, h.owned, h.seen, h.spare⟩
    show (t.updateCollections _ _ _ _).collections = (t₀.updateCollections _ _ _ _).collections
    unfold Tables.updateCollections
    rw [h.beside.collections]

/-- A statement on the sync tokens, inside the transaction of the mirror. -/
theorem turns_onSyncState {P : Tables → Prop} {Q : Unit → Tables → Prop}
    {f : Dav.SyncTable → Dav.SyncTable} (hf : ∀ t, P t → Q () { t with sync := f t.sync }) :
    turns P (onSyncState (do
      Dav.SyncState.prepare
      stmt Dav.SyncState.fail fun t => .ok ((), f t))) Q := by
  refine fun c hc => wp_within (keeps_bind Dav.SyncState.keeps_prepare fun _ =>
    keeps_stmt fun _ _ _ _ _ => trivial) (wp_bind (wp_bind (wp_autocommit ?_)))
  split
  · exact wp_throw rfl
  · refine wp_bind (wp_gate (wp_gate (wp_stmt (fun u t ht => ?_) fun _ => rfl) fun _ => rfl)
      fun _ => rfl)
    cases ht
    exact ⟨hf _ hc, rfl⟩

/-- The token of the collection is saved. -/
theorem turns_saveSync {url : Bytes} {token : Option Bytes} :
    turns (During s t₀ collection S spare)
      (onSyncState (Dav.SyncState.save s.account url token (some []) s.activeRun))
      fun _ => During s
        { t₀ with sync := t₀.sync.replace ⟨s.account, url, token, [], s.activeRun⟩ }
        collection S spare := by
  refine turns_onSyncState fun t h => ?_
  refine ⟨⟨h.beside.collections, ?_, h.beside.runs⟩, h.shows, h.others, h.owned, h.seen, h.spare⟩
  show t.sync.replace _ = t₀.sync.replace _
  rw [h.beside.sync]
  rfl

end

end ContactMirror
