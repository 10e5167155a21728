import RetroCloudSync.ContactMirror.Replay

/-!
# What a commit makes of the store

`Amid`: between two collections of a commit, those that are done have their shelves replayed and
their tokens saved, and the rest of the store is as it was when the run began. At the end the run
settles which collections the account still has. `Mirrored` is the outcome for the store as a whole
(`wp_commitRun`): a commit that returns has mirrored every listed collection, and one that fails
has changed nothing but the list of runs.
-/

set_option autoImplicit false

namespace ContactMirror

open Library Library.Tx ContactStore
open Journal (Bytes Buf RCError ascii)

/-! ## Collections -/

/-- The columns of a collection that a commit goes by. -/
structure Book where
  id : Int
  place : Int × Bytes
  complete : Option Int
deriving DecidableEq

def book (c : Collection) : Book := ⟨c.id, c.place, c.lastCompleteRun⟩

def books (t : Tables) : List Book := t.collections.rows.map book

section
variable {t : Tables} {account : Int} {url : Bytes} {k k' : Book}

theorem mem_books : k ∈ books t ↔ ∃ c ∈ t.collections, book c = k := List.mem_map

theorem book_of_id (hk : k ∈ books t) (hk' : k' ∈ books t) (h : k.id = k'.id) : k = k' := by
  obtain ⟨c, hc, rfl⟩ := mem_books.1 hk
  obtain ⟨c', hc', rfl⟩ := mem_books.1 hk'
  rw [Table.eq_of_key hc hc' h]

theorem book_of_place (hk : k ∈ books t) (hk' : k' ∈ books t) (h : k.place = k'.place) :
    k = k' := by
  obtain ⟨c, hc, rfl⟩ := mem_books.1 hk
  obtain ⟨c', hc', rfl⟩ := mem_books.1 hk'
  rw [Table.eq_of_uniq hc hc' h]

theorem findCollection_eq {c : Collection} (hc : c ∈ t.collections) :
    t.findCollection c.account c.url = some c := by
  cases hfind : t.findCollection c.account c.url with
  | none =>
    have hp := Table.find?_none hfind hc
    simp at hp
  | some x =>
    obtain ⟨hx, hp⟩ := Table.find?_some hfind
    simp only [Bool.and_eq_true, decide_eq_true_iff] at hp
    rw [Table.eq_of_uniq hx hc (Prod.ext hp.1 hp.2)]

theorem findCollection_some {c : Collection} (h : t.findCollection account url = some c) :
    c ∈ t.collections ∧ c.place = (account, url) := by
  obtain ⟨hc, hp⟩ := Table.find?_some h
  simp only [Bool.and_eq_true, decide_eq_true_iff] at hp
  exact ⟨hc, Prod.ext hp.1 hp.2⟩

/-- The shelf at a place is the one of the collection that is there. -/
theorem shelf_of_book (hk : k ∈ books t) (hplace : k.place = (account, url)) :
    shelf t account url = shelfOf t k.id := by
  obtain ⟨c, hc, rfl⟩ := mem_books.1 hk
  obtain ⟨haccount, hurl⟩ := Prod.mk.inj hplace
  funext href
  unfold shelf
  rw [← haccount, ← hurl, findCollection_eq hc]
  rfl

theorem shelf_of_no_book (h : ∀ k ∈ books t, k.place ≠ (account, url)) :
    shelf t account url = fun _ => none := by
  funext href
  unfold shelf
  cases hfind : t.findCollection account url with
  | none => rfl
  | some c =>
    obtain ⟨hc, hplace⟩ := findCollection_some hfind
    exact absurd hplace (h _ (mem_books.2 ⟨c, hc, rfl⟩))

end

/-- The collections after `RCContactStoreGetCollection`: the one at `place` is there, or has been
added under a new identifier. -/
inductive Got (place : Int × Bytes) (l : List Book) : Int → List Book → Prop
  | found {k : Book} (hk : k ∈ l) (hplace : k.place = place) : Got place l k.id l
  | added {id : Int} (hnew : ∀ k ∈ l, k.id ≠ id ∧ k.place ≠ place) :
      Got place l id (l ++ [⟨id, place, none⟩])

theorem books_update {t : Tables} {p : Collection → Bool} {f : Collection → Collection}
    {hf : ∀ c, (f c).id = c.id} {hf' : ∀ c, (f c).place = c.place}
    (hbook : ∀ c, (f c).lastCompleteRun = c.lastCompleteRun) :
    books (t.updateCollections p f hf hf') = books t := by
  show (t.collections.rows.map fun c => if p c then f c else c).map book = _
  unfold books
  rw [List.map_map]
  refine List.map_congr_left fun c _ => ?_
  by_cases hp : p c <;> simp [hp, book, hf, hf', hbook]

theorem books_addCollection {account : Int} {url : Bytes} {displayName : Option Bytes}
    (t : Tables) :
    books (addCollection account url displayName t) = books t ∨
      ∃ id, books (addCollection account url displayName t) = books t ++ [⟨id, (account, url), none⟩] ∧
        ∀ k ∈ books t, k.id ≠ id ∧ k.place ≠ (account, url) := by
  unfold addCollection Table.insertOrIgnore
  dsimp only
  cases hi : t.collections.insert
    ⟨t.collections.nextRowid Collection.id, account, url, displayName, none, false⟩ with
  | none => exact .inl rfl
  | some collections =>
    refine .inr ⟨t.collections.nextRowid Collection.id, ?_, fun k hk => ?_⟩
    · show collections.rows.map book = _
      rw [Table.insert_rows hi, List.map_append]
      rfl
    · obtain ⟨c, hc, rfl⟩ := mem_books.1 hk
      exact Table.insert_fresh hi c hc

theorem turns_getCollection {s : Store} {url : Bytes} {displayName : Option Bytes} {t₀ : Tables} :
    turns (fun t => t = t₀) (getCollection s url displayName) fun id t =>
      Got (s.account, url) (books t₀) id (books t) ∧ t.contacts = t₀.contacts ∧
        t.sync = t₀.sync ∧ t.runs = t₀.runs := by
  refine fun c hc => ?_
  obtain ⟨now, undo⟩ := c
  subst hc
  refine wp_bind (wp_change (wp_bind (wp_change ?_ fun _ => rfl)) fun _ => rfl)
  have hnamed := @books_update (addCollection s.account url displayName now)
    (fun c => c.url = url && c.account = s.account) (Collection.named displayName) (fun _ => rfl)
    (fun _ => rfl) fun _ => rfl
  generalize hu : (addCollection s.account url displayName now).updateCollections
    (fun c => c.url = url && c.account = s.account) (Collection.named displayName) (fun _ => rfl)
    (fun _ => rfl) = u at hnamed
  have hframe : u.contacts = now.contacts ∧ u.sync = now.sync ∧ u.runs = now.runs := by
    rw [← hu]
    exact ⟨rfl, rfl, rfl⟩
  refine wp_bind (wp_gate (wp_bind (wp_select ?_ fun _ => rfl)) fun _ => rfl)
  cases hfind : u.findCollection s.account url with
  | none => exact wp_throw rfl
  | some row =>
    obtain ⟨hrow, hplace⟩ := findCollection_some hfind
    refine wp_pure ⟨⟨?_, hframe⟩, rfl⟩
    have hmem : book row ∈ books u := mem_books.2 ⟨row, hrow, rfl⟩
    rw [hnamed] at hmem ⊢
    rcases books_addCollection now with hsame | ⟨id, hadded, hfresh⟩
    · rw [hsame] at hmem ⊢
      exact .found hmem hplace
    · rw [hadded] at hmem ⊢
      rcases List.mem_append.1 hmem with hold | hlast
      · exact absurd hplace (hfresh _ hold).2
      · obtain rfl : row.id = id := congrArg Book.id (List.mem_singleton.1 hlast)
        exact .added hfresh

/-! ## Between two collections -/

/-- Every contact has its collection, and the runs that the rows name are in the list of runs. -/
structure Sound (t : Tables) : Prop where
  owned : ∀ c ∈ t.contacts, ∃ k ∈ books t, k.id = c.collection
  seen : ∀ c ∈ t.contacts, c.seenRun < t.runs.nextRowid SyncRun.id
  complete : ∀ k ∈ books t, ∀ run, k.complete = some run → run < t.runs.nextRowid SyncRun.id
  saved : ∀ r ∈ t.sync, r.seenRun < t.runs.nextRowid SyncRun.id

def Fetch.place (f : Fetch) (account : Int) : Int × Bytes := (account, f.url)

/-- What the shelf of a listed collection becomes. -/
def Fetch.outcome (f : Fetch) (t₀ : Tables) (account : Int) : Shelf :=
  ((shelf t₀ account f.url).start f.keep).replay (f.staged.map Prod.fst)

/-- The row of `dav_sync_state` that a collection gets. -/
def Fetch.saved (f : Fetch) (s : Store) : Dav.SyncRow := ⟨s.account, f.url, f.token, [], s.activeRun⟩

/-- Inside a run of `s` that began with `t₀` and is through with the collections `done`. -/
structure Amid (t₀ : Tables) (s : Store) (done : List Fetch) (spare : List Bytes) (t : Tables) :
    Prop where
  known : ∀ k ∈ books t, k ∈ books t₀ ∧ (∀ f ∈ done, k.place ≠ f.place s.account) ∨
    k.complete = some s.activeRun ∧ ∃ f ∈ done, k.place = f.place s.account
  kept : ∀ k ∈ books t₀, ∃ k' ∈ books t, k'.id = k.id ∧ k'.place = k.place
  replayed : ∀ f ∈ done, ∃ k ∈ books t, k.place = f.place s.account ∧
    shelfOf t k.id = f.outcome t₀ s.account
  rest : ∀ k ∈ books t, (∀ f ∈ done, k.place ≠ f.place s.account) → ∀ href,
    t.findContact k.id href = t₀.findContact k.id href
  owned : ∀ c ∈ t.contacts, ∃ k ∈ books t, k.id = c.collection
  seen : ∀ c ∈ t.contacts, c.seenRun ≤ s.activeRun
  sync : ∀ r, r ∈ t.sync ↔ r ∈ t₀.sync ∧ (∀ f ∈ done, r.key ≠ f.place s.account) ∨
    ∃ f ∈ done, r = f.saved s
  runs : s.activeRun < t.runs.nextRowid SyncRun.id
  spare : ∀ c ∈ t.contacts, c.syncRecordID ∉ spare

theorem Got.spec {place : Int × Bytes} {l l' : List Book} {id : Int} (h : Got place l id l')
    (hid : ∀ k ∈ l, ∀ k' ∈ l, k.id = k'.id → k = k')
    (hplace : ∀ k ∈ l, ∀ k' ∈ l, k.place = k'.place → k = k') :
    (∃ k ∈ l', k.id = id) ∧ (∀ k ∈ l', k.id = id ↔ k.place = place) ∧ (∀ k ∈ l, k ∈ l') ∧
      ∀ k ∈ l', k.id ≠ id → k ∈ l := by
  cases h with
  | found hk hp =>
    rename_i k
    refine ⟨⟨k, hk, rfl⟩, fun k' hk' => ⟨fun h => ?_, fun h => ?_⟩, fun _ h => h, fun _ h _ => h⟩
    · rw [hid k' hk' k hk h, hp]
    · rw [hplace k' hk' k hk (h.trans hp.symm)]
  | added hnew =>
    refine ⟨⟨⟨id, place, none⟩, by simp, rfl⟩, fun k hk => ?_, fun k hk => by simp [hk],
      fun k hk hne => ?_⟩
    · rcases List.mem_append.1 hk with hk | hk
      · simp [hnew k hk]
      · obtain rfl := List.mem_singleton.1 hk
        simp
    · rcases List.mem_append.1 hk with hk | hk
      · exact hk
      · obtain rfl := List.mem_singleton.1 hk
        exact absurd rfl hne

section
variable {t₀ t t₁ : Tables} {s : Store} {done : List Fetch} {spare : List Bytes}

theorem books_id_inj (t : Tables) : ∀ k ∈ books t, ∀ k' ∈ books t, k.id = k'.id → k = k' :=
  fun _ hk _ hk' h => book_of_id hk hk' h

theorem books_place_inj (t : Tables) : ∀ k ∈ books t, ∀ k' ∈ books t, k.place = k'.place → k = k' :=
  fun _ hk _ hk' h => book_of_place hk hk' h

/-- A collection that is not done has the shelf with which the run began. -/
theorem Amid.got_shelf {f : Fetch} {id : Int} (h : Amid t₀ s done spare t)
    (hnew : ∀ g ∈ done, g.url ≠ f.url) (hg : Got (s.account, f.url) (books t) id (books t₁))
    (hc : t₁.contacts = t.contacts) : shelfOf t₁ id = shelf t₀ s.account f.url := by
  have hsame : shelfOf t₁ id = shelfOf t id := by
    unfold shelfOf Tables.findContact
    rw [hc]
  rw [hsame]
  generalize hl : books t = l at hg
  generalize books t₁ = l' at hg
  cases hg with
  | found hk hplace =>
    rename_i k
    subst hl
    have hout : ∀ g ∈ done, k.place ≠ g.place s.account := by
      intro g hg he
      rw [hplace] at he
      exact hnew g hg (congrArg Prod.snd he).symm
    rcases h.known k hk with ⟨hk₀, -⟩ | ⟨-, g, hg, he⟩
    · rw [shelf_of_book hk₀ hplace]
      funext href
      unfold shelfOf
      rw [h.rest k hk hout]
    · exact absurd he (hout g hg)
  | added hfresh =>
    subst hl
    rw [shelf_of_no_book fun k hk hplace => ?_]
    · funext href
      unfold shelfOf
      cases hfind : t.findContact id href with
      | none => rfl
      | some c =>
        obtain ⟨hcm, hcollection, -⟩ := findContact_some hfind
        obtain ⟨k, hk, hid⟩ := h.owned c hcm
        exact absurd (hid.trans hcollection) (hfresh k hk).1
    · obtain ⟨k', hk', -, hplace'⟩ := h.kept k hk
      exact (hfresh k' hk').2 (hplace'.trans hplace)

/-- The run has seen nothing of a collection that is not done. -/
theorem Amid.got_unseen {f : Fetch} {id : Int} {c : Contact} (h : Amid t₀ s done spare t)
    (hs : Sound t₀) (hrun : s.activeRun = t₀.runs.nextRowid SyncRun.id)
    (hnew : ∀ g ∈ done, g.url ≠ f.url) (hg : Got (s.account, f.url) (books t) id (books t₁))
    (hc : c ∈ t.contacts) (hcollection : c.collection = id) : c.seenRun ≠ s.activeRun := by
  obtain ⟨k, hk, hid⟩ := h.owned c hc
  have hplace : k.place = (s.account, f.url) := by
    obtain ⟨-, hat, hsub, -⟩ := hg.spec (books_id_inj t) (books_place_inj t)
    exact (hat k (hsub k hk)).1 (hid.trans hcollection)
  have hout : ∀ g ∈ done, k.place ≠ g.place s.account := by
    intro g hg he
    rw [hplace] at he
    exact hnew g hg (congrArg Prod.snd he).symm
  have hfind := h.rest k hk hout c.href
  rw [hid, findContact_eq hc] at hfind
  have hlt := hs.seen c (findContact_some hfind.symm).1
  omega

theorem books_completed {collection run : Int} :
    books (t.updateCollections (fun c => c.id = collection) (Collection.completed run)
      (fun _ => rfl) fun _ => rfl) =
      (books t).map fun k => if k.id = collection then { k with complete := some run } else k := by
  unfold books Tables.updateCollections Table.update
  dsimp only
  rw [List.map_map, List.map_map]
  refine List.map_congr_left fun c _ => ?_
  by_cases hid : c.id = collection <;> simp [hid, book, Collection.completed, Collection.place]

/-- One more collection is done. -/
theorem Amid.step {f : Fetch} {id : Int} {spare' : List Bytes} {t₁ t' : Tables}
    (h : Amid t₀ s done spare' t) (hnew : ∀ g ∈ done, g.url ≠ f.url)
    (hg : Got (s.account, f.url) (books t) id (books t₁)) (hc : t₁.contacts = t.contacts)
    (hsync : t₁.sync = t.sync) (hruns : t₁.runs = t.runs)
    (hw : Within s slot
      (({ t₁ with sync := t₁.sync.replace (f.saved s) } : Tables).updateCollections
        (fun c => c.id = id) (Collection.completed s.activeRun) (fun _ => rfl) fun _ => rfl)
      id (f.outcome t₀ s.account) spare t') : Amid t₀ s (done ++ [f]) spare t' := by
  obtain ⟨⟨k₁, hk₁, hid₁⟩, hat, hsub, hold⟩ := hg.spec (books_id_inj t) (books_place_inj t)
  have hbooks : books t' = (books t₁).map fun k =>
      if k.id = id then { k with complete := some s.activeRun } else k := by
    have hcompleted := @books_completed { t₁ with sync := t₁.sync.replace (f.saved s) } id
      s.activeRun
    rw [show books t' = _ from congrArg (fun l => l.rows.map book) hw.beside.collections]
    exact hcompleted
  -- a book of the new list is that of the collection, or an old one of another place
  have hmem : ∀ k ∈ books t', k.id = id ∧ k.place = f.place s.account ∧
      k.complete = some s.activeRun ∨ k.id ≠ id ∧ k.place ≠ f.place s.account ∧ k ∈ books t := by
    intro k hk
    rw [hbooks] at hk
    obtain ⟨x, hx, rfl⟩ := List.mem_map.1 hk
    by_cases hxid : x.id = id
    · rw [if_pos hxid]
      exact .inl ⟨hxid, (hat x hx).1 hxid, rfl⟩
    · rw [if_neg hxid]
      exact .inr ⟨hxid, fun hp => hxid ((hat x hx).2 hp), hold x hx hxid⟩
  have hin : ∀ k ∈ books t, k.id ≠ id → k ∈ books t' := by
    intro k hk hne
    rw [hbooks]
    exact List.mem_map.2 ⟨k, hsub k hk, if_neg hne⟩
  have hthis : (⟨id, f.place s.account, some s.activeRun⟩ : Book) ∈ books t' := by
    rw [hbooks]
    refine List.mem_map.2 ⟨k₁, hk₁, ?_⟩
    rw [if_pos hid₁, hid₁, (hat k₁ hk₁).1 hid₁]
    rfl
  have hother : ∀ b, b ≠ id → ∀ href, t'.findContact b href = t.findContact b href := by
    intro b hb href
    rw [hw.others b hb href]
    unfold Tables.findContact
    show t₁.contacts.find? _ = t.contacts.find? _
    rw [hc]
  refine ⟨fun k hk => ?_, fun k hk => ?_, fun g hg => ?_, fun k hk hout href => ?_, fun c hcm => ?_,
    hw.seen, fun r => ?_, ?_, hw.spare⟩
  · rcases hmem k hk with ⟨-, hp, hcomplete⟩ | ⟨-, hne, hk⟩
    · exact .inr ⟨hcomplete, f, by simp, hp⟩
    · rcases h.known k hk with ⟨hk₀, hout⟩ | ⟨hcomplete, g, hg, hp⟩
      · refine .inl ⟨hk₀, fun g hg => ?_⟩
        rcases List.mem_append.1 hg with hg | hg
        · exact hout g hg
        · obtain rfl := List.mem_singleton.1 hg
          exact hne
      · exact .inr ⟨hcomplete, g, by simp [hg], hp⟩
  · obtain ⟨k', hk', hkid, hkplace⟩ := h.kept k hk
    by_cases hid : k'.id = id
    · refine ⟨_, hthis, hid.symm.trans hkid, ?_⟩
      rw [← hkplace]
      exact ((hat k' (hsub k' hk')).1 hid).symm
    · exact ⟨k', hin k' hk' hid, hkid, hkplace⟩
  · rcases List.mem_append.1 hg with hg | hg
    · obtain ⟨k, hk, hp, hshelf⟩ := h.replayed g hg
      have hne : k.id ≠ id := by
        intro hid
        have hplace := (hat k (hsub k hk)).1 hid
        rw [hp] at hplace
        exact hnew g hg (congrArg Prod.snd hplace)
      refine ⟨k, hin k hk hne, hp, ?_⟩
      rw [← hshelf]
      funext href
      unfold shelfOf
      rw [hother k.id hne]
    · obtain rfl := List.mem_singleton.1 hg
      exact ⟨_, hthis, rfl, funext hw.shows⟩
  · rcases hmem k hk with ⟨-, hp, -⟩ | ⟨hne, -, hk⟩
    · exact absurd hp (hout f (by simp))
    · rw [hother k.id hne]
      exact h.rest k hk (fun g hg => hout g (by simp [hg])) href
  · rcases hw.owned c hcm with hid | ⟨c₀, hc₀, hcollection⟩
    · exact ⟨_, hthis, hid.symm⟩
    · obtain ⟨k, hk, hkid⟩ := h.owned c₀ (hc ▸ hc₀)
      by_cases hid : k.id = id
      · exact ⟨_, hthis, hid.symm.trans (hkid.trans hcollection)⟩
      · exact ⟨k, hin k hk hid, hkid.trans hcollection⟩
  · rw [hw.beside.sync]
    show r ∈ t₁.sync.replace (f.saved s) ↔ _
    rw [Table.mem_replace, hsync, h.sync r]
    have hkey : (f.saved s).key = f.place s.account := rfl
    constructor
    · rintro (⟨⟨hr, hout⟩ | ⟨g, hg, rfl⟩, hne, -⟩ | rfl)
      · refine .inl ⟨hr, fun g hg => ?_⟩
        rcases List.mem_append.1 hg with hg | hg
        · exact hout g hg
        · obtain rfl := List.mem_singleton.1 hg
          exact hkey ▸ hne
      · exact .inr ⟨g, by simp [hg], rfl⟩
      · exact .inr ⟨f, by simp, rfl⟩
    · rintro (⟨hr, hout⟩ | ⟨g, hg, rfl⟩)
      · have hne : r.key ≠ (f.saved s).key := hout f (by simp)
        exact .inl ⟨.inl ⟨hr, fun g hg => hout g (by simp [hg])⟩, hne, hne⟩
      · rcases List.mem_append.1 hg with hg | hg
        · have hne : (g.saved s).key ≠ (f.saved s).key := fun he =>
            hnew g hg (congrArg Prod.snd he)
          exact .inl ⟨.inr ⟨g, hg, rfl⟩, hne, hne⟩
        · obtain rfl := List.mem_singleton.1 hg
          exact .inr rfl
  · rw [hw.beside.runs]
    show s.activeRun < t₁.runs.nextRowid SyncRun.id
    rw [hruns]
    exact h.runs

/-- **The commit of a collection** replays what was staged for it. -/
theorem ventures_commitFetch {reader : Reader} {f : Fetch} (hs : Sound t₀)
    (hrun : s.activeRun = t₀.runs.nextRowid SyncRun.id) (hnew : ∀ g ∈ done, g.url ≠ f.url)
    (hfresh : (fresh f.staged ++ spare).Nodup) :
    ventures (Amid t₀ s done (fresh f.staged ++ spare)) (commitFetch reader s f)
      fun _ => Amid t₀ s (done ++ [f]) spare := by
  have hpos : 0 < s.activeRun := hrun ▸ Table.nextRowid_pos _ _
  refine ventures_bind keeps_gate.turns.ventures fun _ => ?_
  intro c h
  refine ventures_bind turns_getCollection.ventures (fun id => ?_) c rfl
  intro c₁ h₁
  obtain ⟨hg, hc, hsync, hruns⟩ := h₁
  have hstart := @ventures_keepCollection s c₁.now id (fresh f.staged ++ spare)
    (fun x hx => h.seen x (hc ▸ hx))
    (fun x hx hid => h.got_unseen hs hrun hnew hg (hc ▸ hx) hid)
    (fun x hx => h.spare x (hc ▸ hx)) f.keep
  rw [h.got_shelf hnew hg hc] at hstart
  refine ventures_bind hstart (fun _ => ventures_bind keeps_gate.turns.ventures fun _ => ?_) c₁ rfl
  refine ventures_bind (ventures_applyStaged hpos hfresh) fun _ => ?_
  refine ventures_bind turns_saveSync.ventures fun _ => ?_
  refine ventures_mono ventures_finishCollection (fun _ h => h) fun _ t' hw => ?_
  exact h.step hnew hg hc hsync hruns hw

/-- All collections, one after the other. -/
theorem ventures_forFetches {reader : Reader} {fetches : List Fetch} (hs : Sound t₀)
    (hrun : s.activeRun = t₀.runs.nextRowid SyncRun.id) (hurls : (fetches.map Fetch.url).Nodup)
    (hfresh : (fetches.flatMap fun f => fresh f.staged).Nodup) :
    ventures (Amid t₀ s [] (fetches.flatMap fun f => fresh f.staged))
      (fetches.forM (commitFetch reader s)) fun _ => Amid t₀ s fetches [] := by
  suffices h : ∀ done rest, fetches = done ++ rest →
      ventures (Amid t₀ s done (rest.flatMap fun f => fresh f.staged))
        (rest.forM (commitFetch reader s)) fun _ => Amid t₀ s fetches [] from h [] fetches rfl
  intro done rest
  induction rest generalizing done with
  | nil =>
    intro hl
    rw [List.append_nil] at hl
    subst hl
    exact (keeps_pure _).turns.ventures
  | cons f rest ih =>
    intro hl
    have hnew : ∀ g ∈ done, g.url ≠ f.url := by
      rw [hl, List.map_append, List.nodup_append] at hurls
      exact fun g hg => hurls.2.2 _ (List.mem_map_of_mem hg) _ (by simp)
    have hnodup : ((f :: rest).flatMap fun f => fresh f.staged).Nodup := by
      rw [hl, List.flatMap_append, List.nodup_append] at hfresh
      exact hfresh.2.1
    rw [List.flatMap_cons] at hnodup ⊢
    refine ventures_bind (ventures_commitFetch hs hrun hnew hnodup) fun _ => ?_
    exact ih (done ++ [f]) (by rw [hl, List.append_assoc]; rfl)

end

/-! ## The end of the run -/

/-- The outcome of a commit for the store as a whole. -/
structure Mirrored (t₀ : Tables) (account : Int) (fetches : List Fetch) (t : Tables) : Prop where
  listed : ∀ f ∈ fetches, (∃ c, t.findCollection account f.url = some c ∧ c.remoteMissing = false) ∧
    shelf t account f.url = f.outcome t₀ account
  unlisted : ∀ url, (∀ f ∈ fetches, f.url ≠ url) →
    (∀ c, t.findCollection account url = some c → c.remoteMissing = true) ∧
    shelf t account url = (shelf t₀ account url).start false
  others : ∀ a, a ≠ account → ∀ url, shelf t a url = shelf t₀ a url
  saved : ∀ r ∈ t.sync, r.account = account →
    ∃ f ∈ fetches, r.url = f.url ∧ r.token = f.token
  savedOthers : ∀ r, r.account ≠ account → (r ∈ t.sync ↔ r ∈ t₀.sync)
  sound : Sound t

/-- A commit that fails leaves a run behind, and nothing else. -/
structure Unchanged (t₀ t : Tables) : Prop where
  contacts : t.contacts = t₀.contacts
  collections : t.collections = t₀.collections
  sync : t.sync = t₀.sync
  runs : t₀.runs.nextRowid SyncRun.id ≤ t.runs.nextRowid SyncRun.id

section
variable {t₀ t : Tables} {s : Store} {fetches : List Fetch}

theorem settled_id (s : Store) (c : Collection) : (c.settled s.activeRun).id = c.id := rfl

theorem settled_place (s : Store) (c : Collection) : (c.settled s.activeRun).place = c.place := rfl

theorem retired_place (c : Contact) : c.retired.place = c.place := rfl

theorem retired_syncRecordID (c : Contact) : c.retired.syncRecordID = c.syncRecordID := rfl

theorem generated_id (s : Store) (a : Account) : (a.generated s.activeRun).id = a.id := rfl

theorem generated_name (s : Store) (a : Account) : (a.generated s.activeRun).name = a.name := rfl

/-- What the three updates of `RCContactStoreFinishRun` make of the tables. -/
def concluded (s : Store) (t : Tables) : Tables :=
  let t₁ := t.updateCollections (fun c => c.account = s.account) (Collection.settled s.activeRun)
    (settled_id s) (settled_place s)
  let t₂ := t₁.updateContacts
    (fun c => t₁.collections.any fun b => b.id = c.collection && b.account = s.account &&
      b.remoteMissing)
    Contact.retired retired_place retired_syncRecordID
  t₂.updateAccounts (fun a => a.id = s.account) (Account.generated s.activeRun)
    (generated_id s) (generated_name s)

theorem turns_concludeRun {P : Tables → Prop} {Q : Tables → Prop}
    (h : ∀ t, P t → Q (concluded s t)) :
    turns P (concludeRun s.account s.activeRun) fun _ => Q := by
  intro c hc
  refine wp_bind (wp_change (wp_bind (wp_change (wp_change ?_ fun _ => rfl) fun _ => rfl))
    fun _ => rfl)
  exact ⟨h _ hc, rfl⟩

theorem books_concluded : books (concluded s t) = books t :=
  @books_update t (fun c => c.account = s.account) (Collection.settled s.activeRun)
    (settled_id s) (settled_place s) fun _ => rfl

theorem mem_concluded {c : Collection} : c ∈ (concluded s t).collections ↔ ∃ x ∈ t.collections,
    c = if x.account = s.account then x.settled s.activeRun else x := by
  show c ∈ t.collections.update (fun c => c.account = s.account) (Collection.settled s.activeRun)
    (settled_id s) (settled_place s) ↔ _
  rw [Table.mem_update]
  simp

theorem of_mem_concluded {c : Contact} (hc : c ∈ (concluded s t).contacts) :
    ∃ x ∈ t.contacts, c.collection = x.collection ∧ c.seenRun = x.seenRun := by
  obtain ⟨x, hx, rfl⟩ := (@Tables.mem_updateContacts _ _ _ retired_place retired_syncRecordID c).1 hc
  refine ⟨x, hx, ?_⟩
  split <;> exact ⟨rfl, rfl⟩

/-- Which collections of the account the run has made missing. -/
theorem concluded_missing {c : Collection} (hc : c ∈ (concluded s t).collections)
    (haccount : c.account = s.account) :
    c.remoteMissing = true ↔ c.lastCompleteRun ≠ some s.activeRun := by
  obtain ⟨x, -, rfl⟩ := mem_concluded.1 hc
  by_cases hx : x.account = s.account
  · simp [hx, Collection.settled]
  · simp [hx] at haccount

/-- The contacts of the collections that are missing are missing with them. -/
theorem shelfOf_concluded {k : Book} (hk : k ∈ books t) : shelfOf (concluded s t) k.id =
    if k.place.1 = s.account ∧ k.complete ≠ some s.activeRun then (shelfOf t k.id).start false
    else shelfOf t k.id := by
  obtain ⟨b, hb, rfl⟩ := mem_books.1 hk
  have hretired : ∀ c : Contact, c.collection = b.id →
      ((concluded s t).collections.any fun b => b.id = c.collection && b.account = s.account &&
        b.remoteMissing) =
      decide (b.account = s.account ∧ b.lastCompleteRun ≠ some s.activeRun) := by
    intro c hcollection
    rw [Bool.eq_iff_iff, Table.any_iff, decide_eq_true_iff]
    simp only [Bool.and_eq_true, decide_eq_true_iff]
    constructor
    · rintro ⟨x, hx, ⟨hid, haccount⟩, hmissing⟩
      rw [concluded_missing hx haccount] at hmissing
      have hsame : book x = book b := by
        refine book_of_id (t := t) ?_ hk (hid.trans hcollection)
        rw [← books_concluded (s := s)]
        exact mem_books.2 ⟨x, hx, rfl⟩
      have hplace : x.account = b.account := congrArg (fun k => k.place.1) hsame
      have hcomplete : x.lastCompleteRun = b.lastCompleteRun := congrArg Book.complete hsame
      exact ⟨hplace ▸ haccount, hcomplete ▸ hmissing⟩
    · rintro ⟨haccount, hcomplete⟩
      have hin : b.settled s.activeRun ∈ (concluded s t).collections :=
        mem_concluded.2 ⟨b, hb, by simp [haccount]⟩
      refine ⟨_, hin, ⟨hcollection.symm, haccount⟩, ?_⟩
      exact (concluded_missing hin haccount).2 hcomplete
  funext href
  have hfind : (concluded s t).findContact b.id href = (t.findContact b.id href).map fun c =>
      if (concluded s t).collections.any fun b => b.id = c.collection && b.account = s.account &&
        b.remoteMissing then c.retired else c :=
    @findContact_update _ b.id href _ _ retired_place retired_syncRecordID
  show ((concluded s t).findContact b.id href).map slot = _
  rw [hfind]
  cases hc : t.findContact b.id href with
  | none => split <;> simp [shelfOf, Shelf.start, hc, book]
  | some c =>
    obtain ⟨-, hcollection, -⟩ := findContact_some hc
    rw [Option.map_some, Option.map_some, hretired c hcollection]
    by_cases hmissing : b.account = s.account ∧ b.lastCompleteRun ≠ some s.activeRun
    · have hbook : (book b).place.1 = s.account ∧ (book b).complete ≠ some s.activeRun := hmissing
      rw [if_pos (decide_eq_true hmissing), if_pos hbook]
      simp [shelfOf, Shelf.start, hc, book, slot, Contact.retired]
    · have hbook : ¬ ((book b).place.1 = s.account ∧ (book b).complete ≠ some s.activeRun) := hmissing
      rw [if_neg (by simpa using hmissing), if_neg hbook]
      simp [shelfOf, hc, book]

/-- What a collection that the run has not been through is concluded as. -/
theorem Amid.untouched {k : Book} (h : Amid t₀ s fetches [] t) (hk : k ∈ books t)
    (hout : ∀ f ∈ fetches, k.place ≠ f.place s.account) :
    k ∈ books t₀ ∧ shelfOf t k.id = shelfOf t₀ k.id := by
  refine ⟨?_, ?_⟩
  · rcases h.known k hk with ⟨hk₀, -⟩ | ⟨-, f, hf, hplace⟩
    · exact hk₀
    · exact absurd hplace (hout f hf)
  · funext href
    unfold shelfOf
    rw [h.rest k hk hout]

/-- Where there is no collection, there was none. -/
theorem Amid.absent {place : Int × Bytes} (h : Amid t₀ s fetches [] t)
    (hno : ∀ k ∈ books t, k.place ≠ place) : ∀ k ∈ books t₀, k.place ≠ place := by
  intro k hk hplace
  obtain ⟨k', hk', -, hplace'⟩ := h.kept k hk
  exact hno k' hk' (hplace'.trans hplace)

/-- **What the commit concludes.** -/
theorem Amid.concluded (h : Amid t₀ s fetches [] t) (hs : Sound t₀)
    (hrun : s.activeRun = t₀.runs.nextRowid SyncRun.id) :
    Mirrored t₀ s.account fetches (concluded s { t with
      sync := t.sync.delete fun r => r.account = s.account && r.seenRun ≠ s.activeRun }) := by
  generalize hu : ContactMirror.concluded s { t with
    sync := t.sync.delete fun r => r.account = s.account && r.seenRun ≠ s.activeRun } = u
  have hbooks : books u = books t := by
    rw [← hu, books_concluded]
    rfl
  have hshelf : ∀ k ∈ books t, shelfOf u k.id =
      if k.place.1 = s.account ∧ k.complete ≠ some s.activeRun then (shelfOf t k.id).start false
      else shelfOf t k.id := by
    intro k hk
    rw [← hu]
    exact shelfOf_concluded (t := { t with sync := t.sync.delete _ }) hk
  have hmissing : ∀ c ∈ u.collections, c.account = s.account →
      (c.remoteMissing = true ↔ c.lastCompleteRun ≠ some s.activeRun) := by
    rw [← hu]
    exact fun c hc => concluded_missing hc
  have hsync : ∀ r, r ∈ u.sync ↔ r ∈ t.sync ∧ ¬ (r.account = s.account ∧ r.seenRun ≠ s.activeRun) := by
    intro r
    rw [← hu]
    show r ∈ t.sync.delete _ ↔ _
    rw [Table.mem_delete]
    simp
  -- no run of the rows that were there is this one
  have hold : ∀ k ∈ books t₀, k.complete ≠ some s.activeRun := by
    intro k hk he
    have hlt := hs.complete k hk _ he
    omega
  refine ⟨fun f hf => ?_, fun url hout => ?_, fun a ha url => ?_, fun r hr haccount => ?_,
    fun r haccount => ?_, ?_⟩
  · obtain ⟨k, hk, hplace, hreplayed⟩ := h.replayed f hf
    have hcomplete : k.complete = some s.activeRun := by
      rcases h.known k hk with ⟨-, hout⟩ | ⟨hcomplete, -⟩
      · exact absurd hplace (hout f hf)
      · exact hcomplete
    refine ⟨?_, ?_⟩
    · obtain ⟨c, hc, rfl⟩ := mem_books.1 (hbooks ▸ hk)
      obtain ⟨haccount, hurl⟩ := Prod.mk.inj hplace
      refine ⟨c, haccount ▸ hurl ▸ findCollection_eq hc, ?_⟩
      rw [← Bool.not_eq_true, hmissing c hc haccount]
      exact fun hne => hne hcomplete
    · rw [shelf_of_book (hbooks ▸ hk) hplace, hshelf k hk, if_neg (fun hne => hne.2 hcomplete),
        hreplayed]
  · by_cases hk : ∃ k ∈ books t, k.place = (s.account, url)
    · obtain ⟨k, hk, hplace⟩ := hk
      have hnot : ∀ f ∈ fetches, k.place ≠ f.place s.account := by
        intro f hf he
        rw [hplace] at he
        exact hout f hf (congrArg Prod.snd he).symm
      obtain ⟨hk₀, hsame⟩ := h.untouched hk hnot
      refine ⟨fun c hc => ?_, ?_⟩
      · obtain ⟨hc, hcplace⟩ := findCollection_some hc
        have hbook : book c ∈ books t := hbooks ▸ mem_books.2 ⟨c, hc, rfl⟩
        have heq := book_of_place hbook hk (hcplace.trans hplace.symm)
        rw [hmissing c hc (congrArg Prod.fst hcplace)]
        exact hold (book c) (heq ▸ hk₀)
      · rw [shelf_of_book (hbooks ▸ hk) hplace, hshelf k hk, shelf_of_book hk₀ hplace, hsame,
          if_pos ⟨congrArg Prod.fst hplace, hold k hk₀⟩]
    · have hno : ∀ k ∈ books t, k.place ≠ (s.account, url) := fun k hk' hplace =>
        hk ⟨k, hk', hplace⟩
      refine ⟨fun c hc => ?_, ?_⟩
      · obtain ⟨hc, hcplace⟩ := findCollection_some hc
        exact absurd hcplace (hno _ (hbooks ▸ mem_books.2 ⟨c, hc, rfl⟩))
      · rw [shelf_of_no_book (hbooks ▸ hno), shelf_of_no_book (h.absent hno)]
        rfl
  · by_cases hk : ∃ k ∈ books t, k.place = (a, url)
    · obtain ⟨k, hk, hplace⟩ := hk
      have hnot : ∀ f ∈ fetches, k.place ≠ f.place s.account := by
        intro f _ he
        rw [hplace] at he
        exact ha (congrArg Prod.fst he)
      obtain ⟨hk₀, hsame⟩ := h.untouched hk hnot
      rw [shelf_of_book (hbooks ▸ hk) hplace, hshelf k hk, shelf_of_book hk₀ hplace, hsame,
        if_neg fun he => ha ((congrArg Prod.fst hplace).symm.trans he.1)]
    · have hno : ∀ k ∈ books t, k.place ≠ (a, url) := fun k hk' hplace => hk ⟨k, hk', hplace⟩
      rw [shelf_of_no_book (hbooks ▸ hno), shelf_of_no_book (h.absent hno)]
  · obtain ⟨hr, hseen⟩ := (hsync r).1 hr
    rcases (h.sync r).1 hr with ⟨hr₀, -⟩ | ⟨f, hf, rfl⟩
    · have hlt := hs.saved r hr₀
      have hne : r.seenRun ≠ s.activeRun := by omega
      exact absurd ⟨haccount, hne⟩ hseen
    · exact ⟨f, hf, rfl, rfl⟩
  · rw [hsync, h.sync]
    constructor
    · rintro ⟨⟨hr₀, -⟩ | ⟨f, -, rfl⟩, -⟩
      · exact hr₀
      · exact absurd rfl haccount
    · intro hr₀
      refine ⟨.inl ⟨hr₀, fun f _ he => haccount (congrArg Prod.fst he)⟩, fun he => haccount he.1⟩
  · have hruns : u.runs = t.runs := by
      rw [← hu]
      rfl
    have hcontacts : ∀ c ∈ u.contacts, ∃ x ∈ t.contacts, c.collection = x.collection ∧
        c.seenRun = x.seenRun := by
      rw [← hu]
      exact fun c hc => of_mem_concluded hc
    have hnext := h.runs
    refine ⟨fun c hc => ?_, fun c hc => ?_, fun k hk run hcomplete => ?_, fun r hr => ?_⟩
    · obtain ⟨x, hx, hcollection, -⟩ := hcontacts c hc
      obtain ⟨k, hk, hid⟩ := h.owned x hx
      exact ⟨k, hbooks ▸ hk, hid.trans hcollection.symm⟩
    · obtain ⟨x, hx, -, hseen⟩ := hcontacts c hc
      have hle := h.seen x hx
      rw [hruns, hseen]
      omega
    · rw [hruns]
      rcases h.known k (hbooks ▸ hk) with ⟨hk₀, -⟩ | ⟨hthis, -⟩
      · have hlt := hs.complete k hk₀ run hcomplete
        omega
      · rw [hthis] at hcomplete
        cases hcomplete
        exact hnext
    · rw [hruns]
      obtain ⟨hr, -⟩ := (hsync r).1 hr
      rcases (h.sync r).1 hr with ⟨hr₀, -⟩ | ⟨f, -, rfl⟩
      · have hlt := hs.saved r hr₀
        omega
      · exact hnext

/-! ## The whole commit -/

theorem ventures_commitFetches {reader : Reader} (hs : Sound t₀)
    (hrun : s.activeRun = t₀.runs.nextRowid SyncRun.id) (hurls : (fetches.map Fetch.url).Nodup)
    (hfresh : (fetches.flatMap fun f => fresh f.staged).Nodup) :
    ventures (Amid t₀ s [] (fetches.flatMap fun f => fresh f.staged))
      (commitFetches reader s fetches) fun _ t =>
        Mirrored t₀ s.account fetches (ContactMirror.concluded s t) := by
  refine ventures_bind (ventures_forFetches hs hrun hurls hfresh) fun _ => ?_
  refine ventures_bind (turns_onSyncState (Q := fun _ t =>
    Mirrored t₀ s.account fetches (ContactMirror.concluded s t)) ?_).ventures
    fun _ => keeps_gate.turns.ventures
  exact fun t h => h.concluded hs hrun

theorem closeRun_nextRowid {account run : Int} {succeeded : Bool} {message : Option Bytes} :
    (closeRun account run succeeded message t).runs.nextRowid SyncRun.id =
      t.runs.nextRowid SyncRun.id :=
  @Table.nextRowid_update _ _ _ _ _ _ (SyncRun.finished succeeded message) t.runs _ (fun _ => rfl)
    (fun _ => rfl) fun _ => rfl

theorem mirrored_closeRun {account run : Int} {succeeded : Bool} {message : Option Bytes}
    (h : Mirrored t₀ account fetches t) :
    Mirrored t₀ account fetches (closeRun account run succeeded message t) := by
  obtain ⟨howned, hseen, hcomplete, hsaved⟩ := h.sound
  rw [← @closeRun_nextRowid t account run succeeded message] at hseen hcomplete hsaved
  exact ⟨h.listed, h.unlisted, h.others, h.saved, h.savedOthers, howned, hseen, hcomplete, hsaved⟩

theorem unchanged_closeRun {account run : Int} {succeeded : Bool} {message : Option Bytes}
    (h : Unchanged t₀ t) : Unchanged t₀ (closeRun account run succeeded message t) := by
  refine ⟨h.contacts, h.collections, h.sync, ?_⟩
  rw [closeRun_nextRowid]
  exact h.runs

/-- What is rolled back to while the image of `BEGIN` is still held. -/
theorem rollback_of_suffix {c : Conn Tables} (h : [t] <:+ c.undo) : c.rollback = ⟨t, []⟩ := by
  obtain ⟨l, hl⟩ := h
  unfold Conn.rollback
  rw [← hl]
  simp

theorem checkRun_active (hpos : 0 < s.activeRun) : checkRun s s.activeRun = pure () := by
  unfold checkRun
  rw [if_pos ⟨hpos, rfl⟩]

/-- A successful end is committed, or all is rolled back. -/
theorem wp_finishSucceeded {c : Conn Tables} {Q : Tables → Prop} (hpos : 0 < s.activeRun)
    (hu : c.undo = [t]) (h : Q (closeRun s.account s.activeRun true none (concluded s c.now))) :
    wp (finishRun s s.activeRun true none) (fun _ c' => c'.undo = [] ∧ Q c'.now)
      (fun _ c' => c' = ⟨t, []⟩) c := by
  have hback : ∀ c' : Conn Tables, c'.undo = c.undo → c'.rollback = ⟨t, []⟩ := fun c' he =>
    rollback_of_suffix (by simp only [he, hu, List.suffix_rfl])
  unfold finishRun
  rw [checkRun_active hpos]
  refine wp_bind (wp_pure (wp_orRollback ?_))
  rw [if_pos rfl]
  have hconclude := turns_concludeRun (s := s) (P := fun t => t = c.now)
    (Q := fun t => t = concluded s c.now) (fun t ht => by rw [ht]) c rfl
  refine wp_bind (wp_mono hconclude (fun _ c' hc' => ?_) fun _ c' hu' => hback c' hu')
  obtain ⟨hnow, hu'⟩ := hc'
  refine wp_bind (wp_change (wp_commit ⟨rfl, ?_⟩ fun _ => hback _ hu') fun _ => hback c' hu')
  show Q (closeRun s.account s.activeRun true none c'.now)
  rw [hnow]
  exact h

/-- A failed end rolls everything back, and says so in the list of runs if it can. -/
theorem wp_finishFailed {c : Conn Tables} {message : Option Bytes} {Q : Tables → Prop}
    (hpos : 0 < s.activeRun) (hu : [t] <:+ c.undo)
    (h : Q (closeRun s.account s.activeRun false message t)) :
    wp (finishRun s s.activeRun false message) (fun _ c' => c'.undo = [] ∧ Q c'.now)
      (fun _ c' => c' = ⟨t, []⟩) c := by
  have hback : c.rollback = ⟨t, []⟩ := rollback_of_suffix hu
  unfold finishRun
  rw [checkRun_active hpos]
  refine wp_bind (wp_pure (wp_orRollback ?_))
  rw [if_neg Bool.false_ne_true]
  refine wp_bind (wp_rollback ?_ fun _ => hback)
  rw [hback]
  exact wp_change ⟨rfl, h⟩ fun _ => rfl

theorem amid_start {runs : Table SyncRun.id SyncRun.id} {spare : List Bytes} (hs : Sound t₀)
    (hrun : s.activeRun = t₀.runs.nextRowid SyncRun.id)
    (hnext : s.activeRun < runs.nextRowid SyncRun.id)
    (hspare : ∀ c ∈ t₀.contacts, c.syncRecordID ∉ spare) :
    Amid t₀ s [] spare { t₀ with runs := runs } where
  known k hk := .inl ⟨hk, fun f hf => by cases hf⟩
  kept k hk := ⟨k, hk, rfl, rfl⟩
  replayed f hf := by cases hf
  rest _ _ _ _ := rfl
  owned := hs.owned
  seen c hc := by
    have hlt := hs.seen c hc
    omega
  sync r := by simp
  runs := hnext
  spare := hspare

end

/-- **A commit that returns has mirrored the listed collections, and one that fails has changed
nothing but the list of runs**, whatever the engine refuses. -/
theorem wp_commitRun {reader : Reader} {account : Int} {fetches : List Fetch} {c : Conn Tables}
    (hu : c.undo = []) (hs : Sound c.now) (hurls : (fetches.map Fetch.url).Nodup)
    (hfresh : (fetches.flatMap fun f => fresh f.staged).Nodup)
    (hspare : ∀ x ∈ c.now.contacts, x.syncRecordID ∉ fetches.flatMap fun f => fresh f.staged) :
    wp (commitRun reader account fetches)
      (fun _ c' => c'.undo = [] ∧ Mirrored c.now account fetches c'.now)
      (fun _ c' => c'.undo = [] ∧ Unchanged c.now c'.now) c := by
  have hsame : c.undo = [] ∧ Unchanged c.now c.now := ⟨hu, rfl, rfl, rfl, Int.le_refl _⟩
  refine wp_bind (wp_gate (wp_bind ?_) fun _ => hsame)
  unfold beginRun
  rw [if_neg (by simp)]
  refine wp_bind (wp_gate (wp_bind (wp_stmt (fun run t ht => ?_) fun _ => hsame)) fun _ => hsame)
  unfold insertRun at ht
  split at ht
  · rename_i runs hi
    cases ht
    have hnext : runs.nextRowid SyncRun.id = c.now.runs.nextRowid SyncRun.id + 1 :=
      Table.nextRowid_insert hi rfl
    generalize hr : c.now.runs.nextRowid SyncRun.id = run at hnext ⊢
    have hpos : 0 < run := hr ▸ Table.nextRowid_pos _ _
    have hamid := amid_start (s := ⟨account, run⟩) hs hr.symm
      (show run < runs.nextRowid SyncRun.id by omega) hspare
    generalize ht₁ : ({ c.now with runs := runs } : Tables) = t₁ at hamid ⊢
    have hopen : Unchanged c.now t₁ := by
      rw [← ht₁]
      refine ⟨rfl, rfl, rfl, ?_⟩
      show c.now.runs.nextRowid SyncRun.id ≤ runs.nextRowid SyncRun.id
      omega
    refine wp_bind (wp_begin (fun _ => wp_pure ?_) fun _ => ⟨hu, hopen⟩)
    have hbody := @ventures_commitFetches c.now ⟨account, run⟩ fetches reader hs hr.symm hurls
      hfresh (Conn.push ⟨t₁, c.undo⟩) hamid
    have hundo : (Conn.push ⟨t₁, c.undo⟩).undo = [t₁] := by rw [Conn.push_undo, hu]
    rw [hundo] at hbody
    refine wp_bind (wp_attempt (wp_mono hbody (fun _ c₁ h₁ => ?_) fun e c₁ h₁ => ?_))
    · -- the run is concluded and committed, or rolled back
      refine wp_mono (wp_finishSucceeded (s := ⟨account, run⟩) hpos h₁.2 (mirrored_closeRun h₁.1))
        (fun _ _ hq => hq) fun _ c' he => ?_
      rw [he]
      exact ⟨rfl, hopen⟩
    · refine wp_bind (wp_attempt (wp_mono (wp_finishFailed (s := ⟨account, run⟩) hpos h₁
        (unchanged_closeRun hopen)) (fun _ _ hq => wp_throw hq) fun _ c' he => wp_throw ?_))
      rw [he]
      exact ⟨rfl, hopen⟩
  · cases ht

end ContactMirror
