import RetroCloudSync.Library.Run
import RetroCloudSync.ContactMirror.Collection
import RetroCloudSync.ContactMirror.Mirrored

/-!
# The mirror is faithful

`Faithful`: the mirror is right about everything that the server does not owe to the tokens it has
saved, and knows nothing that the server has not held. A download keeps that, wherever it is cut off
(`faithful_leads`), so it lasts through any number of them; and one that returns has brought the
mirror up to date (`mirror_faithful`).
-/

set_option autoImplicit false

namespace ContactMirror

open Library Library.Prog Library.Feed ContactStore
open Journal (Bytes Buf RCError ascii)

/-- The mirror is up to date with its tokens, and has nothing that did not come from the server. -/
structure Faithful (server : Server) (account : Int) (n : Nat) (t : Tables) : Prop where
  sound : Sound t
  genuine : ∀ url, Genuine (server url) (shelf t account url)
  upto : ∀ r ∈ t.sync, r.account = account → ∀ v, r.token = some v → v ≠ [] ∧
    (server r.url).Upto n (some v) (shelf t account r.url).copy

/-! ## All collections -/

section
variable {resolve : Bytes → Bytes → Option Bytes} {server : Server} {reader : Reader}
  {account : Int} {exc : Failure → World → Prop} {w w' w₀ : World} {index : Nat} {url : Bytes}
  {keep : Bool} {token : Option Bytes} {s₀ : World}

theorem Faithful.loaded {n : Nat} {t : Tables} {v : Bytes} (h : Faithful server account n t)
    (hv : (loaded t account url).1 = some v) : v ≠ [] ∧
      (server url).Upto n (some v) (ContactMirror.shelf t account url).copy := by
  unfold ContactMirror.loaded at hv
  cases hfind : Dav.SyncState.find account url t.sync with
  | none => rw [hfind] at hv; cases hv
  | some r =>
    rw [hfind] at hv
    obtain ⟨hr, hplace⟩ := Table.find?_some hfind
    simp only [Bool.and_eq_true, decide_eq_true_iff] at hplace
    obtain ⟨haccount, rfl⟩ := hplace
    exact h.upto r hr haccount v hv

theorem mem_bases {supportsSync : Bool} {token : Option Bytes} {v : Bytes}
    (h : some v ∈ bases supportsSync token) : token = some v := by
  unfold bases at h
  cases supportsSync <;> cases token <;> simp_all

/-- **A collection is downloaded.** -/
theorem wp_fetchCollection {collection : Dav.Collection} (hF : Strong (server collection.url))
    (h : Faithful server account w.time w.tables) (hexc : ∀ f w', Along index w w' → exc f w')
    (hempty : w.stage index = []) :
    wp (Answers resolve server reader account) (May server account s₀)
      (fetchCollection resolve index collection)
      (fun r w' => Along index w w' ∧
        Fetched server account w index collection.url r.1 r.2 w') exc w := by
  refine wp_ask trivial fun answer w' hw => ?_
  obtain ⟨rfl, hload⟩ : w' = w ∧ _ := hw
  change Except RCError (Option Bytes × Option Bytes) at answer
  refine wp_orFail (fun saved hsaved => ?_) fun f => hexc f _ (.refl _ _)
  have hsaved := hload saved hsaved
  refine wp_fetchFrom hF (h.genuine _) hexc (fun v hv => h.loaded ?_) (.refl _ _) hempty
  rw [← hsaved]
  exact mem_bases hv

theorem Onward.refl (w : World) : Onward w w := ⟨Nat.le_refl _, rfl⟩

theorem Onward.trans {w'' : World} (h : Onward w w') (h' : Onward w' w'') : Onward w w'' :=
  ⟨Nat.le_trans h.time h'.time, h'.tables.trans h.tables⟩

theorem Along.onward (h : Along index w w') : Onward w w' := ⟨h.time, h.tables⟩

theorem Faithful.later {n n' : Nat} {t : Tables} (h : Faithful server account n t) (hle : n ≤ n') :
    Faithful server account n' t where
  sound := h.sound
  genuine := h.genuine
  upto r hr haccount v hv :=
    ⟨(h.upto r hr haccount v hv).1, (h.upto r hr haccount v hv).2.later hle⟩

theorem Faithful.onward (h : Faithful server account w.time w.tables) (ho : Onward w w') :
    Faithful server account w'.time w'.tables := by
  rw [ho.tables]
  exact h.later ho.time

/-- What has been downloaded stays so while other collections are. -/
theorem Fetched.onward {w₁ : World} (h : Fetched server account w₁ index url keep token w)
    (h₀ : w₀.time ≤ w₁.time) (h₁ : w₁.time ≤ w.time) (ho : Onward w w')
    (hstage : w'.stage index = w.stage index) :
    Fetched server account w₀ index url keep token w' := by
  have hshelf : w'.shelf account index url keep = w.shelf account index url keep := by
    unfold World.shelf
    rw [ho.tables, hstage]
  refine ⟨hshelf ▸ h.genuine, fun k hk => ?_, fun v hv => ⟨(h.token v hv).1, ?_⟩⟩
  · rw [hshelf]
    exact h.exact.later h₁ ho.time k
      (hk.within h₀ (Nat.le_trans h₁ ho.time) (Nat.le_refl _))
  · rw [hshelf]
    exact (h.token v hv).2.later ho.time

/-- **All collections are downloaded**, one after the other. -/
theorem wp_fetchCollections {l : List Dav.Collection} (hF : ∀ url, Strong (server url))
    (h : Faithful server account w₀.time w₀.tables) (hexc : ∀ f w', Onward w₀ w' → exc f w')
    (ho : Onward w₀ w) (hempty : ∀ j, index ≤ j → w.stage j = []) :
    wp (Answers resolve server reader account) (May server account s₀)
      (fetchCollections resolve index l)
      (fun r w' => Onward w w' ∧ (∀ j, j < index → w'.stage j = w.stage j) ∧
        r.map Prod.fst = l ∧ Gathered server account w₀ w' index r) exc w := by
  induction l generalizing index w with
  | nil => exact wp_ret ⟨.refl w, fun _ _ => rfl, rfl, trivial⟩
  | cons collection rest ih =>
    refine wp_bind (wp_checkStopped (fun f => hexc f w ho) ?_)
    refine wp_bind (wp_mono (wp_fetchCollection (hF _) (h.onward ho)
      (fun f w' ha => hexc f w' (ho.trans ha.onward))
      (hempty index (Nat.le_refl _))) (fun fetched w' h' => ?_) fun _ _ h' => h')
    obtain ⟨halong, hfetched⟩ := h'
    have ho' := ho.trans halong.onward
    have hempty' : ∀ j, index + 1 ≤ j → w'.stage j = [] := by
      intro j hj
      rw [halong.others j (by omega)]
      exact hempty j (by omega)
    refine wp_bind (wp_mono (ih ho' hempty') (fun r w'' h'' => ?_) fun _ _ h' => h')
    obtain ⟨hon, hbefore, hr, hgathered⟩ := h''
    refine wp_ret ⟨halong.onward.trans hon, fun j hj => ?_, ?_, ?_, hgathered⟩
    · rw [hbefore j (by omega), halong.others j (by omega)]
    · rw [List.map_cons, hr]
    · exact hfetched.onward ho.time halong.time hon (hbefore index (by omega))

/-! ## The commit -/

theorem url_fetchesOf {stage : Nat → List Staged} {random : Nat → Nat → Nat → Bytes}
    {l : List (Dav.Collection × Bool × Option Bytes)} :
    (fetchesOf stage random index l).map Fetch.url = (l.map Prod.fst).map Dav.Collection.url := by
  induction l generalizing index with
  | nil => rfl
  | cons e rest ih =>
    obtain ⟨collection, keep, token⟩ := e
    simp [fetchesOf, ih]

/-- Each collection that is committed has been downloaded. -/
theorem Gathered.fetched {random : Nat → Nat → Nat → Bytes}
    {l : List (Dav.Collection × Bool × Option Bytes)} {f : Fetch}
    (h : Gathered server account w₀ w index l) (hf : f ∈ fetchesOf w.stage random index l) :
    ∃ i, f.outcome w.tables account = w.shelf account i f.url f.keep ∧
      Fetched server account w₀ i f.url f.keep f.token w := by
  induction l generalizing index with
  | nil => cases hf
  | cons e rest ih =>
    obtain ⟨collection, keep, token⟩ := e
    rcases List.mem_cons.1 hf with rfl | hf
    · refine ⟨index, ?_, h.1⟩
      have hstaged : ((w.stage index).zipIdx.map fun e => (e.1, random index e.2)).map Prod.fst =
          w.stage index := by
        rw [List.map_map]
        exact List.zipIdx_map_fst 0 (w.stage index)
      unfold Fetch.outcome World.shelf
      rw [hstaged]
    · exact ih h.2 hf

/-- A commit that has mirrored what was downloaded. -/
theorem Mirrored.faithful {random : Nat → Nat → Nat → Bytes}
    {l : List (Dav.Collection × Bool × Option Bytes)} {t : Tables}
    (hm : Mirrored w.tables account (fetchesOf w.stage random 0 l) t)
    (h : Faithful server account w₀.time w.tables) (hg : Gathered server account w₀ w 0 l) :
    Faithful server account w.time t ∧ ∀ c ∈ t.collections, c.account = account →
      c.remoteMissing = false →
        (server c.url).Exact w₀.time w.time (shelf t account c.url).copy := by
  refine ⟨⟨hm.sound, fun url => ?_, fun r hr haccount v hv => ?_⟩, fun c hc haccount hthere => ?_⟩
  · by_cases hurl : ∃ f ∈ fetchesOf w.stage random 0 l, f.url = url
    · obtain ⟨f, hf, rfl⟩ := hurl
      obtain ⟨i, hshelf, hfetched⟩ := hg.fetched hf
      rw [(hm.listed f hf).2, hshelf]
      exact hfetched.genuine
    · rw [(hm.unlisted url fun f hf he => hurl ⟨f, hf, he⟩).2]
      exact genuine_start (h.genuine url)
  · obtain ⟨f, hf, hurl, htoken⟩ := hm.saved r hr haccount
    obtain ⟨i, hshelf, hfetched⟩ := hg.fetched hf
    rw [hurl, (hm.listed f hf).2, hshelf]
    exact hfetched.token v (htoken ▸ hv)
  · by_cases hurl : ∃ f ∈ fetchesOf w.stage random 0 l, f.url = c.url
    · obtain ⟨f, hf, he⟩ := hurl
      obtain ⟨i, hshelf, hfetched⟩ := hg.fetched hf
      rw [← he, (hm.listed f hf).2, hshelf]
      exact hfetched.exact
    · have hmissing := (hm.unlisted c.url fun f hf he => hurl ⟨f, hf, he⟩).1 c
        (haccount ▸ findCollection_eq hc)
      rw [hthere] at hmissing
      cases hmissing

/-- A commit that has failed. -/
theorem Unchanged.faithful {n : Nat} {t₀ t : Tables} (hu : Unchanged t₀ t)
    (h : Faithful server account n t₀) : Faithful server account n t := by
  have hshelf : ∀ url, shelf t account url = shelf t₀ account url := by
    intro url
    unfold shelf shelfOf Tables.findCollection Tables.findContact
    rw [hu.collections, hu.contacts]
  have hbooks : books t = books t₀ := by
    unfold books
    rw [hu.collections]
  have hruns := hu.runs
  refine ⟨⟨fun c hc => ?_, fun c hc => ?_, fun k hk run hrun => ?_, fun r hr => ?_⟩,
    fun url => hshelf url ▸ h.genuine url, fun r hr => ?_⟩
  · rw [hbooks]
    exact h.sound.owned c (hu.contacts ▸ hc)
  · have hlt := h.sound.seen c (hu.contacts ▸ hc)
    omega
  · have hlt := h.sound.complete k (hbooks ▸ hk) run hrun
    omega
  · have hlt := h.sound.saved r (hu.sync ▸ hr)
    omega
  · rw [hshelf]
    exact h.upto r (hu.sync ▸ hr)

end


/-! ## The whole download -/

/-- From `w` on: the mirror is faithful, and what it shows is what the server has, but for what has
changed since `w`. -/
def Current (server : Server) (account : Int) (w w' : World) : Prop :=
  ∀ c ∈ w'.tables.collections, c.account = account → c.remoteMissing = false →
    (server c.url).Exact w.time w'.time (shelf w'.tables account c.url).copy

section
variable {resolve : Bytes → Bytes → Option Bytes} {server : Server} {reader : Reader}
  {account : Int} {exc : Failure → World → Prop} {w w' w₀ s₀ : World}

/-- A request that is not about the contents. -/
theorem wp_discover {what : Propfind} {space name url : Bytes} {Q : Bytes → World → Prop}
    (h : ∀ a n, w.time ≤ n → Q a (w.at' n)) (hexc : ∀ f n, w.time ≤ n → exc f (w.at' n)) :
    wp (Answers resolve server reader account) (May server account s₀)
      (discover resolve what space name url) Q exc w := by
  refine wp_ask trivial fun answer w' hw => ?_
  obtain ⟨n, hn, rfl, -⟩ : Served resolve server w (.propfind what url) answer w' := hw
  change Except RCError Dav.Report at answer
  refine wp_orFail (fun r _ => ?_) fun f => hexc f n hn
  cases Dav.discoverHref resolve space name r with
  | ok a => exact h a n hn
  | error e => exact hexc _ n hn

theorem wp_listAddressBooks {url : Bytes} {Q : List Dav.Collection → World → Prop}
    (h : ∀ l n, w.time ≤ n → (l.map Dav.Collection.url).Nodup → Q l (w.at' n))
    (hexc : ∀ f n, w.time ≤ n → exc f (w.at' n)) :
    wp (Answers resolve server reader account) (May server account s₀)
      (listAddressBooks resolve url) Q exc
      w := by
  refine wp_ask trivial fun answer w' hw => ?_
  obtain ⟨n, hn, rfl, htrue⟩ : Served resolve server w (.propfind .collections url) answer w' := hw
  change Except RCError Dav.Report at answer
  refine wp_orFail (fun r hr => ?_) fun f => hexc f n hn
  cases hl : Dav.listCollections resolve Dav.carddavNamespace (ascii "addressbook") r with
  | ok l => exact h l n hn (htrue r l hr hl)
  | error e => exact hexc _ n hn

/-- A commit of what was downloaded, whether it returns or fails. -/
theorem commit_faithful {l : List (Dav.Collection × Bool × Option Bytes)}
    {answer : Except RCError Unit} (h : Faithful server account w₀.time w₀.tables)
    (hmay : May server account w₀ w (.commit l))
    (ha : Answers resolve server reader account w (.commit l) answer w') :
    (w₀.time ≤ w'.time ∧ Faithful server account w'.time w'.tables) ∧
      ∀ u, answer = .ok u → Current server account w₀ w' := by
  obtain ⟨ho, hurls, hg⟩ := hmay
  obtain ⟨random, faults, ⟨hfresh, hspare⟩, hrun⟩ := ha
  have hnow : Faithful server account w₀.time w.tables := by
    rw [ho.tables]
    exact h
  have hcommit := @wp_commitRun reader account (fetchesOf w.stage random 0 l) ⟨w.tables, []⟩ rfl
    hnow.sound (url_fetchesOf ▸ hurls) hfresh hspare
  have hend := hcommit faults
  revert hrun hend
  cases commitRun reader account (fetchesOf w.stage random 0 l) ⟨⟨w.tables, []⟩, faults⟩ with
  | ok u s =>
    intro hrun hend
    obtain ⟨rfl, rfl⟩ := hrun
    obtain ⟨hfaithful, hcurrent⟩ := hend.2.faithful hnow hg
    exact ⟨⟨ho.time, hfaithful⟩, fun _ _ => hcurrent⟩
  | error e s =>
    intro hrun hend
    obtain ⟨rfl, rfl⟩ := hrun
    exact ⟨⟨ho.time, hend.2.faithful (hnow.later ho.time)⟩, nofun⟩

theorem wp_commit {l : List (Dav.Collection × Bool × Option Bytes)}
    (h : Faithful server account w₀.time w₀.tables) (hmay : May server account w₀ w (.commit l)) :
    wp (Answers resolve server reader account) (May server account w₀) (.ask (.commit l) orFail)
      (fun _ w' => Current server account w₀ w') (fun _ _ => True) w := by
  refine wp_ask hmay fun answer w' hw => ?_
  have hend := commit_faithful h hmay hw
  change Except RCError Unit at answer
  cases answer with
  | ok u => exact hend.2 u rfl
  | error e => trivial

/-- Everything but a commit leaves the mirror as it is. -/
theorem answers_onward {q : Question} {a : q.Answer} (hq : ∀ l, q ≠ .commit l)
    (h : Answers resolve server reader account w q a w') : Onward w w' := by
  cases q with
  | commit l => exact absurd rfl (hq l)
  | cancelled | client | autocommit =>
    obtain rfl : w' = w := h
    exact .refl _
  | load | current | has =>
    obtain rfl : w' = w := h.1
    exact .refl _
  | propfind | report | get =>
    obtain ⟨n, hn, rfl, -⟩ := h
    exact ⟨hn, rfl⟩
  | openStage | save | reset =>
    change Except RCError Unit at a
    cases a with
    | ok u =>
      obtain rfl : w' = _ := h
      exact ⟨Nat.le_refl _, rfl⟩
    | error e =>
      obtain rfl : w' = w := h
      exact .refl _

/-- **A download**, whatever is answered. -/
theorem wp_fetch {serviceURL : Bytes} (hF : ∀ url, Strong (server url))
    (h : Faithful server account w.time w.tables) :
    wp (Answers resolve server reader account) (May server account w)
      (fetch resolve serviceURL) (fun _ w' => Current server account w w') (fun _ _ => True) w := by
  refine wp_ask trivial fun client w' hw => ?_
  obtain rfl : w' = w := hw
  refine wp_ask trivial fun idle w' hw => ?_
  obtain rfl : w' = _ := hw
  change Bool at idle
  cases idle with
  | false => trivial
  | true =>
    refine wp_ask trivial fun opened w₁ hw => ?_
    change Except RCError Unit at opened
    have hopened : Onward w' w₁ ∧ (∀ u, opened = .ok u → ∀ j, w₁.stage j = []) := by
      cases opened with
      | ok u =>
        obtain rfl : w₁ = { w' with stage := fun _ => [] } := hw
        exact ⟨⟨Nat.le_refl _, rfl⟩, fun _ _ _ => rfl⟩
      | error e =>
        obtain rfl : w₁ = w' := hw
        exact ⟨.refl _, nofun⟩
    obtain ⟨ho, hempty⟩ := hopened
    refine wp_orFail (fun u hu => wp_orFail (fun _ _ => ?_) fun _ => trivial) fun _ => trivial
    have hon : ∀ {w₂ : World} {n}, Onward w' w₂ → w₂.time ≤ n → Onward w' (w₂.at' n) :=
      fun ho hn => ⟨Nat.le_trans ho.time hn, ho.tables⟩
    refine wp_bind (wp_discover (fun principalURL n hn => ?_) fun _ _ _ => trivial)
    have ho₁ := hon ho hn
    refine wp_bind (wp_discover (fun homeURL n₂ hn₂ => ?_) fun _ _ _ => trivial)
    have ho₂ := hon ho₁ hn₂
    refine wp_bind (wp_listAddressBooks (fun l n₃ hn₃ hurls => ?_) fun _ _ _ => trivial)
    have ho₃ := hon ho₂ hn₃
    have hall := @wp_fetchCollections resolve server reader account (fun _ w'' => Onward w' w'')
      ((w₁.at' n).at' n₂ |>.at' n₃) w' 0 w' l hF h (fun _ _ ho => ho) ho₃ fun j _ => hempty u hu j
    refine wp_bind (wp_mono hall (fun r w₄ h₄ => ?_) fun _ _ _ => trivial)
    obtain ⟨ho₄, -, rfl, hgathered⟩ := h₄
    exact wp_commit h ⟨ho₃.trans ho₄, hurls, hgathered⟩

/-- So much of a download, up to its end or until it is cut off. -/
theorem faithful_leads {serviceURL : Bytes} {y : FetchProg Unit} (hF : ∀ url, Strong (server url))
    (h : Faithful server account w.time w.tables)
    (hl : Leads (Answers resolve server reader account) (fetch resolve serviceURL) w y w') :
    w.time ≤ w'.time ∧ Faithful server account w'.time w'.tables := by
  refine leads_invariant
    (J := fun w' => w.time ≤ w'.time ∧ Faithful server account w'.time w'.tables)
    (wp_fetch hF h) ⟨Nat.le_refl _, h⟩ (fun w₁ q a w₂ hJ hmay ha => ?_) hl
  by_cases hq : ∃ l, q = .commit l
  · obtain ⟨l, rfl⟩ := hq
    exact (commit_faithful h hmay ha).1
  · have ho := answers_onward (fun l he => hq ⟨l, he⟩) ha
    exact ⟨Nat.le_trans hJ.1 ho.time, hJ.2.onward ho⟩

end

/-! ## Any number of downloads -/

/-- Time passes, or a download is made, which comes to its end or is cut off anywhere before. -/
inductive Step (resolve : Bytes → Bytes → Option Bytes) (server : Server) (reader : Reader)
    (account : Int) (serviceURL : Bytes) : World → World → Prop
  | wait {w : World} {n : Nat} (h : w.time ≤ n) :
      Step resolve server reader account serviceURL w (w.at' n)
  | download {w w' : World} {y : FetchProg Unit}
      (h : Leads (Answers resolve server reader account) (fetch resolve serviceURL) w y w') :
      Step resolve server reader account serviceURL w w'

/-- A mirror in which nothing has been downloaded. -/
def Start (account : Int) (w : World) : Prop :=
  Sound w.tables ∧ (∀ url href, shelf w.tables account url href = none) ∧
    ∀ r ∈ w.tables.sync, r.account ≠ account

section
variable {resolve : Bytes → Bytes → Option Bytes} {server : Server} {reader : Reader}
  {account : Int} {serviceURL : Bytes} {w w' : World} {past : List World}

theorem faithful_start (h : Start account w) : Faithful server account w.time w.tables where
  sound := h.1
  genuine url href x hx := by
    rw [h.2.1 url href] at hx
    cases hx
  upto r hr haccount := absurd haccount (h.2.2 r hr)

theorem faithful_step (hF : ∀ url, Strong (server url))
    (h : Faithful server account w.time w.tables)
    (hs : Step resolve server reader account serviceURL w w') :
    Faithful server account w'.time w'.tables := by
  cases hs with
  | wait hn => exact h.later hn
  | download hl => exact (faithful_leads hF h hl).2

theorem faithful_reached (hF : ∀ url, Strong (server url))
    (h : Run (Start account) (Step resolve server reader account serviceURL) (w :: past)) :
    Faithful server account w.time w.tables :=
  h.invariant (P := fun w => Faithful server account w.time w.tables) (fun _ h => faithful_start h)
    fun _ _ h hs => faithful_step hF h hs

/-- **A download that returns has brought the mirror up to date**, after any number of downloads,
complete and incomplete, from tokens and from inventories, while the server changes all the time:
each collection that is not missing shows what the server holds under every href that has not
changed since the download began; and what it knows, present or not, the server has held. -/
theorem mirror_faithful (hF : ∀ url, Strong (server url))
    (h : Run (Start account) (Step resolve server reader account serviceURL) (w :: past))
    (hl : Leads (Answers resolve server reader account) (fetch resolve serviceURL) w (.ret ()) w') :
    (∀ c ∈ w'.tables.collections, c.account = account → c.remoteMissing = false → ∀ href,
      (server c.url).Still w.time w'.time href →
        (shelf w'.tables account c.url).copy href = (server c.url).holds w'.time href) ∧
      ∀ url, Genuine (server url) (shelf w'.tables account url) := by
  have hfaithful := faithful_reached hF h
  exact ⟨wp_run (wp_fetch hF hfaithful) hl, (faithful_leads hF hfaithful hl).2.genuine⟩

end

/-! ## A contact that changes -/

def cardHref : Bytes := ascii "https://dav/book/1"

/-- The contact before and after it was changed. -/
def card (later : Bool) : Version :=
  if later then (ascii "f", ascii "W") else (ascii "e", ascii "V")

def syncToken (later : Bool) : Bytes := if later then ascii "t1" else ascii "t0"

/-- An address book of one contact, which is changed between time 0 and time 1. -/
def changingBook : Feed Bytes Version Bytes where
  holds n href := if href = cardHref then some (card (0 < n)) else none
  issued n v := v = syncToken false ∨ v = syncToken true ∧ 0 < n
  owes n v href := href = cardHref ∧ v = syncToken false ∧ 0 < n
  issued_later h hle := h.imp_right fun h => ⟨h.1, h.2.trans_le hle⟩
  owes_later _ hle h := ⟨h.1, h.2.1, h.2.2.trans_le hle⟩
  owes_changed := by
    intro n m v k hi hle hne
    by_cases hk : k = cardHref
    · rw [if_pos hk, if_pos hk] at hne
      have hn : ¬ 0 < n := fun hn => hne (by simp [hn, hn.trans_le hle])
      have hm : 0 < m := Nat.pos_of_ne_zero fun hm => hne (by simp [hn, hm])
      exact ⟨hk, hi.resolve_right fun h => hn h.2, hm⟩
    · rw [if_neg hk, if_neg hk] at hne
      exact absurd rfl hne

theorem changingBook_holds {n : Nat} {href : Bytes} {v : Version}
    (h : changingBook.holds n href = some v) : href = cardHref ∧ card (0 < n) = v := by
  by_cases hk : href = cardHref
  · rw [show changingBook.holds n href = some (card (0 < n)) from if_pos hk] at h
    exact ⟨hk, Option.some.inj h⟩
  · rw [show changingBook.holds n href = none from if_neg hk] at h
    cases h

theorem changingBook_strong : Strong changingBook := by
  have hcard : ∀ a b, (card a).1 = (card b).1 → card a = card b := by decide +kernel
  intro href etag body body' i j hi hj
  have hi := (changingBook_holds hi).2
  have hj := (changingBook_holds hj).2
  have hsame := hcard (0 < i) (0 < j) (by rw [hi, hj])
  rw [hi, hj] at hsame
  exact (Prod.mk.inj hsame).2

/-- The report that names the contact leads on from any token. -/
theorem changingBook_answer {n : Nat} {since : Option Bytes} :
    changingBook.Answer n since (syncToken (0 < n)) [(cardHref, some (card (0 < n)))] where
  issued := by
    by_cases hn : 0 < n
    · exact .inr ⟨by simp [hn], hn⟩
    · exact .inl (by simp [hn])
  truthful := by
    rintro k - e he rfl
    obtain rfl := List.mem_singleton.1 he
    show some (card (0 < n)) = if cardHref = cardHref then some (card (0 < n)) else none
    rw [if_pos rfl]
  complete := by
    intro k _ hk howes
    have hne : k ≠ cardHref := fun he => hk _ (List.mem_singleton.2 rfl) he.symm
    cases since with
    | none => exact howes (if_neg hne)
    | some v => exact hne howes.1

theorem changingBook_owes_none {n : Nat} {href : Bytes} :
    ¬ changingBook.owes n (syncToken (0 < n)) href := by
  rintro ⟨-, hv, hn⟩
  rw [show decide (0 < n) = true from decide_eq_true hn] at hv
  revert hv
  decide +kernel

def multistatus (responses : List Dav.Node) : Dav.Report where
  statusCode := 207
  effectiveURL := ascii "https://dav/"
  bodyLength := 0
  document := some ⟨false, Dav.davElement "multistatus" responses⟩

def found (prop : List Dav.Node) : Dav.Node :=
  Dav.davElement "propstat"
    [Dav.davElement "prop" prop, Dav.davText "status" "HTTP/1.1 200 OK"]

def principalReport : Dav.Report := multistatus [Dav.davElement "response"
  [found [Dav.davElement "current-user-principal" [Dav.davText "href" "me"]]]]

def homeReport : Dav.Report := multistatus [Dav.davElement "response"
  [found [.element (ascii "addressbook-home-set") (some Dav.carddavNamespace)
    [Dav.davText "href" "home"]]]]

def bookReport : Dav.Report := multistatus [Dav.davElement "response" [Dav.davText "href" "book/",
  found [Dav.davElement "resourcetype"
      [.element (ascii "addressbook") (some Dav.carddavNamespace) []],
    Dav.davText "sync-token" "t0"]]]

/-- The report about the contact. -/
def syncReport (later : Bool) : Dav.Report := multistatus
  [Dav.davElement "response" [Dav.davText "href" "book/1",
      found [Dav.davText "getetag" (if later then "f" else "e")]],
    Dav.davText "sync-token" (if later then "t1" else "t0")]

def addressBook : Dav.Collection :=
  ⟨ascii "https://dav/book/", none, none, none, some (ascii "t0"), true⟩

def page (later : Bool) : Dav.Accepted :=
  ⟨syncToken later, false, [change (cardHref, some (card later))]⟩

def resolveHref (base href : Bytes) : Option Bytes := some (base ++ href)

theorem readings :
    Dav.discoverHref resolveHref Dav.davNamespace (ascii "current-user-principal") principalReport =
        .ok (ascii "https://dav/me") ∧
      Dav.discoverHref resolveHref Dav.carddavNamespace (ascii "addressbook-home-set") homeReport =
        .ok (ascii "https://dav/home") ∧
      Dav.listCollections resolveHref Dav.carddavNamespace (ascii "addressbook") bookReport =
        .ok [addressBook] ∧
      Dav.readReport resolveHref [[]] (syncReport false) = .page (page false) ∧
      Dav.readReport resolveHref [syncToken false] (syncReport true) = .page (page true) := by
  decide +kernel

section
variable {resolve : Bytes → Bytes → Option Bytes} {server : Server} {reader : Reader}
  {account : Int} {w : World}

theorem leads_discover {what : Propfind} {space name url a : Bytes} {r : Dav.Report}
    (hr : Dav.discoverHref resolve space name r = .ok a)
    (htrue : Says resolve server w.time (.propfind what url) (.ok r)) :
    Leads (Answers resolve server reader account) (discover resolve what space name url) w (.ret a)
      w := by
  refine leads_ask (q := Question.propfind what url) (a := Except.ok r)
    ⟨w.time, Nat.le_refl _, rfl, htrue⟩ (leads_of_eq ?_)
  show orFail (Dav.discoverHref resolve space name r) = _
  rw [hr]
  rfl

theorem leads_commit {l : List (Dav.Collection × Bool × Option Bytes)}
    {random : Nat → Nat → Nat → Bytes} {faults : List (Option String)} {s : Session Tables}
    (hfresh : ((fetchesOf w.stage random 0 l).flatMap fun f => fresh f.staged).Nodup ∧
      ∀ x ∈ w.tables.contacts,
        x.syncRecordID ∉ (fetchesOf w.stage random 0 l).flatMap fun f => fresh f.staged)
    (hrun : commitRun reader account (fetchesOf w.stage random 0 l) ⟨⟨w.tables, []⟩, faults⟩ =
      .ok () s) :
    Leads (Answers resolve server reader account) (.ask (.commit l) orFail) w (.ret ())
      { w with tables := s.conn.now } := by
  refine leads_ask (q := Question.commit l) (a := Except.ok ()) ⟨random, faults, hfresh, ?_⟩
    leads_refl
  rw [hrun]
  exact ⟨rfl, rfl⟩

end

/-- Every body is a card without properties. -/
def anyReader : Reader where
  vcard _ := true
  calendar _ := true
  document _ := ⟨.none, []⟩

/-- The moment of a download. -/
def moment (later : Bool) : Nat := if later then 1 else 0

/-- The token that a download starts from. -/
def savedToken (later : Bool) : Option Bytes := if later then some (syncToken false) else none

/-- The contact as it is staged. -/
def staged (later : Bool) : Staged :=
  .downloaded cardHref (card later).1 (.data (card later).2)

abbrev changing : Server := fun _ => changingBook

theorem says_report {later : Bool} {url token : Bytes}
    (htoken : Dav.readReport resolveHref [token] (syncReport later) = .page (page later)) :
    Says resolveHref changing (moment later) (.report url token) (.ok (syncReport later)) := by
  intro r used p hr hp
  obtain rfl := Except.ok.inj hr
  obtain rfl := Dav.readReport_unique htoken hp
  have hmoment : decide (0 < moment later) = later := by cases later <;> rfl
  refine ⟨[(cardHref, some (card later))], ?_, ?_, ?_, rfl⟩
  · have hanswer := @changingBook_answer (moment later) (since token)
    rw [hmoment] at hanswer
    exact hanswer
  · intro e he v hv
    obtain rfl := List.mem_singleton.1 he
    cases hv
    refine ⟨moment later, ?_⟩
    show (if cardHref = cardHref then some (card (0 < moment later)) else none) = _
    rw [if_pos rfl, hmoment]
  · intro _ href
    have howes := @changingBook_owes_none (moment later) href
    rw [hmoment] at howes
    exact howes

section
variable {later : Bool} {w : World}

theorem leads_page (htime : w.time = moment later)
    (hcurrent : mirrorResourceCurrent w.tables 1 addressBook.url cardHref (card later).1 = false)
    (hstage : w.stage 0 = []) :
    Leads (Answers resolveHref changing anyReader 1)
      (applyContactChanges 0 addressBook.url (page later).changes) w (.ret ())
      (w.setStage 0 [staged later]) := by
  refine leads_ask (q := Question.cancelled) (a := false) rfl ?_
  refine leads_ask (q := Question.current addressBook.url cardHref (card later).1)
    (a := Except.ok false) ⟨rfl, fun b hb => (Except.ok.inj hb).symm.trans hcurrent.symm⟩ ?_
  refine leads_ask (q := Question.has 0 cardHref) (a := Except.ok false)
    ⟨rfl, fun b hb => (Except.ok.inj hb).symm.trans (by rw [hstage]; rfl)⟩ ?_
  refine leads_ask (q := Question.get addressBook.url cardHref)
    (a := Except.ok ⟨200, some (card later).1, .data (card later).2⟩)
    ⟨w.time, Nat.le_refl _, rfl, ?_⟩ ?_
  · intro r hr _
    obtain rfl := Except.ok.inj hr
    refine ⟨(card later).1, rfl, ?_⟩
    have hmoment : decide (0 < w.time) = later := by rw [htime]; cases later <;> rfl
    show (if cardHref = cardHref then some (card (0 < w.time)) else none) = _
    rw [if_pos rfl, hmoment]
    rfl
  · refine leads_ask (q := Question.save 0 (staged later)) (a := Except.ok ()) ?_ leads_refl
    show _ = (w.at' w.time).setStage 0 ((w.at' w.time).stage 0 ++ [staged later])
    rw [show (w.at' w.time).stage 0 = [] from hstage]
    rfl

theorem leads_sync (htime : w.time = moment later)
    (hcurrent : mirrorResourceCurrent w.tables 1 addressBook.url cardHref (card later).1 = false)
    (hstage : w.stage 0 = []) :
    Leads (Answers resolveHref changing anyReader 1)
      (syncChanges resolveHref 0 addressBook.url (savedToken later)) w
      (.ret ⟨.complete, some (syncToken later)⟩) (w.setStage 0 [staged later]) := by
  have hread : Dav.readReport resolveHref [(savedToken later).getD []] (syncReport later) =
      .page (page later) := by
    cases later
    · exact readings.2.2.2.1
    · exact readings.2.2.2.2
  have hshort : ¬ 16384 < ((savedToken later).getD []).length := by
    cases later <;> decide +kernel
  show Leads _ ((Dav.syncPages resolveHref true (1023 + 1) [(savedToken later).getD []]).interpret _
    _) _ _ _
  unfold Dav.syncPages
  refine leads_interpret (q := Dav.Question.cancelled) (a := false)
    (leads_ask (q := Question.cancelled) (a := false) rfl leads_refl) ?_
  simp only [Bool.false_eq_true, if_false, List.getLast?_singleton, Option.getD_some, hshort]
  refine leads_interpret (q := Dav.Question.report ((savedToken later).getD []))
    (a := Except.ok (syncReport later)) (leads_ask
      (q := Question.report addressBook.url ((savedToken later).getD []))
      (a := Except.ok (syncReport later)) ⟨w.time, Nat.le_refl _, rfl, ?_⟩ leads_refl) ?_
  · rw [htime]
    exact says_report hread
  · dsimp only
    rw [hread]
    have hpage : Leads (Answers resolveHref changing anyReader 1)
        (answerPage 0 addressBook.url (.page (page later).changes)) (w.at' w.time)
        (.ret (Except.ok () : Except RCError Unit)) (w.setStage 0 [staged later]) :=
      leads_rescue (leads_bind (leads_page htime hcurrent hstage))
    exact leads_interpret (q := Dav.Question.page (page later).changes) hpage (leads_of_eq rfl)

theorem leads_collection {scope : Option Bytes} (htime : w.time = moment later)
    (hload : loaded w.tables 1 addressBook.url = (savedToken later, scope))
    (hcurrent : mirrorResourceCurrent w.tables 1 addressBook.url cardHref (card later).1 = false)
    (hstage : w.stage 0 = []) :
    Leads (Answers resolveHref changing anyReader 1) (fetchCollections resolveHref 0 [addressBook]) w
      (.ret [(addressBook, later, some (syncToken later))]) (w.setStage 0 [staged later]) := by
  have hsync := leads_sync htime hcurrent hstage
  have hfetch : Leads (Answers resolveHref changing anyReader 1)
      (fetchFrom resolveHref 0 addressBook.url (bases true (savedToken later))) w
      (.ret (later, some (syncToken later))) (w.setStage 0 [staged later]) := by
    cases later
    · exact leads_then hsync leads_refl
    · exact leads_then hsync leads_refl
  have hcollection : Leads (Answers resolveHref changing anyReader 1)
      (fetchCollection resolveHref 0 addressBook) w (.ret (later, some (syncToken later)))
      (w.setStage 0 [staged later]) :=
    leads_ask (q := Question.load addressBook.url) (a := Except.ok (savedToken later, scope))
      ⟨rfl, fun x hx => (Except.ok.inj hx).symm.trans hload.symm⟩ hfetch
  have hgoing : Leads (Answers resolveHref changing anyReader 1) checkStopped w (.ret ()) w :=
    leads_ask (q := Question.cancelled) (a := false) rfl leads_refl
  exact leads_then hgoing (leads_then hcollection leads_refl)

end

/-- What a download commits. -/
def fetched (later : Bool) : List Fetch :=
  [⟨addressBook.url, none, later, some (syncToken later),
    [(staged later, fun _ => [cond later 1 0])]⟩]

/-- The mirror after a download. -/
@[irreducible]
def mirrored (later : Bool) (t : Tables) : Tables :=
  match commitRun anyReader 1 (fetched later) ⟨⟨t, []⟩, []⟩ with
  | .ok () s => s.conn.now
  | .error _ _ => t

@[irreducible]
def commits (later : Bool) (t : Tables) : Bool :=
  match commitRun anyReader 1 (fetched later) ⟨⟨t, []⟩, []⟩ with
  | .ok () _ => true
  | .error _ _ => false

/-- The world after a download. -/
def World.caughtUp (w : World) (later : Bool) : World :=
  ⟨w.time, mirrored later w.tables, Function.update (fun _ => []) 0 [staged later]⟩

theorem leads_download {later : Bool} {w : World} {scope : Option Bytes}
    (htime : w.time = moment later)
    (hload : loaded w.tables 1 addressBook.url = (savedToken later, scope))
    (hcurrent : mirrorResourceCurrent w.tables 1 addressBook.url cardHref (card later).1 = false)
    (hfresh : ∀ x ∈ w.tables.contacts, x.syncRecordID ≠ [cond later 1 0])
    (hcommit : commits later w.tables = true) :
    Leads (Answers resolveHref changing anyReader 1) (fetch resolveHref (ascii "https://dav/")) w
      (.ret ()) (w.caughtUp later) := by
  refine leads_ask (q := Question.client) (a := Except.ok ()) rfl ?_
  refine leads_ask (q := Question.autocommit) (a := true) rfl ?_
  refine leads_ask (q := Question.openStage) (a := Except.ok ()) rfl ?_
  generalize hw : ({ w with stage := fun _ => [] } : World) = w₀
  have hprincipal := @leads_discover resolveHref changing anyReader 1 w₀ .principal _ _
    (ascii "https://dav/") _ _ readings.1 trivial
  have hhome := @leads_discover resolveHref changing anyReader 1 w₀ .home _ _
    (ascii "https://dav/me") _ _ readings.2.1 trivial
  have hbook : Leads (Answers resolveHref changing anyReader 1)
      (listAddressBooks resolveHref (ascii "https://dav/home")) w₀ (.ret [addressBook]) w₀ := by
    refine leads_ask (q := Question.propfind .collections (ascii "https://dav/home"))
      (a := Except.ok bookReport) ⟨w₀.time, Nat.le_refl _, rfl, ?_⟩ (leads_of_eq ?_)
    · intro r l hr hl
      obtain rfl : bookReport = r := Except.ok.inj hr
      rw [readings.2.2.1] at hl
      cases hl
      exact List.nodup_singleton _
    · show orFail (Dav.listCollections resolveHref Dav.carddavNamespace (ascii "addressbook")
        bookReport) = _
      rw [readings.2.2.1]
      rfl
  refine leads_then (a := ()) (leads_of_eq rfl) (leads_then (a := ()) (leads_of_eq rfl) ?_)
  refine leads_then hprincipal (leads_then hhome (leads_then hbook ?_))
  subst hw
  refine leads_then (leads_collection htime hload hcurrent rfl) ?_
  unfold commits at hcommit
  unfold World.caughtUp mirrored
  cases hrun : commitRun anyReader 1 (fetched later) ⟨⟨w.tables, []⟩, []⟩ with
  | error e s =>
    rw [hrun] at hcommit
    cases hcommit
  | ok u s =>
    exact @leads_commit resolveHref changing anyReader 1 _ _ (fun _ _ _ => [cond later 1 0]) _ _
      ⟨List.nodup_singleton _, fun x hx hm => hfresh x hx (List.mem_singleton.1 hm)⟩ hrun

/-- The mirror after the first download. -/
def firstTables : Tables := mirrored false Tables.empty

theorem downloads_commit :
    commits false Tables.empty = true ∧ commits true firstTables = true := by
  decide +kernel

theorem firstTables_holds :
    (loaded firstTables 1 addressBook.url).1 = savedToken true ∧
      mirrorResourceCurrent firstTables 1 addressBook.url cardHref (card true).1 = false ∧
      (firstTables.contacts.any fun x => x.syncRecordID = [1]) = false ∧
      ((mirrored true firstTables).collections.any fun c =>
        c.account = 1 && c.url = addressBook.url && !c.remoteMissing) = true := by
  decide +kernel

/-- The contact is downloaded, then it changes, and the change is downloaded from the token. -/
theorem mirror_faithful_changed : ∃ w past w',
    Run (Start 1) (Step resolveHref changing anyReader 1 (ascii "https://dav/")) (w :: past) ∧
      (loaded w.tables 1 addressBook.url).1 = some (syncToken false) ∧
      Leads (Answers resolveHref changing anyReader 1) (fetch resolveHref (ascii "https://dav/")) w
        (.ret ()) w' ∧
      (shelf w'.tables 1 addressBook.url).copy cardHref = some (card true) := by
  have hstart : Start 1 ⟨0, Tables.empty, fun _ => []⟩ :=
    ⟨⟨fun c hc => absurd hc List.not_mem_nil, fun c hc => absurd hc List.not_mem_nil,
      fun k hk => absurd hk List.not_mem_nil, fun r hr => absurd hr List.not_mem_nil⟩,
      fun _ _ => rfl, fun r hr => absurd hr List.not_mem_nil⟩
  have hfirst := @leads_download false ⟨0, Tables.empty, fun _ => []⟩ none rfl rfl rfl
    (fun x hx => absurd hx List.not_mem_nil) downloads_commit.1
  obtain ⟨htoken, hcurrent, hfresh, hthere⟩ := firstTables_holds
  have hrun := Run.next (Run.next (.start hstart) (Step.download hfirst))
    (Step.wait (n := 1) (Nat.zero_le 1))
  have hsecond := @leads_download true
    ((World.caughtUp ⟨0, Tables.empty, fun _ => []⟩ false).at' 1) _ rfl
    (Prod.ext htoken rfl) hcurrent (fun x hx he => ?_) downloads_commit.2
  · refine ⟨_, _, _, hrun, htoken, hsecond, ?_⟩
    obtain ⟨c, hc, hc'⟩ := Table.any_iff.1 hthere
    simp only [Bool.and_eq_true, decide_eq_true_iff, Bool.not_eq_true'] at hc'
    obtain ⟨⟨haccount, hurl⟩, hpresent⟩ := hc'
    have hstill : changingBook.Still 1 1 cardHref := fun i hi hi' => by
      rw [Nat.le_antisymm hi' hi]
    have hmirror := (mirror_faithful (fun _ => changingBook_strong) hrun hsecond).1 c hc haccount
      hpresent cardHref hstill
    rw [hurl] at hmirror
    rw [hmirror]
    show (if cardHref = cardHref then some (card (0 < 1)) else none) = _
    rw [if_pos rfl]
    rfl
  · have hany : (firstTables.contacts.any fun x => x.syncRecordID = [1]) = true :=
      Table.any_iff.2 ⟨x, hx, decide_eq_true he⟩
    rw [hfresh] at hany
    cases hany

end ContactMirror
