import RetroCloudSync.ContactMirror.Server

/-!
# The download of a collection

What the requests for one collection come to. `Midway`: inside a page the changes that are done have
been taken over. `Turning`: between two pages what is staged is what the holder of the last token
has (`wp_syncPages`). `Fetched`: at the end everything is there that has not changed meanwhile,
whether it came from a token, from none, or from an inventory (`wp_fetchFrom`).
-/

set_option autoImplicit false

namespace ContactMirror

open Library Library.Prog Library.Feed ContactStore
open Journal (Bytes Buf RCError ascii)

/-! ## One collection -/

/-- What the collection will have when it is committed. -/
def World.shelf (w : World) (account : Int) (index : Nat) (url : Bytes) (keep : Bool) : Shelf :=
  ((ContactMirror.shelf w.tables account url).start keep).replay (w.stage index)

/-- Since `w₀` the collection has been downloaded, to the token if there is one. -/
structure Fetched (server : Server) (account : Int) (w₀ : World) (index : Nat) (url : Bytes)
    (keep : Bool) (token : Option Bytes) (w : World) : Prop where
  genuine : Genuine (server url) (w.shelf account index url keep)
  exact : (server url).Exact w₀.time w.time (w.shelf account index url keep).copy
  token : ∀ v, token = some v → v ≠ [] ∧
    (server url).Upto w.time (some v) (w.shelf account index url keep).copy

/-- The download has come from `w` to `w'`. -/
structure Onward (w w' : World) : Prop where
  time : w.time ≤ w'.time
  tables : w'.tables = w.tables

/-- Each collection, from the one with this index on, has been downloaded. -/
def Gathered (server : Server) (account : Int) (w₀ w : World) :
    Nat → List (Dav.Collection × Bool × Option Bytes) → Prop
  | _, [] => True
  | index, (collection, keep, token) :: rest =>
    Fetched server account w₀ index collection.url keep token w ∧
      Gathered server account w₀ w (index + 1) rest

/-- What a download may ask: a commit is one of what has been downloaded since `s₀`. -/
def May (server : Server) (account : Int) (s₀ w : World) : Question → Prop
  | .commit l => Onward s₀ w ∧ ((l.map Prod.fst).map Dav.Collection.url).Nodup ∧
    Gathered server account s₀ w 0 l
  | _ => True

section
variable {resolve : Bytes → Bytes → Option Bytes} {server : Server} {reader : Reader}
  {account : Int} {α β : Type} {Q : α → World → Prop} {exc : Failure → World → Prop}
  {w w' w₁ : World} {index : Nat} {url : Bytes} {keep : Bool} {s₀ : World}

theorem wp_orFail {answer : Except RCError β} {f : β → FetchProg α}
    (hok : ∀ b, answer = .ok b → wp (Answers resolve server reader account) (May server account s₀)
      (f b) Q exc w) (herror : ∀ f, exc f w) :
    wp (Answers resolve server reader account) (May server account s₀) (orFail answer >>= f) Q exc
      w := by
  cases answer with
  | ok b => exact hok b rfl
  | error e => exact herror _

theorem wp_attempt {x : FetchProg α} {Q : Except RCError α → World → Prop}
    (h : wp (Answers resolve server reader account) (May server account s₀) x (fun a => Q (.ok a))
      (fun f w => exc f w ∧ ∀ e, Q (.error e) w) w) :
    wp (Answers resolve server reader account) (May server account s₀) (attempt x) Q exc w := by
  refine wp_rescue (wp_bind (wp_mono h (fun a w ha => ha) fun f w hf => ?_))
  cases f with
  | error e => exact hf.2 e
  | overflow o => exact hf.1

/-- The download has come from `w` to `w'`, and as yet staged only for the collection `index`. -/
structure Along (index : Nat) (w w' : World) : Prop where
  time : w.time ≤ w'.time
  tables : w'.tables = w.tables
  others : ∀ j, j ≠ index → w'.stage j = w.stage j

theorem Along.refl (index : Nat) (w : World) : Along index w w := ⟨Nat.le_refl _, rfl, fun _ _ => rfl⟩

theorem Along.trans {w'' : World} (h : Along index w w') (h' : Along index w' w'') :
    Along index w w'' :=
  ⟨Nat.le_trans h.time h'.time, h'.tables.trans h.tables,
    fun j hj => (h'.others j hj).trans (h.others j hj)⟩

theorem along_at {n : Nat} (hn : w.time ≤ n) : Along index w (w.at' n) := ⟨hn, rfl, fun _ _ => rfl⟩

theorem along_setStage {l : List Staged} : Along index w (w.setStage index l) :=
  ⟨Nat.le_refl _, rfl, fun _ hj => Function.update_of_ne hj _ _⟩

theorem setStage_self {l : List Staged} : (w.setStage index l).stage index = l :=
  Function.update_self ..

theorem shelf_setStage {x : Staged} :
    (w.setStage index (w.stage index ++ [x])).shelf account index url keep =
      (w.shelf account index url keep).put x := by
  unfold World.shelf
  rw [setStage_self, Shelf.replay_append]
  rfl

/-- Since `w₁` the entries `m` have been taken over. -/
structure Midway (server : Server) (account : Int) (index : Nat) (url : Bytes) (keep : Bool)
    (w₁ : World) (m : List (Bytes × Option Version)) (w : World) : Prop where
  along : Along index w₁ w
  genuine : Genuine (server url) (w.shelf account index url keep)
  taken : (server url).Taken w₁.time w.time m (w₁.shelf account index url keep).copy
    (w.shelf account index url keep).copy

theorem Midway.at' {m : List (Bytes × Option Version)} {n : Nat}
    (h : Midway server account index url keep w₁ m w) (hn : w.time ≤ n) :
    Midway server account index url keep w₁ m (w.at' n) :=
  ⟨h.along.trans (along_at hn), h.genuine, h.taken.later hn⟩

/-- One entry is staged. -/
theorem Midway.stage {m : List (Bytes × Option Version)} {e : Bytes × Option Version} {x : Staged}
    (h : Midway server account index url keep w₁ m w) (hhref : x.href = e.1)
    (hx : ∀ href etag body, x = .downloaded href etag body →
      ∃ i, (server url).holds i href = some (etag, body.column.getD []))
    (hthis : (x.onto (w.shelf account index url keep x.href)).bind Slot.shown = e.2 ∨
      ∃ i, w₁.time ≤ i ∧ i ≤ w.time ∧
        (x.onto (w.shelf account index url keep x.href)).bind Slot.shown =
          (server url).holds i e.1) :
    Midway server account index url keep w₁ (m ++ [e])
      (w.setStage index (w.stage index ++ [x])) where
  along := h.along.trans along_setStage
  genuine := by
    rw [shelf_setStage]
    exact genuine_put h.genuine hx
  taken := by
    rw [shelf_setStage]
    refine h.taken.append (fun k hk => copy_put_other (hhref ▸ hk)) ?_
    rw [← copy_put_self, hhref] at hthis
    exact hthis

theorem wp_stage {Q : Unit → World → Prop} {x : Staged} (hexc : ∀ f, exc f w)
    (h : Q () (w.setStage index (w.stage index ++ [x]))) :
    wp (Answers resolve server reader account) (May server account s₀) (stage index x) Q exc w := by
  refine wp_ask trivial fun answer w' hw => ?_
  change Except RCError Unit at answer
  cases answer with
  | ok u =>
    obtain rfl : w' = _ := hw
    exact h
  | error e =>
    obtain rfl : w' = w := hw
    exact hexc _

theorem wp_checkStopped {Q : Unit → World → Prop} (hexc : ∀ f, exc f w) (h : Q () w) :
    wp (Answers resolve server reader account) (May server account s₀) checkStopped Q exc w := by
  refine wp_ask trivial fun stop w' hw => ?_
  obtain rfl : w' = w := hw
  change Bool at stop
  cases stop with
  | true => exact hexc _
  | false => exact h

/-- One entry is taken over. -/
theorem wp_applyContactChange {m : List (Bytes × Option Version)} {e : Bytes × Option Version}
    (hF : Strong (server url)) (hS : Genuine (server url) (ContactMirror.shelf w₁.tables account url))
    (hexc : ∀ f w', Along index w₁ w' → exc f w')
    (he : ∀ v, e.2 = some v → ∃ i, (server url).holds i e.1 = some v)
    (h : Midway server account index url keep w₁ m w) :
    wp (Answers resolve server reader account) (May server account s₀)
      (applyContactChange index url (change e))
      (fun _ => Midway server account index url keep w₁ (m ++ [e])) exc w := by
  obtain ⟨href, v⟩ := e
  have hstop : ∀ f, exc f w := fun f => hexc f w h.along
  refine wp_bind (wp_checkStopped hstop ?_)
  cases v with
  | none =>
    refine wp_stage hstop (h.stage rfl (fun _ _ _ hx => by cases hx) (.inl ?_))
    show ((w.shelf account index url keep href).map _).bind _ = none
    cases w.shelf account index url keep href <;> rfl
  | some v =>
    obtain ⟨etag, body⟩ := v
    obtain ⟨j, hj⟩ := he _ rfl
    refine wp_ask trivial fun answer w' hw => ?_
    obtain ⟨rfl, hcurrent⟩ : w' = w ∧ _ := hw
    change Except RCError Bool at answer
    refine wp_orFail (fun current hc => ?_) hstop
    have hcurrent := hcurrent current hc
    refine wp_ask trivial fun answer w' hw => ?_
    obtain ⟨rfl, hstaged⟩ : w' = _ ∧ _ := hw
    change Except RCError Bool at answer
    refine wp_orFail (fun staged hs => ?_) hstop
    have hstaged := hstaged staged hs
    split
    · rename_i hseen
      simp only [Bool.and_eq_true, Bool.not_eq_true'] at hseen
      rw [hseen.1] at hcurrent
      rw [hseen.2] at hstaged
      -- nothing is staged for it, so the mirror's version is what will be there
      obtain ⟨x, hx, hetag⟩ : ∃ x, ContactMirror.shelf w'.tables account url href = some x ∧
          x.etag = some etag := by
        change true = (ContactMirror.shelf w'.tables account url href).any _ at hcurrent
        cases hx : ContactMirror.shelf w'.tables account url href with
        | none => rw [hx] at hcurrent; cases hcurrent
        | some x => exact ⟨x, rfl, by simpa [hx] using hcurrent⟩
      have hunstaged : ∀ y ∈ w'.stage index, y.href ≠ href := by
        intro y hy hhref
        have hany : (w'.stage index).any (fun x => x.href = href) = true :=
          List.any_eq_true.2 ⟨y, hy, decide_eq_true hhref⟩
        exact absurd (hstaged.trans hany) Bool.false_ne_true
      have hthere : w'.shelf account index url keep href =
          some { x with present := keep && x.present } := by
        unfold World.shelf
        rw [Shelf.replay_other hunstaged]
        unfold Shelf.start
        rw [hx]
        rfl
      obtain ⟨etag', i, hetag', hi⟩ := hS href x (h.along.tables ▸ hx)
      obtain rfl : etag' = etag := Option.some.inj (hetag'.symm.trans hetag)
      refine wp_stage hstop (h.stage rfl (fun _ _ _ hx => by cases hx) (.inl ?_))
      show ((w'.shelf account index url keep href).map _).bind _ = some (etag', body)
      rw [hthere]
      simp [Slot.shown, hetag, hF hi hj]
    · refine wp_ask trivial fun answer w'' hw => ?_
      obtain ⟨n, hn, rfl, htrue⟩ : Served resolve server w' _ answer w'' := hw
      have hlater := h.at' hn
      have hstop : ∀ f, exc f (w'.at' n) := fun f => hexc f _ hlater.along
      change Except RCError Response at answer
      refine wp_orFail (fun r hr => ?_) hstop
      split
      · exact hstop _
      · rename_i hcode
        obtain ⟨etag', hetag', hholds⟩ := htrue r hr (by simpa using hcode)
        refine wp_stage hstop (hlater.stage rfl (fun href' etag'' body' hx => ?_) (.inr ?_))
        · cases hx
          refine ⟨n, ?_⟩
          rw [hetag']
          exact hholds
        · refine ⟨n, Nat.le_trans h.along.time hn, Nat.le_refl _, ?_⟩
          rw [hetag']
          exact hholds.symm

/-- All of them are. -/
theorem wp_applyContactChanges {m : List (Bytes × Option Version)} (hF : Strong (server url))
    (hS : Genuine (server url) (ContactMirror.shelf w₁.tables account url))
    (hexc : ∀ f w', Along index w₁ w' → exc f w') (hm : Held (server url) m)
    (hgenuine : Genuine (server url) (w₁.shelf account index url keep)) :
    wp (Answers resolve server reader account) (May server account s₀)
      (applyContactChanges index url (m.map change))
      (fun _ => Midway server account index url keep w₁ m) exc w₁ := by
  suffices h : ∀ done rest w, m = done ++ rest →
      Midway server account index url keep w₁ done w →
      wp (Answers resolve server reader account) (May server account s₀)
        ((rest.map change).forM (applyContactChange index url))
        (fun _ => Midway server account index url keep w₁ m) exc w from
    h [] m w₁ rfl ⟨Along.refl _ _, hgenuine, taken_nil⟩
  intro done rest
  induction rest generalizing done with
  | nil =>
    intro w hl h
    rw [List.append_nil] at hl
    subst hl
    exact wp_pure h
  | cons e rest ih =>
    intro w hl h
    have he : e ∈ m := by simp [hl]
    refine wp_bind (wp_mono (wp_applyContactChange hF hS hexc (hm e he) h) (fun _ w' h' => ?_)
      fun _ _ h' => h')
    exact ih (done ++ [e]) w' (by simp [hl]) h'

end


/-! ## The sync reports of a collection -/

/-- The answers that `RCDAVSyncCollection` gets here: each page that it hands on is taken over. -/
def Relays (resolve : Bytes → Bytes → Option Bytes) (server : Server) (account : Int) (index : Nat)
    (url : Bytes) (keep : Bool) (w : World) : (q : Dav.Question) → q.Answer → World → Prop
  | .cancelled, _, w' => w' = w
  | .report token, answer, w' => Served resolve server w (.report url token) answer w'
  | .page changes, (answer : Except RCError Unit), w' => Along index w w' ∧
    (answer = .ok () → ∀ m, Held (server url) m → changes = m.map change →
      Midway server account index url keep w m w')

/-- What is there is genuine, and a page is one that the server has meant. -/
def Proper (server : Server) (account : Int) (index : Nat) (url : Bytes) (keep : Bool)
    (w₀ w : World) (q : Dav.Question) : Prop :=
  Along index w₀ w ∧ Genuine (server url) (w.shelf account index url keep) ∧
    ∀ changes, q = .page changes → ∃ m, Held (server url) m ∧ changes = m.map change

/-- Before a turn of the loop. -/
structure Turning (server : Server) (account : Int) (index : Nat) (url : Bytes) (keep : Bool)
    (w₀ : World) (tokens : List Bytes) (w : World) : Prop where
  along : Along index w₀ w
  genuine : Genuine (server url) (w.shelf account index url keep)
  upto : (server url).Upto w.time (since (tokens.getLast?.getD []))
    (w.shelf account index url keep).copy

/-- What an outcome says about the run that it is the outcome of. -/
def Synced (server : Server) (account : Int) (index : Nat) (url : Bytes) (keep : Bool) (w₀ : World)
    (o : Dav.Synced) (w : World) : Prop :=
  Along index w₀ w ∧ (o.result = .complete →
    Fetched server account w₀ index url keep o.nextToken w)

section
variable {resolve : Bytes → Bytes → Option Bytes} {server : Server} {account : Int}
  {w w' w₀ : World} {index : Nat} {url : Bytes} {keep : Bool}

theorem synced_failed {e : RCError} (h : Along index w₀ w) :
    Synced server account index url keep w₀ ⟨.failed e, none⟩ w := ⟨h, nofun⟩

theorem Turning.at' {tokens : List Bytes} {n : Nat}
    (h : Turning server account index url keep w₀ tokens w) (hn : w.time ≤ n) :
    Turning server account index url keep w₀ tokens (w.at' n) :=
  ⟨h.along.trans (along_at hn), h.genuine, h.upto.later hn⟩

/-- After a page: it was the last one, or the loop goes on. -/
theorem wp_advance {next : List Bytes → Dav.SyncProg Dav.Synced} {tokens : List Bytes}
    {p : Dav.Accepted} {m : List (Bytes × Option Version)} {answer : Except RCError Unit}
    (hnext : ∀ tokens w, Turning server account index url keep w₀ tokens w →
      wp (Relays resolve server account index url keep) (Proper server account index url keep w₀)
        (next tokens) (Synced server account index url keep w₀) (fun _ w => Along index w₀ w) w)
    (h : Turning server account index url keep w₀ tokens w) (hnamed : p.token ≠ [])
    (ha : (server url).Answer w.time (since (tokens.getLast?.getD [])) p.token m)
    (hall : p.more = false → ∀ href, ¬ (server url).owes w.time p.token href)
    (hm : Held (server url) m) (hp : p.changes = m.map change)
    (hanswer : Relays resolve server account index url keep w (.page p.changes) answer w') :
    wp (Relays resolve server account index url keep) (Proper server account index url keep w₀)
      (Dav.advance next tokens p answer) (Synced server account index url keep w₀)
      (fun _ w => Along index w₀ w) w' := by
  obtain ⟨halong, htaken⟩ := hanswer
  have halong₀ := h.along.trans halong
  cases answer with
  | error e => exact wp_ret (synced_failed halong₀)
  | ok u =>
    have hmid := htaken rfl m hm hp
    have hupto := upto_taken h.upto ha halong.time hmid.taken
    refine wp_bind ?_
    unfold Dav.pushToken
    split
    · refine wp_ret ?_
      cases hmore : p.more with
      | true =>
        rw [if_pos rfl]
        refine hnext _ _ ⟨halong₀, hmid.genuine, ?_⟩
        simpa [since, hnamed] using hupto
      | false =>
        rw [if_neg Bool.false_ne_true]
        refine wp_pure ⟨halong₀, fun _ => ⟨hmid.genuine, ?_, fun v hv => ?_⟩⟩
        · have hexact := exact_taken h.upto ha halong.time (hall hmore) hmid.taken
          exact fun k hk => hexact k (hk.within h.along.time halong.time (Nat.le_refl _))
        · obtain rfl : p.token = v := by simpa using hv
          exact ⟨hnamed, hupto⟩
    · exact wp_raise halong₀

/-- The loop, from any of its turns. -/
theorem wp_syncPages {left : Nat} {tokens : List Bytes}
    (h : Turning server account index url keep w₀ tokens w) :
    wp (Relays resolve server account index url keep) (Proper server account index url keep w₀)
      (Dav.syncPages resolve true left tokens) (Synced server account index url keep w₀)
      (fun _ w => Along index w₀ w) w := by
  induction left generalizing tokens w with
  | zero => exact wp_ret (synced_failed h.along)
  | succ left ih =>
    refine wp_ask ⟨h.along, h.genuine, nofun⟩ fun stop w' hw => ?_
    obtain rfl : w' = w := hw
    change Bool at stop
    cases stop with
    | true => exact wp_ret (synced_failed h.along)
    | false =>
      rw [if_neg Bool.false_ne_true]
      dsimp only
      split
      · exact wp_ret (synced_failed h.along)
      · refine wp_ask ⟨h.along, h.genuine, nofun⟩ fun answer w'' hw => ?_
        obtain ⟨n, hn, rfl, htrue⟩ : Served resolve server w' (.report url _) answer w'' := hw
        change Except RCError Dav.Report at answer
        have hlater := h.at' hn
        cases answer with
        | error e => exact wp_ret (synced_failed hlater.along)
        | ok r =>
          dsimp only
          cases hr : Dav.readReport resolve tokens r with
          | failed e => exact wp_ret (synced_failed hlater.along)
          | fallback => exact wp_ret ⟨hlater.along, nofun⟩
          | page p =>
            obtain ⟨m, ha, hm, hall, hp⟩ := htrue r tokens p rfl hr
            refine wp_ask ⟨hlater.along, hlater.genuine, fun changes hq => ?_⟩
              fun answer w₂ hw => ?_
            · cases hq
              exact ⟨m, hm, hp⟩
            · exact wp_advance (fun _ _ h => ih h) hlater (Dav.readReport_page hr).named ha hall hm
                hp hw

end


/-! ## A collection -/

section
variable {resolve : Bytes → Bytes → Option Bytes} {server : Server} {reader : Reader}
  {account : Int} {exc : Failure → World → Prop} {w w' w₀ : World} {index : Nat} {url : Bytes}
  {keep : Bool} {s₀ : World}

theorem shelf_empty (h : w.stage index = []) : w.shelf account index url keep =
    (ContactMirror.shelf w.tables account url).start keep := by
  unfold World.shelf
  rw [h]
  rfl

/-- A question of `RCDAVSyncCollection` is answered as it relies on. -/
theorem wp_answerPage (hF : Strong (server url))
    (hS : Genuine (server url) (ContactMirror.shelf w₀.tables account url))
    (hexc : ∀ f w', Along index w₀ w' → exc f w') {q : Dav.Question}
    (h : Proper server account index url keep w₀ w q) :
    wp (Answers resolve server reader account) (May server account s₀) (answerPage index url q)
      (fun a w' => Relays resolve server account index url keep w q a w') exc w := by
  obtain ⟨halong, hgenuine, hpage⟩ := h
  cases q with
  | cancelled => exact wp_ask trivial fun _ _ hw => wp_ret hw
  | report token => exact wp_ask trivial fun _ _ hw => wp_ret hw
  | page changes =>
    obtain ⟨m, hm, rfl⟩ := hpage _ rfl
    have hS' : Genuine (server url) (ContactMirror.shelf w.tables account url) := by
      rw [halong.tables]
      exact hS
    have happly := @wp_applyContactChanges resolve server reader account
      (fun _ w' => Along index w w') w index url keep s₀ m hF hS' (fun _ _ ha => ha) hm hgenuine
    refine wp_attempt (wp_mono happly (fun _ w' h' => ?_) fun f w' ha => ?_)
    · refine ⟨h'.along, fun _ m' hm' hsame => ?_⟩
      rw [← change_inj hF hm hm' hsame]
      exact h'
    · exact ⟨hexc f w' (halong.trans ha), fun e => ⟨ha, nofun⟩⟩

/-- `RCDAVSyncCollection` for a collection. -/
theorem wp_syncChanges {base : Option Bytes} (hF : Strong (server url))
    (hS : Genuine (server url) (ContactMirror.shelf w₀.tables account url))
    (hexc : ∀ f w', Along index w₀ w' → exc f w')
    (h : Turning server account index url keep w₀ [base.getD []] w) :
    wp (Answers resolve server reader account) (May server account s₀)
      (syncChanges resolve index url base) (Synced server account index url keep w₀) exc w := by
  have hsync : wp (Relays resolve server account index url keep)
      (Proper server account index url keep w₀) (Dav.syncCollection resolve true base)
      (Synced server account index url keep w₀) (fun _ w => Along index w₀ w) w := by
    refine wp_bind ?_
    unfold Dav.pushToken
    rw [if_pos (by decide)]
    exact wp_ret (wp_syncPages h)
  exact wp_interpret hsync (fun w q hq => wp_answerPage hF hS hexc hq) fun o w ha => hexc _ _ ha

/-- The inventory of a collection. -/
theorem wp_listContacts (hF : Strong (server url))
    (hS : Genuine (server url) (ContactMirror.shelf w₀.tables account url))
    (hexc : ∀ f w', Along index w₀ w' → exc f w') (h : Along index w₀ w)
    (hempty : w.stage index = []) :
    wp (Answers resolve server reader account) (May server account s₀) (listContacts resolve index url)
      (fun _ w' => Along index w₀ w' ∧ Fetched server account w₀ index url false none w') exc w := by
  refine wp_ask trivial fun answer w' hw => ?_
  obtain ⟨n, hn, rfl, htrue⟩ : Served resolve server w (.propfind .inventory url) answer w' := hw
  have hlater : Along index w₀ (w.at' n) := h.trans (along_at hn)
  change Except RCError Dav.Report at answer
  refine wp_orFail (fun r hr => wp_orFail (fun l hl => ?_) fun f => hexc f _ hlater)
    fun f => hexc f _ hlater
  obtain ⟨m, hm, rfl⟩ := htrue r l hr hl
  have hheld : Held (server url) m := fun e he v hv => ⟨n, (hm.truthful e.1 e he rfl).symm.trans hv⟩
  have hS' : Genuine (server url) (ContactMirror.shelf (w.at' n).tables account url) := by
    rw [hlater.tables]
    exact hS
  have hshelf : (w.at' n).shelf account index url false =
      (ContactMirror.shelf (w.at' n).tables account url).start false := shelf_empty hempty
  have hgenuine : Genuine (server url) ((w.at' n).shelf account index url false) := by
    rw [hshelf]
    exact genuine_start hS'
  have happly := @wp_applyContactChanges resolve server reader account
    (fun _ w' => Along index (w.at' n) w') (w.at' n) index url false s₀ m hF hS'
    (fun _ _ ha => ha) hheld
    hgenuine
  refine wp_mono happly (fun _ w' h' => ?_) fun f w' ha => hexc f w' (hlater.trans ha)
  have htaken := h'.taken
  rw [hshelf, copy_start_false] at htaken
  refine ⟨hlater.trans h'.along, h'.genuine, fun k hk => ?_, nofun⟩
  exact exact_inventory hm h'.along.time htaken k
    (hk.within hlater.time h'.along.time (Nat.le_refl _))

/-- The attempts at a collection, each of which begins with nothing staged. -/
theorem wp_fetchFrom {bases : List (Option Bytes)} (hF : Strong (server url))
    (hS : Genuine (server url) (ContactMirror.shelf w₀.tables account url))
    (hexc : ∀ f w', Along index w₀ w' → exc f w')
    (hbases : ∀ v, some v ∈ bases → v ≠ [] ∧
      (server url).Upto w₀.time (some v) (ContactMirror.shelf w₀.tables account url).copy)
    (h : Along index w₀ w) (hempty : w.stage index = []) :
    wp (Answers resolve server reader account) (May server account s₀)
      (fetchFrom resolve index url bases)
      (fun r w' => Along index w₀ w' ∧ Fetched server account w₀ index url r.1 r.2 w') exc w := by
  induction bases generalizing w with
  | nil => exact wp_bind (wp_mono (wp_listContacts hF hS hexc h hempty) (fun _ _ h' => h')
      fun _ _ h' => h')
  | cons base rest ih =>
    have hshelf := @shelf_empty account w index url base.isSome hempty
    rw [h.tables] at hshelf
    have hturn : Turning server account index url base.isSome w₀ [base.getD []] w := by
      refine ⟨h, hshelf ▸ genuine_start hS, ?_⟩
      rw [hshelf]
      cases base with
      | none => exact copy_start_false _
      | some v =>
        obtain ⟨hnamed, hupto⟩ := hbases v List.mem_cons_self
        have hsince : since ([(some v).getD []].getLast?.getD []) = some v := by
          simp [since, hnamed]
        rw [hsince]
        show (server url).Upto w.time (some v) (Shelf.start _ true).copy
        rw [copy_start_true]
        exact hupto.later h.time
    refine wp_bind (wp_mono (wp_syncChanges hF hS hexc hturn) (fun o w' h' => ?_) fun _ _ h' => h')
    obtain ⟨halong, hcomplete⟩ := h'
    obtain ⟨result, next⟩ := o
    cases result with
    | failed e => exact hexc _ _ halong
    | complete => exact wp_ret ⟨halong, hcomplete rfl⟩
    | fallback =>
      refine wp_ask trivial fun answer w'' hw => ?_
      change Except RCError Unit at answer
      cases answer with
      | error e =>
        obtain rfl : w'' = w' := hw
        exact hexc _ _ halong
      | ok u =>
        obtain rfl : w'' = w'.setStage index [] := hw
        exact ih (fun v hv => hbases v (List.mem_cons_of_mem _ hv))
          (halong.trans along_setStage) setStage_self

end

end ContactMirror
