import RetroCloudSync.Journal.Replay
import RetroCloudSync.Resource.Correct

/-!
# Queuing edits of a resource

`RCResourceEnqueueEdits`. The edits are applied to a base and what comes out is queued: to the base
that the operation of the change id was queued on, when there is one, and to the published base
otherwise.

`Pinned`: an intent that is queued, with the base its operation was queued on. No later call moves
that base, so a repeated call patches the text it patched before.
-/

set_option autoImplicit false

namespace Resource

open Library Library.Tx Journal

variable {parsers : Parsers} {account n : Int} {change key : Option Bytes} {revision : Int}
  {format : Format} {edits : List Edit} {i : Intent} {base body : Bytes}
  {c c' : Conn Tables} {t : Tables}

/-- The columns that `RCResourceEnqueueEdits` selects. -/
structure Source where
  href : Bytes
  body : Option Bytes
  revision : Int
  key : Bytes

/-- The operation of the change id, or else the published base of the resource. A `NULL` argument
equals no column. -/
def source (account : Int) (change key : Option Bytes) (t : Tables) : Option Source :=
  match change.bind fun change => findChange account change t with
  | some o => some ⟨o.href, o.baseBody, o.localRevision, o.resourceKey⟩
  | none =>
    (key.bind fun key => findBase account key t).map fun b =>
      ⟨b.href, some b.body, b.localRevision, b.resourceKey⟩

def unpublished : RCError := ⟨1, "No matching published revision for local edits"⟩

/-- `RCResourceEnqueueEdits`. -/
def enqueueEdits (parsers : Parsers) (account : Int) (change key : Option Bytes) (revision : Int)
    (format : Format) (edits : List Edit) : JournalM Int := do
  gate fun m => ⟨1, "Could not read published write base: " ++ m⟩
  match ← select (fun _ => unpublished) (source account change key) with
  | some s =>
    if key = some s.key ∧ s.revision = revision then
      match patch parsers format (s.body.getD []) edits with
      | .ok patched =>
        enqueue account change key (some s.href) (some (ascii "update")) revision (.data patched)
      | .error e => throw e
    else throw unpublished
  | none => throw unpublished

/-! ## One call -/

theorem patch_nil : patch parsers format [] edits ≠ .ok body := by
  unfold patch
  rw [if_pos (.inl rfl)]
  nofun

/-- What a call that returned has done: it patched the body of its source, and queued the text. -/
structure Edited (parsers : Parsers) (account : Int) (change key : Option Bytes) (revision : Int)
    (format : Format) (edits : List Edit) (t : Tables) (n : Int) (t' : Tables) (s : Source)
    (base body : Bytes) (i : Intent) : Prop where
  source : source account change key t = some s
  held : s.body = some base
  patched : patch parsers format base edits = .ok body
  key_eq : key = some s.key
  intent : Intent.check change key (some s.href) (some (ascii "update")) revision (.data body) =
    .ok i
  queued : Enqueued account i t n t'

theorem enqueueEdits_spec :
    wp (enqueueEdits parsers account change key revision format edits)
      (fun n c' => c'.undo = c.undo ∧ ∃ s base body i,
        Edited parsers account change key revision format edits c.now n c'.now s base body i)
      (fun _ c' => c' = c) c := by
  refine wp_bind (wp_gate (wp_bind (wp_select ?_ fun _ => rfl)) fun _ => rfl)
  cases hs : source account change key c.now with
  | none => exact wp_throw rfl
  | some s =>
    dsimp only
    by_cases hk : key = some s.key ∧ s.revision = revision
    · rw [if_pos hk]
      cases hp : patch parsers format (s.body.getD []) edits with
      | error e => exact wp_throw rfl
      | ok body =>
        have hheld : ∃ base, s.body = some base := by
          cases hb : s.body with
          | none => rw [hb] at hp; exact absurd hp patch_nil
          | some base => exact ⟨base, rfl⟩
        obtain ⟨base, hbase⟩ := hheld
        rw [hbase] at hp
        refine wp_mono enqueue_spec ?_ fun _ _ h => h
        intro n c' h
        obtain ⟨hu, i, hi, he⟩ := h
        exact ⟨hu, s, base, body, i, hs, hbase, hp, hk.1, hi, he⟩
    · rw [if_neg hk]
      exact wp_throw rfl

/-! ## The base an operation was queued on -/

/-- In `t` the operation `n` of the account carries out `i`, and was queued on `base`. -/
def Pinned (account : Int) (i : Intent) (base : Bytes) (n : Int) (t : Tables) : Prop :=
  ∃ o ∈ t.operations, o.id = n ∧ o.account = account ∧ o.changeID = i.changeID ∧
    i.matches o = true ∧ o.baseBody = some base

theorem Pinned.queued (h : Pinned account i base n t) : Queued account i n t := by
  obtain ⟨o, ho, hid, ha, hc, hm, -⟩ := h
  exact ⟨o, ho, hid, ha, hc, hm⟩

theorem Pinned.move {account' : Int} (h : Pinned account i base n c.now) (hm : Move account' c t) :
    Pinned account i base n t := by
  obtain ⟨o, ho, hid, ha, hc, hi, hb⟩ := h
  obtain ⟨o', ho', hintent, -⟩ := hm.operation ho
  have hs := Operation.same_of_intent hintent
  exact ⟨o', ho', hs.id.trans hid, hs.account.trans ha, hs.changeID.trans hc,
    (Intent.matches_of_intent hintent).trans hi, hs.baseBody.trans hb⟩

theorem Pinned.later (h : Pinned account i base n c.now) (hl : Later c c') :
    Pinned account i base n c'.now :=
  hl.stable (fun _ _ _ hc hm => hc.move hm) h

theorem Pinned.source (h : Pinned account i base n t) :
    source account (some i.changeID) key t =
      some ⟨i.href, some base, i.localRevision, i.resourceKey⟩ := by
  obtain ⟨o, ho, -, ha, hc, hm, hb⟩ := h
  have hf : findChange account i.changeID t = some o := by
    have := findChange_eq ho
    rwa [ha, hc] at this
  simp only [Intent.matches, Bool.and_eq_true, decide_eq_true_iff] at hm
  obtain ⟨⟨⟨⟨hkey, hhref⟩, -⟩, hrev⟩, -⟩ := hm
  simp only [Resource.source, Option.bind_some, hf, hkey, hhref, hrev, hb]

theorem Edited.pinned {t' : Tables} {s : Source}
    (h : Edited parsers account change key revision format edits t n t' s base body i) :
    Pinned account i base n t' := by
  obtain ⟨hc, hk, -, -, -, -⟩ := Intent.check_eq h.intent
  have hs := h.source
  rw [hc, hk] at hs
  cases h.queued with
  | @replay o found same =>
    obtain ⟨ho, ha, hch⟩ := findChange_some found
    simp only [Resource.source, Option.bind_some, found, Option.some.injEq] at hs
    have hb : o.baseBody = some base := by
      rw [← h.held, ← hs]
    exact ⟨o, ho, rfl, ha, hch, same, hb⟩
  | fresh new _ _ added =>
    simp only [Resource.source, Option.bind_some, new] at hs
    obtain ⟨b, hb, hbs⟩ := Option.map_eq_some_iff.1 hs
    have hbody : b.body = base := by
      have := h.held
      rw [← hbs] at this
      exact Option.some.inj this
    refine ⟨_, added.mem_new, rfl, rfl, rfl, i.matches_row _ _ _, ?_⟩
    show (findBase account i.resourceKey t).map Base.body = some base
    rw [hb, ← hbody]
    rfl

/-- A change that is queued is patched on its own base, and a call that returns asked for the text
that is queued. -/
theorem Pinned.enqueueEdits (h : Pinned account i base n c.now)
    (hbody : i.desiredBody = some body) :
    wp (Resource.enqueueEdits parsers account (some i.changeID) key revision format edits)
      (fun m c' => m = n ∧ c' = c ∧ patch parsers format base edits = .ok body)
      (fun _ c' => c' = c) c := by
  refine wp_bind (wp_gate (wp_bind (wp_select ?_ fun _ => rfl)) fun _ => rfl)
  rw [h.source]
  dsimp only
  by_cases hk : key = some i.resourceKey ∧ i.localRevision = revision
  · rw [if_pos hk, Option.getD_some]
    cases hp : patch parsers format base edits with
    | error e => exact wp_throw rfl
    | ok body' =>
      refine wp_mono (h.queued.enqueue rfl) ?_ fun _ _ he => he
      intro m c' he
      obtain ⟨hc, hm, hi⟩ := he
      obtain ⟨-, -, -, -, -, hb⟩ := Intent.check_eq hi
      rw [hbody] at hb
      obtain rfl : body' = body := by simpa using hb
      exact ⟨hm, hc, rfl⟩
  · rw [if_neg hk]
    exact wp_throw rfl

theorem Pinned.replay (h : Pinned account i base n c.now)
    (hp : patch parsers format base edits = .ok body)
    (hi : Intent.check change key (some i.href) (some (ascii "update")) revision (.data body) =
      .ok i) :
    runs (Resource.enqueueEdits parsers account change key revision format edits) c n c := by
  obtain ⟨rfl, rfl, -, -, rfl, -⟩ := Intent.check_eq hi
  refine runs_bind runs_gate (runs_bind (runs_select _) ?_)
  rw [h.source]
  dsimp only
  rw [if_pos ⟨rfl, rfl⟩]
  simp only [Option.getD_some, hp]
  exact h.queued.replay hi

/-! ## The main theorem -/

/-- **A patch-based write is repeated on its own base.** After a call that returned `n`, the
operation `n` of the change id keeps the base it was queued on and the text that its edits make of
it: the published base of that moment, if the change was new. At every later time, whatever has
been published and whatever has become of the operation, the same call returns `n` when nothing is
refused, never anything else, and changes nothing; a call with the same change id whose edits do
not make that text of that base fails and changes nothing. -/
theorem enqueueEdits_replay {faults : List (Option String)} {s : Session Tables}
    (h : enqueueEdits parsers account change key revision format edits ⟨c, faults⟩ = .ok n s) :
    ∃ base body, patch parsers format base edits = .ok body ∧
      (change.bind (findChange account · c.now) = none →
        ∃ b, key.bind (findBase account · c.now) = some b ∧ b.body = base) ∧
      ∀ c', Later s.conn c' →
        (∃ o ∈ c'.now.operations, o.id = n ∧ o.account = account ∧ change = some o.changeID ∧
          o.baseBody = some base ∧ o.desiredBody = some body) ∧
        runs (enqueueEdits parsers account change key revision format edits) c' n c' ∧
        wp (enqueueEdits parsers account change key revision format edits)
          (fun m c'' => m = n ∧ c'' = c') (fun _ c'' => c'' = c') c' ∧
        ∀ key' revision' format' edits', patch parsers format' base edits' ≠ .ok body →
          wp (enqueueEdits parsers account change key' revision' format' edits')
            (fun _ _ => False) (fun _ c'' => c'' = c') c' := by
  obtain ⟨-, src, base, body, i, hedited⟩ := wp_ok enqueueEdits_spec h
  obtain ⟨hc, hk, hhref, hkind, hrev, hb⟩ := Intent.check_eq hedited.intent
  have hbody : i.desiredBody = some body := by
    cases hd : i.desiredBody with
    | none => rw [hd] at hb; cases hb
    | some d => rw [hd] at hb; cases hb; rfl
  refine ⟨base, body, hedited.patched, fun hnew => ?_, fun c' hl => ?_⟩
  · have hs := hedited.source
    simp only [source, hnew] at hs
    obtain ⟨b, hb, hbs⟩ := Option.map_eq_some_iff.1 hs
    refine ⟨b, hb, ?_⟩
    have := hedited.held
    rw [← hbs] at this
    exact Option.some.inj this
  · have hp : Pinned account i base n c'.now := hedited.pinned.later hl
    refine ⟨?_, ?_, ?_, ?_⟩
    · obtain ⟨o, ho, hid, ha, hch, hm, hob⟩ := hp
      refine ⟨o, ho, hid, ha, hc.trans (congrArg some hch.symm), hob, ?_⟩
      simp only [Intent.matches, Bool.and_eq_true, decide_eq_true_iff] at hm
      have hd : o.desiredBody.getD [] = body := by rw [hm.2, hbody]; rfl
      have hne := i.bodied.2
      cases hod : o.desiredBody with
      | none =>
        rw [hod] at hd
        exact absurd (hbody.trans (congrArg some hd.symm)) hne
      | some d =>
        rw [hod] at hd
        exact congrArg some hd
    · have hi := hedited.intent
      rw [hhref] at hi
      exact hp.replay hedited.patched hi
    · rw [hc]
      exact wp_mono (hp.enqueueEdits hbody) (fun _ _ h => ⟨h.1, h.2.1⟩) fun _ _ h => h
    · intro key' revision' format' edits' hne
      rw [hc]
      exact wp_mono (hp.enqueueEdits hbody) (fun _ _ h => hne h.2.2) fun _ _ h => h

/-- A card is published, its telephone number changed. -/
def publishedCard : Conn Tables :=
  perform 7 [.setBase (some (ascii "k")) (some (ascii "https://dav/k")) (some (ascii "\"v1\""))
    (.data noteCard) 1] ⟨Tables.empty, []⟩

def enqueueNumber (edit : Edit) : JournalM Int :=
  enqueueEdits cardParsers 7 (some (ascii "c1")) (some (ascii "k")) 1 .vcard [edit]

/-- The change is sent and acknowledged, and a card without a number published. -/
def removingCalls : List Call :=
  [.beginAttempt 1 0, .recordResult 1 (some (ascii "applied")) 200 (some (ascii "\"v2\""))
      (.data changedCard), .acknowledge 1,
    .setBase (some (ascii "k")) (some (ascii "https://dav/k")) (some (ascii "\"v2\""))
      (.data severedCard) 2]

/-- The number is changed again, which the published card would not allow; its removal, under the
same change id, is rejected. -/
theorem enqueueEdits_replay_card :
    ∃ s, enqueueNumber changeTel ⟨publishedCard, []⟩ = .ok 1 s ∧
      runs (enqueueNumber changeTel) (perform 7 removingCalls s.conn) 1
        (perform 7 removingCalls s.conn) ∧
      wp (enqueueNumber removeTel) (fun _ _ => False)
        (fun _ c => c = perform 7 removingCalls s.conn) (perform 7 removingCalls s.conn) := by
  have hok : (match enqueueNumber changeTel ⟨publishedCard, []⟩ with
      | .ok n _ => some n
      | .error _ _ => none) = some 1 := by decide +kernel
  cases hr : enqueueNumber changeTel ⟨publishedCard, []⟩ with
  | error e s => rw [hr] at hok; cases hok
  | ok n s =>
    rw [hr] at hok
    obtain rfl := Option.some.inj hok
    obtain ⟨base, body, hpatch, hnew, hall⟩ := enqueueEdits_replay hr
    obtain ⟨b, hb, hbase⟩ := hnew (by decide +kernel)
    have hnote : base = noteCard := by
      rw [← hbase]
      have hbody : ((some (ascii "k")).bind fun k => findBase 7 k publishedCard.now).map Base.body
          = some noteCard := by decide +kernel
      rw [hb] at hbody
      exact Option.some.inj hbody
    subst hnote
    have hl : Later s.conn (perform 7 removingCalls s.conn) :=
      ⟨_, .tail (.tail (.tail (.tail .refl (.call _ 7 (removingCalls.get ⟨0, by decide⟩) []))
        (.call _ 7 (removingCalls.get ⟨1, by decide⟩) []))
        (.call _ 7 (removingCalls.get ⟨2, by decide⟩) []))
        (.call _ 7 (removingCalls.get ⟨3, by decide⟩) []), .inl rfl⟩
    obtain ⟨-, hruns, -, hother⟩ := hall _ hl
    refine ⟨s, rfl, hruns, hother _ _ _ _ ?_⟩
    have hchanged : patch cardParsers .vcard noteCard [changeTel] = .ok changedCard := by
      decide +kernel
    have hsevered : patch cardParsers .vcard noteCard [removeTel] = .ok severedCard := by
      decide +kernel
    rw [hsevered, ← hpatch, hchanged]
    decide

end Resource
