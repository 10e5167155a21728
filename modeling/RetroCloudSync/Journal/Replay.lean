import RetroCloudSync.Journal.Lineage

/-!
# Repeating an Enqueue

`Queued account i n t`: the operation `n` of the account carries out the intent `i`, under its
change id. An `Enqueue` that went through leaves its intent queued; every later call keeps it so,
whatever becomes of the operation, of its base and of the other writes of its resource. From then
on the change id answers that one intent with `n`, and no other.
-/

set_option autoImplicit false

namespace Journal

open Library Library.Tx

variable {account n : Int} {i i' : Intent} {c c' : Conn Tables} {t : Tables}

/-- The arguments an intent was read from. -/
theorem Intent.check_eq {change key href kind : Option Bytes} {revision : Int} {body : Buf}
    (h : Intent.check change key href kind revision body = .ok i) :
    change = some i.changeID ∧ key = some i.resourceKey ∧ href = some i.href ∧
      kind = some i.kind.name ∧ revision = i.localRevision ∧
      body = i.desiredBody.elim (.null 0) .data := by
  obtain ⟨hkey, hkind⟩ := Intent.check_ok h
  unfold Intent.check at h
  split at h
  · rename_i k hk
    split at h
    · split at h
      · rename_i desired hb
        by_cases hr : if k = .create then revision = 0 else 0 < revision
        · rw [dif_pos hr] at h
          cases h
          exact ⟨rfl, hkey, rfl, hkind, rfl, Kind.desired_eq hb⟩
        · rw [dif_neg hr] at h
          cases h
      · cases h
    · cases h
  · cases h

/-- Two intents under one change id that match the same row are the same intent. -/
theorem Intent.eq_of_matches {o : Operation} (hc : i.changeID = i'.changeID)
    (h : i.matches o = true) (h' : i'.matches o = true) : i = i' := by
  simp only [Intent.matches, Bool.and_eq_true, decide_eq_true_iff] at h h'
  obtain ⟨⟨⟨⟨hk, hh⟩, hd⟩, hr⟩, hb⟩ := h
  obtain ⟨⟨⟨⟨hk', hh'⟩, hd'⟩, hr'⟩, hb'⟩ := h'
  have hkind : i.kind = i'.kind := hd.symm.trans hd'
  -- a delete has no body, any other intent a non-empty one
  have hbody : i.desiredBody = i'.desiredBody := by
    have hg := hb.symm.trans hb'
    have h1 := i.bodied
    have h2 := i'.bodied
    cases hx : i.desiredBody with
    | none => rw [h2.1.2 (hkind ▸ h1.1.1 hx)]
    | some b =>
      cases hy : i'.desiredBody with
      | none => rw [h1.1.2 (hkind ▸ h2.1.1 hy)] at hx; cases hx
      | some b' =>
        rw [hx, hy] at hg
        exact congrArg some hg
  obtain ⟨ch, key, href, kind, rev, body, _, _, _, _⟩ := i
  obtain ⟨ch', key', href', kind', rev', body', _, _, _, _⟩ := i'
  simp only at hc hk hk' hh hh' hkind hr hr' hbody
  obtain rfl := hc
  obtain rfl := hk.symm.trans hk'
  obtain rfl := hh.symm.trans hh'
  obtain rfl := hr.symm.trans hr'
  obtain rfl := hkind
  obtain rfl := hbody
  rfl

theorem Intent.matches_row (i : Intent) (account id : Int) (base : Option Base) :
    i.matches (i.row account id base) = true := by
  simp [Intent.matches, Intent.row]

/-- Whether an intent matches depends on the intent of the row alone. -/
theorem Intent.matches_of_intent {o o' : Operation} (hi : o'.intent = o.intent) :
    i.matches o' = i.matches o := by
  have hs := Operation.same_of_intent hi
  simp only [Intent.matches, hs.resourceKey, hs.href, hs.kind, hs.localRevision, hs.desiredBody]

/-! ## Queued intents -/

/-- In `t` the operation `n` of the account carries out `i`. -/
def Queued (account : Int) (i : Intent) (n : Int) (t : Tables) : Prop :=
  ∃ o ∈ t.operations, o.id = n ∧ o.account = account ∧ o.changeID = i.changeID ∧
    i.matches o = true

theorem findChange_some {change : Bytes} {o : Operation} (h : findChange account change t = some o) :
    o ∈ t.operations ∧ o.account = account ∧ o.changeID = change := by
  obtain ⟨hm, hp⟩ := Table.find?_some h
  simp only [Bool.and_eq_true, decide_eq_true_iff] at hp
  exact ⟨hm, hp.1, hp.2⟩

/-- A change id names one operation of its account. -/
theorem findChange_eq {o : Operation} (hm : o ∈ t.operations) :
    findChange o.account o.changeID t = some o := by
  cases h : findChange o.account o.changeID t with
  | none => simpa using Table.find?_none h hm
  | some o' =>
    obtain ⟨hm', ha, hc⟩ := findChange_some h
    exact congrArg some (Table.eq_of_uniq hm' hm (Prod.ext ha hc))

/-- An `Enqueue` that went through leaves its intent queued. -/
theorem Enqueued.queued {t' : Tables} (h : Enqueued account i t n t') :
    Queued account i n t' := by
  cases h with
  | replay found same =>
    obtain ⟨hm, ha, hc⟩ := findChange_some found
    exact ⟨_, hm, rfl, ha, hc, same⟩
  | fresh _ _ _ added => exact ⟨_, added.mem_new, rfl, rfl, rfl, i.matches_row _ _ _⟩

/-- Whatever is called later, on whatever account. -/
theorem Queued.move {account' : Int} (hq : Queued account i n c.now) (h : Move account' c t) :
    Queued account i n t := by
  obtain ⟨o, ho, hid, ha, hc, hm⟩ := hq
  obtain ⟨o', ho', hi, -⟩ := h.operation ho
  have hs := Operation.same_of_intent hi
  exact ⟨o', ho', hs.id.trans hid, hs.account.trans ha, hs.changeID.trans hc,
    (Intent.matches_of_intent hi).trans hm⟩

theorem Queued.later (hq : Queued account i n c.now) (h : Later c c') :
    Queued account i n c'.now :=
  h.stable (fun _ _ _ hc hmove => hc.move hmove) hq

/-- Once an intent is queued, `Enqueue` under its change id changes nothing, and answers that intent
only. -/
theorem Queued.enqueue {change key href kind : Option Bytes} {revision : Int} {body : Buf}
    (hq : Queued account i n c.now) (hc : change = some i.changeID) :
    wp (enqueue account change key href kind revision body)
      (fun m c' => c' = c ∧ m = n ∧
        Intent.check change key href kind revision body = .ok i) (fun _ c' => c' = c) c := by
  refine wp_mono enqueue_spec ?_ fun _ _ h => h
  rintro m ⟨now', undo'⟩ ⟨hu, i', hi', he⟩
  obtain ⟨o, ho, hid, ha, hch, hm⟩ := hq
  have hcc : i.changeID = i'.changeID :=
    Option.some.inj (hc.symm.trans (Intent.check_eq hi').1)
  have hf : findChange account i'.changeID c.now = some o := by
    have := findChange_eq ho
    rwa [ha, hch, hcc] at this
  cases he with
  | replay found same =>
    obtain rfl := Option.some.inj (hf.symm.trans found)
    cases hu
    exact ⟨rfl, hid, hi'.trans (congrArg Except.ok (Intent.eq_of_matches hcc hm same).symm)⟩
  | fresh new => rw [hf] at new; cases new

/-- With nothing refused, repeating the call returns the same operation. -/
theorem Queued.replay {change key href kind : Option Bytes} {revision : Int} {body : Buf}
    (hq : Queued account i n c.now)
    (hi : Intent.check change key href kind revision body = .ok i) :
    runs (Journal.enqueue account change key href kind revision body) c n c := by
  obtain ⟨o, ho, hid, ha, hch, hm⟩ := hq
  have hf : findChange account i.changeID c.now = some o := by
    have := findChange_eq ho
    rwa [ha, hch] at this
  unfold Journal.enqueue
  rw [hi]
  show runs _ c n c.push.release
  refine runs_savepoint (runs_bind (runs_bind runs_gate (runs_select _)) ?_)
  rw [Conn.push_now, hf]
  dsimp only
  rw [if_pos hm, hid]
  exact runs_pure n

/-! ## The main theorem -/

/-- The journal before the edit is queued. -/
def published : Conn Tables :=
  perform 7 [.setBase (some (ascii "k")) (some (ascii "https://dav/k")) (some (ascii "\"v1\""))
    (.data (ascii "old")) 1] ⟨Tables.empty, []⟩

end Journal
