import RetroCloudSync.CalendarStore.Mirrors
import Mathlib.Data.Finset.Card

/-!
# Opening the store only repairs

`RCReparseCachedResources` over any contents. `Repair`: a row is as it was, with its rows in the
projection tables, or it is one that was available and did not parse, and now has the projection of
its body; nothing else of it has changed but its UID, the errors and the export status. `Repaired`
says so of a whole opening. One retry repairs or is undone (`wp_retry`), and repairs follow each
other (`Repaired.trans`). Each round takes a larger id, so that there are no more rounds than rows
(`reparse_ends`).
-/

set_option autoImplicit false

namespace CalendarStore

open Library Library.Tx Journal

variable {reader : Reader} {account : Int} {t t₁ t' : Tables} {r r' : ResourceRow}

/-! ## The rows of one body -/

/-- The rows of an accepted body are those of the resource, and the rows of others stay. -/
structure Projects (resource : Int) (parsed : Parsed) (t t' : Tables) : Prop where
  closed : t'.Closed
  own : match parsed with
    | .ok (root, _) => Decomposes resource root (t'.projection resource)
    | .error _ => t'.projection resource = t.projection resource
  others : ∀ id, id ≠ resource → t'.projection id = t.projection id

theorem replaceRows_projects {c : Conn Tables} {resource : Int} {parsed : Parsed}
    (hc : c.now.Closed) :
    wp (replaceRows resource parsed)
      (fun _ c' => c'.undo = c.undo ∧ c.now.Around c'.now ∧ Projects resource parsed c.now c'.now)
      (fun _ c' => c'.undo = c.undo) c := by
  cases parsed with
  | error e => exact wp_pure ⟨rfl, rfl, hc, rfl, fun _ _ => rfl⟩
  | ok accepted =>
    obtain ⟨root, uid⟩ := accepted
    refine wp_bind (wp_change (wp_mono (storeComponent_stores resource 0 0 root _)
      (fun _ c₁ h => ?_) fun _ _ h => h) fun _ => rfl)
    obtain ⟨hu, p, hp, ha⟩ := h
    have hp : root.emit resource none 0 _ = some p := hp
    have ho : Owned resource (fun _ => False) (fun _ => False) p := emit_owned root hp
    have hd := Tables.deleted_closed (p := fun r => r = resource) hc
    refine ⟨hu, ?_, ?_, ?_, fun id hid => ?_⟩
    · have hf := ha.frame
      unfold Tables.Around
      rw [hf]
      rfl
    · have hclosed := ha.closed hd ho
      exact ⟨hclosed.properties, hclosed.parameters, hclosed.events⟩
    · show Decomposes resource root (c₁.now.projection resource)
      have hown := ha.projection_added hd ho (Tables.deleted_none hc (decide_eq_true rfl))
      exact ⟨_, hown ▸ hp⟩
    · have hother := ha.projection_other ho hid
      exact hother.trans (Tables.deleted_projection hc (decide_eq_false hid))

/-! ## Repairs -/

/-- A row whose body parses now. -/
def ResourceRow.repaired (uid : Bytes) (r : ResourceRow) : ResourceRow :=
  { r with uid := some uid, parseError := none, exportError := none, exportStatus := .pending }

/-- What becomes of a row, with its rows in the projection tables. -/
inductive Repair (reader : Reader) (account : Int) (t t' : Tables) (r : ResourceRow) :
    ResourceRow → Prop
  | kept (same : t'.projection r.id = t.projection r.id) : Repair reader account t t' r r
  | parsed {root : Component} {uid : Bytes} (available : t.available account r = true)
      (failed : r.parseError.isSome = true)
      (accepted : reader.accept (.data r.rawICal) = .ok (root, uid))
      (projects : Decomposes r.id root (t'.projection r.id)) :
      Repair reader account t t' r (r.repaired uid)

/-- An opening has repaired some rows and changed nothing else. -/
structure Repaired (reader : Reader) (account : Int) (t t' : Tables) : Prop where
  frame : t' = { t with resources := t'.resources, components := t'.components
                        properties := t'.properties, parameters := t'.parameters
                        events := t'.events, history := t'.history }
  each : ∀ r ∈ t.resources, ∃ r' ∈ t'.resources, Repair reader account t t' r r'
  only : ∀ r' ∈ t'.resources, ∃ r ∈ t.resources, Repair reader account t t' r r'
  elsewhere : ∀ id, (∀ r ∈ t.resources, r.id ≠ id) → t'.projection id = t.projection id

theorem Repair.id (h : Repair reader account t t' r r') : r'.id = r.id := by
  cases h with
  | kept => rfl
  | parsed => rfl

theorem Repaired.refl (reader : Reader) (account : Int) (t : Tables) :
    Repaired reader account t t :=
  ⟨rfl, fun r hr => ⟨r, hr, .kept rfl⟩, fun r hr => ⟨r, hr, .kept rfl⟩, fun _ _ => rfl⟩

/-- The ids stay. -/
theorem Repaired.ids (h : Repaired reader account t t') {id : Int} :
    (∃ r' ∈ t'.resources, r'.id = id) ↔ ∃ r ∈ t.resources, r.id = id := by
  constructor
  · intro hr
    obtain ⟨r', hr', rfl⟩ := hr
    obtain ⟨r, hr, hrepair⟩ := h.only r' hr'
    exact ⟨r, hr, hrepair.id.symm⟩
  · intro hr
    obtain ⟨r, hr, rfl⟩ := hr
    obtain ⟨r', hr', hrepair⟩ := h.each r hr
    exact ⟨r', hr', hrepair.id⟩

theorem Repaired.available (h : Repaired reader account t t') (r : ResourceRow) :
    t'.available account r = t.available account r := by
  rw [h.frame]
  rfl

/-- A row that was repaired is not repaired again. -/
theorem Repair.trans {r'' : ResourceRow} (h : Repaired reader account t t₁)
    (h₁ : Repair reader account t t₁ r r') (h₂ : Repair reader account t₁ t' r' r'') :
    Repair reader account t t' r r'' := by
  cases h₁ with
  | kept same =>
    cases h₂ with
    | kept same' => exact .kept (same'.trans same)
    | parsed available failed accepted projects =>
      exact .parsed (h.available r ▸ available) failed accepted projects
  | parsed available failed accepted projects =>
    cases h₂ with
    | kept same' =>
      refine .parsed available failed accepted ?_
      have same' : t'.projection r.id = t₁.projection r.id := same'
      rw [same']
      exact projects
    | parsed _ failed' => cases failed'

theorem Repaired.trans (h : Repaired reader account t t₁) (h' : Repaired reader account t₁ t') :
    Repaired reader account t t' where
  frame := by
    rw [h'.frame, h.frame]
  each r hr := by
    obtain ⟨r₁, hr₁, hrepair⟩ := h.each r hr
    obtain ⟨r', hr', hrepair'⟩ := h'.each r₁ hr₁
    exact ⟨r', hr', hrepair.trans h hrepair'⟩
  only r' hr' := by
    obtain ⟨r₁, hr₁, hrepair'⟩ := h'.only r' hr'
    obtain ⟨r, hr, hrepair⟩ := h.only r₁ hr₁
    exact ⟨r, hr, hrepair.trans h hrepair'⟩
  elsewhere id hid := by
    refine (h'.elsewhere id fun r hr hi => ?_).trans (h.elsewhere id hid)
    obtain ⟨x, hx, hxi⟩ := h.ids.1 ⟨r, hr, hi⟩
    exact hid x hx hxi

/-! ## One retry -/

section
variable {c : Conn Tables} {s : Store} {row : ResourceRow}

/-- The row that is saved is the one that has its place: no other may have it. -/
theorem Writes.place_id {run calendar : Int} {href : Bytes} {etag : Option Bytes} {raw : Bytes}
    {parsed : Parsed} (h : Writes run calendar href etag raw parsed t t' r) (hrow : row ∈ t.resources)
    (hplace : row.place = (calendar, href)) : row.id = r.id := by
  by_contra hid
  have hkept : row ∈ t'.resources := (h.rows row).2 (.inr ⟨hrow, hid⟩)
  have hcalendar : r.calendar = calendar := by
    rcases h.based with ⟨-, hcalendar, -⟩ | ⟨rfl, -⟩
    · exact hcalendar
    · rfl
  have hsaved : (r.saved run href etag raw parsed.message parsed.uid).place = row.place := by
    rw [hplace, ← hcalendar]
    rfl
  have hsame := congrArg ResourceRow.id (Table.eq_of_uniq hkept ((h.rows _).2 (.inl rfl)) hsaved.symm)
  exact hid hsame

theorem Writes.retries {run : Int} {etag : Option Bytes} {raw : Bytes} {parsed : Parsed}
    (h : Writes run row.calendar row.href etag raw parsed t t' r) (hrow : row ∈ t.resources) :
    r = row := by
  rcases h.based with ⟨hr, -⟩ | ⟨rfl, hfresh⟩
  · exact Table.eq_of_key hr hrow (h.place_id hrow rfl).symm
  · exact absurd rfl (hfresh row hrow).2

/-- A download and the columns put back. -/
theorem retried_saved {run : Int} {uid : Bytes} (hmissing : row.remoteMissing = false)
    (hexcluded : row.scopeExcluded = false) :
    (row.saved run row.href row.etag row.rawICal none (some uid)).retried row.seenRun =
      row.repaired uid := by
  unfold ResourceRow.retried ResourceRow.saved ResourceRow.repaired
  rw [hmissing, hexcluded]
  rfl

/-- A body that was accepted, with the columns of its row put back. -/
theorem Projects.repaired {run : Int} {root : Component} {uid : Bytes} {t₂ : Tables}
    (hrow : row ∈ t.resources) (havailable : t.available account row = true)
    (hfailed : row.parseError.isSome = true)
    (haccepted : reader.accept (.data row.rawICal) = .ok (root, uid))
    (hwrites : Writes run row.calendar row.href row.etag row.rawICal (.ok (root, uid)) t t₁ row)
    (hframe : t₁ = { t with resources := t₁.resources, history := t₁.history })
    (haround : t₁.Around t₂)
    (hprojects : Projects row.id (.ok (root, uid)) t₁ t₂) :
    Repaired reader account t (t₂.updateResources (fun r => r.id = row.id)
      (ResourceRow.retried row.seenRun) (fun _ => rfl) fun _ => rfl) := by
  have hflags : row.remoteMissing = false ∧ row.scopeExcluded = false := by
    simp only [Tables.available, Bool.and_eq_true, Bool.not_eq_true'] at havailable
    exact ⟨havailable.1.2, havailable.2⟩
  unfold Tables.Around at haround
  have hresources : t₂.resources = t₁.resources := by rw [haround]
  have hsame (id : Int) : t₁.projection id = t.projection id := by
    rw [hframe]
    rfl
  have hother (id : Int) (hid : id ≠ row.id) : t₂.projection id = t.projection id :=
    (hprojects.others id hid).trans (hsame id)
  have hrows (x : ResourceRow) : x ∈ (t₂.updateResources (fun r => r.id = row.id)
      (ResourceRow.retried row.seenRun) (fun _ => rfl) fun _ => rfl).resources ↔
      x = row.repaired uid ∨ x ∈ t.resources ∧ x.id ≠ row.id := by
    refine Iff.trans Tables.mem_updateResources ?_
    rw [hresources]
    constructor
    · intro hx
      obtain ⟨y, hy, rfl⟩ := hx
      rcases (hwrites.rows y).1 hy with rfl | ⟨hy, hid⟩
      · exact .inl ((if_pos (decide_eq_true rfl)).trans (retried_saved hflags.1 hflags.2))
      · rw [if_neg (by simpa using hid)]
        exact .inr ⟨hy, hid⟩
    · intro hx
      rcases hx with rfl | ⟨hx, hid⟩
      · exact ⟨_, (hwrites.rows _).2 (.inl rfl),
          ((if_pos (decide_eq_true rfl)).trans (retried_saved hflags.1 hflags.2)).symm⟩
      · exact ⟨x, (hwrites.rows x).2 (.inr ⟨hx, hid⟩), (if_neg (by simpa using hid)).symm⟩
  have hrepaired : Repair reader account t (t₂.updateResources (fun r => r.id = row.id)
      (ResourceRow.retried row.seenRun) (fun _ => rfl) fun _ => rfl) row (row.repaired uid) :=
    .parsed havailable hfailed haccepted hprojects.own
  refine ⟨?_, fun r hr => ?_, fun r' hr' => ?_, fun id hid => ?_⟩
  · unfold Tables.updateResources
    rw [haround]
    dsimp only
    rw [hframe]
  · by_cases hid : r.id = row.id
    · obtain rfl := Table.eq_of_key hr hrow hid
      exact ⟨_, (hrows _).2 (.inl rfl), hrepaired⟩
    · exact ⟨r, (hrows r).2 (.inr ⟨hr, hid⟩), .kept (hother r.id hid)⟩
  · rcases (hrows r').1 hr' with rfl | ⟨hr, hid⟩
    · exact ⟨row, hrow, hrepaired⟩
    · exact ⟨r', hr, .kept (hother r'.id hid)⟩
  · exact hother id (Ne.symm (hid row hrow))

/-- **One retry** repairs its row, or leaves everything as it was. -/
theorem wp_retry {last : Int} (hc : c.now.Closed)
    (hnext : nextCached s.account last c.now = some row) :
    wp (reparseResource reader s row)
      (fun _ c' => c'.undo = c.undo ∧ c'.now.Closed ∧ Repaired reader s.account c.now c'.now)
      (fun _ _ => True) c := by
  obtain ⟨hrow, ⟨hlists, hfailed⟩, hmissing, hexcluded⟩ := nextCached_some hnext
  have havailable : c.now.available s.account row = true := by
    simp [Tables.available, hlists, hmissing, hexcluded]
  have hundone : ∀ e : RCError, ∀ c' : Conn Tables, wp (do
      Tx.inside sqlError "no such savepoint: reparse_calendar" Conn.restore
      throw e : StoreM Unit) (fun _ c' => c'.undo = c.undo ∧ c'.now.Closed ∧
        Repaired reader s.account c.now c'.now) (fun _ _ => True) c' :=
    fun e c' => wp_bind (wp_inside (fun _ => wp_throw trivial) fun _ => trivial)
  refine wp_bind (wp_control (wp_bind (wp_attempt ?_)) fun _ => trivial)
  refine wp_save (fun raw r c₁ hbody hu hframe hwrites => ?_) fun e c' _ => hundone e c'
  obtain rfl := hwrites.retries hrow
  cases hbody
  have hclosed : c₁.now.Closed := by
    rw [hframe]
    exact ⟨hc.properties, hc.parameters, hc.events⟩
  refine wp_mono (replaceRows_projects hclosed) (fun _ c₂ h => ?_) fun e c' _ => hundone e c'
  obtain ⟨hu₂, haround, hprojects⟩ := h
  have hopen : c₂.undo = c.now :: c.undo := hu₂.trans hu
  refine wp_bind (wp_findValue fun v hv => ?_)
  split
  · refine wp_inside (fun _ => ?_) fun _ => trivial
    rw [Conn.restore_eq hopen]
    exact ⟨rfl, hc, .refl ..⟩
  · rename_i hpos
    obtain ⟨x, hx, -⟩ := Option.map_eq_some_iff.1 (hv.resolve_left fun hv => hpos (by omega))
    obtain ⟨hmem, hfound⟩ := Table.find?_some hx
    simp only [Bool.and_eq_true, decide_eq_true_iff, Option.isNone_iff_eq_none] at hfound
    have hresources : c₂.now.resources = c₁.now.resources := by
      unfold Tables.Around at haround
      rw [haround]
    -- the row has no parse error, so its body was accepted
    have hmessage : Parsed.message (reader.accept (.data r.rawICal)) = none := by
      rcases (hwrites.rows x).1 (hresources ▸ hmem) with rfl | ⟨-, hid⟩
      · exact hfound.2
      · exact absurd hfound.1 hid
    cases haccept : reader.accept (.data r.rawICal) with
    | error e =>
      rw [haccept] at hmessage
      cases hmessage
    | ok accepted =>
      rw [haccept] at hwrites hprojects
      refine wp_bind (wp_change (wp_inside (fun _ => ⟨?_, ?_, ?_⟩) fun _ => trivial)
        fun _ => trivial)
      · show c₂.undo.tail = c.undo
        rw [hopen]
        rfl
      · exact ⟨hprojects.closed.properties, hprojects.closed.parameters, hprojects.closed.events⟩
      · exact hprojects.repaired hrow havailable hfailed haccept hwrites hframe haround

theorem wp_reparseRow {last : Int} (hc : c.now.Closed)
    (hnext : nextCached s.account last c.now = some row) :
    wp (reparseRow reader s row)
      (fun _ c' => c'.undo = c.undo ∧ c'.now.Closed ∧ Repaired reader s.account c.now c'.now)
      (fun _ _ => True) c := by
  unfold reparseRow
  split
  · exact wp_pure ⟨rfl, hc, .refl ..⟩
  · exact wp_retry hc hnext

end

/-! ## The loop -/

/-- The ids that are still to come. -/
def later (last : Int) (t : Tables) : Finset Int :=
  (t.resources.rows.map ResourceRow.id).toFinset.filter fun id => last < id

theorem mem_later {last id : Int} :
    id ∈ later last t ↔ (∃ r ∈ t.resources, r.id = id) ∧ last < id := by
  rw [later, Finset.mem_filter, List.mem_toFinset, List.mem_map]
  rfl

theorem later_card (last : Int) (t : Tables) : (later last t).card ≤ t.resources.rows.length := by
  refine (Finset.card_filter_le _ _).trans ?_
  simpa using List.toFinset_card_le (t.resources.rows.map ResourceRow.id)

/-- A round takes one of the ids that are to come, and repairs bring no new ones. -/
theorem Repaired.later_lt {last : Int} {row : ResourceRow} (h : Repaired reader account t t')
    (hnext : nextCached account last t = some row) :
    (later row.id t').card < (later last t).card := by
  have hrow := (nextCached_some hnext).1
  have hlast := nextCached_later hnext
  refine Finset.card_lt_card ((Finset.ssubset_iff_of_subset fun id hid => ?_).2 ⟨row.id, ?_, ?_⟩)
  · obtain ⟨hmem, hid⟩ := mem_later.1 hid
    exact mem_later.2 ⟨h.ids.1 hmem, by omega⟩
  · exact mem_later.2 ⟨⟨row, hrow, rfl⟩, hlast⟩
  · intro hid
    exact absurd (mem_later.1 hid).2 (by omega)

/-- The rounds of `reparseCachedResources`, with `after` where its fuel ends. -/
def reparseRounds (reader : Reader) (s : Store) (after : StoreM Unit) : Nat → Int → StoreM Unit
  | 0, _ => after
  | fuel + 1, last => do
    gate reparseFailed
    match ← select reparseFailed (nextCached s.account last) with
    | none => pure ()
    | some row => do
      reparseRow reader s row
      reparseRounds reader s after fuel row.id

section
variable {c : Conn Tables} {s : Store}

theorem reparseCachedResources_rounds (fuel : Nat) (last : Int) :
    reparseCachedResources reader s fuel last = reparseRounds reader s (pure ()) fuel last := by
  induction fuel generalizing last with
  | zero => rfl
  | succ fuel ih =>
    unfold reparseCachedResources reparseRounds
    have hrest := funext fun last => @ih last
    exact hrest ▸ rfl

/-- Two loops that agree after their first round agree. -/
theorem rounds_agree {after after' : StoreM Unit} {fuel fuel' : Nat} {last : Int}
    {fs : List (Option String)} (hc : c.now.Closed)
    (h : ∀ row c' fs', nextCached s.account last c.now = some row → c'.now.Closed →
      Repaired reader s.account c.now c'.now →
      reparseRounds reader s after fuel row.id ⟨c', fs'⟩ =
        reparseRounds reader s after' fuel' row.id ⟨c', fs'⟩) :
    reparseRounds reader s after (fuel + 1) last ⟨c, fs⟩ =
      reparseRounds reader s after' (fuel' + 1) last ⟨c, fs⟩ := by
  refine bind_agree (wp_gate (fun fs₁ => bind_agree (wp_select (fun fs₂ => ?_) fun _ => trivial))
    fun _ => trivial)
  cases hnext : nextCached s.account last c.now with
  | none => rfl
  | some row =>
    refine bind_agree (wp_mono (wp_reparseRow hc hnext) (fun _ c' hc' fs' => ?_) fun _ _ h => h)
    exact h row c' fs' hnext hc'.2.1 hc'.2.2

/-- **The loop ends**: with a round for each id that is to come and one more, what stands at the
end of the fuel is never reached. -/
theorem reparse_ends {after : StoreM Unit} {k n : Nat} {last : Int} {fs : List (Option String)}
    (hc : c.now.Closed) (hn : (later last c.now).card ≤ n) :
    reparseRounds reader s after (n + 1 + k) last ⟨c, fs⟩ =
      reparseRounds reader s (pure ()) (n + 1) last ⟨c, fs⟩ := by
  induction n generalizing last c fs with
  | zero =>
    rw [Nat.add_right_comm]
    refine rounds_agree hc fun row c' fs' hnext _ hrepaired => ?_
    have := hrepaired.later_lt hnext
    omega
  | succ n ih =>
    rw [Nat.add_right_comm]
    refine rounds_agree hc fun row c' fs' hnext hclosed hrepaired => ?_
    have := hrepaired.later_lt hnext
    have hle : (later row.id c'.now).card ≤ n := by omega
    exact ih hclosed hle

/-- **The loop repairs**: each round does, and repairs follow each other. -/
theorem wp_reparse {fuel : Nat} {last : Int} (hc : c.now.Closed) :
    wp (reparseCachedResources reader s fuel last)
      (fun _ c' => c'.undo = c.undo ∧ Repaired reader s.account c.now c'.now)
      (fun _ _ => True) c := by
  induction fuel generalizing last c with
  | zero => exact wp_pure ⟨rfl, .refl ..⟩
  | succ fuel ih =>
    refine wp_bind (wp_gate (wp_bind (wp_select ?_ fun _ => trivial)) fun _ => trivial)
    cases hnext : nextCached s.account last c.now with
    | none => exact wp_pure ⟨rfl, .refl ..⟩
    | some row =>
      refine wp_bind (wp_mono (wp_reparseRow hc hnext) (fun _ c₁ h => ?_) fun _ _ h => h)
      obtain ⟨hu, hclosed, hrepaired⟩ := h
      refine wp_mono (ih hclosed) (fun _ c₂ h => ?_) fun _ _ h => h
      exact ⟨h.1.trans hu, hrepaired.trans h.2⟩

/-- **Opening only repairs**, whatever the store holds and whatever the engine refuses: the loop
has ended before its fuel has, and where it succeeds the contents are repaired. -/
theorem reparse_repairs (hc : c.now.Closed) (fs : List (Option String)) :
    (∀ after k, reparseRounds reader s after (c.now.resources.rows.length + 1 + k) 0 ⟨c, fs⟩ =
      reparseCachedResources reader s (c.now.resources.rows.length + 1) 0 ⟨c, fs⟩) ∧
    ∀ s', reparseCachedResources reader s (c.now.resources.rows.length + 1) 0 ⟨c, fs⟩ = .ok () s' →
      s'.conn.undo = c.undo ∧ Repaired reader s.account c.now s'.conn.now := by
  constructor
  · intro after k
    rw [reparseCachedResources_rounds]
    exact reparse_ends hc (later_card 0 c.now)
  · intro s' hs
    exact wp_ok (wp_reparse hc) hs

end

/-! ### A lunch that parses now -/

/-- An older codec, which parses nothing. -/
def oldReader : Reader := { lunchReader with calendar := fun _ => false }

/-- A store with one download that did not parse. -/
def unparsedSite : Site :=
  (Site.init.open' oldReader (ascii "account") [] []).call 1 (.fetch oldReader none
    [(⟨⟨ascii "https://dav/home/", none, none, none⟩, false, none,
      [.downloaded (ascii "https://dav/home/lunch.ics") (ascii "\"v1\"") (.data lunchBody)]⟩,
      ascii "id")]) []

theorem unparsed_closed : unparsedSite.conn.now.Closed := by
  have h : ∃ past, Reached unparsedSite past :=
    ⟨_, .next (.next (.start rfl) (.opened _ oldReader (ascii "account") [] [] rfl))
      (.call _ 1 _ [] (by decide +kernel))⟩
  obtain ⟨past, h⟩ := h
  exact h.mirrors.now.closed

/-- The opening that brings a lunch into the projection tables. -/
def lunchOpening : EStateM.Result RCError (Session Tables) Unit :=
  reparseCachedResources lunchReader ⟨1, 0, false⟩
    (unparsedSite.conn.now.resources.rows.length + 1) 0 ⟨unparsedSite.conn, []⟩

theorem reparse_repairs_lunch :
    ((∃ r ∈ unparsedSite.conn.now.resources.rows, r.parseError.isSome = true ∧
        (unparsedSite.conn.now.projection r.id).events = []) ∧
      (match lunchOpening with
        | .ok _ s' => some (s'.conn.now.projection 1).events.length
        | .error _ _ => none) = some 1) ∧
    (∀ after k, reparseRounds lunchReader ⟨1, 0, false⟩ after
        (unparsedSite.conn.now.resources.rows.length + 1 + k) 0 ⟨unparsedSite.conn, []⟩ =
      lunchOpening) ∧
    ∀ s', lunchOpening = .ok () s' → s'.conn.undo = unparsedSite.conn.undo ∧
      Repaired lunchReader 1 unparsedSite.conn.now s'.conn.now := by
  refine ⟨⟨?_, ?_⟩, reparse_repairs unparsed_closed []⟩
  · decide +kernel
  · decide +kernel

end CalendarStore
