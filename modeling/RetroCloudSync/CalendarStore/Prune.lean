import RetroCloudSync.CalendarStore.Hollow

/-!
# Pruning is safe

`Prunes`: the rows of the account that are outside its scope and have no unresolved write are
emptied, with their rows in the projection tables and their write bases, and nothing else changes.
`pruneHistory` does that or nothing (`wp_prune`), though it may fail behind the commit; none of the
rows is left to prune then (`Prunes.settled`), and until a pass downloads one of them again it is
hollow, so that no test finds it current and no calendar that is kept makes it available
(`Hollows.retired`).
-/

set_option autoImplicit false

namespace CalendarStore

open Library Library.Tx Journal

variable {account : Int} {t t' : Tables} {s : Store}

/-! ## What a prune changes -/

/-- An operation of the account that is not closed speaks of the row, by its key or by its href. -/
theorem Tables.unresolvedWrite_iff {r : ResourceRow} :
    t.unresolvedWrite account r = true ↔ ∃ w ∈ t.journal.operations, w.account = account ∧
      (w.resourceKey = resourceKey r.id ∨ w.href = r.href) ∧
      w.state ≠ .acknowledged ∧ w.state ≠ .cancelled := by
  have hstate (s : OpState) : s.unresolved = true ↔ s ≠ .acknowledged ∧ s ≠ .cancelled := by
    cases s <;> decide
  simp only [Tables.unresolvedWrite, Table.any_iff, Bool.and_eq_true, Bool.or_eq_true,
    decide_eq_true_iff, hstate, and_assoc]

/-- The rows that a prune is about. -/
theorem Tables.prunable_iff {r : ResourceRow} :
    t.prunable account r = true ↔ t.owns account r.calendar = true ∧ r.scopeExcluded = true ∧
      r.exportStatus ≠ .outsideHistoryWindow ∧
      ∀ w ∈ t.journal.operations, w.account = account →
        w.resourceKey = resourceKey r.id ∨ w.href = r.href →
        w.state = .acknowledged ∨ w.state = .cancelled := by
  have hwrite : (!t.unresolvedWrite account r) = true ↔
      ∀ w ∈ t.journal.operations, w.account = account →
        w.resourceKey = resourceKey r.id ∨ w.href = r.href →
        w.state = .acknowledged ∨ w.state = .cancelled := by
    rw [Bool.not_eq_true', ← Bool.not_eq_true, Tables.unresolvedWrite_iff]
    constructor
    · intro h w hw ha hn
      by_contra hs
      exact h ⟨w, hw, ha, hn, not_or.1 hs⟩
    · rintro h ⟨w, hw, ha, hn, hs⟩
      exact not_or.2 hs (h w hw ha hn)
  rw [Tables.prunable, Bool.and_eq_true, Bool.and_eq_true, Bool.and_eq_true, hwrite,
    decide_eq_true_iff, and_assoc, and_assoc]

/-- The rows of the account that are prunable are emptied, and nothing else changes. -/
structure Prunes (account : Int) (t t' : Tables) : Prop where
  frame : t' = { t with resources := t'.resources, components := t'.components
                        properties := t'.properties, parameters := t'.parameters
                        events := t'.events, journal.bases := t'.journal.bases
                        history := t'.history }
  rows : ∀ r', r' ∈ t'.resources ↔
    ∃ r ∈ t.resources, r' = if t.prunable account r then r.pruned else r
  projection : ∀ r ∈ t.resources,
    t'.projection r.id = if t.prunable account r then .empty else t.projection r.id
  elsewhere : ∀ id, (∀ r ∈ t.resources, r.id ≠ id) → t'.projection id = t.projection id
  bases : ∀ b, b ∈ t'.journal.bases ↔ b ∈ t.journal.bases ∧
    ¬ ∃ r ∈ t.resources, t.prunable account r = true ∧ b.account = account ∧
      b.resourceKey = resourceKey r.id

theorem ResourceRow.pruned_id (r : ResourceRow) : r.pruned.id = r.id := rfl

theorem ResourceRow.pruned_place (r : ResourceRow) : r.pruned.place = r.place := rfl

/-- What the statements of `emptyRows` make of the contents. -/
def Tables.emptied (t : Tables) (account : Int) (ids : List Int) : Tables :=
  let t₁ := t.deleteComponents fun r => r ∈ ids
  let t₂ := { t₁ with journal.bases := t₁.journal.bases.delete fun b =>
    b.account = account && (ids.map resourceKey).contains b.resourceKey }
  let t₃ := t₂.updateResources (fun r => r.id ∈ ids) ResourceRow.pruned ResourceRow.pruned_id
    ResourceRow.pruned_place
  { t₃ with history := ids.map Entry.pruned ++ t₃.history }

theorem mem_pruneIds {id : Int} :
    id ∈ t.pruneIds account ↔ ∃ r ∈ t.resources, t.prunable account r = true ∧ r.id = id := by
  rw [Tables.pruneIds, List.mem_map]
  constructor
  · intro h
    obtain ⟨r, hr, hid⟩ := h
    exact ⟨r, (List.mem_filter.1 hr).1, (List.mem_filter.1 hr).2, hid⟩
  · intro h
    obtain ⟨r, hr, hp, hid⟩ := h
    exact ⟨r, List.mem_filter.2 ⟨hr, hp⟩, hid⟩

/-- The ids collected are those of the prunable rows. -/
theorem id_mem_pruneIds {r : ResourceRow} (hr : r ∈ t.resources) :
    r.id ∈ t.pruneIds account ↔ t.prunable account r = true := by
  rw [mem_pruneIds]
  constructor
  · intro h
    obtain ⟨x, hx, hp, hid⟩ := h
    rwa [← Table.eq_of_key hx hr hid]
  · exact fun hp => ⟨r, hr, hp, rfl⟩

/-- The projection of a resource after its statements. -/
theorem emptied_projection (hc : t.Closed) {ids : List Int} (id : Int) :
    (t.emptied account ids).projection id = if id ∈ ids then .empty else t.projection id := by
  by_cases hid : id ∈ ids
  · rw [if_pos hid]
    exact Tables.deleted_none (p := fun r => r ∈ ids) hc (decide_eq_true hid)
  · rw [if_neg hid]
    exact Tables.deleted_projection (p := fun r => r ∈ ids) hc (decide_eq_false hid)

theorem emptied_prunes (hc : t.Closed) :
    Prunes account t (t.emptied account (t.pruneIds account)) where
  frame := rfl
  rows r' := by
    refine Iff.trans (@Tables.mem_updateResources _ _ ResourceRow.pruned (fun _ => rfl)
      (fun _ => rfl) r') (exists_congr fun r => and_congr_right fun hr => ?_)
    have hr : r ∈ t.resources := hr
    have hid : r.id ∈ t.pruneIds account ↔ t.prunable account r = true := id_mem_pruneIds hr
    by_cases hp : t.prunable account r = true
    · rw [if_pos hp, if_pos (decide_eq_true (hid.2 hp))]
    · rw [if_neg hp, if_neg fun hd => hp (hid.1 (of_decide_eq_true hd))]
  projection r hr := by
    rw [emptied_projection hc]
    exact if_congr (id_mem_pruneIds hr) rfl rfl
  elsewhere id hid := by
    rw [emptied_projection hc]
    refine if_neg fun hd => ?_
    obtain ⟨r, hr, -, he⟩ := mem_pruneIds.1 hd
    exact hid r hr he
  bases b := by
    refine Iff.trans (Table.mem_delete b) (and_congr_right fun _ => ?_)
    rw [← Bool.not_eq_true, Bool.and_eq_true, decide_eq_true_iff, List.contains_iff_mem]
    refine not_congr ⟨fun h => ?_, fun h => ?_⟩
    · obtain ⟨id, hid, hkey⟩ := List.mem_map.1 h.2
      obtain ⟨r, hr, hp, rfl⟩ := mem_pruneIds.1 hid
      exact ⟨r, hr, hp, h.1, hkey.symm⟩
    · obtain ⟨r, hr, hp, haccount, hkey⟩ := h
      exact ⟨haccount, List.mem_map.2 ⟨r.id, mem_pruneIds.2 ⟨r, hr, hp, rfl⟩, hkey.symm⟩⟩

/-! ## The program -/

theorem wp_emptyRows_emptied {ids : List Int} {c : Conn Tables} :
    wp (emptyRows account ids)
      (fun _ c' => c'.now = c.now.emptied account ids ∧ c'.undo = c.undo)
      (fun _ c' => c'.undo = c.undo) c :=
  wp_bind (wp_change (wp_bind (wp_change (wp_bind (wp_change (wp_note ⟨rfl, rfl⟩)
    fun _ => rfl)) fun _ => rfl)) fun _ => rfl)

/-- **A prune empties the rows or changes nothing**, whatever the engine refuses. -/
theorem wp_prune {c : Conn Tables} :
    wp (pruneHistory s)
      (fun _ c' => c'.now = c.now.emptied s.account (c.now.pruneIds s.account) ∧ c'.undo = [])
      (fun _ c' => c'.now = c.now ∨
        c'.now = c.now.emptied s.account (c.now.pruneIds s.account) ∧ c'.undo = []) c := by
  refine wp_bind (wp_autocommit ?_)
  split
  · exact wp_throw (.inl rfl)
  · rename_i hidle
    have hu : c.undo = [] := by
      rw [not_or, Bool.not_eq_false] at hidle
      exact Conn.autocommit_iff.1 hidle.2
    refine wp_bind (wp_findValue fun published _ => ?_)
    split
    · exact wp_throw (.inl rfl)
    · have hall : c.All (· = c.now) := Conn.all_single rfl hu
      refine wp_bind (wp_mono (wp_transaction (Q := fun t =>
        t = c.now.emptied s.account (c.now.pruneIds s.account)) hall ?_)
        (fun _ _ h => wp_gate h fun _ => .inr h) fun _ _ h => .inl h.now)
      refine wp_bind (wp_gate (wp_bind (wp_gate ?_ fun _ => rfl)) fun _ => rfl)
      refine wp_bind (wp_select ?_ fun _ => rfl)
      refine wp_bind (wp_mono wp_emptyRows_emptied (fun _ c' h => ?_) fun _ _ h => h)
      exact wp_gate h fun _ => h.2

/-! ## A second prune -/

theorem deleteComponents_none {p : Int → Bool} (hp : ∀ id, p id = false) :
    t.deleteComponents p = t := by
  have hany {ρ κ υ : Type} {key : ρ → κ} {uniq : ρ → υ} (x : Table key uniq) :
      (x.any fun _ => false) = false := Table.any_false.2 fun _ _ => rfl
  unfold Tables.deleteComponents
  dsimp only
  rw [Table.delete_none, Table.delete_none, Table.delete_none, Table.delete_none]
  all_goals intro r _
  all_goals simp [hany, hp]

theorem emptied_nil : t.emptied account [] = t := by
  have hcomponents : t.deleteComponents (fun r => r ∈ ([] : List Int)) = t :=
    deleteComponents_none fun _ => rfl
  have hbases (t : Tables) : { t with journal.bases := t.journal.bases.delete fun b =>
      b.account = account && (([] : List Int).map resourceKey).contains b.resourceKey } = t := by
    rw [Table.delete_none fun b _ => by simp]
  have hresources (t : Tables) : t.updateResources (fun r => r.id ∈ ([] : List Int))
      ResourceRow.pruned (fun _ => rfl) (fun _ => rfl) = t := by
    unfold Tables.updateResources
    exact congrArg (fun resources => { t with resources := resources })
      (Table.update_none fun _ _ => rfl)
  exact (hresources _).trans ((hbases _).trans hcomponents)

/-- Nothing is left to prune. -/
theorem Prunes.settled (h : Prunes account t t') : t'.pruneIds account = [] := by
  have hsame (r : ResourceRow) : t'.prunable account r = t.prunable account r := by
    rw [h.frame]
    rfl
  rw [List.eq_nil_iff_forall_not_mem]
  intro id hid
  obtain ⟨r', hr', hp, -⟩ := mem_pruneIds.1 hid
  rw [hsame] at hp
  obtain ⟨r, hr, rfl⟩ := (h.rows r').1 hr'
  split at hp
  · simp [Tables.prunable, ResourceRow.pruned] at hp
  · contradiction

/-! ## Until it is downloaded again -/

/-- `RCDAVMirrorResourceCurrent` of a calendar resource. -/
def resourceCurrent (account : Int) (collection href etag : Bytes) (t : Tables) : Bool :=
  t.resources.any fun r => (t.calendars.any fun c =>
    c.id = r.calendar && c.account = account && c.url = collection) && r.href = href &&
      r.etag = some etag && 0 < r.rawICal.length

/-- The row with the identifier is there, no account makes it available, and neither test finds it
current, whatever entity tag is listed. -/
def Tables.Retired (t : Tables) (id : Int) : Prop :=
  ∃ r ∈ t.resources, r.id = id ∧ (∀ account, t.available account r = false) ∧
    (∀ account url etag, t.Named r.calendar account url →
      resourceCurrent account url r.href etag t = false) ∧
    ∀ (s : Store) (etag : Bytes) (undo : List Tables),
      wp (seen s r.calendar r.href etag) (fun current c => current = false ∧ c = ⟨t, undo⟩)
        (fun _ c => c = ⟨t, undo⟩) ⟨t, undo⟩

/-- The calendar of a URL is one. -/
theorem Tables.Named.unique {calendar calendar' : Int} {url : Bytes}
    (h : t.Named calendar account url) (h' : t.Named calendar' account url) :
    calendar = calendar' := by
  obtain ⟨c, hc, rfl, haccount, hurl⟩ := h
  obtain ⟨c', hc', rfl, haccount', hurl'⟩ := h'
  have hplace : c.place = c'.place := by
    rw [Calendar.place, Calendar.place, haccount, hurl, haccount', hurl']
  exact congrArg Calendar.id (Table.eq_of_uniq hc hc' hplace)

/-- A hollow row is found by nobody. -/
theorem Hollows.retired {gone : Int → Prop} {run : Option Int} {id : Int} (h : Hollows gone run t)
    (hid : gone id) : t.Retired id := by
  obtain ⟨r, hr, rfl⟩ := h.present id hid
  obtain ⟨hhollow, -⟩ := h.row r hr hid
  have hat (x : ResourceRow) (hx : x ∈ t.resources) (hcalendar : x.calendar = r.calendar)
      (hhref : x.href = r.href) : x.rawICal = [] := by
    have hplace : x.place = r.place := by
      rw [ResourceRow.place, ResourceRow.place, hcalendar, hhref]
    rw [Table.eq_of_uniq hx hr hplace]
    exact hhollow.empty
  refine ⟨r, hr, rfl, fun account => ?_, fun account url etag hn => ?_, fun s etag undo => ?_⟩
  · have hhidden := hhollow.hidden
    rw [ResourceRow.hidden, Bool.or_eq_true] at hhidden
    rcases hhidden with hm | hm <;> simp [Tables.available, hm]
  · refine Table.any_false.2 fun x hx => ?_
    by_contra hfound
    simp only [Bool.not_eq_false, Bool.and_eq_true, decide_eq_true_iff] at hfound
    obtain ⟨⟨⟨hcalendar, hhref⟩, -⟩, hlen⟩ := hfound
    obtain ⟨c, hc, hp⟩ := Table.any_iff.1 hcalendar
    simp only [Bool.and_eq_true, decide_eq_true_iff] at hp
    have hnamed : t.Named x.calendar account url := ⟨c, hc, hp.1.1, hp.1.2, hp.2⟩
    rw [hat x hx (hnamed.unique hn) hhref] at hlen
    cases hlen
  · have hnone : t.resources.count (ResourceRow.current r.calendar r.href etag) = 0 := by
      refine List.countP_eq_zero.2 fun x hx => ?_
      rw [ResourceRow.current]
      simp only [Bool.and_eq_true, decide_eq_true_iff, not_and]
      intro hp hlen
      rw [hat x hx hp.1.1 hp.1.2] at hlen
      cases hlen
    refine wp_bind (wp_findValue fun count hcount => ?_)
    rw [if_neg]
    · exact wp_pure ⟨rfl, rfl⟩
    · rw [hnone] at hcount
      rcases hcount with hcount | hcount
      · omega
      · have := Option.some.inj hcount
        omega

/-- A prune leaves the rows it empties hollow. -/
theorem Prunes.hollows (h : Prunes account t t') (ht : Hollows (fun _ => False) none t)
    {r : ResourceRow} (hr : r ∈ t.resources) (hp : t.prunable account r = true) :
    Hollows (· = r.id) none t' := by
  have hcalendars : t'.calendars = t.calendars := by rw [h.frame]
  have hruns : t'.runs = t.runs := by rw [h.frame]
  have hprunable := hp
  simp only [Tables.prunable, Bool.and_eq_true] at hprunable
  refine ⟨fun x hx hid => ?_, fun id hid => ?_, fun x hx n hn => ?_, fun n hn => by cases hn⟩
  · obtain ⟨y, hy, rfl⟩ := (h.rows x).1 hx
    have hyr : y = r := by
      refine Table.eq_of_key hy hr ?_
      split at hid
      · exact hid
      · exact hid
    rw [hyr, if_pos hp, hcalendars]
    obtain ⟨c, hc, hown⟩ := Table.any_iff.1 hprunable.1.1.1
    simp only [Bool.and_eq_true, decide_eq_true_iff] at hown
    refine ⟨⟨rfl, ?_, fun n hn => by cases hn⟩, c, hc, hown.1⟩
    simp [ResourceRow.hidden, ResourceRow.pruned, hprunable.1.1.2]
  · exact ⟨r.pruned, (h.rows _).2 ⟨r, hr, (if_pos hp).symm⟩, hid.symm⟩
  · obtain ⟨y, hy, rfl⟩ := (h.rows x).1 hx
    rw [hruns]
    split at hn
    · exact ht.seen y hy n hn
    · exact ht.seen y hy n hn

/-! ## The main theorem -/

/-- **Pruning is safe**, in every reachable store and whatever the engine refuses. A prune that fails
changes nothing, or fails behind the commit. One that returns, or has changed something, has emptied
the rows it is about and changed nothing else; a second one changes nothing; and each of these rows,
in every state of a run from there that does not download it, and along every download that does not
either, is found by neither test and by no account. -/
theorem prune_safe {w : Site} {past : List Site} (h : Reached w past) (account : Int)
    (faults : List (Option String)) :
    (∀ e s, pruneHistory ⟨account, 0, false⟩ ⟨w.conn, faults⟩ = .error e s →
      s.conn.now = w.conn.now ∨ Prunes account w.conn.now s.conn.now) ∧
    ∀ s, (pruneHistory ⟨account, 0, false⟩ ⟨w.conn, faults⟩ = .ok () s ∨
        ∃ e, pruneHistory ⟨account, 0, false⟩ ⟨w.conn, faults⟩ = .error e s ∧
          s.conn.now ≠ w.conn.now) →
      Prunes account w.conn.now s.conn.now ∧
      wp (pruneHistory ⟨account, 0, false⟩) (fun _ c => c.now = s.conn.now)
        (fun _ c => c.now = s.conn.now) s.conn ∧
      ∀ r ∈ w.conn.now.resources, w.conn.now.prunable account r = true → ∀ w' past',
        Run (· = w.call account .prune faults) (Without (· = r.id)) (w' :: past') →
          (∀ t ∈ w'.conn.images, t.Retired r.id) ∧
          ∀ account' reader start fetches,
            (∀ x ∈ w'.conn.now.resources, x.id = r.id →
              ¬ (Call.fetch reader start fetches).Downloads account' w'.conn.now x) →
            wp (do
              let s ← beginScopedRun ⟨account', 0, false⟩ start.isSome
              fetches.forM fun f => commitFetch reader s start f.2 f.1)
              (fun _ c => c.now.Retired r.id) (fun _ _ => True) w'.conn := by
  have emptied : Prunes account w.conn.now
      (w.conn.now.emptied account (w.conn.now.pruneIds account)) :=
    emptied_prunes h.mirrors.now.closed
  have spec := @wp_prune ⟨account, 0, false⟩ w.conn
  refine ⟨fun e s he => ?_, fun s hs => ?_⟩
  · rcases wp_error spec he with hn | ⟨hn, -⟩
    · exact .inl hn
    · exact .inr (by rw [hn]; exact emptied)
  obtain ⟨hnow, hundo⟩ : s.conn.now = w.conn.now.emptied account (w.conn.now.pruneIds account) ∧
      s.conn.undo = [] := by
    rcases hs with hs | ⟨e, he, hchanged⟩
    · exact wp_ok spec hs
    · exact (wp_error spec he).resolve_left hchanged
  have hprunes : Prunes account w.conn.now s.conn.now := by
    rw [hnow]
    exact emptied
  refine ⟨hprunes, ?_, fun r hr hp w' past' hrun => ?_⟩
  · have hsame (c : Conn Tables) (hc : c.now = s.conn.now.emptied account
        (s.conn.now.pruneIds account)) : c.now = s.conn.now := by
      rw [hc, hprunes.settled, emptied_nil]
    exact wp_mono wp_prune (fun _ c hc => hsame c hc.1) fun _ c hc =>
      hc.elim id fun hc => hsame c hc.1
  · have hconn : (w.call account .prune faults).conn = s.conn := by
      unfold Site.call
      rcases hs with hs | ⟨e, hs, -⟩ <;>
        rw [show Call.run account .prune ⟨w.conn, faults⟩ = _ from hs]
    have hhollow : w'.conn.All (Hollows (· = r.id) none) := by
      refine Run.invariant (P := fun w => w.conn.All (Hollows (· = r.id) none)) ?_
        (fun _ _ hw hs => hs.hollows hw) hrun
      intro w₀ hw₀
      rw [hw₀, hconn]
      exact Conn.all_single (hprunes.hollows h.hollows.now hr hp) hundo
    refine ⟨fun t ht => (hhollow t ht).retired rfl, fun account' reader start fetches hspared => ?_⟩
    have hs₀ : Spared (· = r.id) account' (.fetch reader start fetches) none w'.conn.now :=
      ⟨hhollow.now, hspared⟩
    refine wp_bind (wp_bind (wp_stmt (fun number t ht => ?_) fun _ => trivial))
    have hs₁ := (insertRun_spared hs₀ ht).2
    refine wp_bind (wp_begin (fun _ => wp_pure ?_) fun _ => trivial)
    refine wp_mono (keeps_fetchSpared (s := ⟨account', number, start.isSome⟩) _ hs₁)
      (fun _ c hc => hc.1.retired rfl) fun _ _ _ => trivial

/-! ### A lunch that is pruned -/

/-- A time-range query that does not find the lunch. -/
def laterFetch : Call :=
  .fetch lunchReader (some (ascii "20250906T000000Z"))
    [(⟨⟨ascii "https://dav/home/", none, none, none⟩, false, none, []⟩, ascii "home")]

/-- The lunch is published, leaves the window, and what is left is published. -/
def outsideSite : Site :=
  publishedSite.perform [laterFetch, .exchange (lunchNative true)]

theorem reached_outside : ∃ past, Reached outsideSite past := by
  have hlunch : Reached Site.lunch [Site.init] :=
    .next (.start rfl) (.opened _ lunchReader (ascii "account") [] [] rfl)
  obtain ⟨past, h⟩ : ∃ past, Reached publishedSite past := hlunch.perform _ (by decide +kernel)
  exact h.perform _ (perform_account _ Site.lunch)

/-- The prune of the lunch. -/
def lunchPrune : EStateM.Result RCError (Session Tables) Unit :=
  pruneHistory ⟨1, 0, false⟩ ⟨outsideSite.conn, []⟩

/-- The lunch is emptied, and retired. -/
theorem prune_safe_lunch :
    ((∃ r ∈ outsideSite.conn.now.resources.rows, outsideSite.conn.now.prunable 1 r = true ∧
        r.id = 1 ∧ r.rawICal = lunchBody) ∧
      (match lunchPrune with
        | .ok _ s => some (s.conn.now.resources.rows.map ResourceRow.rawICal)
        | .error _ _ => none) = some [[]]) ∧
    ∀ s, lunchPrune = .ok () s → Prunes 1 outsideSite.conn.now s.conn.now ∧
      ∀ t ∈ (outsideSite.call 1 .prune []).conn.images, t.Retired 1 := by
  have hrow : ∃ r ∈ outsideSite.conn.now.resources.rows,
      outsideSite.conn.now.prunable 1 r = true ∧ r.id = 1 ∧ r.rawICal = lunchBody := by
    decide +kernel
  refine ⟨⟨hrow, by decide +kernel⟩, fun s hs => ?_⟩
  obtain ⟨past, h⟩ := reached_outside
  obtain ⟨hprunes, -, hretired⟩ := (prune_safe h 1 []).2 s (.inl hs)
  obtain ⟨r, hr, hp, hid, -⟩ := hrow
  have himages := (hretired r hr hp _ [] (.start rfl)).1
  rw [hid] at himages
  exact ⟨hprunes, himages⟩

end CalendarStore
