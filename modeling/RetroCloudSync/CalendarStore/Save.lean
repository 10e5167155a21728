import RetroCloudSync.CalendarStore.Reach

/-!
# What a save does

`Saves`: one row, found or new, gets the columns of the download, and the others stay. Whatever the
engine refuses, a `save` that returns has done that, and one that fails leaves the held images as
they were (`save_saves`). The row was found by its href, or by its UID (`Claimed`).
-/

set_option autoImplicit false

namespace CalendarStore

open Library Library.Tx Journal

variable {c : Conn Tables} {s : Store} {t t' : Tables}

/-! ## Finding the row -/

/-- The row that a search for an href and a UID may find. -/
def Claimed (calendar : Int) (href : Bytes) (uid : Option Bytes) (r : ResourceRow) : Prop :=
  r.calendar = calendar ∧ (r.href = href ∨ (∃ u, uid = some u ∧ r.uid = some u) ∧
    r.remoteMissing = false)

theorem wp_findRow {calendar : Int} {href : Bytes} {uid : Option Bytes}
    {Q : Int → Conn Tables → Prop} {E : RCError → Conn Tables → Prop}
    (h : ∀ v, (v = -1 ∨ ∃ r ∈ c.now.resources, r.id = v ∧ Claimed calendar href uid r) → Q v c)
    (hE : E duplicateUID c) : wp (findRow s calendar href uid) Q E c := by
  refine wp_bind (wp_findValue fun v hv => ?_)
  have hv : v = -1 ∨ ∃ r ∈ c.now.resources, r.id = v ∧ Claimed calendar href uid r := by
    refine hv.imp_right fun hv => ?_
    obtain ⟨r, hr, rfl⟩ := Option.map_eq_some_iff.1 hv
    obtain ⟨hm, hp⟩ := Table.find?_some hr
    simp only [Bool.and_eq_true, decide_eq_true_iff] at hp
    exact ⟨r, hm, rfl, hp.1, .inl hp.2⟩
  cases uid with
  | none => exact wp_pure (h v hv)
  | some uid =>
    refine wp_bind (wp_findValue fun other ho => ?_)
    have ho : other = -1 ∨
        ∃ r ∈ c.now.resources, r.id = other ∧ Claimed calendar href (some uid) r := by
      refine ho.imp_right fun ho => ?_
      obtain ⟨r, hr, rfl⟩ := Option.map_eq_some_iff.1 ho
      obtain ⟨hm, hp⟩ := Table.find?_some hr
      simp only [Bool.and_eq_true, decide_eq_true_iff, Bool.not_eq_true'] at hp
      exact ⟨r, hm, rfl, hp.1.1.1, .inr ⟨⟨uid, rfl, hp.1.1.2⟩, hp.2⟩⟩
    split
    · rename_i hpos
      split
      · exact wp_throw hE
      · refine wp_bind (wp_findValue fun seenRun _ => ?_)
        split
        · exact wp_throw hE
        · exact wp_pure (h other ho)
    · exact wp_pure (h v hv)

/-- The row that a save writes: one that was there, or a new one. -/
def Based (calendar : Int) (href : Bytes) (uid : Option Bytes) (t : Tables) (r : ResourceRow) :
    Prop :=
  (r ∈ t.resources ∧ Claimed calendar href uid r) ∨
    (r = newResource (t.resources.nextRowid ResourceRow.id) calendar href ∧
      ∀ x ∈ t.resources, x.id ≠ r.id ∧ x.place ≠ r.place)

/-- The row found is there, or a new one is inserted. -/
theorem wp_ensureRow {calendar : Int} {href : Bytes} {uid : Option Bytes} {found : Int}
    {E : RCError → Conn Tables → Prop}
    (hf : found = -1 ∨ ∃ r ∈ c.now.resources, r.id = found ∧ Claimed calendar href uid r)
    (hE : ∀ e, E e c) : wp (ensureRow calendar href found)
      (fun resource c' => c'.undo = c.undo ∧ ∃ r, Based calendar href uid c.now r ∧
        r.id = resource ∧ c'.now = { c.now with resources := c'.now.resources } ∧
        ∀ x, x ∈ c'.now.resources ↔ x = r ∨ x ∈ c.now.resources) E c := by
  unfold ensureRow
  split
  · refine wp_stmt (fun id t ht => ?_) fun _ => hE _
    unfold insertResource at ht
    dsimp only at ht
    split at ht
    · rename_i resources hi
      cases ht
      refine ⟨rfl, _, .inr ⟨rfl, Table.insert_fresh hi⟩, rfl, rfl, fun x => ?_⟩
      rw [or_comm]
      exact Table.mem_insert hi x
    · cases ht
  · rename_i hneg
    rcases hf with rfl | ⟨r, hr, hid, hc⟩
    · exact absurd (by decide) hneg
    · refine wp_pure ⟨rfl, r, .inl ⟨hr, hc⟩, hid, rfl, fun x => ?_⟩
      exact ⟨.inr, fun h => h.elim (fun h => h ▸ hr) id⟩

theorem updateSaved_ok {resource : Int} {f : Bytes → ResourceRow → ResourceRow}
    {hf : ∀ raw r, (f raw r).id = r.id} {body : Buf} {u : Unit}
    (h : updateSaved resource f hf body t = .ok (u, t')) :
    ∃ raw, body = .data raw ∧ t' = { t with resources := t'.resources } ∧
      ∀ r', r' ∈ t'.resources ↔
        ∃ r ∈ t.resources, r' = if decide (r.id = resource) then f raw r else r := by
  unfold updateSaved at h
  cases body with
  | null => cases h
  | data raw =>
    dsimp only [Buf.column] at h
    split at h
    · rename_i resources hr
      cases h
      exact ⟨raw, rfl, rfl, Table.mem_reassign hr⟩
    · cases h

/-! ## The whole save -/

/-- The columns of a download in `t'`: those of the row `r`, found or new. -/
structure Writes (run calendar : Int) (href : Bytes) (etag : Option Bytes) (raw : Bytes)
    (parsed : Parsed) (t t' : Tables) (r : ResourceRow) : Prop where
  based : Based calendar href parsed.uid t r
  rows : ∀ x, x ∈ t'.resources ↔
    x = r.saved run href etag raw parsed.message parsed.uid ∨ x ∈ t.resources ∧ x.id ≠ r.id

/-- **A save, up to the rows of its body**: the columns of the download are written. -/
theorem wp_save {reader : Reader} {calendar : Int} {href : Bytes} {etag : Option Bytes}
    {body : Buf} {Q : Unit → Conn Tables → Prop} {E : RCError → Conn Tables → Prop}
    (h : ∀ raw r (c₁ : Conn Tables), body = .data raw → c₁.undo = c.undo →
      c₁.now = { c.now with resources := c₁.now.resources, history := c₁.now.history } →
      Writes s.run calendar href etag raw (reader.accept body) c.now c₁.now r →
      wp (replaceRows r.id (reader.accept body)) Q E c₁)
    (hE : ∀ e c', c'.undo = c.undo → E e c') :
    wp (save reader s calendar href etag body) Q E c := by
  refine wp_bind (wp_findRow (fun found hf => ?_) (hE _ _ rfl))
  refine wp_bind (wp_mono (wp_ensureRow (E := fun _ c' => c'.undo = c.undo) hf fun _ => rfl)
    ?_ hE)
  intro resource c₁ hc₁
  obtain ⟨hu, r, hbased, rfl, hframe, hrows⟩ := hc₁
  refine wp_bind (wp_gate (wp_bind (wp_stmt (fun _ t ht => ?_) fun _ => hE _ _ hu)) fun _ => hE _ _ hu)
  obtain ⟨raw, rfl, hframe', hrows'⟩ := updateSaved_ok ht
  have hid : ∀ y ∈ c.now.resources, y.id = r.id → y = r := by
    intro y hy hid
    rcases hbased with ⟨hm, -⟩ | ⟨-, hfresh⟩
    · exact Table.eq_of_key hy hm hid
    · exact absurd hid (hfresh y hy).1
  refine wp_bind (wp_note (h raw r _ rfl hu ?_ ⟨hbased, fun x => ?_⟩))
  · dsimp only
    rw [hframe']
    dsimp only
    rw [hframe]
  · show x ∈ t.resources ↔ _
    rw [hrows']
    constructor
    · rintro ⟨y, hy, rfl⟩
      rcases (hrows y).1 hy with rfl | hy
      · exact .inl (if_pos (decide_eq_true rfl))
      · by_cases hi : y.id = r.id
        · rw [if_pos (decide_eq_true hi), hid y hy hi]
          exact .inl rfl
        · rw [if_neg (by simpa using hi)]
          exact .inr ⟨hy, hi⟩
    · rintro (rfl | ⟨hx, hi⟩)
      · exact ⟨r, (hrows r).2 (.inl rfl), (if_pos (decide_eq_true rfl)).symm⟩
      · exact ⟨x, (hrows x).2 (.inr hx), (if_neg (by simpa using hi)).symm⟩

/-- The projection tables and the history may differ. -/
def Tables.Around (t t' : Tables) : Prop :=
  t' = { t with components := t'.components, properties := t'.properties
                parameters := t'.parameters, events := t'.events, history := t'.history }

theorem replaceRows_around {resource : Int} {parsed : Parsed} :
    wp (replaceRows resource parsed) (fun _ c' => c'.undo = c.undo ∧ c.now.Around c'.now)
      (fun _ c' => c'.undo = c.undo) c := by
  cases parsed with
  | error e => exact wp_pure ⟨rfl, rfl⟩
  | ok accepted =>
    refine wp_bind (wp_change (wp_mono (storeComponent_stores resource 0 0 _ _) ?_ ?_) fun _ => rfl)
    · rintro _ c₁ ⟨hu, p, -, ha⟩
      refine ⟨hu, ?_⟩
      have hf := ha.frame
      unfold Tables.Around
      rw [hf]
      rfl
    · exact fun _ _ hu => hu

/-- What is written, with nothing else changed but the projection tables and the history. -/
structure Saves (run calendar : Int) (href : Bytes) (etag : Option Bytes) (raw : Bytes)
    (parsed : Parsed) (t t' : Tables) (r : ResourceRow) : Prop
    extends Writes run calendar href etag raw parsed t t' r where
  frame : t' = { t with resources := t'.resources, components := t'.components
                        properties := t'.properties, parameters := t'.parameters
                        events := t'.events, history := t'.history }

theorem Writes.saves {run calendar : Int} {href : Bytes} {etag : Option Bytes} {raw : Bytes}
    {parsed : Parsed} {t t₁ t' : Tables} {r : ResourceRow}
    (h : Writes run calendar href etag raw parsed t t₁ r)
    (hframe : t₁ = { t with resources := t₁.resources, history := t₁.history })
    (haround : t₁.Around t') :
    Saves run calendar href etag raw parsed t t' r := by
  unfold Tables.Around at haround
  have hr : t'.resources = t₁.resources := by rw [haround]
  refine ⟨⟨h.based, fun x => ?_⟩, ?_⟩
  · rw [hr]
    exact h.rows x
  · rw [haround]
    dsimp only
    rw [hframe]

/-- **What a save that returns has done**, whatever the engine refuses. -/
theorem save_saves {reader : Reader} {calendar : Int} {href : Bytes} {etag : Option Bytes}
    {body : Buf} : wp (save reader s calendar href etag body)
      (fun _ c' => c'.undo = c.undo ∧ ∃ raw r, body = .data raw ∧
        Saves s.run calendar href etag raw (reader.accept body) c.now c'.now r)
      (fun _ c' => c'.undo = c.undo) c := by
  refine wp_save (fun raw r c₁ hbody hu hframe hwrites => ?_) fun _ _ h => h
  refine wp_mono replaceRows_around (fun _ c' h => ?_) fun _ _ h => h.trans hu
  exact ⟨h.1.trans hu, raw, r, hbody, hwrites.saves hframe h.2⟩

end CalendarStore
