import RetroCloudSync.Library.Smooth
import RetroCloudSync.CalendarStore.Mirrors

/-!
# What becomes of a download

A save may fail on what it is given, not only on the engine. With nothing refused (`smooth`), the
rows of a tree are inserted exactly when it is `Storable`: every column that is `NOT NULL` has a
value, every parameter has its `=`, and no two events have the same recurrence key
(`storeComponent_settles`). And a row is found unless the UIDs clash (`Tables.clash`).
`save_outcome` puts the two together: it says for every body, accepted or not, whether its save
returns and what it has then done.
-/

set_option autoImplicit false

namespace CalendarStore

open Library Library.Tx Journal

/-! ## Trees that can be stored -/

def IcalProperty.storable (p : IcalProperty) : Bool :=
  p.name.isSome && p.parameters.all fun a => a.split.isSome

/-- The event of a component has its columns. -/
def Component.eventStorable (c : Component) : Bool :=
  c.kind ≠ .vevent || (c.value .uid).isSome && (recurrenceKey c).isSome

/-- The recurrence key of the event of a component. -/
def Component.key (c : Component) : List Bytes :=
  if c.kind = .vevent then (recurrenceKey c).toList else []

mutual

/-- Every row of the tree has its columns. -/
def Component.complete : Component → Bool
  | c@⟨_, kindName, properties, _, _, _, children⟩ =>
    kindName.isSome && properties.all IcalProperty.storable && c.eventStorable &&
      allComplete children

def allComplete : List Component → Bool
  | [] => true
  | c :: cs => c.complete && allComplete cs

end

mutual

/-- The recurrence keys of all events of the tree. -/
def Component.keys : Component → List Bytes
  | c@⟨_, _, _, _, _, _, children⟩ => c.key ++ allKeys children

def allKeys : List Component → List Bytes
  | [] => []
  | c :: cs => c.keys ++ allKeys cs

end

structure Component.Storable (c : Component) : Prop where
  complete : c.complete = true
  keys : c.keys.Nodup

/-! ### The rows that are emitted -/

/-- `e` emits rows exactly when `b`, and their events have the keys `ks`. -/
structure Emits (e : Emit) (b : Bool) (ks : List Bytes) : Prop where
  isSome : ∀ i, (e i).isSome = b
  keys : ∀ i p, e i = some p → p.events.map EventRow.recurrenceID = ks

namespace Emits

theorem nil : Emits .nil true [] where
  isSome _ := rfl
  keys i p h := by
    cases h
    rfl

theorem andThen {f g : Emit} {b b' : Bool} {ks ks' : List Bytes} (hf : Emits f b ks)
    (hg : Emits g b' ks') : Emits (f.andThen g) (b && b') (ks ++ ks') where
  isSome i := by
    have hb := hf.isSome i
    unfold Emit.andThen
    cases hi : f i with
    | none => simp [hi] at hb; simp [← hb]
    | some p =>
      simp only [hi, Option.isSome_some] at hb
      simp [← hb, hg.isSome]
  keys i r h := by
    obtain ⟨p, q, hp, hq, rfl⟩ := Emit.andThen_some.1 h
    simp [hf.keys i p hp, hg.keys _ q hq]

theorem parameters (property : Int) (position : Nat) (ps : List IcalParameter) :
    Emits (emitParameters property position ps) (ps.all fun a => a.split.isSome) [] := by
  induction ps generalizing position with
  | nil => exact nil
  | cons p ps ih =>
    have hp : Emits (emitParameter property position p) p.split.isSome [] := by
      refine ⟨fun i => by simp [emitParameter], fun i q h => ?_⟩
      obtain ⟨cut, -, rfl⟩ := Option.map_eq_some_iff.1 h
      rfl
    exact hp.andThen (ih (position + 1))

theorem properties (component : Int) (position : Nat) (ps : List IcalProperty) :
    Emits (emitProperties component position ps) (ps.all IcalProperty.storable) [] := by
  induction ps generalizing position with
  | nil => exact nil
  | cons p ps ih =>
    have hrow : Emits (emitPropertyRow component position p) p.name.isSome [] := by
      refine ⟨fun i => by simp [emitPropertyRow], fun i q h => ?_⟩
      obtain ⟨name, -, rfl⟩ := Option.map_eq_some_iff.1 h
      rfl
    -- the parameters refer to the id of the row
    have hp : Emits (emitProperty component position p) p.storable [] :=
      ⟨fun i => (hrow.andThen (parameters i.property 0 p.parameters)).isSome i,
        fun i => (hrow.andThen (parameters i.property 0 p.parameters)).keys i⟩
    exact hp.andThen (ih (position + 1))

theorem event (resource component : Int) (x : Component) :
    Emits (emitEvent resource component x) x.eventStorable x.key := by
  unfold Component.eventStorable Component.key
  by_cases hx : x.kind = .vevent
  · refine ⟨fun i => ?_, fun i p h => ?_⟩
    · cases hu : x.value .uid <;> simp [emitEvent, hx, hu]
    · simp only [emitEvent, hx, if_true] at h
      obtain ⟨uid, -, h⟩ := Option.bind_eq_some_iff.1 h
      obtain ⟨key, hk, rfl⟩ := Option.map_eq_some_iff.1 h
      simp [Projection.event, hx, hk]
  · refine ⟨fun i => by simp [emitEvent, hx], fun i p h => ?_⟩
    simp only [emitEvent, hx, if_false, Option.some.injEq] at h
    subst h
    simp [Projection.empty, hx]

theorem componentRow (resource : Int) (parent : Option Int) (position : Nat)
    (kindName : Option Bytes) :
    Emits (emitComponentRow resource parent position kindName) kindName.isSome [] := by
  refine ⟨fun i => by simp [emitComponentRow], fun i p h => ?_⟩
  obtain ⟨name, -, rfl⟩ := Option.map_eq_some_iff.1 h
  rfl

mutual

/-- **A tree emits its rows exactly when it is complete.** -/
theorem component (resource : Int) (parent : Option Int) (position : Nat) : ∀ x : Component,
    Emits (x.emit resource parent position) x.complete x.keys
  | ⟨kind, kindName, properties', sequence, dtstart, dtend, children'⟩ => by
    have h (i : Int) := (componentRow resource parent position kindName).andThen
      ((properties i 0 properties').andThen
      ((event resource i ⟨kind, kindName, properties', sequence, dtstart, dtend, children'⟩).andThen
        (children resource i 0 children')))
    unfold Component.emit Component.complete Component.keys
    refine ⟨fun i => ?_, fun i p hp => (h i.component).keys i p hp⟩
    rw [(h i.component).isSome i]
    simp [Bool.and_assoc]

theorem children (resource id : Int) (position : Nat) : ∀ xs : List Component,
    Emits (emitChildren resource id position xs) (allComplete xs) (allKeys xs)
  | [] => by
    unfold emitChildren allComplete allKeys
    exact nil
  | x :: xs => by
    unfold emitChildren allComplete allKeys
    exact (component resource (some id) position x).andThen (children resource id (position + 1) xs)

end

end Emits

/-! ## Insertion, when nothing is refused -/

/-- The rows of `e` do not fit in: one has no value for a column, or two events would share a
recurrence key. -/
def Refused (e : Emit) (t : Tables) : Prop :=
  ∀ p, e t.ids = some p → ¬ ((t.events.rows ++ p.events).map EventRow.occurrence).Nodup

/-- With nothing refused, `x` adds the rows of `e`, or they do not fit in. -/
def Settles (e : Emit) (x : StoreM Unit) (c : Conn Tables) : Prop :=
  smooth x (fun _ c' => Stored e c c') (fun _ c' => c'.undo = c.undo ∧ Refused e c.now) c

section
variable {c c' c₁ : Conn Tables} {e f g : Emit} {t : Tables}

/-- Rows that fit in leave their constraint behind. -/
theorem Stored.fits (h : Stored e c c') : ¬ Refused e c.now := by
  obtain ⟨-, p, hp, ha⟩ := h
  intro hr
  refine hr p hp ?_
  rw [← ha.events]
  exact c'.now.events.nodup'

theorem Refused.left (h : Refused f t) : Refused (f.andThen g) t := by
  intro r hr hn
  obtain ⟨p, q, hp, -, rfl⟩ := Emit.andThen_some.1 hr
  refine h p hp ?_
  rw [Projection.append_events, ← List.append_assoc, List.map_append] at hn
  exact hn.of_append_left

theorem Refused.right (hs : Stored f c c₁) (h : Refused g c₁.now) :
    Refused (f.andThen g) c.now := by
  intro r hr hn
  obtain ⟨p, q, hp, hq, rfl⟩ := Emit.andThen_some.1 hr
  obtain ⟨-, p', hp', ha⟩ := hs
  obtain rfl : p' = p := by
    rw [hp] at hp'
    exact (Option.some.inj hp').symm
  refine h q (by rw [ha.ids]; exact hq) ?_
  rwa [ha.events, List.append_assoc]

theorem settles_nil : Settles .nil (pure ()) c := smooth_pure .nil

theorem settles_then {y : StoreM Unit} (h : Stored f c c₁) (hy : Settles g y c₁) :
    smooth y (fun _ c' => Stored (f.andThen g) c c')
      (fun _ c' => c'.undo = c.undo ∧ Refused (f.andThen g) c.now) c₁ :=
  smooth_mono hy (fun _ _ h' => h.andThen h') fun _ _ h' => ⟨h'.1.trans h.1, h'.2.right h⟩

theorem settles_seq {x y : StoreM Unit} (hx : Settles f x c)
    (hy : ∀ c₁, Stored f c c₁ → Settles g y c₁) : Settles (f.andThen g) (do x; y) c :=
  smooth_bind (smooth_mono hx (fun _ c₁ h => settles_then h (hy c₁ h))
    fun _ _ h => ⟨h.1, h.2.left⟩)

/-! ### Single rows -/

theorem Refused.none (h : e t.ids = none) : Refused e t := by
  intro p hp
  rw [h] at hp
  cases hp

theorem insertComponent_error {resource parent : Int} {position : Nat} {kindName : Option Bytes}
    {m : String} (h : insertComponent resource parent position kindName t = .error m) :
    kindName = Option.none := by
  cases kindName with
  | none => rfl
  | some kind =>
    unfold insertComponent at h
    dsimp only at h
    split at h
    · cases h
    · rename_i hi
      obtain ⟨x, hx, he⟩ := Table.insert_none hi
      have := Table.lt_nextRowid ComponentRow.id hx
      simp only [Tables.ids, or_self] at he
      omega

theorem insertProperty_error {component : Int} {position : Nat} {p : IcalProperty} {m : String}
    (h : insertProperty component position p t = .error m) : p.name = Option.none := by
  unfold insertProperty at h
  split at h
  · assumption
  · split at h
    · cases h
    · rename_i hi
      obtain ⟨x, hx, he⟩ := Table.insert_none hi
      have := Table.lt_nextRowid PropertyRow.id hx
      simp only [Tables.ids, or_self] at he
      omega

theorem insertParameter_ok {property : Int} {position : Nat} {name value : Bytes} {m : String} :
    insertParameter property position name value t ≠ .error m := by
  intro h
  unfold insertParameter at h
  split at h
  · cases h
  · rename_i hi
    obtain ⟨x, hx, he⟩ := Table.insert_none hi
    have := Table.lt_nextRowid ParameterRow.id hx
    simp only [Tables.ids, or_self] at he
    omega

/-- Only another event of the resource with the same key is in the way. -/
theorem insertEvent_error {resource component : Int} {uid : Option Bytes} {key : Bytes}
    {columns : EventColumns} {m : String} (hfresh : ∀ x ∈ t.events, x.component ≠ component)
    (h : insertEvent resource component uid key columns t = .error m) :
    uid = Option.none ∨ ∃ x ∈ t.events, x.occurrence = (resource, key) := by
  unfold insertEvent at h
  split at h
  · exact .inl rfl
  · split at h
    · cases h
    · rename_i hi
      obtain ⟨x, hx, he⟩ := Table.insert_none hi
      exact .inr ⟨x, hx, he.resolve_left (hfresh x hx)⟩

/-! ### Parts of a component -/

theorem storeParameters_settles (property : Int) (position : Nat) (ps : List IcalParameter) :
    Settles (emitParameters property position ps) (storeParameters property position ps) c := by
  induction ps generalizing position c with
  | nil => exact settles_nil
  | cons p ps ih =>
    unfold storeParameters
    split
    · rename_i hp
      refine smooth_throw ⟨rfl, Refused.left (.none ?_)⟩
      simp [emitParameter, hp]
    · rename_i cut hp
      refine settles_seq (smooth_stmt (fun u t h => insertParameter_stored hp h)
        fun m h => absurd h insertParameter_ok) ?_
      exact fun c₁ _ => ih (position + 1)

theorem storeProperties_settles (component : Int) (position : Nat) (ps : List IcalProperty) :
    Settles (emitProperties component position ps) (storeProperties component position ps) c := by
  induction ps generalizing position c with
  | nil => exact settles_nil
  | cons p ps ih =>
    unfold storeProperties
    have hpart {f g : Emit} {i : Ids} {q : Projection} (h : f.andThen g i = some q) :
        ∃ p, f i = some p := by
      obtain ⟨p, -, hp, -⟩ := Emit.andThen_some.1 h
      exact ⟨p, hp⟩
    refine smooth_bind (smooth_stmt (fun id t h => ?_) fun m h => ⟨rfl, fun q hq => ?_⟩)
    · obtain ⟨rfl, hrow⟩ := insertProperty_stored h
      refine smooth_bind (smooth_mono (settles_then hrow (storeParameters_settles _ 0 p.parameters))
        ?_ fun _ _ h => ⟨h.1, Refused.left (f := emitProperty component position p) h.2⟩)
      exact fun _ c₂ h₂ => settles_then (f := emitProperty component position p) h₂
        (ih (position + 1))
    · -- without a name there is no row
      obtain ⟨p', hp'⟩ := hpart hq
      obtain ⟨p'', hp''⟩ := hpart hp'
      simp [emitPropertyRow, insertProperty_error h] at hp''

theorem emitEvent_component {resource component : Int} {x : Component} {i : Ids} {p : Projection}
    (h : emitEvent resource component x i = some p) : ∀ y ∈ p.events, y.component = component := by
  unfold emitEvent at h
  split at h
  · obtain ⟨uid, -, h⟩ := Option.bind_eq_some_iff.1 h
    obtain ⟨key, -, rfl⟩ := Option.map_eq_some_iff.1 h
    simp [Projection.event]
  · cases h
    simp [Projection.empty]

theorem storeEvent_settles {resource component : Int} {x : Component}
    (hfresh : ∀ y ∈ c.now.events, y.component ≠ component) :
    Settles (emitEvent resource component x) (storeEvent resource component x) c := by
  unfold storeEvent
  split
  · rename_i hx
    split
    · rename_i hk
      exact smooth_throw ⟨rfl, .none (by simp [emitEvent, hx, hk])⟩
    · rename_i key hk
      refine smooth_stmt (fun u t h => insertEvent_stored hx hk h) fun m h => ⟨rfl, fun p hp => ?_⟩
      simp only [emitEvent, hx, if_true] at hp
      obtain ⟨uid, hu, hp⟩ := Option.bind_eq_some_iff.1 hp
      obtain ⟨key', hk', rfl⟩ := Option.map_eq_some_iff.1 hp
      obtain rfl : key = key' := Option.some.inj (hk.symm.trans hk')
      rcases insertEvent_error hfresh h with hn | ⟨y, hy, hocc⟩
      · rw [hu] at hn
        cases hn
      · rw [List.map_append, List.nodup_append]
        intro hn
        exact hn.2.2 _ (List.mem_map_of_mem hy) _ (List.mem_singleton_self _) hocc
  · rename_i hx
    refine smooth_pure ⟨rfl, .empty, ?_, .refl _⟩
    simp [emitEvent, hx]

/-! ### A whole tree -/

/-- The events have components that are numbered already. -/
def Tables.Below (t : Tables) : Prop := ∀ x ∈ t.events, x.component < t.ids.component

theorem Tables.Closed.below (h : t.Closed) : t.Below := by
  intro x hx
  obtain ⟨y, hy, hid, -⟩ := h.events x hx
  rw [← hid]
  exact Table.lt_nextRowid ComponentRow.id hy

theorem Stored.events (h : Stored e c c') {x : EventRow} (hx : x ∈ c'.now.events) :
    x ∈ c.now.events ∨ ∃ p, e c.now.ids = some p ∧ x ∈ p.events := by
  obtain ⟨-, p, hp, ha⟩ := h
  have hx : x ∈ c.now.events.rows ++ p.events := ha.events ▸ hx
  exact (List.mem_append.1 hx).imp_right fun hx => ⟨p, hp, hx⟩

/-- Rows without events leave the events. -/
theorem Stored.same_events {b : Bool} (h : Stored e c c') (he : Emits e b []) {x : EventRow}
    (hx : x ∈ c'.now.events) : x ∈ c.now.events := by
  rcases h.events hx with hx | ⟨p, hp, hx⟩
  · exact hx
  · rw [List.map_eq_nil_iff.1 (he.keys _ p hp)] at hx
    cases hx

theorem Stored.ids_le (h : Stored e c c') : c.now.ids.component ≤ c'.now.ids.component := by
  obtain ⟨-, p, -, ha⟩ := h
  rw [ha.ids]
  simp only [Ids.past]
  omega

/-- The rows of a tree refer to each other only. -/
theorem emit_alone {resource : Int} {parent : Option Int} {position : Nat} {x : Component}
    {i : Ids} {p : Projection} (h : x.emit resource parent position i = some p) :
    Owned resource (fun _ => False) (fun _ => False) p := emit_owned x h

/-- A tree numbers the components of its own events. -/
theorem Stored.below {resource : Int} {parent : Option Int} {position : Nat} {x : Component}
    (h : Stored (x.emit resource parent position) c c') (hb : c.now.Below) : c'.now.Below := by
  intro y hy
  rcases h.events hy with hy | ⟨p, hp, hy⟩
  · have := hb y hy
    have := h.ids_le
    omega
  · obtain ⟨-, p', hp', ha⟩ := h
    obtain rfl : p' = p := Option.some.inj (hp'.symm.trans hp)
    obtain ⟨-, hf | ⟨z, hz, hid⟩⟩ := (emit_alone hp).events y hy
    · exact hf.elim
    · rw [← hid]
      have hz : z ∈ c'.now.components.rows := by
        rw [ha.components]
        exact List.mem_append_right _ hz
      exact Table.lt_nextRowid ComponentRow.id hz

mutual

/-- **`RCStoreComponent` fails only on its tree**: with nothing refused it adds the rows that `emit`
names, or they do not fit in. -/
theorem storeComponent_settles (resource parent : Int) (position : Nat) : ∀ (x : Component)
    (c : Conn Tables), c.now.Below → Settles (x.emit resource (nullIf parent) position)
      (storeComponent resource parent position x) c
  | ⟨kind, kindName, properties, sequence, dtstart, dtend, children⟩, c, hb => by
    unfold storeComponent Component.emit
    refine smooth_bind (smooth_stmt (fun id t h => ?_) fun m h => ⟨rfl, fun p hp => ?_⟩)
    · obtain ⟨rfl, hrow⟩ := insertComponent_stored h
      have hcomponent : Emits (emitComponentRow resource (nullIf parent) position kindName)
          kindName.isSome [] := .componentRow ..
      refine settles_then hrow ?_
      refine settles_seq (storeProperties_settles _ 0 properties) fun c₁ h₁ => ?_
      have hold : ∀ y ∈ c₁.now.events, y.component < c.now.ids.component := fun y hy =>
        hb y (hrow.same_events hcomponent (h₁.same_events (.properties ..) hy))
      refine settles_seq (storeEvent_settles fun y hy => Int.ne_of_lt (hold y hy)) fun c₂ h₂ => ?_
      refine storeChildren_settles resource _ 0 children c₂ (nullIf_ids c.now) fun y hy => ?_
      -- the component of the new event is the one just numbered
      have hnext : c.now.ids.component < c₂.now.ids.component := by
        have hle := Int.le_trans h₁.ids_le h₂.ids_le
        obtain ⟨-, p, hp, ha⟩ := hrow
        obtain ⟨name, -, rfl⟩ := Option.map_eq_some_iff.1 hp
        rw [ha.ids] at hle
        simp only [Ids.past, Projection.component, List.length_singleton] at hle
        omega
      rcases h₂.events hy with hy | ⟨p, hp, hy⟩
      · exact Int.lt_trans (hold y hy) hnext
      · rwa [emitEvent_component hp y hy]
    · obtain ⟨p', -, hp', -⟩ := Emit.andThen_some.1 hp
      rw [insertComponent_error h] at hp'
      cases hp'

theorem storeChildren_settles (resource id : Int) (position : Nat) : ∀ (xs : List Component)
    (c : Conn Tables), nullIf id = some id → c.now.Below →
      Settles (emitChildren resource id position xs) (storeChildren resource id position xs) c
  | [], c, _, _ => by
    unfold emitChildren storeChildren
    exact settles_nil
  | x :: xs, c, hid, hb => by
    unfold emitChildren storeChildren
    have hx := storeComponent_settles resource id position x c hb
    rw [hid] at hx
    exact settles_seq hx fun c₁ h₁ =>
      storeChildren_settles resource id (position + 1) xs c₁ hid (h₁.below hb)

end

end

/-! ## The row of a download, when nothing is refused -/

/-- The id that a search for an href answers with. -/
def Tables.rowid (t : Tables) (calendar : Int) (href : Bytes) : Int :=
  ((t.findResource calendar href).map ResourceRow.id).getD (-1)

/-- The UID of a download is that of another resource, beside a row of its own href or seen in this
run already. -/
def Tables.clash (t : Tables) (run calendar : Int) (href : Bytes) (uid : Option Bytes) : Bool :=
  (uid.bind fun uid => t.holder calendar uid (t.rowid calendar href)).any fun other =>
    (t.findResource calendar href).isSome || other.seenRun.getD 0 = run

/-- Ids of resources are counted from 1. -/
def Tables.Counted (t : Tables) : Prop := ∀ r ∈ t.resources, 0 < r.id

section
variable {c : Conn Tables} {s : Store} {calendar : Int} {href : Bytes} {uid : Option Bytes}

theorem smooth_findValue {f : Tables → Option Int} {Q : Int → Conn Tables → Prop}
    {E : RCError → Conn Tables → Prop} {v : Int} (hv : (f c.now).getD (-1) = v) (h : Q v c) :
    smooth (findValue f) Q E c := by
  subst hv
  exact smooth_bind (smooth_find (smooth_pure h))

theorem smooth_note {l : List Entry} {Q : Unit → Conn Tables → Prop}
    {E : RCError → Conn Tables → Prop}
    (h : Q () { c with now := { c.now with history := l ++ c.now.history } }) :
    smooth (note l) Q E c := ⟨rfl, h⟩

/-- The row found for a download: that of its href, or one renamed that the run has not seen. -/
structure Finds (run calendar : Int) (href : Bytes) (uid : Option Bytes) (t : Tables)
    (r : ResourceRow) : Prop where
  mem : r ∈ t.resources
  claimed : Claimed calendar href uid r
  own : r.href = href ∨ t.findResource calendar href = none ∧ r.seenRun ≠ some run

theorem findResource_some {t : Tables} {r : ResourceRow}
    (h : t.findResource calendar href = some r) :
    r ∈ t.resources ∧ r.calendar = calendar ∧ r.href = href := by
  obtain ⟨hm, hp⟩ := Table.find?_some h
  simp only [Bool.and_eq_true, decide_eq_true_iff] at hp
  exact ⟨hm, hp⟩

theorem findResource_none {t : Tables} (h : t.findResource calendar href = none) {r : ResourceRow}
    (hr : r ∈ t.resources) : r.place ≠ (calendar, href) := by
  have hp := Table.find?_none h hr
  simp only [Bool.and_eq_false_iff, decide_eq_false_iff_not] at hp
  simp only [ResourceRow.place, ne_eq, Prod.mk.injEq, not_and_or]
  exact hp

/-- **The search for the row of a download**, with nothing refused. -/
theorem smooth_findRow (hc : c.now.Counted) {Q : Int → Conn Tables → Prop}
    {E : RCError → Conn Tables → Prop}
    (hnew : c.now.clash s.run calendar href uid = false →
      c.now.findResource calendar href = none → Q (-1) c)
    (hrow : c.now.clash s.run calendar href uid = false →
      ∀ r, Finds s.run calendar href uid c.now r → Q r.id c)
    (hE : c.now.clash s.run calendar href uid = true → E duplicateUID c) :
    smooth (findRow s calendar href uid) Q E c := by
  -- without a clash, the row of the href or none
  have hown (hn : c.now.clash s.run calendar href uid = false) :
      Q (c.now.rowid calendar href) c := by
    unfold Tables.rowid
    cases hf : c.now.findResource calendar href with
    | none => exact hnew hn hf
    | some r =>
      obtain ⟨hm, hcal, hhref⟩ := findResource_some hf
      exact hrow hn r ⟨hm, ⟨hcal, .inl hhref⟩, .inl hhref⟩
  have hpos : 0 < c.now.rowid calendar href ↔ (c.now.findResource calendar href).isSome = true := by
    unfold Tables.rowid
    cases hf : c.now.findResource calendar href with
    | none => simp
    | some r => simpa using hc r (findResource_some hf).1
  refine smooth_bind (smooth_findValue (v := c.now.rowid calendar href) rfl ?_)
  cases uid with
  | none => exact smooth_pure (hown rfl)
  | some uid =>
    cases hh : c.now.holder calendar uid (c.now.rowid calendar href) with
    | none =>
      refine smooth_bind (smooth_findValue (v := -1) (by rw [hh]; rfl) ?_)
      rw [if_neg (by decide)]
      exact smooth_pure (hown (by simp [Tables.clash, hh]))
    | some other =>
      obtain ⟨hm, hp⟩ := Table.find?_some hh
      simp only [Bool.and_eq_true, decide_eq_true_iff, Bool.not_eq_true'] at hp
      refine smooth_bind (smooth_findValue (v := other.id) (by rw [hh]; rfl) ?_)
      rw [if_pos (hc other hm)]
      have hclash : c.now.clash s.run calendar href (some uid) =
          ((c.now.findResource calendar href).isSome || decide (other.seenRun.getD 0 = s.run)) := by
        simp [Tables.clash, hh]
      split
      · rename_i hfound
        exact smooth_throw (hE (by rw [hclash, hpos.1 hfound, Bool.true_or]))
      · rename_i hfound
        rw [hpos, Bool.not_eq_true, Option.isSome_eq_false_iff, Option.isNone_iff_eq_none] at hfound
        rw [hfound, Option.isSome_none, Bool.false_or] at hclash
        -- the row looked up by its id is the holder
        have hlook : c.now.resources.find? (fun r => r.id = other.id) = some other :=
          Table.find?_eq hm (by simp) fun r hid => of_decide_eq_true hid
        refine smooth_bind (smooth_findValue (v := other.seenRun.getD 0) (by rw [hlook]; rfl) ?_)
        split
        · rename_i hseen
          exact smooth_throw (hE (by rw [hclash, decide_eq_true hseen]))
        · rename_i hseen
          refine smooth_pure (hrow (by rw [hclash, decide_eq_false hseen]) other
            ⟨hm, ⟨hp.1.1.1, .inr ⟨⟨uid, rfl, hp.1.1.2⟩, hp.2⟩⟩, .inr ⟨hfound, fun he => ?_⟩⟩)
          rw [he] at hseen
          exact hseen rfl

/-- The row that a save writes: the one found, or a new one for an href that has none. -/
def Placed (run calendar : Int) (href : Bytes) (uid : Option Bytes) (t : Tables) (r : ResourceRow) :
    Prop :=
  Finds run calendar href uid t r ∨ t.findResource calendar href = none ∧
    r = newResource (t.resources.nextRowid ResourceRow.id) calendar href

theorem Placed.based {run : Int} {t : Tables} {r : ResourceRow}
    (h : Placed run calendar href uid t r) : Based calendar href uid t r := by
  rcases h with h | ⟨hn, rfl⟩
  · exact .inl ⟨h.mem, h.claimed⟩
  · refine .inr ⟨rfl, fun x hx => ⟨fun he => ?_, findResource_none hn hx⟩⟩
    have hlt := Table.lt_nextRowid ResourceRow.id hx
    simp only [newResource] at he
    omega

theorem Placed.inside {run : Int} {t : Tables} {r : ResourceRow}
    (h : Placed run calendar href uid t r) : r.calendar = calendar := by
  rcases h with h | ⟨-, rfl⟩
  · exact h.claimed.1
  · rfl

/-- The place of the download is that of the row, or free. -/
theorem Placed.free {run : Int} {t : Tables} {r x : ResourceRow}
    (h : Placed run calendar href uid t r) (hx : x ∈ t.resources) (hid : x.id ≠ r.id) :
    x.place ≠ (calendar, href) := by
  rcases h with h | ⟨hn, -⟩
  · rcases h.own with ho | ⟨hn, -⟩
    · intro he
      refine hid (congrArg ResourceRow.id (Table.eq_of_uniq hx h.mem (he.trans ?_)))
      rw [ResourceRow.place, h.claimed.1, ho]
    · exact findResource_none hn hx
  · exact findResource_none hn hx

/-- A row that was found is taken, and a new one always finds room. -/
theorem smooth_ensureRow {run found : Int} (hc : c.now.Counted)
    (hfound : (found = -1 ∧ c.now.findResource calendar href = none) ∨
      ∃ r, Finds run calendar href uid c.now r ∧ r.id = found)
    {Q : Int → Conn Tables → Prop} {E : RCError → Conn Tables → Prop}
    (h : ∀ r c', Placed run calendar href uid c.now r → c'.undo = c.undo →
      c'.now = { c.now with resources := c'.now.resources } →
      (∀ x, x ∈ c'.now.resources ↔ x = r ∨ x ∈ c.now.resources) → Q r.id c') :
    smooth (ensureRow calendar href found) Q E c := by
  unfold ensureRow
  rcases hfound with ⟨rfl, hn⟩ | ⟨r, hr, rfl⟩
  · rw [if_pos (by decide)]
    refine smooth_stmt (fun id t ht => ?_) fun m hm => ?_
    · unfold insertResource at ht
      dsimp only at ht
      split at ht
      · rename_i resources hi
        cases ht
        refine h _ _ (.inr ⟨hn, rfl⟩) rfl rfl fun x => ?_
        rw [or_comm]
        exact Table.mem_insert hi x
      · cases ht
    · unfold insertResource at hm
      dsimp only at hm
      split at hm
      · cases hm
      · rename_i hi
        obtain ⟨x, hx, he⟩ := Table.insert_none hi
        rcases he with he | he
        · have hlt := Table.lt_nextRowid ResourceRow.id hx
          simp only [newResource] at he
          omega
        · exact absurd he (findResource_none hn hx)
  · rw [if_neg (by have := hc r hr.mem; omega)]
    exact smooth_pure (h r c (.inl hr) rfl rfl fun x =>
      ⟨.inr, fun hx => hx.elim (fun hx => hx ▸ hr.mem) id⟩)

/-- The columns of a download always find room. -/
theorem smooth_updateSaved {run : Int} {etag : Option Bytes} {raw : Bytes} {parsed : Parsed}
    {c₁ : Conn Tables} {r : ResourceRow} (hr : Placed run calendar href parsed.uid c.now r)
    (hframe : c₁.now = { c.now with resources := c₁.now.resources })
    (hrows : ∀ x, x ∈ c₁.now.resources ↔ x = r ∨ x ∈ c.now.resources)
    {Q : Unit → Conn Tables → Prop} {E : RCError → Conn Tables → Prop}
    (h : ∀ c₂ : Conn Tables, c₂.undo = c₁.undo →
      c₂.now = { c.now with resources := c₂.now.resources } →
      Writes run calendar href etag raw parsed c.now c₂.now r → Q () c₂) :
    smooth (stmt saveError (updateSaved r.id
      (fun raw => ResourceRow.saved run href etag raw parsed.message parsed.uid) (fun _ _ => rfl)
      (.data raw))) Q E c₁ := by
  have hid : ∀ y ∈ c.now.resources, y.id = r.id → y = r := by
    intro y hy hid
    rcases hr.based with ⟨hm, -⟩ | ⟨-, hfresh⟩
    · exact Table.eq_of_key hy hm hid
    · exact absurd hid (hfresh y hy).1
  have honly : ∀ y ∈ c₁.now.resources, y.id = r.id → y = r := fun y hy he =>
    ((hrows y).1 hy).elim id fun hy => hid y hy he
  refine smooth_stmt (fun u t ht => ?_) fun m hm => ?_
  · obtain ⟨raw', hraw, hframe', hrows'⟩ := updateSaved_ok ht
    cases hraw
    refine h _ rfl ?_ ⟨hr.based, fun x => ?_⟩
    · show t = { c.now with resources := t.resources }
      rw [hframe']
      dsimp only
      rw [hframe]
    · show x ∈ t.resources ↔ _
      rw [hrows']
      constructor
      · intro ⟨y, hy, hx⟩
        by_cases hi : y.id = r.id
        · rw [if_pos (decide_eq_true hi), honly y hy hi] at hx
          exact .inl hx
        · rw [if_neg (by simpa using hi)] at hx
          subst hx
          exact .inr ⟨((hrows x).1 hy).resolve_left fun he => hi (congrArg ResourceRow.id he), hi⟩
      · rintro (rfl | ⟨hx, hi⟩)
        · exact ⟨r, (hrows r).2 (.inl rfl), (if_pos (decide_eq_true rfl)).symm⟩
        · exact ⟨x, (hrows x).2 (.inr hx), (if_neg (by simpa using hi)).symm⟩
  · unfold updateSaved at hm
    dsimp only [Buf.column] at hm
    split at hm
    · cases hm
    · rename_i hn
      have hfree : ∀ x ∈ c₁.now.resources, ∀ y ∈ c₁.now.resources, decide (x.id = r.id) = true →
          y ≠ x → (x.saved run href etag raw parsed.message parsed.uid).place ≠ y.place := by
        intro x hx y hy hpx hne he
        obtain rfl := honly x hx (of_decide_eq_true hpx)
        have hy : y ∈ c.now.resources := ((hrows y).1 hy).resolve_left hne
        exact hr.free hy (fun hi => hne (hid y hy hi)) (by rw [← he, ← hr.inside]; rfl)
      obtain ⟨t', ht'⟩ := Table.reassign_some (f := ResourceRow.saved run href etag raw
        parsed.message parsed.uid) (fun _ => rfl)
        (fun x hx y hy hpx hpy => (honly x hx (of_decide_eq_true hpx)).trans
          (honly y hy (of_decide_eq_true hpy)).symm) hfree
      rw [ht'] at hn
      cases hn

end

/-! ## The whole save, when nothing is refused -/

section
variable {t t' : Tables} {resource : Int} {root : Component} {p : Projection}

theorem occurrences (h : ∀ e ∈ p.events, e.resource = resource) :
    p.events.map EventRow.occurrence =
      (p.events.map EventRow.recurrenceID).map fun key => (resource, key) := by
  rw [List.map_map]
  refine List.map_congr_left fun e he => ?_
  simp [EventRow.occurrence, h e he]

theorem emit_events (h : root.emit resource none 0 t.ids = some p) :
    ∀ e ∈ p.events, e.resource = resource := fun e he =>
  ((emit_alone h).events e he).1

/-- A tree whose rows fit in is storable. -/
theorem storable_of_adds (h : root.emit resource none 0 t.ids = some p) (ha : Adds t t' p) :
    root.Storable := by
  have he := Emits.component resource none 0 root
  refine ⟨by rw [← he.isSome t.ids, h]; rfl, ?_⟩
  have hn := t'.events.nodup'
  rw [ha.events, List.map_append] at hn
  have hn := hn.of_append_right
  rw [occurrences (emit_events h), he.keys _ _ h] at hn
  exact hn.of_map

/-- Beside no event of the resource, the rows of a storable tree fit in. -/
theorem not_storable (hnone : ∀ e ∈ t.events, e.resource ≠ resource)
    (h : Refused (root.emit resource none 0) t) : ¬ root.Storable := by
  intro hs
  have he := Emits.component resource none 0 root
  have hsome := he.isSome t.ids
  rw [hs.complete] at hsome
  obtain ⟨p, hp⟩ := Option.isSome_iff_exists.1 hsome
  refine h p hp ?_
  rw [List.map_append, List.nodup_append]
  refine ⟨t.events.nodup', ?_, ?_⟩
  · rw [occurrences (emit_events hp), he.keys _ _ hp]
    exact hs.keys.map fun _ _ heq => (Prod.mk.inj heq).2
  · intro x hx y hy hxy
    obtain ⟨e, hem, rfl⟩ := List.mem_map.1 hx
    obtain ⟨e', hem', rfl⟩ := List.mem_map.1 hy
    refine hnone e hem ?_
    rw [← emit_events hp e' hem']
    exact congrArg Prod.fst hxy

theorem deleted_events (h : t.Closed) :
    ∀ e ∈ (t.deleteComponents fun r => r = resource).events, e.resource ≠ resource := by
  intro e he hr
  obtain ⟨hm, hkeep⟩ := Tables.mem_deleted_events.1 he
  obtain ⟨c, hc, hid, hres⟩ := h.events e hm
  exact of_decide_eq_false (hkeep c hc hid) (hres.trans hr)

end

/-- The rows of the resources after a save of `parsed` into `resource`. -/
def Replaced (resource : Int) (parsed : Parsed) (t t' : Tables) : Prop :=
  (∀ other, other ≠ resource → t'.projection other = t.projection other) ∧
    match parsed with
    | .ok (root, _) => Decomposes resource root (t'.projection resource)
    | .error _ => t'.projection resource = t.projection resource

section
variable {c : Conn Tables} {s : Store} {calendar : Int} {href raw : Bytes} {etag : Option Bytes}
  {reader : Reader}

theorem smooth_replaceRows {resource : Int} {parsed : Parsed} (h : c.now.Closed) :
    smooth (replaceRows resource parsed)
      (fun _ c' => c'.undo = c.undo ∧ c.now.Around c'.now ∧ Replaced resource parsed c.now c'.now ∧
        ∀ root uid, parsed = .ok (root, uid) → root.Storable)
      (fun _ c' => c'.undo = c.undo ∧
        ∃ root uid, parsed = .ok (root, uid) ∧ ¬ root.Storable) c := by
  cases parsed with
  | error e =>
    refine smooth_pure ⟨rfl, rfl, ⟨fun _ _ => rfl, rfl⟩, fun root uid he => ?_⟩
    cases he
  | ok accepted =>
    obtain ⟨root, uid⟩ := accepted
    refine smooth_bind (smooth_stmt (fun u t ht => ?_) fun m hm => by cases hm)
    cases ht
    have hclosed := Tables.deleted_closed (p := fun r => decide (r = resource)) h
    refine smooth_mono (storeComponent_settles resource 0 0 root _ hclosed.below)
      (fun _ c₁ hst => ?_) fun _ c₁ hr => ?_
    · obtain ⟨hu, p, hp, ha⟩ := hst
      have howned := emit_alone hp
      have hadded := ha.projection_added hclosed howned
        (Tables.deleted_none h (decide_eq_true rfl))
      refine ⟨hu, ?_, ⟨fun other ho => ?_,
        (c.now.deleteComponents fun r => r = resource).ids, ?_⟩, fun root' uid' he => ?_⟩
      · unfold Tables.Around
        rw [ha.frame]
        rfl
      · exact (ha.projection_other howned ho).trans
          (Tables.deleted_projection h (by simpa using ho))
      · exact hp.trans (congrArg some hadded.symm)
      · cases he
        exact storable_of_adds hp ha
    · exact ⟨hr.1, root, uid, rfl, not_storable (deleted_events h) hr.2⟩

/-- What a save that returns has done, from contents `t` to `t'`. -/
structure Done (run calendar : Int) (href : Bytes) (etag : Option Bytes) (raw : Bytes)
    (parsed : Parsed) (t t' : Tables) (r : ResourceRow) : Prop
    extends Saves run calendar href etag raw parsed t t' r where
  placed : Placed run calendar href parsed.uid t r
  replaced : Replaced r.id parsed t t'

/-- A save finds or inserts its row, unless the UIDs clash. -/
theorem smooth_row {uid : Option Bytes} {rest : Int → StoreM Unit} {Q : Unit → Conn Tables → Prop}
    {E : RCError → Conn Tables → Prop} (hcount : c.now.Counted)
    (h : c.now.clash s.run calendar href uid = false → ∀ r c',
      Placed s.run calendar href uid c.now r → c'.undo = c.undo →
      c'.now = { c.now with resources := c'.now.resources } →
      (∀ x, x ∈ c'.now.resources ↔ x = r ∨ x ∈ c.now.resources) → smooth (rest r.id) Q E c')
    (hE : c.now.clash s.run calendar href uid = true → E duplicateUID c) :
    smooth (do
      let found ← findRow s calendar href uid
      let resource ← ensureRow calendar href found
      rest resource) Q E c := by
  refine smooth_bind (smooth_findRow hcount (fun hn hf => ?_) (fun hn r hr => ?_) hE)
  · exact smooth_bind (smooth_ensureRow hcount (.inl ⟨rfl, hf⟩) (h hn))
  · exact smooth_bind (smooth_ensureRow hcount (.inr ⟨r, hr, rfl⟩) (h hn))

/-- **A save that nothing is refused to** returns, unless the UIDs clash or the tree is not
storable. -/
theorem smooth_save {parsed : Parsed} (hcount : c.now.Counted) (hclosed : c.now.Closed)
    (hparsed : reader.accept (.data raw) = parsed) :
    smooth (save reader s calendar href etag (.data raw))
      (fun _ c' => c'.undo = c.undo ∧ c.now.clash s.run calendar href parsed.uid = false ∧
        (∀ root uid, parsed = .ok (root, uid) → root.Storable) ∧
        ∃ r, Done s.run calendar href etag raw parsed c.now c'.now r)
      (fun _ c' => c'.undo = c.undo ∧ (c.now.clash s.run calendar href parsed.uid = true ∨
        ∃ root uid, parsed = .ok (root, uid) ∧ ¬ root.Storable)) c := by
  subst hparsed
  refine smooth_row hcount (fun hn r c₁ hr hu hframe hrows => ?_) fun hclash => ⟨rfl, .inl hclash⟩
  refine smooth_bind (smooth_gate (smooth_bind
    (smooth_updateSaved hr hframe hrows fun c₂ hu₂ hframe₂ hwrites => ?_)))
  have hsame (l : List Entry) : c.now.SameRows { c₂.now with history := l } := by
    rw [hframe₂]
    exact ⟨rfl, rfl, rfl, rfl⟩
  have hnoted (l : List Entry) : ({ c₂.now with history := l } : Tables) =
      { c.now with resources := c₂.now.resources, history := l } :=
    congrArg (fun t : Tables => { t with history := l }) hframe₂
  refine smooth_bind (smooth_note ?_)
  have hundo : c₂.undo = c.undo := hu₂.trans hu
  refine smooth_mono (smooth_replaceRows ((hsame _).closed hclosed)) (fun _ c' h => ?_)
    fun e c' h => ⟨h.1.trans hundo, .inr h.2⟩
  obtain ⟨hu', haround, hreplaced, hstorable⟩ := h
  have hwritten := Writes.saves ⟨hwrites.based, hwrites.rows⟩ (hnoted _) haround
  refine ⟨hu'.trans hundo, hn, hstorable, r, hwritten, hr, fun other ho => ?_, ?_⟩
  · exact (hreplaced.1 other ho).trans ((hsame _).projection other)
  · have hrows := hreplaced.2
    cases hacc : reader.accept (.data raw) with
    | error e =>
      rw [hacc] at hrows
      exact hrows.trans ((hsame _).projection r.id)
    | ok accepted =>
      rw [hacc] at hrows
      exact hrows

/-- A null pointer is not saved. -/
theorem smooth_saveNull {n : Nat} (hcount : c.now.Counted) :
    smooth (save reader s calendar href etag (.null n)) (fun _ _ => False) (fun _ _ => True) c := by
  refine smooth_row hcount (fun _ r c₁ _ _ _ _ => ?_) fun _ => trivial
  exact smooth_bind (smooth_gate (smooth_bind (smooth_stmt (fun _ _ ht => by cases ht)
    fun _ _ => trivial)))

/-- **What becomes of a download**, when the engine refuses nothing: for every body and every
contents of the tables, the save returns exactly when the UIDs do not clash and an accepted tree is
storable; what it has done then is `Done`, with the raw bytes and the message of the parser kept
where the body is not accepted. -/
theorem save_outcome (hcount : c.now.Counted) (hclosed : c.now.Closed) :
    ((∃ s', save reader s calendar href etag (.data raw) ⟨c, []⟩ = .ok () s') ↔
      c.now.clash s.run calendar href (Parsed.uid (reader.accept (.data raw))) = false ∧
        ∀ root uid, reader.accept (.data raw) = .ok (root, uid) → root.Storable) ∧
    ∀ s', save reader s calendar href etag (.data raw) ⟨c, []⟩ = .ok () s' →
      ∃ r, Done s.run calendar href etag raw (reader.accept (.data raw)) c.now s'.conn.now r := by
  have h := @smooth_save c s calendar href raw etag reader _ hcount hclosed rfl
  refine ⟨⟨fun ⟨s', hs'⟩ => ?_, fun ⟨hn, hst⟩ => ?_⟩, fun s' hs' => (smooth_ok h hs').2.2.2⟩
  · exact ⟨(smooth_ok h hs').2.1, (smooth_ok h hs').2.2.1⟩
  · cases hx : save reader s calendar href etag (.data raw) ⟨c, []⟩ with
    | ok u s' => exact ⟨s', rfl⟩
    | error e s' =>
      rcases (smooth_error h hx).2 with hc | ⟨root, uid, hp, hns⟩
      · rw [hn] at hc
        cases hc
      · exact absurd (hst root uid hp) hns

end

/-! ### The lunch under another href -/

theorem accept_lunch : lunchReader.accept (.data lunchBody) = .ok (lunch, ascii "lunch") := by
  have hp : lunchReader.parse (.data lunchBody) = .ok lunch := by
    have hi : Resource.parseICalendar lunchReader.toParsers lunchBody = .ok () := by decide +kernel
    simp [Reader.parse, hi, bind, Except.bind, show ∀ b, lunchReader.component b = lunch from
      fun _ => rfl]
  have hu : sharedUID none lunch.children = .ok (some (ascii "lunch")) := by decide +kernel
  simp [Reader.accept, hp, hu, bind, Except.bind]

def snackHref : Bytes := ascii "https://dav/home/snack.ics"

/-- The run that has seen the lunch refuses it under another href, a later run renames its row. -/
theorem save_outcome_lunch :
    (¬ ∃ s', save lunchReader ⟨1, 1, false⟩ 1 snackHref none (.data lunchBody)
      ⟨lunchSite.conn, []⟩ = .ok () s') ∧
    ∃ s', save lunchReader ⟨1, 2, false⟩ 1 snackHref none (.data lunchBody)
      ⟨lunchSite.conn, []⟩ = .ok () s' := by
  have hclosed : lunchSite.conn.now.Closed := by
    obtain ⟨past, h⟩ := reached_lunch
    exact (h.mirrors _ (Conn.now_mem_images _)).closed
  have hcount : lunchSite.conn.now.Counted := by
    show ∀ r ∈ lunchSite.conn.now.resources.rows, 0 < r.id
    decide +kernel
  refine ⟨fun h => ?_, ?_⟩
  · have hno := ((save_outcome hcount hclosed).1.1 h).1
    rw [accept_lunch] at hno
    exact absurd hno (by decide +kernel)
  · refine (save_outcome hcount hclosed).1.2 ?_
    rw [accept_lunch]
    refine ⟨by decide +kernel, fun root uid he => ?_⟩
    obtain rfl : lunch = root := congrArg Prod.fst (Except.ok.inj he)
    exact ⟨by decide +kernel, by decide +kernel⟩

end CalendarStore
