import RetroCloudSync.Library.Transaction
import RetroCloudSync.CalendarStore.Tables

/-!
# Rows of a parsed resource

`storeComponent` is `RCStoreComponent`: it inserts the rows of a component, of its properties and
their parameters, of its event, and then those of its children. `Component.emit` says which rows
these are, given the ids that are still free; ids are handed out one after the other, so it also
says where the next rows go on. `storeComponent_stores`: whatever the engine refuses, a
`storeComponent` that returns has added exactly the rows that `emit` names.

`emit` fails where a column that is `NOT NULL` would be `NULL`, where a parameter has no `=`, and
where an event has no recurrence key.
-/

set_option autoImplicit false

namespace CalendarStore

open Library Library.Tx Journal

/-! ## Rows -/

/-- Rows of the four projection tables. -/
structure Projection where
  components : List ComponentRow
  properties : List PropertyRow
  parameters : List ParameterRow
  events : List EventRow
deriving DecidableEq, Repr

namespace Projection

def empty : Projection := ⟨[], [], [], []⟩

def append (p q : Projection) : Projection :=
  ⟨p.components ++ q.components, p.properties ++ q.properties, p.parameters ++ q.parameters,
    p.events ++ q.events⟩

def component (r : ComponentRow) : Projection := ⟨[r], [], [], []⟩
def property (r : PropertyRow) : Projection := ⟨[], [r], [], []⟩
def parameter (r : ParameterRow) : Projection := ⟨[], [], [r], []⟩
def event (r : EventRow) : Projection := ⟨[], [], [], [r]⟩

@[simp] theorem append_components (p q : Projection) :
    (p.append q).components = p.components ++ q.components := rfl
@[simp] theorem append_properties (p q : Projection) :
    (p.append q).properties = p.properties ++ q.properties := rfl
@[simp] theorem append_parameters (p q : Projection) :
    (p.append q).parameters = p.parameters ++ q.parameters := rfl
@[simp] theorem append_events (p q : Projection) :
    (p.append q).events = p.events ++ q.events := rfl

end Projection

/-- The next free id of the tables that number their rows. -/
structure Ids where
  component : Int
  property : Int
  parameter : Int
deriving DecidableEq, Repr

/-- The ids that are free after the rows of `p`. -/
def Ids.past (i : Ids) (p : Projection) : Ids :=
  ⟨i.component + p.components.length, i.property + p.properties.length,
    i.parameter + p.parameters.length⟩

theorem Ids.past_append (i : Ids) (p q : Projection) :
    i.past (p.append q) = (i.past p).past q := by
  simp [Ids.past, Int.add_assoc]

/-- Rows, given the ids that are free. -/
abbrev Emit := Ids → Option Projection

def Emit.nil : Emit := fun _ => some .empty

def Emit.andThen (f g : Emit) : Emit := fun i =>
  (f i).bind fun p => (g (i.past p)).map p.append

theorem Emit.andThen_some {f g : Emit} {i : Ids} {r : Projection} :
    f.andThen g i = some r ↔
      ∃ p q, f i = some p ∧ g (i.past p) = some q ∧ r = p.append q := by
  simp only [Emit.andThen, Option.bind_eq_some_iff, Option.map_eq_some_iff]
  constructor
  · rintro ⟨p, hp, q, hq, rfl⟩
    exact ⟨p, q, hp, hq, rfl⟩
  · rintro ⟨p, q, hp, hq, rfl⟩
    exact ⟨p, hp, q, hq, rfl⟩

/-! ## The rows of a component -/

/-- A parameter's text, cut at its first `=`. -/
def IcalParameter.split (p : IcalParameter) : Option (Bytes × Bytes) :=
  p.text.bind fun text =>
    if 0x3d ∈ text then some (text.takeWhile (· ≠ 0x3d), (text.dropWhile (· ≠ 0x3d)).tail)
    else none

def emitParameter (property : Int) (position : Nat) (p : IcalParameter) : Emit := fun i =>
  p.split.map fun cut => .parameter ⟨i.parameter, property, position, cut.1, cut.2⟩

def emitParameters (property : Int) : Nat → List IcalParameter → Emit
  | _, [] => .nil
  | position, p :: ps =>
    (emitParameter property position p).andThen (emitParameters property (position + 1) ps)

/-- `value_type`. -/
def IcalProperty.valueType (p : IcalProperty) : Option Bytes := p.value.bind IcalValue.kindName

def emitPropertyRow (component : Int) (position : Nat) (p : IcalProperty) : Emit := fun i =>
  p.name.map fun name =>
    .property ⟨i.property, component, position, name, p.content, p.valueType, p.text⟩

def emitProperty (component : Int) (position : Nat) (p : IcalProperty) : Emit := fun i =>
  (emitPropertyRow component position p).andThen (emitParameters i.property 0 p.parameters) i

def emitProperties (component : Int) : Nat → List IcalProperty → Emit
  | _, [] => .nil
  | position, p :: ps =>
    (emitProperty component position p).andThen (emitProperties component (position + 1) ps)

def LONG_MAX : Int := 0x7fffffffffffffff

/-- `strtol` in base 10, which stops at the bounds of a `long`. -/
def strtol (b : Bytes) : Int :=
  let b := b.dropWhile fun c => c = 0x20 || (0x09 ≤ c && c ≤ 0x0d)
  let digits := if b.head? = some 0x2d || b.head? = some 0x2b then b.tail else b
  let n : Int := (digits.takeWhile fun c => 0x30 ≤ c && c ≤ 0x39).foldl
    (fun n c => 10 * n + (c.toNat - 0x30)) 0
  if b.head? = some 0x2d then (if n ≤ LONG_MAX then -n else -LONG_MAX - 1)
  else if n ≤ LONG_MAX then n else LONG_MAX

/-- `atoi`: the low 32 bits, as an `int`. -/
def atoi (b : Bytes) : Int := (strtol b).bmod 0x100000000

/-- The columns of `events` that are read off the component. -/
def Component.columns (c : Component) : EventColumns where
  summary := c.value .summary
  description := c.value .description
  location := c.value .location
  url := c.value .url
  status := c.value .status
  classification := c.value .classification
  priority := ((c.value .priority).map atoi).getD 0
  sequence := c.sequence
  startValue := c.dtstart.format
  startKind := c.dtstart.kind (tzid (c.property .dtstart))
  startTZID := tzid (c.property .dtstart)
  endValue := c.dtend.format
  endKind := c.dtend.kind ((tzid (c.property .dtend)).orElse fun _ => tzid (c.property .dtstart))
  endTZID := (tzid (c.property .dtend)).orElse fun _ => tzid (c.property .dtstart)
  duration := c.value .duration
  allDay := c.dtstart.isDate

def emitEvent (resource component : Int) (c : Component) : Emit := fun _ =>
  if c.kind = .vevent then
    (c.value .uid).bind fun uid => (recurrenceKey c).map fun key =>
      .event ⟨component, resource, uid, key, c.columns⟩
  else some .empty

def emitComponentRow (resource : Int) (parent : Option Int) (position : Nat)
    (kindName : Option Bytes) : Emit := fun i =>
  kindName.map fun kind => .component ⟨i.component, resource, parent, kind, position⟩

mutual

/-- The rows of a component and of everything below it. -/
def Component.emit (resource : Int) (parent : Option Int) (position : Nat) : Component → Emit
  | c@⟨_, kindName, properties, _, _, _, children⟩ => fun i =>
    (emitComponentRow resource parent position kindName).andThen
      ((emitProperties i.component 0 properties).andThen
        ((emitEvent resource i.component c).andThen
          (emitChildren resource i.component 0 children))) i

def emitChildren (resource component : Int) : Nat → List Component → Emit
  | _, [] => .nil
  | position, c :: cs =>
    (c.emit resource (some component) position).andThen
      (emitChildren resource component (position + 1) cs)

end

/-- `p` holds the rows of a resource whose tree is `root`. -/
def Decomposes (resource : Int) (root : Component) (p : Projection) : Prop :=
  ∃ i, root.emit resource none 0 i = some p

/-! ## Inserting them -/

abbrev StoreOf (ρ : Type) := TxOf ρ RCError Tables

abbrev StoreM := StoreOf String

variable {ρ : Type} [Engine ρ]

/-- What `RCCalendarStoreSQL` reports. -/
def sqlError (m : String) : RCError := ⟨resultCode m, "Calendar database: " ++ m⟩

def Tables.ids (t : Tables) : Ids :=
  ⟨t.components.nextRowid ComponentRow.id, t.properties.nextRowid PropertyRow.id,
    t.parameters.nextRowid ParameterRow.id⟩

/-- `NULLIF(parent,0)`. -/
def nullIf (parent : Int) : Option Int := if parent = 0 then none else some parent

def insertComponent (resource parent : Int) (position : Nat) (kindName : Option Bytes)
    (t : Tables) : Except String (Int × Tables) :=
  match kindName with
  | none => .error "NOT NULL constraint failed: ical_components.kind"
  | some kind =>
    match t.components.insert ⟨t.ids.component, resource, nullIf parent, kind, position⟩ with
    | some components => .ok (t.ids.component, { t with components := components })
    | none => .error "UNIQUE constraint failed: ical_components.id"

def insertProperty (component : Int) (position : Nat) (p : IcalProperty) (t : Tables) :
    Except String (Int × Tables) :=
  match p.name with
  | none => .error "NOT NULL constraint failed: ical_properties.name"
  | some name =>
    match t.properties.insert
        ⟨t.ids.property, component, position, name, p.content, p.valueType, p.text⟩ with
    | some properties => .ok (t.ids.property, { t with properties := properties })
    | none => .error "UNIQUE constraint failed: ical_properties.id"

def insertParameter (property : Int) (position : Nat) (name value : Bytes) (t : Tables) :
    Except String (Unit × Tables) :=
  match t.parameters.insert ⟨t.ids.parameter, property, position, name, value⟩ with
  | some parameters => .ok ((), { t with parameters := parameters })
  | none => .error "UNIQUE constraint failed: ical_parameters.id"

def insertEvent (resource component : Int) (uid : Option Bytes) (key : Bytes)
    (columns : EventColumns) (t : Tables) : Except String (Unit × Tables) :=
  match uid with
  | none => .error "NOT NULL constraint failed: events.uid"
  | some uid =>
    match t.events.insert ⟨component, resource, uid, key, columns⟩ with
    | some events => .ok ((), { t with events := events })
    | none => .error "UNIQUE constraint failed: events.resource_id, events.recurrence_id"

def storeParameters (property : Int) : Nat → List IcalParameter → StoreOf ρ Unit
  | _, [] => pure ()
  | position, p :: ps =>
    match p.split with
    | none => throw ⟨1, "Invalid iCalendar parameter"⟩
    | some cut => do
      stmt sqlError (insertParameter property position cut.1 cut.2)
      storeParameters property (position + 1) ps

def storeProperties (component : Int) : Nat → List IcalProperty → StoreOf ρ Unit
  | _, [] => pure ()
  | position, p :: ps => do
    let property ← stmt sqlError (insertProperty component position p)
    storeParameters property 0 p.parameters
    storeProperties component (position + 1) ps

def storeEvent (resource component : Int) (c : Component) : StoreOf ρ Unit :=
  if c.kind = .vevent then
    match recurrenceKey c with
    | none => throw ⟨1, "Out of memory saving event identity"⟩
    | some key => stmt sqlError (insertEvent resource component (c.value .uid) key c.columns)
  else pure ()

mutual

/-- `RCStoreComponent`. -/
def storeComponent (resource parent : Int) (position : Nat) : Component → StoreOf ρ Unit
  | c@⟨_, kindName, properties, _, _, _, children⟩ => do
    let id ← stmt sqlError (insertComponent resource parent position kindName)
    storeProperties id 0 properties
    storeEvent resource id c
    storeChildren resource id 0 children

def storeChildren (resource id : Int) : Nat → List Component → StoreOf ρ Unit
  | _, [] => pure ()
  | position, c :: cs => do
    storeComponent resource id position c
    storeChildren resource id (position + 1) cs

end

/-! ## What they add -/

/-- `t'` is `t` with the rows of `p` at the end of its tables. -/
structure Adds (t t' : Tables) (p : Projection) : Prop where
  components : t'.components.rows = t.components.rows ++ p.components
  properties : t'.properties.rows = t.properties.rows ++ p.properties
  parameters : t'.parameters.rows = t.parameters.rows ++ p.parameters
  events : t'.events.rows = t.events.rows ++ p.events
  ids : t'.ids = t.ids.past p
  frame : t' = { t with components := t'.components, properties := t'.properties,
                        parameters := t'.parameters, events := t'.events }

namespace Adds

variable {t t₁ t' : Tables} {p q : Projection}

theorem refl (t : Tables) : Adds t t .empty where
  components := by simp [Projection.empty]
  properties := by simp [Projection.empty]
  parameters := by simp [Projection.empty]
  events := by simp [Projection.empty]
  ids := by simp [Ids.past, Projection.empty]
  frame := rfl

theorem trans (h : Adds t t₁ p) (h' : Adds t₁ t' q) : Adds t t' (p.append q) where
  components := by simp [h'.components, h.components]
  properties := by simp [h'.properties, h.properties]
  parameters := by simp [h'.parameters, h.parameters]
  events := by simp [h'.events, h.events]
  ids := by rw [h'.ids, h.ids, Ids.past_append]
  frame := by
    have h₁ := h.frame
    rw [h'.frame]
    rw [h₁]

end Adds

/-- The rows that `e` names were added, and nothing else happened. -/
def Stored (e : Emit) (c c' : Conn Tables) : Prop :=
  c'.undo = c.undo ∧ ∃ p, e c.now.ids = some p ∧ Adds c.now c'.now p

namespace Stored

variable {c c₁ c' : Conn Tables} {f g : Emit}

theorem nil : Stored .nil c c := ⟨rfl, .empty, rfl, .refl _⟩

theorem andThen (h : Stored f c c₁) (h' : Stored g c₁ c') : Stored (f.andThen g) c c' := by
  obtain ⟨hu, p, hp, ha⟩ := h
  obtain ⟨hu', q, hq, ha'⟩ := h'
  refine ⟨hu'.trans hu, p.append q, Emit.andThen_some.2 ⟨p, q, hp, ?_, rfl⟩, ha.trans ha'⟩
  rw [← ha.ids]
  exact hq

end Stored

section
variable {c : Conn Tables} {t : Tables} {resource : Int}

theorem insertComponent_stored {parent id : Int} {position : Nat} {kindName : Option Bytes}
    (h : insertComponent resource parent position kindName c.now = .ok (id, t)) :
    id = c.now.ids.component ∧
      Stored (emitComponentRow resource (nullIf parent) position kindName) c
        { c with now := t } := by
  cases kindName with
  | none => cases h
  | some kind =>
    unfold insertComponent at h
    dsimp only at h
    split at h
    · rename_i components hi
      cases h
      refine ⟨rfl, rfl, _, rfl, ?_⟩
      exact
        { components := Table.insert_rows hi
          properties := (List.append_nil _).symm
          parameters := (List.append_nil _).symm
          events := (List.append_nil _).symm
          ids := by
            have hn : components.nextRowid ComponentRow.id = _ := Table.nextRowid_insert hi rfl
            simp [Tables.ids, Ids.past, Projection.component, hn]
          frame := rfl }
    · cases h

theorem insertProperty_stored {component id : Int} {position : Nat} {p : IcalProperty}
    (h : insertProperty component position p c.now = .ok (id, t)) :
    id = c.now.ids.property ∧
      Stored (emitPropertyRow component position p) c { c with now := t } := by
  unfold insertProperty at h
  split at h
  · cases h
  · rename_i name hname
    split at h
    · rename_i properties hi
      cases h
      refine ⟨rfl, rfl, _, by simp [emitPropertyRow, hname]; rfl, ?_⟩
      exact
        { components := (List.append_nil _).symm
          properties := Table.insert_rows hi
          parameters := (List.append_nil _).symm
          events := (List.append_nil _).symm
          ids := by
            have hn : properties.nextRowid PropertyRow.id = _ := Table.nextRowid_insert hi rfl
            simp [Tables.ids, Ids.past, Projection.property, hn]
          frame := rfl }
    · cases h

theorem insertParameter_stored {property : Int} {position : Nat} {p : IcalParameter}
    {cut : Bytes × Bytes} (hp : p.split = some cut) {u : Unit}
    (h : insertParameter property position cut.1 cut.2 c.now = .ok (u, t)) :
    Stored (emitParameter property position p) c { c with now := t } := by
  unfold insertParameter at h
  split at h
  · rename_i parameters hi
    cases h
    refine ⟨rfl, _, by simp [emitParameter, hp]; rfl, ?_⟩
    exact
      { components := (List.append_nil _).symm
        properties := (List.append_nil _).symm
        parameters := Table.insert_rows hi
        events := (List.append_nil _).symm
        ids := by
          have hn : parameters.nextRowid ParameterRow.id = _ := Table.nextRowid_insert hi rfl
          simp [Tables.ids, Ids.past, Projection.parameter, hn]
        frame := rfl }
  · cases h

theorem insertEvent_stored {component : Int} {x : Component} {key : Bytes}
    (hx : x.kind = .vevent) (hk : recurrenceKey x = some key) {u : Unit}
    (h : insertEvent resource component (x.value .uid) key x.columns c.now = .ok (u, t)) :
    Stored (emitEvent resource component x) c { c with now := t } := by
  unfold insertEvent at h
  split at h
  · cases h
  · rename_i uid hu
    split at h
    · rename_i events hi
      cases h
      refine ⟨rfl, _, by simp [emitEvent, hx, hu, hk]; rfl, ?_⟩
      exact
        { components := (List.append_nil _).symm
          properties := (List.append_nil _).symm
          parameters := (List.append_nil _).symm
          events := Table.insert_rows hi
          ids := by simp [Tables.ids, Ids.past, Projection.event]
          frame := rfl }
    · cases h

end

/-- Whatever is refused, `x` adds the rows of `e` or fails with the held images as they were. -/
def Stores (e : Emit) (x : StoreM Unit) : Conn Tables → Prop :=
  fun c => wp x (fun _ c' => Stored e c c') (fun _ c' => c'.undo = c.undo) c

section
variable {c : Conn Tables}

theorem stores_nil : Stores .nil (pure ()) c := wp_pure .nil

/-- Rows after other rows. -/
theorem stores_then {f g : Emit} {y : StoreM Unit} {c₁ : Conn Tables} (h : Stored f c c₁)
    (hy : Stores g y c₁) :
    wp y (fun _ c' => Stored (f.andThen g) c c') (fun _ c' => c'.undo = c.undo) c₁ :=
  wp_mono hy (fun _ _ h' => h.andThen h') fun _ _ h' => h'.trans h.1

theorem stores_seq {f g : Emit} {x : StoreM Unit} {y : StoreM Unit} (hx : Stores f x c)
    (hy : ∀ c₁, Stored f c c₁ → Stores g y c₁) : Stores (f.andThen g) (do x; y) c :=
  wp_bind (wp_mono hx (fun _ c₁ h => stores_then h (hy c₁ h)) fun _ _ h => h)

theorem storeParameters_stores (property : Int) (position : Nat) (ps : List IcalParameter) :
    Stores (emitParameters property position ps) (storeParameters property position ps) c := by
  induction ps generalizing position c with
  | nil => exact stores_nil
  | cons p ps ih =>
    unfold storeParameters
    split
    · exact wp_throw rfl
    · rename_i cut hp
      refine stores_seq (wp_stmt (fun u t h => insertParameter_stored hp h) fun _ => rfl) ?_
      exact fun c₁ _ => ih (position + 1)

theorem storeProperties_stores (component : Int) (position : Nat) (ps : List IcalProperty) :
    Stores (emitProperties component position ps) (storeProperties component position ps) c := by
  induction ps generalizing position c with
  | nil => exact stores_nil
  | cons p ps ih =>
    unfold storeProperties
    refine wp_bind (wp_stmt (fun id t h => ?_) fun _ => rfl)
    obtain ⟨rfl, hrow⟩ := insertProperty_stored h
    -- the id of the row is the one its parameters refer to
    refine wp_bind (wp_mono (stores_then hrow (storeParameters_stores _ 0 p.parameters)) ?_
      fun _ _ h => h)
    exact fun _ c₂ h₂ => stores_then (f := emitProperty component position p) h₂
      (ih (position + 1))

theorem storeEvent_stores (resource component : Int) (x : Component) :
    Stores (emitEvent resource component x) (storeEvent resource component x) c := by
  unfold storeEvent
  split
  · rename_i hx
    split
    · exact wp_throw rfl
    · rename_i key hk
      exact wp_stmt (fun u t h => insertEvent_stored hx hk h) fun _ => rfl
  · rename_i hx
    refine wp_pure ⟨rfl, .empty, ?_, .refl _⟩
    simp [emitEvent, hx]

theorem nullIf_ids (t : Tables) : nullIf t.ids.component = some t.ids.component := by
  have hp := t.components.nextRowid_pos ComponentRow.id
  rw [nullIf, if_neg]
  show t.components.nextRowid ComponentRow.id ≠ 0
  omega

mutual

/-- **`RCStoreComponent` adds the rows that `emit` names**, whatever the engine refuses, or it
fails. -/
theorem storeComponent_stores (resource parent : Int) (position : Nat) : ∀ (x : Component)
    (c : Conn Tables), Stores (x.emit resource (nullIf parent) position)
      (storeComponent resource parent position x) c
  | ⟨kind, kindName, properties, sequence, dtstart, dtend, children⟩, c => by
    unfold storeComponent Component.emit
    refine wp_bind (wp_stmt (fun id t h => ?_) fun _ => rfl)
    obtain ⟨rfl, hrow⟩ := insertComponent_stored h
    refine stores_then hrow ?_
    refine stores_seq (storeProperties_stores _ 0 properties) fun c₁ _ => ?_
    refine stores_seq (storeEvent_stores resource _ _) fun c₂ _ => ?_
    exact storeChildren_stores resource _ 0 children c₂ (nullIf_ids c.now)

theorem storeChildren_stores (resource id : Int) (position : Nat) : ∀ (xs : List Component)
    (c : Conn Tables), nullIf id = some id → Stores (emitChildren resource id position xs)
      (storeChildren resource id position xs) c
  | [], c, _ => by
    unfold emitChildren storeChildren
    exact stores_nil
  | x :: xs, c, hid => by
    unfold emitChildren storeChildren
    have hx := storeComponent_stores resource id position x c
    rw [hid] at hx
    exact stores_seq hx fun c₁ _ => storeChildren_stores resource id (position + 1) xs c₁ hid

end

end

end CalendarStore
