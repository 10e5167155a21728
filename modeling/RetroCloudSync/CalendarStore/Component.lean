import RetroCloudSync.Resource.Parse

/-!
# Parsed calendar resources

`Component` is what the accessors of libical say about a parsed tree: the component and property
kinds the code tells apart, and every text it stores. The tree itself is the field `component` of
`Reader`; `RCICalendar.c` reads identities, times and time zones out of it.

A `const char *` is an `Option Bytes`, a `struct icaltimetype` its fields.
-/

set_option autoImplicit false

namespace CalendarStore

open Library Journal

/-! ## Trees -/

/-- `struct icaltimetype`. -/
structure IcalTime where
  year : Int
  month : Int
  day : Int
  hour : Int
  minute : Int
  second : Int
  isDate : Bool
  isUTC : Bool
deriving DecidableEq, Repr

/-- A time of the tree, with what `icaltime_is_null_time` says of it. -/
structure TreeTime extends IcalTime where
  isNull : Bool
deriving DecidableEq, Repr

/-- A parameter: its text, and what it says when it is a `TZID`. -/
structure IcalParameter where
  text : Option Bytes
  isTZID : Bool
  tzid : Option Bytes
deriving DecidableEq, Repr

/-- A value: `icalvalue_kind_to_string` of its kind, and its text when the kind is `TEXT`. -/
structure IcalValue where
  kindName : Option Bytes
  isText : Bool
  text : Option Bytes
deriving DecidableEq, Repr

/-- The property kinds that are looked for. -/
inductive PropertyKind
  | uid | recurrenceID | summary | description | location | url | status | classification
  | priority | duration | dtstart | dtend | other
deriving DecidableEq, Repr

structure IcalProperty where
  kind : PropertyKind
  /-- `icalproperty_get_property_name`. -/
  name : Option Bytes
  value : Option IcalValue
  /-- `icalproperty_get_value_as_string`. -/
  valueString : Option Bytes
  /-- `icalproperty_as_ical_string_r`. -/
  text : Option Bytes
  parameters : List IcalParameter
deriving DecidableEq, Repr

inductive ComponentKind
  | vevent | vtimezone | other
deriving DecidableEq, Repr

structure Component where
  kind : ComponentKind
  /-- `icalcomponent_kind_to_string`. -/
  kindName : Option Bytes
  properties : List IcalProperty
  sequence : Int
  dtstart : TreeTime
  dtend : TreeTime
  children : List Component

/-! ## Values -/

/-- The text of a value that is one, and the string of any other. -/
def IcalProperty.content (p : IcalProperty) : Option Bytes :=
  match p.value with
  | some v => if v.isText then v.text else p.valueString
  | none => p.valueString

namespace Component

/-- `icalcomponent_get_first_property`. -/
def property (c : Component) (kind : PropertyKind) : Option IcalProperty :=
  c.properties.find? fun p => p.kind = kind

/-- `RCICalendarValue`. -/
def value (c : Component) (kind : PropertyKind) : Option Bytes :=
  match c.property kind with
  | some p => if p.value.isSome then p.content else none
  | none => none

end Component

/-- `RCICalendarTZID`. -/
def tzid (p : Option IcalProperty) : Option Bytes :=
  (p.bind fun p => p.parameters.find? IcalParameter.isTZID).bind IcalParameter.tzid

/-- `RCICalendarRecurrenceKey`; `%s` of a null pointer is `(null)`. -/
def recurrenceKey (c : Component) : Option Bytes :=
  let p := c.property .recurrenceID
  let zone := (tzid p).getD []
  match p with
  | none => some []
  | some p => p.valueString.map fun value =>
    let kind := (p.value.bind IcalValue.kindName).getD (ascii "(null)")
    (kind ++ ascii ":" ++ zone ++ ascii ":" ++ value).take (value.length + zone.length + 31)

/-! ## Times -/

/-- `%0wd`. -/
def padded (w : Nat) (n : Int) : Bytes :=
  let digits := ascii (toString n.natAbs)
  let sign := if n < 0 then ascii "-" else []
  sign ++ List.replicate (w - sign.length - digits.length) 0x30 ++ digits

namespace TreeTime

/-- `RCICalendarFormatTime` into 32 bytes. -/
def format (t : TreeTime) : Bytes :=
  let date := padded 4 t.year ++ ascii "-" ++ padded 2 t.month ++ ascii "-" ++ padded 2 t.day
  let time := padded 2 t.hour ++ ascii ":" ++ padded 2 t.minute ++ ascii ":" ++ padded 2 t.second
  if t.isNull then []
  else if t.isDate then date.take 31
  else (date ++ ascii "T" ++ time ++ if t.isUTC then ascii "Z" else []).take 31

/-- `RCICalendarTimeKind`. -/
def kind (t : TreeTime) (tz : Option Bytes) : Bytes :=
  if t.isNull then ascii "missing"
  else if t.isDate then ascii "date"
  else if t.isUTC then ascii "utc"
  else if tz.isSome then ascii "zoned"
  else ascii "floating"

end TreeTime

/-! ## Parsing -/

/-- The parsers, and the tree that libical makes of an accepted text. -/
structure Reader extends Resource.Parsers where
  component : Bytes → Component

/-- `RCICalendarParse`. -/
def Reader.parse (reader : Reader) : Buf → Except RCError Component
  | .null _ => .error ⟨1, "Invalid or incomplete iCalendar component framing"⟩
  | .data b => do
    Resource.parseICalendar reader.toParsers b
    .ok (reader.component (Resource.omitEmptyOptionalProperties b.length b))

/-- The loop of `RCCalendarStoreSave` over the children: the UID they share. -/
def sharedUID : Option Bytes → List Component → Except RCError (Option Bytes)
  | uid, [] => .ok uid
  | uid, child :: rest =>
    if child.kind = .vtimezone then sharedUID uid rest
    else match child.value .uid with
      | some next =>
        if uid.isSome && uid ≠ some next then
          .error ⟨1, "Calendar resource has missing or conflicting UIDs"⟩
        else sharedUID (some next) rest
      | none => .error ⟨1, "Calendar resource has missing or conflicting UIDs"⟩

/-- The tree and the UID of a body that parses and passes the check of its UIDs. -/
def Reader.accept (reader : Reader) (body : Buf) : Except RCError (Component × Bytes) := do
  let root ← reader.parse body
  match ← sharedUID none root.children with
  | some uid => .ok (root, uid)
  | none => .error ⟨1, "Calendar resource contains no event or task"⟩

end CalendarStore
