import Mathlib.Data.Finset.Dedup
import RetroCloudSync.Native.Record

/-!
# Property values as Cocoa has them

`RCSyncRecordEquality.h` over strings, numbers, URLs, dates and arrays of these: what counts as
empty, the defaults of the schema, floating dates, the sound of an alarm, and the three comparisons
that `RCRecordsEqual` is given.

`isEqual:` is equality of values, dates by instant, so it does not see whether a date is floating
(`erase`). A property is compared through `Form`, an alarm through `alarmSound`, an unordered array
through the set of its members (`unordered`).
-/

set_option autoImplicit false

namespace Native

/-- What Foundation does with URLs, characters and the local time zone. -/
class Foundation (U I : Type) where
  absoluteString : U → String
  scheme : U → Option String
  baseURL : U → Option U
  /-- `+URLWithString:`. -/
  urlWithString : String → Option U
  /-- `+fileURLWithPath:`. -/
  fileURLWithPath : String → U
  /-- `-rangeOfString:` finds the second string in the first one. -/
  contains : String → String → Bool
  /-- `+controlCharacterSet`. -/
  control : Char → Bool
  /-- A date in the local time zone, as `%Y%m%dT%H%M%S`. -/
  wallTime : I → String

/-- A value that is no array; a floating date is a calendar date in the local time zone. -/
inductive Scalar (U I : Type)
  | text (s : String)
  | number (n : Rat)
  | url (u : U)
  | date (instant : I) (floating : Bool)
deriving DecidableEq

/-- A property value. -/
inductive Cocoa (U I : Type)
  | scalar (s : Scalar U I)
  | array (l : List (Scalar U I))
deriving DecidableEq

variable {U I : Type}

/-- What `isEqual:` compares. -/
def Scalar.erase : Scalar U I → Scalar U I
  | date instant _ => date instant false
  | s => s

def Cocoa.erase : Cocoa U I → Cocoa U I
  | scalar s => scalar s.erase
  | array l => array (l.map Scalar.erase)

variable [DecidableEq U] [DecidableEq I] [Foundation U I]

open Foundation

/-- `RCNativeEmptyValue`. -/
def emptyValue : Option (Cocoa U I) → Bool
  | none => true
  | some (.scalar (.url u)) => absoluteString I u = ""
  | some (.scalar (.text s)) => s = ""
  | some (.array l) => l = []
  | _ => false

/-- `RCSyncFieldDefault`, as `RCNativeDefaultValue` hands it on. -/
def defaultValue (entity : Option String) (field : String) : Option (Cocoa U I) :=
  let text (s : String) : Option (Cocoa U I) := some (.scalar (.text s))
  let number (n : Int) : Option (Cocoa U I) := some (.scalar (.number n))
  if entity = some "com.apple.calendars.Event" then
    if field = "summary" then text "Untitled event"
    else if field = "all day" then number 0
    else if field = "status" then text "none"
    else if field = "classification" then text "public"
    else none
  else if entity = some "com.apple.calendars.Recurrence" then
    if field = "interval" then number 1
    else if field = "count" then number 0
    else if field = "weekstartday" then text "monday"
    else none
  else if entity = some "com.apple.calendars.Attendee" then
    if field = "rsvp" then number 0
    else if field = "role" then text "requiredparticipant"
    else if field = "status" then text "needsaction"
    else if field = "user type" then text "individual"
    else none
  else if entity = some "com.apple.contacts.Contact" ∧ field = "display as company" then
    text "person"
  else if (∃ e ∈ ["com.apple.contacts.Phone Number", "com.apple.contacts.Email Address",
      "com.apple.contacts.Street Address", "com.apple.contacts.URL", "com.apple.contacts.Date",
      "com.apple.contacts.Related Name", "com.apple.contacts.IM"], entity = some e) ∧
      field = "type" then
    text "other"
  else none

/-- `RCNativeFloatingDate`. -/
def floatingDate : Option (Cocoa U I) → Bool
  | some (.scalar (.date _ floating)) => floating
  | _ => false

/-- `RCNativeFloatingWallTime` of a date. -/
def wallTimeOf : Option (Cocoa U I) → Option String
  | some (.scalar (.date instant _)) => some (wallTime U instant)
  | _ => none

/-- An entity of a calendar. -/
def calendarEntity (entity : Option String) : Bool :=
  match entity with
  | none => false
  | some e => "com.apple.calendars.".toList.isPrefixOf e.toList

/-- `RCNativePropertyValuesEqual`. -/
def propertyValuesEqual (entity : Option String) (field : String) (x y : Option (Cocoa U I)) :
    Bool :=
  if calendarEntity entity && (floatingDate x || floatingDate y) then
    floatingDate x && floatingDate y && wallTimeOf x = wallTimeOf y
  else
    let default := defaultValue entity field
    let x := if default.isSome && emptyValue x then default else x
    let y := if default.isSome && emptyValue y then default else y
    (emptyValue x && emptyValue y) || (x.isSome && x.map Cocoa.erase = y.map Cocoa.erase)

/-- A member of an unordered array, made independent of the zone its date is in. -/
def canonical : Scalar U I → Scalar U I
  | .date instant true => .text ("floating:" ++ wallTime U instant)
  | s => s

/-- `RCNativeUnorderedValues`. -/
def unordered (l : List (Scalar U I)) : Finset (Scalar U I) := (l.map canonical).toFinset

/-- `RCRecordUnorderedEqual`. -/
def unorderedValuesEqual : Option (Cocoa U I) → Option (Cocoa U I) → Bool
  | some (.array l), some (.array l') => unordered l = unordered l'
  | _, _ => false

/-! ## Alarms -/

/-- `RCNativeLocalSoundURL`. -/
def localSoundURL (u : U) : Option U :=
  if "file://localhost/".toList.isPrefixOf (absoluteString I u).toList then
    urlWithString I (String.ofList ("file://".toList ++ (absoluteString I u).toList.drop 16))
  else some u

/-- A name that can stand for a system sound. -/
def soundName (name : String) : Bool :=
  name ≠ "." && name ≠ ".." && !contains U I name "/" && !name.toList.any (control U I)

/-- The file of a system sound. -/
def systemSound (name : String) : Option U :=
  localSoundURL (I := I) (fileURLWithPath I ("/System/Library/Sounds/" ++ name ++ ".aiff"))

/-- A value that is not empty. -/
def present (v : Option (Cocoa U I)) : Option (Cocoa U I) := if emptyValue v then none else v

/-- What the sound of an alarm can be given as: a URL, a name, or something else. -/
inductive Part (U : Type)
  | url (u : U)
  | text (s : String)
  | other

def Cocoa.part : Cocoa U I → Part U
  | scalar (.url u) => .url u
  | scalar (.text s) => .text s
  | _ => .other

/-- The sound that the URL and the name of a record stand for; none when they stand for none that
can be normalized. -/
def soundOf (url name : Option (Part U)) : Option (Option U) :=
  match url, name with
  | none, none => some none
  | some (.url u), none =>
    if (absoluteString I u).toList.any fun c => c = '\r' || c = '\n' then none
    else some (localSoundURL (I := I) u)
  | none, some (.text name) =>
    if soundName (U := U) (I := I) name then
      some (systemSound (I := I) name)
    else none
  | some (.url u), some (.text name) =>
    if (absoluteString I u).toList.any fun c => c = '\r' || c = '\n' then none
    else if soundName (U := U) (I := I) name then
      let url := localSoundURL (I := I) u
      if url.any fun u =>
          (scheme I u).isNone && (baseURL I u).isNone && absoluteString I u = name then some url
      else if url.isSome && url ≠ systemSound (I := I) name then none
      else some (systemSound (I := I) name)
    else none
  | _, _ => none

/-- `RCNativeAlarmSound`. -/
def alarmSound (r : Record (Cocoa U I)) : Option (Option U) :=
  soundOf (I := I) ((present (r.lookup "com.apple.ical.sound")).map Cocoa.part)
    ((present (r.lookup "sound")).map Cocoa.part)

/-- `RCRecordAlarmEqual`. -/
def alarmSoundsEqual (a b : Record (Cocoa U I)) : Option Bool :=
  match alarmSound a, alarmSound b with
  | some s, some s' => some (s = s')
  | _, _ => none

/-! ## Properties are compared through a form -/

/-- What the comparison of a property depends on. -/
inductive Form (U I : Type)
  | wall (s : Option String)
  | value (v : Option (Cocoa U I))

/-- The wall time of a floating date of a calendar; of any other value what `isEqual:` compares,
after the default has taken the place of an empty one. -/
def form (entity : Option String) (field : String) (v : Option (Cocoa U I)) : Form U I :=
  if calendarEntity entity && floatingDate v then .wall (wallTimeOf v)
  else .value ((if emptyValue v then defaultValue entity field else v).map Cocoa.erase)

omit [DecidableEq U] [DecidableEq I] in
theorem emptyValue_erase (v : Option (Cocoa U I)) :
    emptyValue (v.map Cocoa.erase) = emptyValue v := by
  cases v with
  | none => rfl
  | some v =>
    cases v with
    | scalar s => cases s <;> rfl
    | array l => simp [emptyValue, Cocoa.erase]

omit [DecidableEq U] [DecidableEq I] in
theorem defaultValue_nonempty {entity : Option String} {field : String} {v : Cocoa U I}
    (h : defaultValue entity field = some v) : emptyValue (some v) = false := by
  unfold defaultValue at h
  dsimp only at h
  split_ifs at h <;> (obtain rfl := Option.some.inj h; rfl)

omit [DecidableEq U] [DecidableEq I] in
theorem present_default (entity : Option String) (field : String) (x : Option (Cocoa U I)) :
    present (if (defaultValue entity field : Option (Cocoa U I)).isSome && emptyValue x then
      defaultValue entity field else x) =
      if emptyValue x then defaultValue entity field else x := by
  unfold present
  cases hd : (defaultValue entity field : Option (Cocoa U I)) with
  | none => simp
  | some d =>
    have hde := defaultValue_nonempty hd
    cases ex : emptyValue x <;> simp [ex, hde]

/-- Two values that are both empty, or the same for `isEqual:`. -/
theorem sameValue_iff (x y : Option (Cocoa U I)) :
    ((emptyValue x && emptyValue y) || (x.isSome && x.map Cocoa.erase = y.map Cocoa.erase)) = true ↔
      (present x).map Cocoa.erase = (present y).map Cocoa.erase := by
  have hx := emptyValue_erase x
  have hy := emptyValue_erase y
  unfold present
  cases ex : emptyValue x <;> cases ey : emptyValue y
  · cases x with
    | none => cases ex
    | some x => simp
  · -- one of them empty: the other is not the same
    have hne : x.map Cocoa.erase ≠ y.map Cocoa.erase := fun h => by
      rw [h, hy, ey, ex] at hx
      cases hx
    cases x with
    | none => cases ex
    | some x => simpa using hne
  · have hne : x.map Cocoa.erase ≠ y.map Cocoa.erase := fun h => by
      rw [h, hy, ey, ex] at hx
      cases hx
    cases y with
    | none => cases ey
    | some y => simpa using fun _ => hne
  · simp

theorem propertyValuesEqual_iff {entity : Option String} {field : String}
    {x y : Option (Cocoa U I)} :
    propertyValuesEqual entity field x y = true ↔ form entity field x = form entity field y := by
  unfold propertyValuesEqual form
  by_cases hf : (calendarEntity entity && (floatingDate x || floatingDate y)) = true
  · rw [if_pos hf]
    simp only [Bool.and_eq_true, Bool.or_eq_true] at hf
    obtain ⟨hcal, hf⟩ := hf
    cases hx : floatingDate x <;> cases hy : floatingDate y <;> simp_all
  · rw [if_neg hf]
    have hx : ¬ (calendarEntity entity && floatingDate x) = true := fun h => hf (by simp_all)
    have hy : ¬ (calendarEntity entity && floatingDate y) = true := fun h => hf (by simp_all)
    rw [if_neg hx, if_neg hy, Form.value.injEq, ← present_default entity field x,
      ← present_default entity field y]
    exact sameValue_iff _ _

omit [DecidableEq U] [DecidableEq I] in
/-- Without a default, values that compare equal are the same part of a sound. -/
theorem part_of_form {entity : Option String} {field : String} {x y : Option (Cocoa U I)}
    (hd : (defaultValue entity field : Option (Cocoa U I)) = none)
    (h : form entity field x = form entity field y) :
    (present x).map Cocoa.part = (present y).map Cocoa.part := by
  have hdate : ∀ v : Option (Cocoa U I), floatingDate v = true →
      (present v).map Cocoa.part = some .other := by
    intro v hv
    rcases v with _ | (_ | _ | _ | _) | _ <;> first
      | (cases hv; done)
      | (cases hv; rfl)
  have herase : ∀ v : Option (Cocoa U I),
      (present v).map Cocoa.part = ((present v).map Cocoa.erase).map Cocoa.part := by
    intro v
    rcases present v with _ | (_ | _ | _ | _) | _ <;> rfl
  unfold form at h
  rw [hd] at h
  by_cases hx : (calendarEntity entity && floatingDate x) = true
  · by_cases hy : (calendarEntity entity && floatingDate y) = true
    · simp only [Bool.and_eq_true] at hx hy
      rw [hdate x hx.2, hdate y hy.2]
    · rw [if_pos hx, if_neg hy] at h
      cases h
  · by_cases hy : (calendarEntity entity && floatingDate y) = true
    · rw [if_neg hx, if_pos hy] at h
      cases h
    · rw [if_neg hx, if_neg hy] at h
      rw [herase x, herase y]
      exact congrArg (Option.map Cocoa.part) (Form.value.inj h)

omit [DecidableEq I] in
theorem alarmSoundsEqual_refl {r r' : Record (Cocoa U I)}
    (hn : r.lookup "sound" = r'.lookup "sound")
    (hu : r.lookup "com.apple.ical.sound" = r'.lookup "com.apple.ical.sound") :
    alarmSoundsEqual r r' ≠ some false := by
  unfold alarmSoundsEqual alarmSound
  rw [hn, hu]
  split
  · rename_i s s' hs hs'
    obtain rfl := Option.some.inj (hs.symm.trans hs')
    simp
  · nofun

/-- The values of Cocoa, as `RCSyncPolicy.c` is given them. -/
instance : Value (Cocoa U I) where
  isEqual a b := a.erase = b.erase
  text
    | .scalar (.text s) => some s
    | _ => none
  children
    | .array l => some (l.filterMap fun
      | .text s => some s
      | _ => none)
    | _ => none
  array ids := .array (ids.map .text)
  propertyEqual := propertyValuesEqual
  unorderedEqual := unorderedValuesEqual
  alarmEqual := alarmSoundsEqual
  isEqual_refl _ := decide_eq_true rfl
  propertyEqual_refl _ _ _ := propertyValuesEqual_iff.2 rfl
  alarmEqual_sound _ _ hn hu := alarmSoundsEqual_refl hn hu

end Native
