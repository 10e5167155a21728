import RetroCloudSync.Resource.Parse

/-!
# Patching a resource

`RCResourcePatch.c`. The base is read one logical line at a time. Every line moves the `Frame` of
open components; then every edit looks at the line and may take it as its target, or, at the `END`
of its component, as the place to append at. The patches that were found are sorted by their
offset and spliced into the base.

A C string is its bytes. Running out of memory is modelled only as far as `add` itself refuses,
beyond `INT_MAX` bytes.
-/

set_option autoImplicit false

namespace Resource

open Library Library.Text Journal

/-- `RCResourceEdit`. -/
structure Edit where
  component : Nat
  property : Option Bytes
  group : Option Bytes
  occurrence : Int
  value : Option Bytes
  parameters : Option Bytes
  replacementGroup : Option Bytes
  replacementProperty : Option Bytes
deriving DecidableEq, Repr

/-- `Patch`. -/
structure Patch where
  start : Nat
  stop : Nat
  replacement : Bytes
  found : Bool
  seen : Nat
deriving DecidableEq, Repr

/-! ## Buffers -/

/-- `add`. -/
def add (b p : Bytes) : Option Bytes :=
  if p.length ≤ INT_MAX ∧ b.length + p.length ≤ INT_MAX then some (b ++ p) else none

/-- One `add` after the other. -/
def addAll (b : Bytes) (ps : List Bytes) : Option Bytes := ps.foldlM add b

def memory : RCError := ⟨1, "Out of memory applying resource edits"⟩

/-! ## Names -/

def isAlphaNum (c : UInt8) : Bool :=
  (0x41 ≤ c && c ≤ 0x5a) || (0x61 ≤ c && c ≤ 0x7a) || (0x30 ≤ c && c ≤ 0x39)

/-- `token`. -/
def token : Option Bytes → Bool
  | none => false
  | some s => s ≠ [] && s.all fun c => isAlphaNum c || c = 0x2d

/-- The property names `allowed` lists for a component. -/
def fields (component : Bytes) : List Bytes :=
  if component = ascii "VCARD" then
    [ascii "N", ascii "FN", ascii "NICKNAME", ascii "ORG", ascii "TITLE", ascii "BDAY",
     ascii "NOTE", ascii "PHOTO", ascii "TEL", ascii "EMAIL", ascii "ADR", ascii "URL",
     ascii "X-ABLABEL", ascii "X-ABADR", ascii "X-ABSHOWAS", ascii "X-PHONETIC-FIRST-NAME",
     ascii "X-PHONETIC-MIDDLE-NAME", ascii "X-PHONETIC-LAST-NAME", ascii "X-PHONETIC-ORG",
     ascii "X-ABDATE", ascii "X-ABRELATEDNAMES", ascii "IMPP", ascii "X-AIM", ascii "X-JABBER",
     ascii "X-MSN", ascii "X-YAHOO", ascii "X-ICQ"]
  else if component = ascii "VEVENT" then
    [ascii "SUMMARY", ascii "DESCRIPTION", ascii "LOCATION", ascii "URL", ascii "DTSTART",
     ascii "DTEND", ascii "DURATION", ascii "STATUS", ascii "CLASS", ascii "PRIORITY",
     ascii "RRULE", ascii "EXDATE", ascii "ORGANIZER", ascii "ATTENDEE"]
  else if component = ascii "VALARM" then
    [ascii "DESCRIPTION", ascii "SUMMARY", ascii "TRIGGER", ascii "REPEAT", ascii "DURATION",
     ascii "ACTION", ascii "ATTACH"]
  else []

/-- `allowed`; for a name without bars `strstr` finds a whole entry of the list or nothing. -/
def allowed (component name : Bytes) : Bool := (fields component).contains (name.map upper)

/-- `colon`: what stands before and after the first colon outside quotes. -/
def colon : Bool → Bytes → Option (Bytes × Bytes)
  | _, [] => none
  | quoted, c :: line =>
    let quoted := if c = 0x22 then !quoted else quoted
    if c = 0x3a ∧ quoted = false then some ([], line)
    else (colon quoted line).map fun s => (c :: s.1, s.2)

/-- What the patcher reads off a line before its colon (`head`). -/
structure Property where
  head : Bytes
  group : Bytes
  name : Bytes
  params : Bytes
deriving DecidableEq, Repr

/-- The group ends at the first dot and the name at the first semicolon. -/
def property (head : Bytes) : Property :=
  let field := head.takeWhile fun c => c ≠ 0x3b
  let params := head.dropWhile fun c => c ≠ 0x3b
  if 0x2e ∈ field then
    ⟨head, field.takeWhile fun c => c ≠ 0x2e, (field.dropWhile fun c => c ≠ 0x2e).tail, params⟩
  else ⟨head, [], field, params⟩

/-! ## Folding -/

/-- Back from a cut in the middle of a UTF-8 character. -/
def backUp (line : Bytes) : Nat → Nat
  | 0 => 0
  | n + 1 => if (line.getD (n + 1) 0) &&& 0xc0 = 0x80 then backUp line n else n + 1

/-- The length of the next physical line. -/
def cut (limit : Nat) (line : Bytes) : Nat :=
  if limit < line.length then backUp line limit else line.length

/-- The loop of `folded`; the fuel is the number of bytes left. -/
def foldLoop : Nat → Bytes → Bool → Bytes → Option Bytes
  | 0, out, _, _ => some out
  | fuel + 1, out, first, line =>
    if line = [] then some out
    else
      let n := cut (if first then 75 else 74) line
      if n = 0 then none
      else
        (addAll out [if first then [] else [SP], line.take n, CRLF]).bind fun out =>
          foldLoop fuel out false (line.drop n)

/-- `folded`, with an empty buffer to begin with. -/
def folded (head value : Bytes) : Option Bytes :=
  (addAll [] [head, value]).bind fun line => foldLoop line.length [] true line

/-! ## Edits -/

/-- `"a" "."` for a group. -/
def groupPieces : Option Bytes → List Bytes
  | none => []
  | some g => [g, [0x2e]]

/-- `";" "a"` for parameters that are not empty. -/
def parameterPieces (p : Bytes) : List Bytes := if p = [] then [] else [[0x3b], p]

/-- The first check of an edit. -/
def properNames (format : Format) (e : Edit) : Bool :=
  token e.property && (e.group.isNone || token e.group) &&
    (e.replacementProperty.isNone || token e.replacementProperty) &&
    (e.replacementGroup.isNone || (format = .vcard && token e.replacementGroup)) &&
    -1 ≤ e.occurrence &&
    (e.occurrence ≠ -1 || (e.replacementGroup.isNone && e.replacementProperty.isNone &&
      e.value.isSome)) &&
    (e.value.getD []).all fun c => !isBreak c

/-- The second check of an edit. -/
def properParameters (e : Edit) : Bool :=
  match e.parameters with
  | none => true
  | some p => (p = [] || p.contains 0x3d) && p.all fun c =>
      isAlphaNum c || (ascii "=,;-_./").contains c

/-- The line an edit appends, up to its colon. -/
def Edit.appendHead (e : Edit) : List Bytes :=
  groupPieces e.group ++ [e.property.getD []] ++ parameterPieces (e.parameters.getD []) ++ [[0x3a]]

/-- The line that replaces `p`, up to its colon. -/
def Edit.replaceHead (e : Edit) (p : Property) : List Bytes :=
  if e.parameters.isSome || e.replacementGroup.isSome || e.replacementProperty.isSome then
    groupPieces (e.replacementGroup.or e.group) ++
      [(e.replacementProperty.or e.property).getD []] ++
      (e.parameters.map parameterPieces).getD [p.params] ++ [[0x3a]]
  else [p.head ++ [0x3a]]

/-- What an edit writes: the line with this head and its value, folded. -/
def Edit.write (e : Edit) (head : List Bytes) : Option Bytes :=
  (addAll [] head).bind fun head => folded head (e.value.getD [])

/-- The edit appends to this component. -/
def Edit.appends (e : Edit) (number : Nat) : Bool := e.component = number && e.occurrence = -1

/-- The edit counts this property of this component. -/
def Edit.selects (e : Edit) (number : Nat) (p : Property) : Bool :=
  e.component = number && e.occurrence ≠ -1 && sameLetters (e.property.getD []) p.name &&
    sameLetters (e.group.getD []) p.group

/-! ## Errors -/

/-- The bytes of a token, at most 64 of them, as text. -/
def tokenText (s : Bytes) : String := String.ofList ((s.take 64).map fun c => Char.ofNat c.toNat)

/-- `invalid`, outside of any edit. -/
def structural (reason : String) : RCError := ⟨1, "Resource patch: " ++ reason⟩

/-- `invalid`, for the edit at an index. -/
def refused (i : Nat) (e : Edit) (reason : String) : RCError :=
  ⟨1, "Resource patch edit " ++ toString i ++ " (component " ++ toString e.component ++
    ", property " ++ (if token e.property then tokenText (e.property.getD []) else "<invalid>") ++
    ", occurrence " ++ toString e.occurrence ++ "): " ++ reason⟩

/-- The checks of all edits. -/
def checkEdits (format : Format) : Nat → List Edit → Except RCError Unit
  | _, [] => .ok ()
  | i, e :: es =>
    if ¬ properNames format e then
      .error (refused i e "invalid property, occurrence, or unescaped newline")
    else if ¬ properParameters e then .error (refused i e "invalid property parameters")
    else checkEdits format (i + 1) es

/-! ## Lines -/

/-- One logical line and what comes after it; the fuel is the number of bytes left. -/
def logicalLine : Nat → Bytes → Bytes × Bytes
  | 0, b => ([], b)
  | n + 1, b =>
    let (content, rest) := physical b
    if startsBlank rest then
      let (more, rest) := logicalLine n rest.tail
      (content ++ more, rest)
    else (content, rest)

/-- The logical lines with their bytes; the fuel is the number of bytes left. -/
def readLines : Nat → Bytes → List Line
  | 0, _ => []
  | n + 1, b =>
    if b = [] then []
    else
      let (text, rest) := logicalLine b.length b
      ⟨b.take (b.length - rest.length), text⟩ :: readLines n rest

/-! ## Components -/

/-- The open components, innermost first, each with its number and its kind. -/
structure Frame where
  stack : List (Nat × Bytes)
  components : Nat
  closed : Bool
deriving DecidableEq, Repr

/-- What a line is. -/
inductive Role
  | blank
  | opens
  | closes (number : Nat) (kind : Bytes)
  | property (number : Nat) (kind : Bytes) (p : Property)
deriving DecidableEq, Repr

def root : Format → Bytes
  | .vcard => ascii "VCARD"
  | .calendar => ascii "VCALENDAR"

/-- The component structure of one line; `none` where it is invalid. -/
def classify (format : Format) (f : Frame) (text : Bytes) : Option (Role × Frame) :=
  if text = [] then some (.blank, f)
  else
    match colon false text with
    | none => none
    | some (head, rest) =>
      if startsWith (ascii "BEGIN:") text then
        if f.closed || f.stack.length = 64 || 32 ≤ rest.length then none
        else if f.stack = [] && !sameLetters rest (root format) then none
        else if format = .vcard && f.stack ≠ [] then none
        else some (.opens, { f with stack := (f.components, rest.map upper) :: f.stack,
                                    components := f.components + 1 })
      else
        match f.stack with
        | [] => none
        | (number, kind) :: outer =>
          if startsWith (ascii "END:") text then
            if sameLetters rest kind then
              some (.closes number kind, { f with stack := outer, closed := outer = [] })
            else none
          else some (.property number kind (property head), f)

/-! ## The scan -/

/-- An edit with its index and its patch. -/
structure Task where
  index : Nat
  edit : Edit
  patch : Patch
deriving DecidableEq, Repr

def notWritable (t : Task) : RCError :=
  refused t.index t.edit "property is not writable in this component"

/-- What an edit does at a line that starts and stops at these offsets. -/
def visit (start stop : Nat) (role : Role) (t : Task) : Except RCError Task :=
  match role with
  | .blank | .opens => .ok t
  | .closes number kind =>
    if t.edit.appends number then
      if allowed kind (t.edit.property.getD []) then
        match t.edit.write t.edit.appendHead with
        | some r => .ok { t with patch := ⟨start, start, r, true, t.patch.seen⟩ }
        | none => .error memory
      else .error (notWritable t)
    else .ok t
  | .property number kind p =>
    if t.edit.selects number p then
      if (t.patch.seen : Int) = t.edit.occurrence then
        if allowed kind (t.edit.property.getD []) &&
            (t.edit.replacementProperty.isNone ||
              allowed kind (t.edit.replacementProperty.getD [])) then
          if t.edit.value.isSome then
            match t.edit.write (t.edit.replaceHead p) with
            | some r => .ok { t with patch := ⟨start, stop, r, true, t.patch.seen + 1⟩ }
            | none => .error memory
          else .ok { t with patch := ⟨start, stop, t.patch.replacement, true, t.patch.seen + 1⟩ }
        else .error (notWritable t)
      else .ok { t with patch := { t.patch with seen := t.patch.seen + 1 } }
    else .ok t

structure Scan where
  frame : Frame
  pos : Nat
  tasks : List Task

/-- One line: its place in the structure, then every edit in turn. -/
def scanLine (format : Format) (s : Scan) (line : Line) : Except RCError Scan :=
  match classify format s.frame line.text with
  | none => .error (structural "invalid component structure")
  | some (role, frame) => do
    let tasks ← s.tasks.mapM (visit s.pos (s.pos + line.raw.length) role)
    pure ⟨frame, s.pos + line.raw.length, tasks⟩

/-- The tasks before the first line. -/
def tasksOf (edits : List Edit) : List Task :=
  edits.zipIdx.map fun e => ⟨e.2, e.1, ⟨0, 0, [], false, 0⟩⟩

def scan (format : Format) (base : Bytes) (edits : List Edit) : Except RCError Scan :=
  (readLines base.length base).foldlM (scanLine format) ⟨⟨[], 0, false⟩, 0, tasksOf edits⟩

/-! ## Splicing -/

/-- One round of the insertion sort: after everything that starts no later. -/
def insertPatch (p : Patch) : List Patch → List Patch
  | [] => [p]
  | q :: qs => if p.start < q.start then p :: q :: qs else q :: insertPatch p qs

/-- The stable insertion sort by offset. -/
def sortPatches (ps : List Patch) : List Patch :=
  ps.foldl (fun sorted p => insertPatch p sorted) []

/-- One patch, after `cursor` bytes of the base. -/
def spliceStep (base : Bytes) (s : Nat × Bytes) (p : Patch) : Except RCError (Nat × Bytes) :=
  if p.start < s.1 then .error (structural "overlapping edits target the same property")
  else
    match addAll s.2 [(base.take p.start).drop s.1, p.replacement] with
    | some out => .ok (p.stop, out)
    | none => .error memory

def splice (base : Bytes) (ps : List Patch) : Except RCError Bytes := do
  let s ← ps.foldlM (spliceStep base) (0, [])
  match add s.2 (base.drop s.1) with
  | some out => .ok out
  | none => .error memory

/-- The first edit that found no target. -/
def missing : List Task → Except RCError Unit
  | [] => .ok ()
  | t :: ts =>
    if t.patch.found then missing ts
    else .error (refused t.index t.edit "target component/property occurrence was not found")

/-- `RCResourcePatch`. -/
def patch (parsers : Parsers) (format : Format) (base : Bytes) (edits : List Edit) :
    Except RCError Bytes :=
  if base = [] ∨ INT_MAX < base.length ∨ 0 ∈ base ∨ 10000 < edits.length then
    .error ⟨1, "Invalid resource patch input"⟩
  else do
    valid parsers format base
    checkEdits format 0 edits
    let s ← scan format base edits
    if s.frame.stack ≠ [] ∨ s.frame.closed = false then .error (structural "unclosed component")
    else do
      missing s.tasks
      let out ← splice base (sortPatches (s.tasks.map Task.patch))
      valid parsers format out
      pure out

end Resource
