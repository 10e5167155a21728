import RetroCloudSync.Library.Lines
import RetroCloudSync.Journal.Tables

/-!
# What counts as a valid resource

The checks that `RCVCardParse` and `RCICalendarParse` make before they hand a text to libvc or
libical. The two libraries are not part of the repository: `Parsers` says which texts they accept,
and nothing is assumed about it.
-/

set_option autoImplicit false

namespace Resource

open Library Library.Text Journal

/-- `RCResourceFormat`. -/
inductive Format
  | vcard | calendar
deriving DecidableEq, Repr

/-- Which texts libvc and libical read to their end without an error: for libvc an unfolded card,
for libical a calendar with its framing checked. -/
structure Parsers where
  vcard : Text → Bool
  calendar : Text → Bool

/-! ## Characters -/

def upper (c : UInt8) : UInt8 := if 0x61 ≤ c ∧ c ≤ 0x7a then c - 0x20 else c

/-- `strcasecmp`, and `strncasecmp` of texts of one length. -/
def sameLetters (a b : Text) : Bool := a.map upper = b.map upper

/-- `strncasecmp` with a word and its length. -/
def startsWith (word line : Text) : Bool := sameLetters (line.take word.length) word

/-! ## `RCVCardParse` -/

/-- The rest after a break: an optional CR, then an optional LF. -/
def skipBreak (b : Text) : Text :=
  let b := if b.head? = some CR then b.tail else b
  if b.head? = some LF then b.tail else b

/-- A physical line and what comes after its break. -/
def physical (b : Text) : Text × Text :=
  (b.takeWhile fun c => !isBreak c, skipBreak (b.dropWhile fun c => !isBreak c))

/-- `RCUnfold`; the fuel is the number of bytes left. -/
def unfold : Nat → Text → Text
  | 0, _ => []
  | n + 1, b =>
    if b = [] then []
    else
      let (content, rest) := physical b
      if startsBlank rest then content ++ unfold n rest.tail
      else content ++ LF :: unfold n rest

/-- `RCVCardParse`, as far as it accepts or not. -/
def parseVCard (parsers : Parsers) (b : Text) : Except RCError Unit :=
  if b ≠ [] ∧ b.length ≤ INT_MAX - 2 ∧ 0 ∉ b ∧ parsers.vcard (unfold b.length b) then .ok ()
  else .error ⟨1, "Response is not a complete vCard"⟩

/-! ## `RCICalendarParse` -/

/-- A line as `RCFraming` reads it: up to the LF, without the CR before it. -/
def framed (b : Text) : Text × Text :=
  let line := b.takeWhile fun c => c ≠ LF
  (if line.getLast? = some CR then line.dropLast else line, (b.dropWhile fun c => c ≠ LF).tail)

/-- `RCFraming`, with the names of the open components, innermost first; the fuel is the number of
bytes left. -/
def framing : Nat → List Text → Nat → Text → Bool
  | 0, stack, roots, _ => roots = 1 && stack = []
  | n + 1, stack, roots, b =>
    if b = [] then roots = 1 && stack = []
    else
      let (line, rest) := framed b
      if line = [] then framing n stack roots rest
      else if startsBlank line then stack ≠ [] && framing n stack roots rest
      else if 6 < line.length ∧ startsWith (ascii "BEGIN:") line then
        if stack.length = 32 ∨ 64 ≤ line.length - 6 then false
        else if stack = [] then
          roots = 0 && sameLetters (line.drop 6) (ascii "VCALENDAR") &&
            framing n [line.drop 6] (roots + 1) rest
        else framing n (line.drop 6 :: stack) roots rest
      else if 4 < line.length ∧ startsWith (ascii "END:") line then
        match stack with
        | [] => false
        | top :: outer => sameLetters top (line.drop 4) && framing n outer roots rest
      else stack ≠ [] && framing n stack roots rest

/-- The lines `RCOmitEmptyOptionalProperties` drops. -/
def emptyOptional (line : Text) : Bool :=
  sameLetters line (ascii "URL:") || sameLetters line (ascii "URL;VALUE=URI:") ||
    sameLetters line (ascii "CATEGORIES:")

/-- `RCOmitEmptyOptionalProperties`; the fuel is the number of bytes left. -/
def omitEmptyOptionalProperties : Nat → Text → Text
  | 0, _ => []
  | n + 1, b =>
    if b = [] then []
    else
      let (content, rest) := physical b
      if emptyOptional content && !startsBlank rest then omitEmptyOptionalProperties n rest
      else b.take (b.length - rest.length) ++ omitEmptyOptionalProperties n rest

/-- `RCICalendarParse`, as far as it accepts or not. -/
def parseICalendar (parsers : Parsers) (b : Text) : Except RCError Unit :=
  if b ≠ [] ∧ b.length ≤ 32 * 1024 * 1024 ∧ 0 ∉ b ∧ framing b.length [] 0 b then
    if parsers.calendar (omitEmptyOptionalProperties b.length b) then .ok ()
    else .error ⟨1, "iCalendar contains invalid properties or values"⟩
  else .error ⟨1, "Invalid or incomplete iCalendar component framing"⟩

/-- `valid`. -/
def valid (parsers : Parsers) : Format → Text → Except RCError Unit
  | .vcard => parseVCard parsers
  | .calendar => parseICalendar parsers

end Resource
