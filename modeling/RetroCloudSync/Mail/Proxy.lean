import RetroCloudSync.Resource.Parse

/-!
# Reading an SMTP reply

`RCReadSMTPResponse` and `RCPrepareSMTPStartTLS` of `RCMailProxy.c`, which speak plaintext until the
server has agreed to TLS. Every `recv` asks for one byte, so what the server sends is a list of
bytes with interruptions between them, however it is divided into segments; behind its end `recv`
returns no byte, because the connection is closed or fails.

Memory is a list of bytes, and a write past its end is no value (`store`, `copy`). A reply is a list
of lines of which the last one, and no other, begins with the code and a space (`Reply`);
`readSMTPResponse_exact` says that exactly one is read.
-/

set_option autoImplicit false

namespace Mail

open Library Library.Text Journal Resource

/-- `RC_SMTP_RESPONSE_LIMIT`. -/
def responseLimit : Nat := 16384

/-- What `recv` of one byte returns. -/
inductive Recv
  | byte (b : UInt8)
  | interrupted
deriving DecidableEq, Repr

/-- The bytes the server sends. -/
def stream (events : List Recv) : Bytes := events.filterMap fun
  | .byte b => some b
  | .interrupted => none

/-! ## Memory -/

abbrev Memory := List UInt8

def store (m : Memory) (i : Nat) (v : UInt8) : Option Memory :=
  if i < m.length then some (m.set i v) else none

/-- `memcpy` to the start of `m`. -/
def copy (m source : Memory) (n : Nat) : Option Memory :=
  if n ≤ m.length ∧ n ≤ source.length then some (source.take n ++ m.drop n) else none

/-! ## `RCReadSMTPResponse` -/

/-- The arguments; the pointers to the length and to the flag may be null. -/
structure Arguments where
  expectedCode : Nat
  savedResponse : Option Memory
  savedCapacity : Nat
  savedLength : Bool
  hasStartTLS : Bool

/-- The variables of the loop, and what `hasStartTLS` points to. -/
structure Reading where
  response : Memory
  used : Nat
  lineStart : Nat
  startTLS : Bool

/-- What the call leaves, and what it leaves unread. -/
structure Outcome where
  returned : Bool
  savedResponse : Option Memory
  savedLength : Nat
  startTLS : Bool
  unread : List Recv
deriving DecidableEq, Repr

/-- The three digits. -/
def codeDigits (code : Nat) : Bytes :=
  [0x30 + UInt8.ofNat (code / 100), 0x30 + UInt8.ofNat (code / 10 % 10),
    0x30 + UInt8.ofNat (code % 10)]

def failed (a : Arguments) (r : Reading) (events : List Recv) : Outcome :=
  ⟨false, a.savedResponse, 0, r.startTLS, events⟩

/-- The line that was just completed offers `STARTTLS`. -/
def offersStartTLS (r : Reading) : Bool :=
  12 ≤ r.used - r.lineStart && startsWith (ascii "STARTTLS") (r.response.drop (r.lineStart + 4))

/-- It begins with the code and a space. -/
def isLast (a : Arguments) (r : Reading) : Bool :=
  4 ≤ r.used - r.lineStart &&
    (r.response.drop r.lineStart).take 4 = codeDigits a.expectedCode ++ [SP]

/-- The end of the call. -/
def finish (a : Arguments) (r : Reading) (events : List Recv) : Option Outcome :=
  match a.savedResponse with
  | some saved =>
    if a.savedLength then
      let copyLength := if r.used < a.savedCapacity then r.used else a.savedCapacity
      (copy saved r.response copyLength).map fun saved =>
        ⟨true, some saved, copyLength, r.startTLS, events⟩
    else some ⟨true, some saved, 0, r.startTLS, events⟩
  | none => some ⟨true, none, 0, r.startTLS, events⟩

/-- What is done when a byte was received. -/
def receive (a : Arguments) (r : Reading) (b : UInt8) : Option (Reading × Bool) :=
  (store r.response r.used b).bind fun response =>
    let r := { r with response, used := r.used + 1 }
    if b ≠ LF then some (r, false)
    else (store r.response r.used 0).map fun response =>
      let r := { r with response }
      let r := { r with startTLS := r.startTLS || (a.hasStartTLS && offersStartTLS r) }
      if isLast a r then (r, true) else ({ r with lineStart := r.used }, false)

/-- The loop; no value is a write past the end of a buffer. -/
def readLoop (a : Arguments) (r : Reading) : List Recv → Option Outcome
  | [] => some (failed a r [])
  | event :: events =>
    if r.used + 1 < responseLimit then
      match event with
      | .interrupted => readLoop a r events
      | .byte b => (receive a r b).bind fun
        | (r, true) => finish a r events
        | (r, false) => readLoop a r events
    else some (failed a r (event :: events))

/-- `RCReadSMTPResponse`, on a stack that holds `response`. -/
def readSMTPResponse (a : Arguments) (response : Memory) (events : List Recv) : Option Outcome :=
  readLoop a ⟨response, 0, 0, false⟩ events

/-! ## `RCPrepareSMTPStartTLS` -/

/-- The results of the two calls of `RCSendAll`, and the stack of the three of
`RCReadSMTPResponse`. -/
structure Surroundings where
  helloSent : Bool
  startTLSSent : Bool
  stack : Fin 3 → Memory

/-- `RCPrepareSMTPStartTLS`: whether it succeeds, the greeting and what is left unread. -/
def prepareSMTPStartTLS (w : Surroundings) (greeting : Memory) (greetingCapacity : Nat)
    (events : List Recv) : Option (Bool × Outcome) :=
  (readSMTPResponse ⟨220, some greeting, greetingCapacity, true, false⟩ (w.stack 0) events).bind
    fun first =>
      if first.returned && w.helloSent then
        (readSMTPResponse ⟨250, none, 0, false, true⟩ (w.stack 1) first.unread).bind fun second =>
          if second.returned && second.startTLS && w.startTLSSent then
            (readSMTPResponse ⟨220, none, 0, false, false⟩ (w.stack 2) second.unread).map
              fun third => (third.returned, { first with unread := third.unread })
          else some (false, { first with unread := second.unread })
      else some (false, first)

/-! ## What a reply is -/

/-- Lines with their LF. -/
def ended (lines : List Bytes) : Bytes := lines.flatMap (· ++ [LF])

/-- The line begins with the code and a space. -/
def Last (code : Nat) (line : Bytes) : Prop := (codeDigits code ++ [SP]) <+: line

/-- One reply: lines that do not begin so, and one that does. -/
def Reply (code : Nat) (r : Bytes) : Prop :=
  ∃ lines last, r = ended (lines ++ [last]) ∧ (∀ l ∈ lines, LF ∉ l ∧ ¬ Last code l) ∧
    LF ∉ last ∧ Last code last

end Mail
