import RetroCloudSync.Library.Buffer
import RetroCloudSync.Journal.Tables
import Mathlib.Algebra.Ring.Nat

/-!
# The Base64 codec of photos

`RCPhotoDecodeBytes` and `RCPhotoEncodeBytes` of `RCPhotoCodec.c`. Each writes to a block that it
has allocated by the length of its input; a write past the end of the block would be the fault
`overrun`. `malloc` finds the memory it is asked for.
-/

set_option autoImplicit false

namespace Photo

open Library Journal

/-- What a call can end in besides its result: `NULL`, or a write past the end of a block. -/
inductive Fault
  | null | overrun
deriving DecidableEq, Repr

/-! ## Decoding -/

/-- The characters that are passed over. -/
def isSpace (c : UInt8) : Bool := c = 0x20 || c = 0x09 || c = 0x0d || c = 0x0a

/-- `Digit`. -/
def digit (c : UInt8) : Option UInt8 :=
  if 0x41 ≤ c ∧ c ≤ 0x5a then some (c - 0x41)
  else if 0x61 ≤ c ∧ c ≤ 0x7a then some (c - 0x61 + 26)
  else if 0x30 ≤ c ∧ c ≤ 0x39 then some (c - 0x30 + 52)
  else if c = 0x2b then some 62
  else if c = 0x2f then some 63
  else none

/-- A character of a quartet: a digit, or `=` (−2 in the source). -/
inductive Sign
  | digit (v : UInt8)
  | pad
deriving DecidableEq, Repr

def sign (c : UInt8) : Option Sign := if c = 0x3d then some .pad else (digit c).map .digit

/-- The bytes of a quartet, and whether it has to be the last one. -/
def quartet : Sign → Sign → Sign → Sign → Option (Bytes × Bool)
  | .digit a, .digit b, .pad, .pad =>
    if b &&& 15 ≠ 0 then none else some ([a <<< 2 ||| b >>> 4], true)
  | .digit a, .digit b, .digit c, .pad =>
    if c &&& 3 ≠ 0 then none else some ([a <<< 2 ||| b >>> 4, b <<< 4 ||| c >>> 2], true)
  | .digit a, .digit b, .digit c, .digit d =>
    some ([a <<< 2 ||| b >>> 4, b <<< 4 ||| c >>> 2, c <<< 6 ||| d], false)
  | _, _, _, _ => none

/-- The variables of the loop. -/
structure Decoder where
  data : Buffer
  quartet : List Sign
  finished : Bool

/-- The body of the loop. -/
def decodeStep (s : Decoder) (c : UInt8) : Except Fault Decoder :=
  if isSpace c then .ok s
  else if s.finished then .error .null
  else match sign c, s.quartet with
    | none, _ => .error .null
    | some d, [a, b, c] =>
      match quartet a b c d with
      | none => .error .null
      | some (bytes, last) =>
        match s.data.putAll bytes with
        | some data => .ok ⟨data, [], last⟩
        | none => .error .overrun
    | some d, q => .ok { s with quartet := q ++ [d] }

/-- `RCPhotoDecodeBytes`. -/
def decodeBytes : Option Bytes → Except Fault Bytes
  | none | some [] => .error .null
  | some text => do
    let s ← text.foldlM decodeStep ⟨Buffer.empty text.length, [], false⟩
    if s.quartet ≠ [] ∨ s.data.data = [] then .error .null else .ok s.data.data

/-! ## Encoding -/

def alphabet : Bytes :=
  ascii "ABCDEFGHIJKLMNOPQRSTUVWXYZabcdefghijklmnopqrstuvwxyz0123456789+/"

def letter (v : UInt8) : UInt8 := alphabet.getD v.toNat 0

/-- The four characters of up to three bytes. -/
def group (a : UInt8) (b c : Option UInt8) : Bytes :=
  [letter (a >>> 2), letter ((a &&& 3) <<< 4 ||| b.getD 0 >>> 4),
    if b.isSome then letter ((b.getD 0 &&& 15) <<< 2 ||| c.getD 0 >>> 6) else 0x3d,
    if c.isSome then letter (c.getD 0 &&& 63) else 0x3d]

/-- The loop. -/
def encodeLoop : Bytes → Buffer → Option Buffer
  | [], out => some out
  | [a], out => out.putAll (group a none none)
  | [a, b], out => out.putAll (group a (some b) none)
  | a :: b :: c :: rest, out => (out.putAll (group a (some b) (some c))).bind (encodeLoop rest)

/-- The largest size that is accepted, where `size_t` has `w` bits. -/
def limit (w : Nat) : Nat := (2 ^ w - 1) / 4 * 3 - 3

/-- The size of the block, as `size_t` computes it. -/
def allocated (w n : Nat) : Nat := ((n + 2) % 2 ^ w / 3 * 4 % 2 ^ w + 1) % 2 ^ w

/-- `RCPhotoEncodeBytes`: the text, which is written with a NUL behind it. -/
def encodeBytes (w : Nat) : Option Bytes → Except Fault Bytes
  | none => .error .null
  | some bytes =>
    if bytes = [] ∨ limit w < bytes.length then .error .null
    else match encodeLoop bytes (Buffer.empty (allocated w bytes.length)) with
      | none => .error .overrun
      | some out => match out.put 0 with
        | none => .error .overrun
        | some _ => .ok out.data

/-! ## The language of the decoder -/

/-- A text without its spaces. -/
def strip (t : Bytes) : Bytes := t.filter fun c => !isSpace c

/-- **Canonical padded Base64**: quartets of letters, the last one possibly padded; the bits of its
last letter that no byte takes are zero. -/
inductive Canonical : Bytes → Prop
  | one (a b : Fin 64) (spare : b.val % 16 = 0) :
    Canonical [alphabet.getD a 0, alphabet.getD b 0, 0x3d, 0x3d]
  | two (a b c : Fin 64) (spare : c.val % 4 = 0) :
    Canonical [alphabet.getD a 0, alphabet.getD b 0, alphabet.getD c 0, 0x3d]
  | three (a b c d : Fin 64) :
    Canonical [alphabet.getD a 0, alphabet.getD b 0, alphabet.getD c 0, alphabet.getD d 0]
  | more (a b c d : Fin 64) (rest : Bytes) (canonical : Canonical rest) :
    Canonical (alphabet.getD a 0 :: alphabet.getD b 0 :: alphabet.getD c 0 ::
      alphabet.getD d 0 :: rest)

end Photo
