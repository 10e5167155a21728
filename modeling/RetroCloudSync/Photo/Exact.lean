import Mathlib.Tactic.IntervalCases
import RetroCloudSync.Photo.Codec

/-!
# The photo codec is exact

`encodeText` is what the encoder writes when its block is large enough. The decoder, started between
two quartets, reads a text without spaces to its end exactly when the text is the `encodeText` of
the bytes it adds (`decode_encodeText`, `decode_sound`); these texts are the canonical ones
(`canonical_iff`).
-/

set_option autoImplicit false

namespace Photo

open Library Journal

/-! ## Letters and digits -/

theorem forall_byte {P : UInt8 → Prop} (h : ∀ n : Fin 256, P (UInt8.ofNat n.val)) (v : UInt8) :
    P v := by
  have hv := h ⟨v.toNat, v.toNat_lt⟩
  rwa [show UInt8.ofNat v.toNat = v from UInt8.ofNat_toNat] at hv

/-- The character that a sign is written as. -/
def Sign.char : Sign → UInt8
  | .digit v => letter v
  | .pad => 0x3d

def Sign.small : Sign → Bool
  | .digit v => v < 64
  | .pad => true

/-- What is checked byte by byte: letters and their digits, and the bits of a digit. -/
def Checked (v : UInt8) : Prop :=
  (v < 64 → sign (letter v) = some (.digit v) ∧ isSpace (letter v) = false ∧ v &&& 63 = v) ∧
    (v &&& 63 = v → v < 64 ∧ (v &&& 15 = 0 → v.toNat % 16 = 0) ∧ (v &&& 3 = 0 → v.toNat % 4 = 0)) ∧
    (∀ x ∈ sign v, x.small = true ∧ x.char = v) ∧
    (v &&& 63 < 64 ∧ v >>> 2 < 64) ∧
    (v &&& 15 = 0 → v.toBitVec[0] = false ∧ v.toBitVec[1] = false ∧ v.toBitVec[2] = false ∧
      v.toBitVec[3] = false) ∧
    (v &&& 3 = 0 → v.toBitVec[0] = false ∧ v.toBitVec[1] = false) ∧
    ((v &&& 3) <<< 4 ||| (0 : UInt8) >>> 4) &&& 15 = 0 ∧
    ((v &&& 15) <<< 2 ||| (0 : UInt8) >>> 6) &&& 3 = 0

theorem checked (v : UInt8) : Checked v := by
  refine forall_byte ?_ v
  unfold Checked
  decide +kernel

theorem sign_letter {v : UInt8} (h : v < 64) :
    sign (letter v) = some (.digit v) ∧ isSpace (letter v) = false :=
  ⟨((checked v).1 h).1, ((checked v).1 h).2.1⟩

theorem sextet_small {v : UInt8} (h : v &&& 63 = v) : (Sign.digit v).small = true :=
  decide_eq_true ((checked v).2.1 h).1

/-- What a character is read as says which character it is. -/
theorem sign_some {c : UInt8} {x : Sign} (h : sign c = some x) : x.small = true ∧ x.char = c :=
  (checked c).2.2.1 x h

theorem sign_pad : sign 0x3d = some .pad ∧ isSpace 0x3d = false := by decide

/-! ## The bits of a quartet -/

section
variable (a b c d : UInt8)

theorem and_63 (h : a < 64) : a &&& 63 = a := ((checked a).1 h).2.2

theorem sextet_lt : a &&& 63 < 64 ∧ a >>> 2 < 64 := (checked a).2.2.2.1

theorem eq_of_bits {a b : UInt8}
    (h : ∀ i, i < 8 → a.toBitVec.getLsbD i = b.toBitVec.getLsbD i) : a = b :=
  UInt8.eq_of_toBitVec_eq (BitVec.eq_of_getLsbD_eq h)

theorem second_lt :
    ((a &&& 3) <<< 4 ||| b >>> 4) &&& (63 : UInt8) = (a &&& 3) <<< 4 ||| b >>> 4 := by
  refine eq_of_bits fun i hi => ?_
  interval_cases i <;> simp

theorem third_lt :
    ((b &&& 15) <<< 2 ||| c >>> 6) &&& (63 : UInt8) = (b &&& 15) <<< 2 ||| c >>> 6 := by
  refine eq_of_bits fun i hi => ?_
  interval_cases i <;> simp

theorem first_byte : (a >>> 2) <<< 2 ||| ((a &&& 3) <<< 4 ||| b >>> 4) >>> 4 = a := by
  refine eq_of_bits fun i hi => ?_
  interval_cases i <;> simp

theorem second_byte :
    ((a &&& 3) <<< 4 ||| b >>> 4) <<< 4 ||| ((b &&& 15) <<< 2 ||| c >>> 6) >>> 2 = b := by
  refine eq_of_bits fun i hi => ?_
  interval_cases i <;> simp

theorem third_byte : ((b &&& 15) <<< 2 ||| c >>> 6) <<< 6 ||| (c &&& 63) = c := by
  refine eq_of_bits fun i hi => ?_
  interval_cases i <;> simp

theorem first_digit : ((a &&& 63) <<< 2 ||| (b &&& 63) >>> 4) >>> 2 = a &&& 63 := by
  refine eq_of_bits fun i hi => ?_
  interval_cases i <;> simp

theorem second_digit : (((a &&& 63) <<< 2 ||| (b &&& 63) >>> 4) &&& 3) <<< 4 |||
    ((b &&& 63) <<< 4 ||| (c &&& 63) >>> 2) >>> 4 = b &&& 63 := by
  refine eq_of_bits fun i hi => ?_
  interval_cases i <;> simp

theorem third_digit : (((b &&& 63) <<< 4 ||| (c &&& 63) >>> 2) &&& 15) <<< 2 |||
    ((c &&& 63) <<< 6 ||| (d &&& 63)) >>> 6 = c &&& 63 := by
  refine eq_of_bits fun i hi => ?_
  interval_cases i <;> simp

theorem fourth_digit : ((c &&& 63) <<< 6 ||| (d &&& 63)) &&& 63 = d &&& 63 := by
  refine eq_of_bits fun i hi => ?_
  interval_cases i <;> simp

/-- No bit of the byte is left to the second digit. -/
theorem second_digit_last (h : b &&& 15 = 0) :
    (((a &&& 63) <<< 2 ||| (b &&& 63) >>> 4) &&& 3) <<< 4 ||| (0 : UInt8) >>> 4 = b &&& 63 := by
  have hb := (checked b).2.2.2.2.1 h
  refine eq_of_bits fun i hi => ?_
  interval_cases i <;> simp [hb]

theorem third_digit_last (h : c &&& 3 = 0) :
    (((b &&& 63) <<< 4 ||| (c &&& 63) >>> 2) &&& 15) <<< 2 ||| (0 : UInt8) >>> 6 = c &&& 63 := by
  have hc := (checked c).2.2.2.2.2.1 h
  refine eq_of_bits fun i hi => ?_
  interval_cases i <;> simp [hc]

theorem spare_one : ((a &&& 3) <<< 4 ||| (0 : UInt8) >>> 4) &&& 15 = 0 :=
  (checked a).2.2.2.2.2.2.1

theorem spare_two : ((b &&& 15) <<< 2 ||| (0 : UInt8) >>> 6) &&& 3 = 0 :=
  (checked b).2.2.2.2.2.2.2

end

/-! ## Texts of the encoder -/

/-- What the encoder writes. -/
def encodeText : Bytes → Bytes
  | [] => []
  | [a] => group a none none
  | [a, b] => group a (some b) none
  | a :: b :: c :: rest => group a (some b) (some c) ++ encodeText rest

theorem encodeText_length : ∀ b : Bytes, (encodeText b).length = (b.length + 2) / 3 * 4
  | [] => rfl
  | [a] => by simp [encodeText, group]
  | [a, b] => by simp [encodeText, group]
  | a :: b :: c :: rest => by
    simp only [encodeText, List.length_append, encodeText_length rest, List.length_cons,
      List.length_nil, group]
    omega

/-- A text goes on behind three bytes. -/
theorem encodeText_append {b : Bytes} (h : b.length = 3) (rest : Bytes) :
    encodeText (b ++ rest) = encodeText b ++ encodeText rest := by
  match b, h with
  | [x, y, z], _ => simp only [List.cons_append, List.nil_append, encodeText, List.append_nil]

/-- **A block with room for the text gets it.** -/
theorem encodeLoop_some : ∀ {b : Bytes} {out : Buffer},
    out.data.length + (encodeText b).length ≤ out.capacity → ∃ out', encodeLoop b out = some out' ∧
      out'.data = out.data ++ encodeText b ∧ out'.capacity = out.capacity
  | [], out, _ => ⟨out, rfl, (List.append_nil _).symm, rfl⟩
  | [a], out, h => Buffer.putAll_some h
  | [a, b], out, h => Buffer.putAll_some h
  | a :: b :: c :: rest, out, h => by
    rw [encodeText, List.length_append] at h
    obtain ⟨out₁, hput, hdata, hcap⟩ :=
      @Buffer.putAll_some (group a (some b) (some c)) out (by
        simp only [group, List.length_cons, List.length_nil] at h ⊢
        omega)
    have hroom : out₁.data.length + (encodeText rest).length ≤ out₁.capacity := by
      rw [hdata, hcap, List.length_append]
      omega
    obtain ⟨out', hloop, hdata', hcap'⟩ := encodeLoop_some hroom
    refine ⟨out', ?_, ?_, hcap'.trans hcap⟩
    · rw [encodeLoop, hput]
      exact hloop
    · rw [hdata', hdata, List.append_assoc, encodeText]

/-! ## Reading the encoder's texts -/

theorem foldlM_strip (t : Bytes) (s : Decoder) :
    t.foldlM decodeStep s = (strip t).foldlM decodeStep s := by
  induction t generalizing s with
  | nil => rfl
  | cons c t ih =>
    by_cases hc : isSpace c = true
    · have hs : strip (c :: t) = strip t := by simp [strip, hc]
      have hstep : decodeStep s c = .ok s := by simp [decodeStep, hc]
      rw [hs, List.foldlM_cons, hstep]
      exact ih s
    · have hs : strip (c :: t) = c :: strip t := by simp [strip, hc]
      rw [hs, List.foldlM_cons, List.foldlM_cons]
      congr 1
      funext s'
      exact ih s'

/-- What the fourth character of a quartet does. -/
def finishQuartet (out : Buffer) (rest : Bytes) : Option (Bytes × Bool) → Except Fault Decoder
  | none => .error .null
  | some (bytes, last) => match out.putAll bytes with
    | some data => rest.foldlM decodeStep ⟨data, [], last⟩
    | none => .error .overrun

/-- A quartet, from its signs. -/
theorem decode_quartet {x y z w : UInt8} {a b c d : Sign}
    (hx : sign x = some a ∧ isSpace x = false) (hy : sign y = some b ∧ isSpace y = false)
    (hz : sign z = some c ∧ isSpace z = false) (hw : sign w = some d ∧ isSpace w = false)
    (out : Buffer) (rest : Bytes) :
    (x :: y :: z :: w :: rest).foldlM decodeStep ⟨out, [], false⟩ =
      finishQuartet out rest (quartet a b c d) := by
  simp only [List.foldlM_cons, decodeStep, hx, hy, hz, hw, Bool.false_eq_true, if_false,
    List.nil_append, List.cons_append, bind, Except.bind]
  unfold finishQuartet
  cases quartet a b c d with
  | none => rfl
  | some r =>
    simp only
    cases out.putAll r.1 <;> rfl

theorem decode_group (a : UInt8) (out : Buffer) (rest : Bytes) :
    (group a none none ++ rest).foldlM decodeStep ⟨out, [], false⟩ =
      finishQuartet out rest (some ([a], true)) := by
  have h1 := sign_letter (sextet_lt a).2
  have h2 := sign_letter (second_lt a 0 ▸ (sextet_lt _).1)
  rw [show group a none none ++ rest = letter (a >>> 2) ::
    letter ((a &&& 3) <<< 4 ||| (0 : UInt8) >>> 4) :: 0x3d :: 0x3d :: rest by rfl]
  rw [decode_quartet h1 h2 sign_pad sign_pad]
  simp only [quartet, spare_one, first_byte, ne_eq, not_true_eq_false, if_false]

theorem decode_group₂ (a b : UInt8) (out : Buffer) (rest : Bytes) :
    (group a (some b) none ++ rest).foldlM decodeStep ⟨out, [], false⟩ =
      finishQuartet out rest (some ([a, b], true)) := by
  have h1 := sign_letter (sextet_lt a).2
  have h2 := sign_letter (second_lt a b ▸ (sextet_lt _).1)
  have h3 := sign_letter (third_lt b 0 ▸ (sextet_lt _).1)
  rw [show group a (some b) none ++ rest = letter (a >>> 2) ::
    letter ((a &&& 3) <<< 4 ||| b >>> 4) :: letter ((b &&& 15) <<< 2 ||| (0 : UInt8) >>> 6) :: 0x3d ::
      rest by rfl]
  rw [decode_quartet h1 h2 h3 sign_pad]
  simp only [quartet, spare_two, first_byte, second_byte, ne_eq, not_true_eq_false, if_false]

theorem decode_group₃ (a b c : UInt8) (out : Buffer) (rest : Bytes) :
    (group a (some b) (some c) ++ rest).foldlM decodeStep ⟨out, [], false⟩ =
      finishQuartet out rest (some ([a, b, c], false)) := by
  have h1 := sign_letter (sextet_lt a).2
  have h2 := sign_letter (second_lt a b ▸ (sextet_lt _).1)
  have h3 := sign_letter (third_lt b c ▸ (sextet_lt _).1)
  have h4 := sign_letter (sextet_lt c).1
  rw [show group a (some b) (some c) ++ rest = letter (a >>> 2) ::
    letter ((a &&& 3) <<< 4 ||| b >>> 4) :: letter ((b &&& 15) <<< 2 ||| c >>> 6) ::
      letter (c &&& 63) :: rest by rfl]
  rw [decode_quartet h1 h2 h3 h4]
  simp only [quartet, first_byte, second_byte, third_byte]

/-- **The decoder reads back what the encoder writes.** -/
theorem decode_encodeText : ∀ {b : Bytes} {out : Buffer},
    out.data.length + b.length ≤ out.capacity → ∃ out' last,
      (encodeText b).foldlM decodeStep ⟨out, [], false⟩ = .ok ⟨out', [], last⟩ ∧
        out'.data = out.data ++ b
  | [], out, _ => ⟨out, false, rfl, (List.append_nil _).symm⟩
  | [a], out, h => by
    obtain ⟨out', hput, hdata, -⟩ := @Buffer.putAll_some [a] out h
    have hrun := decode_group a out []
    rw [List.append_nil] at hrun
    exact ⟨out', true, by rw [encodeText, hrun, finishQuartet, hput]; rfl, hdata⟩
  | [a, b], out, h => by
    obtain ⟨out', hput, hdata, -⟩ := @Buffer.putAll_some [a, b] out h
    have hrun := decode_group₂ a b out []
    rw [List.append_nil] at hrun
    exact ⟨out', true, by rw [encodeText, hrun, finishQuartet, hput]; rfl, hdata⟩
  | a :: b :: c :: rest, out, h => by
    simp only [List.length_cons] at h
    obtain ⟨out₁, hput, hdata, hcap⟩ :=
      @Buffer.putAll_some [a, b, c] out (show out.data.length + 3 ≤ out.capacity by omega)
    have hroom : out₁.data.length + rest.length ≤ out₁.capacity := by
      rw [hdata, hcap, List.length_append]
      show out.data.length + 3 + rest.length ≤ out.capacity
      omega
    obtain ⟨out', last, hloop, hdata'⟩ := decode_encodeText hroom
    refine ⟨out', last, ?_, by rw [hdata', hdata, List.append_assoc]; rfl⟩
    rw [encodeText, decode_group₃, finishQuartet, hput]
    exact hloop

/-! ## Nothing else is read -/

/-- The bytes of a quartet say which characters it was. -/
theorem quartet_encodeText {a b c d : Sign} {bytes : Bytes} {last : Bool}
    (ha : a.small = true) (hb : b.small = true) (hc : c.small = true) (hd : d.small = true)
    (h : quartet a b c d = some (bytes, last)) :
    encodeText bytes = [a.char, b.char, c.char, d.char] ∧ bytes ≠ [] ∧
      (last = false → bytes.length = 3) := by
  unfold quartet at h
  split at h
  · rename_i a b
    split at h
    · cases h
    · rename_i hz
      simp only [ne_eq, Decidable.not_not] at hz
      simp only [Option.some.injEq, Prod.mk.injEq] at h
      obtain ⟨rfl, rfl⟩ := h
      have ea := and_63 a (by simpa [Sign.small] using ha)
      have eb := and_63 b (by simpa [Sign.small] using hb)
      have h1 := first_digit a b
      have h2 := second_digit_last a b hz
      rw [ea, eb] at h1 h2
      refine ⟨?_, by simp, by simp⟩
      simp only [encodeText, group, Sign.char, Option.getD_none, Option.isSome_none,
        Bool.false_eq_true, if_false, h1, h2]
  · rename_i a b c
    split at h
    · cases h
    · rename_i hz
      simp only [ne_eq, Decidable.not_not] at hz
      simp only [Option.some.injEq, Prod.mk.injEq] at h
      obtain ⟨rfl, rfl⟩ := h
      have ea := and_63 a (by simpa [Sign.small] using ha)
      have eb := and_63 b (by simpa [Sign.small] using hb)
      have ec := and_63 c (by simpa [Sign.small] using hc)
      have h1 := first_digit a b
      have h2 := second_digit a b c
      have h3 := third_digit_last b c hz
      rw [ea, eb] at h1
      rw [ea, eb, ec] at h2
      rw [eb, ec] at h3
      refine ⟨?_, by simp, by simp⟩
      simp only [encodeText, group, Sign.char, Option.getD_some, Option.getD_none,
        Option.isSome_some, Option.isSome_none, Bool.false_eq_true, if_true, if_false, h1, h2, h3]
  · rename_i a b c d
    simp only [Option.some.injEq, Prod.mk.injEq] at h
    obtain ⟨rfl, rfl⟩ := h
    have ea := and_63 a (by simpa [Sign.small] using ha)
    have eb := and_63 b (by simpa [Sign.small] using hb)
    have ec := and_63 c (by simpa [Sign.small] using hc)
    have ed := and_63 d (by simpa [Sign.small] using hd)
    have h1 := first_digit a b
    have h2 := second_digit a b c
    have h3 := third_digit b c d
    have h4 := fourth_digit c d
    rw [ea, eb] at h1
    rw [ea, eb, ec] at h2
    rw [eb, ec, ed] at h3
    rw [ec, ed] at h4
    refine ⟨?_, by simp, by simp⟩
    simp only [encodeText, group, Sign.char, Option.getD_some, Option.isSome_some, if_true, h1, h2,
      h3, h4, List.append_nil]
  · cases h

/-- A character that is read is a sign, and waits for the quartet to be complete. -/
theorem decode_cons {c : UInt8} {u : Bytes} {out : Buffer} {q : List Sign} {s : Decoder}
    (hc : isSpace c = false) (h : (c :: u).foldlM decodeStep ⟨out, q, false⟩ = .ok s) :
    ∃ d, sign c = some d ∧
      (q.length < 3 → u.foldlM decodeStep ⟨out, q ++ [d], false⟩ = .ok s) := by
  rw [List.foldlM_cons] at h
  cases hd : sign c with
  | none =>
    have hstep : decodeStep ⟨out, q, false⟩ c = .error .null := by simp [decodeStep, hc, hd]
    rw [hstep] at h
    cases h
  | some d =>
    refine ⟨d, rfl, fun hq => ?_⟩
    have hstep : decodeStep ⟨out, q, false⟩ c = .ok ⟨out, q ++ [d], false⟩ := by
      match q, hq with
      | [], _ | [_], _ | [_, _], _ => simp [decodeStep, hc, hd]
    rw [hstep] at h
    exact h

/-- **A text without spaces that is read to its end is one of the encoder's.** -/
theorem decode_sound : ∀ {u : Bytes} {out : Buffer} {s : Decoder},
    (∀ c ∈ u, isSpace c = false) → u.foldlM decodeStep ⟨out, [], false⟩ = .ok s →
    s.quartet = [] → ∃ b, s.data.data = out.data ++ b ∧ u = encodeText b
  | [], out, s, _, h, _ => by
    cases h
    exact ⟨[], (List.append_nil _).symm, rfl⟩
  | [x], out, s, hs, h, hq => by
    obtain ⟨d, -, h1⟩ := decode_cons (hs x (by simp)) h
    cases h1 (by simp)
    cases hq
  | [x, y], out, s, hs, h, hq => by
    obtain ⟨d, -, h1⟩ := decode_cons (hs x (by simp)) h
    obtain ⟨e, -, h2⟩ := decode_cons (hs y (by simp)) (h1 (by simp))
    cases h2 (by simp)
    cases hq
  | [x, y, z], out, s, hs, h, hq => by
    obtain ⟨d, -, h1⟩ := decode_cons (hs x (by simp)) h
    obtain ⟨e, -, h2⟩ := decode_cons (hs y (by simp)) (h1 (by simp))
    obtain ⟨f, -, h3⟩ := decode_cons (hs z (by simp)) (h2 (by simp))
    cases h3 (by simp)
    cases hq
  | x :: y :: z :: w :: rest, out, s, hs, h, hq => by
    have hx := hs x (by simp)
    have hy := hs y (by simp)
    have hz := hs z (by simp)
    have hw := hs w (by simp)
    have hrest : ∀ c ∈ rest, isSpace c = false := fun c hc => hs c (by simp [hc])
    obtain ⟨a, ha, h1⟩ := decode_cons hx h
    obtain ⟨b, hb, h2⟩ := decode_cons hy (h1 (by simp))
    obtain ⟨c, hc, h3⟩ := decode_cons hz (h2 (by simp))
    obtain ⟨d, hd, -⟩ := decode_cons hw (h3 (by simp))
    rw [decode_quartet ⟨ha, hx⟩ ⟨hb, hy⟩ ⟨hc, hz⟩ ⟨hd, hw⟩, finishQuartet.eq_def] at h
    split at h
    · cases h
    · rename_i bytes last hquartet
      obtain ⟨htext, -, hlen⟩ := quartet_encodeText (sign_some ha).1 (sign_some hb).1
        (sign_some hc).1 (sign_some hd).1 hquartet
      rw [(sign_some ha).2, (sign_some hb).2, (sign_some hc).2, (sign_some hd).2] at htext
      split at h
      · rename_i data hput
        obtain ⟨hdata, -⟩ := Buffer.putAll_eq hput
        cases last with
        | true =>
          cases rest with
          | nil =>
            cases h
            exact ⟨bytes, hdata, htext.symm⟩
          | cons v rest =>
            have hstep : decodeStep ⟨data, [], true⟩ v = .error .null := by
              simp [decodeStep, hrest v (by simp)]
            rw [List.foldlM_cons, hstep] at h
            cases h
        | false =>
          obtain ⟨b, hs', hu⟩ := decode_sound hrest h hq
          refine ⟨bytes ++ b, by rw [hs', hdata, List.append_assoc], ?_⟩
          rw [encodeText_append (hlen rfl), htext, ← hu]
          rfl
      · cases h

/-! ## No write past the end -/

theorem quartet_length {a b c d : Sign} {bytes : Bytes} {last : Bool}
    (h : quartet a b c d = some (bytes, last)) : bytes.length ≤ 3 := by
  unfold quartet at h
  split at h
  · split at h <;> cases h
    simp
  · split at h <;> cases h
    simp
  · cases h
    simp
  · cases h

/-- Four characters make room for three bytes. -/
def Roomy (s : Decoder) (left : Nat) : Prop :=
  s.quartet.length ≤ 3 ∧
    4 * s.data.data.length + 3 * s.quartet.length + 3 * left ≤ 4 * s.data.capacity

theorem decodeStep_roomy {s : Decoder} {c : UInt8} {n : Nat} (h : Roomy s (n + 1)) :
    match decodeStep s c with
    | .ok s' => Roomy s' n
    | .error e => e = .null := by
  obtain ⟨hq, hroom⟩ := h
  unfold decodeStep
  split_ifs with h1 h2
  · exact ⟨hq, by omega⟩
  · rfl
  · cases hd : sign c with
    | none => rfl
    | some d =>
      match hquart : s.quartet, hq with
      | [], _ | [_], _ | [_, _], _ =>
        simp only [hquart, List.length_cons, List.length_nil] at hroom
        exact ⟨by simp, by simp; omega⟩
      | [a, b, e], _ =>
        simp only [hquart, List.length_cons, List.length_nil] at hroom
        cases hquartet : quartet a b e d with
        | none => simp only [hquartet]
        | some r =>
          have hlen := @quartet_length _ _ _ _ r.1 r.2 hquartet
          obtain ⟨data, hput, hdata, hcap⟩ :=
            @Buffer.putAll_some r.1 s.data (by omega)
          simp only [hquartet, hput]
          refine ⟨by simp, ?_⟩
          simp only [hdata, hcap, List.length_append, List.length_nil]
          omega

/-- **Decoding stays in its block.** -/
theorem foldlM_roomy : ∀ {u : Bytes} {s : Decoder}, Roomy s u.length →
    u.foldlM decodeStep s ≠ .error .overrun
  | [], s, _ => by simp [pure, Except.pure]
  | c :: u, s, h => by
    have hstep := decodeStep_roomy (c := c) h
    rw [List.foldlM_cons]
    cases hs : decodeStep s c with
    | ok s' =>
      rw [hs] at hstep
      exact foldlM_roomy hstep
    | error e =>
      rw [hs] at hstep
      cases hstep
      simp [bind, Except.bind]

/-! ## Canonical texts -/

theorem checked_letter : ∀ a : Fin 64, isSpace (alphabet.getD a 0) = false ∧
    UInt8.ofNat a.val &&& 63 = UInt8.ofNat a.val ∧
    alphabet.getD a 0 = letter (UInt8.ofNat a.val) ∧
    (a.val % 16 = 0 → UInt8.ofNat a.val &&& 15 = 0) ∧
    (a.val % 4 = 0 → UInt8.ofNat a.val &&& 3 = 0) := by
  decide +kernel

theorem letter_fin (a : Fin 64) : ∃ v : UInt8, v &&& 63 = v ∧ alphabet.getD a 0 = letter v ∧
    (a.val % 16 = 0 → v &&& 15 = 0) ∧ (a.val % 4 = 0 → v &&& 3 = 0) :=
  ⟨_, (checked_letter a).2⟩

theorem fin_letter {v : UInt8} (h : v &&& 63 = v) : ∃ a : Fin 64, letter v = alphabet.getD a 0 ∧
    (v &&& 15 = 0 → a.val % 16 = 0) ∧ (v &&& 3 = 0 → a.val % 4 = 0) := by
  obtain ⟨hlt, hspare⟩ := (checked v).2.1 h
  exact ⟨⟨v.toNat, hlt⟩, rfl, hspare⟩

/-- A quartet without padding is written for three bytes. -/
theorem full_quartet (a b c d : Fin 64) : ∃ bytes, bytes ≠ [] ∧ bytes.length = 3 ∧
    encodeText bytes =
      [alphabet.getD a 0, alphabet.getD b 0, alphabet.getD c 0, alphabet.getD d 0] := by
  obtain ⟨v, hv, ha, -⟩ := letter_fin a
  obtain ⟨w, hw, hb, -⟩ := letter_fin b
  obtain ⟨x, hx, hc, -⟩ := letter_fin c
  obtain ⟨y, hy, hd, -⟩ := letter_fin d
  have ht := quartet_encodeText (a := .digit v) (b := .digit w) (c := .digit x) (d := .digit y)
    (sextet_small hv) (sextet_small hw) (sextet_small hx) (sextet_small hy) rfl
  exact ⟨_, ht.2.1, ht.2.2 rfl, by rw [ha, hb, hc, hd, ht.1]; rfl⟩

theorem canonical_encodeText : ∀ {b : Bytes}, b ≠ [] → Canonical (encodeText b)
  | [], h => absurd rfl h
  | [a], _ => by
    obtain ⟨i, hi, -⟩ := fin_letter (and_63 _ (sextet_lt a).2)
    obtain ⟨j, hj, hz, -⟩ := fin_letter (second_lt a 0)
    have h := Canonical.one i j (hz (spare_one a))
    rwa [← hi, ← hj] at h
  | [a, b], _ => by
    obtain ⟨i, hi, -⟩ := fin_letter (and_63 _ (sextet_lt a).2)
    obtain ⟨j, hj, -⟩ := fin_letter (second_lt a b)
    obtain ⟨k, hk, -, hz⟩ := fin_letter (third_lt b 0)
    have h := Canonical.two i j k (hz (spare_two b))
    rwa [← hi, ← hj, ← hk] at h
  | a :: b :: c :: rest, _ => by
    obtain ⟨i, hi, -⟩ := fin_letter (and_63 _ (sextet_lt a).2)
    obtain ⟨j, hj, -⟩ := fin_letter (second_lt a b)
    obtain ⟨k, hk, -⟩ := fin_letter (third_lt b c)
    obtain ⟨l, hl, -⟩ := fin_letter (and_63 _ (sextet_lt c).1)
    rw [encodeText]
    cases rest with
    | nil =>
      have h := Canonical.three i j k l
      rwa [← hi, ← hj, ← hk, ← hl] at h
    | cons d rest =>
      have h := Canonical.more i j k l _ (canonical_encodeText (List.cons_ne_nil d rest))
      rwa [← hi, ← hj, ← hk, ← hl] at h

/-- **The canonical texts are those of the encoder.** -/
theorem canonical_iff {u : Bytes} : Canonical u ↔ ∃ b, b ≠ [] ∧ u = encodeText b := by
  constructor
  · intro h
    induction h with
    | one a b spare =>
      obtain ⟨v, hv, ha, -⟩ := letter_fin a
      obtain ⟨w, hw, hb, hz, -⟩ := letter_fin b
      have ht := @quartet_encodeText (.digit v) (.digit w) .pad .pad
        [v <<< 2 ||| w >>> 4] true (sextet_small hv) (sextet_small hw) rfl rfl
        (by simp [quartet, hz spare])
      exact ⟨_, ht.2.1, by rw [ha, hb, ht.1]; rfl⟩
    | two a b c spare =>
      obtain ⟨v, hv, ha, -⟩ := letter_fin a
      obtain ⟨w, hw, hb, -⟩ := letter_fin b
      obtain ⟨x, hx, hc, -, hz⟩ := letter_fin c
      have ht := @quartet_encodeText (.digit v) (.digit w) (.digit x) .pad
        [v <<< 2 ||| w >>> 4, w <<< 4 ||| x >>> 2] true (sextet_small hv)
        (sextet_small hw) (sextet_small hx) rfl (by simp [quartet, hz spare])
      exact ⟨_, ht.2.1, by rw [ha, hb, hc, ht.1]; rfl⟩
    | three a b c d =>
      obtain ⟨bytes, hne, -, ht⟩ := full_quartet a b c d
      exact ⟨bytes, hne, ht.symm⟩
    | more a b c d rest _ ih =>
      obtain ⟨bytes, hne, hlen, ht⟩ := full_quartet a b c d
      obtain ⟨b', -, rfl⟩ := ih
      exact ⟨bytes ++ b', by simp [hne], by rw [encodeText_append hlen, ht]; rfl⟩
  · rintro ⟨b, hb, rfl⟩
    exact canonical_encodeText hb

theorem strip_canonical {u : Bytes} (h : Canonical u) : strip u = u := by
  have hletter : ∀ a : Fin 64, isSpace (alphabet.getD a 0) = false := fun a => (checked_letter a).1
  have hpad := sign_pad.2
  induction h with
  | one a b => simp only [strip, List.filter_cons, hletter, hpad, Bool.not_false, if_true,
      List.filter_nil]
  | two a b c => simp only [strip, List.filter_cons, hletter, hpad, Bool.not_false, if_true,
      List.filter_nil]
  | three a b c d => simp only [strip, List.filter_cons, hletter, Bool.not_false, if_true,
      List.filter_nil]
  | more a b c d rest _ ih =>
    have ih' : List.filter (fun c => !isSpace c) rest = rest := ih
    simp only [strip, List.filter_cons, hletter, Bool.not_false, if_true, ih']

/-! ## The codec -/

/-- What the size computation comes to, for the sizes that are accepted. -/
theorem allocated_eq {w n : Nat} (hw : 4 ≤ w) (hn : n ≤ limit w) :
    allocated w n = (n + 2) / 3 * 4 + 1 ∧ (n + 2) / 3 * 4 + 1 < 2 ^ w := by
  obtain ⟨k, rfl⟩ := Nat.exists_eq_add_of_le hw
  have hpow : 2 ^ (4 + k) = 16 * 2 ^ k := by rw [Nat.pow_add]
  have hk : 0 < 2 ^ k := Nat.two_pow_pos k
  unfold limit at hn
  unfold allocated
  rw [hpow] at hn ⊢
  have h1 : (n + 2) % (16 * 2 ^ k) = n + 2 := Nat.mod_eq_of_lt (by omega)
  have h2 : (n + 2) / 3 * 4 % (16 * 2 ^ k) = (n + 2) / 3 * 4 := Nat.mod_eq_of_lt (by omega)
  have h3 : ((n + 2) / 3 * 4 + 1) % (16 * 2 ^ k) = (n + 2) / 3 * 4 + 1 :=
    Nat.mod_eq_of_lt (by omega)
  rw [h1, h2, h3]
  exact ⟨rfl, by omega⟩

/-- The encoder writes its text, when it accepts the bytes at all. -/
theorem encodeBytes_eq {w : Nat} (hw : 4 ≤ w) {b : Bytes} (hb : b ≠ [])
    (hlen : b.length ≤ limit w) :
    encodeBytes w (some b) = .ok (encodeText b) := by
  have hsize := (allocated_eq hw hlen).1
  have htext := encodeText_length b
  obtain ⟨out, hloop, hdata, hcap⟩ := @encodeLoop_some b
    (Buffer.empty (allocated w b.length)) (by
      show 0 + (encodeText b).length ≤ allocated w b.length
      omega)
  have hcap' : out.capacity = (encodeText b).length + 1 := by
    rw [hcap]
    show allocated w b.length = _
    omega
  have hdata' : out.data = encodeText b := hdata
  obtain ⟨out', hput, -⟩ := Buffer.put_some (b := out) (c := 0) (by rw [hdata', hcap']; omega)
  have hacc : ¬ (b = [] ∨ limit w < b.length) := by simp [hb]; omega
  simp only [encodeBytes, hacc, if_false, hloop, hput, hdata']

/-- **The decoder accepts the texts that are the encoder's once their spaces are gone**, and gives
the bytes they were written for. -/
theorem decodeBytes_iff (t b : Bytes) :
    decodeBytes (some t) = .ok b ↔ b ≠ [] ∧ strip t = encodeText b := by
  cases t with
  | nil =>
    refine ⟨fun h => (nomatch h), fun ⟨hb, h⟩ => ?_⟩
    have hlen := encodeText_length b
    have hpos := List.length_pos_iff.2 hb
    rw [← h] at hlen
    simp only [strip, List.filter_nil, List.length_nil] at hlen
    omega
  | cons c t =>
    have hspaces : ∀ x ∈ strip (c :: t), isSpace x = false := fun x hx => by
      simpa using (List.mem_filter.1 hx).2
    simp only [decodeBytes]
    rw [foldlM_strip]
    constructor
    · intro h
      cases hrun : (strip (c :: t)).foldlM decodeStep
          ⟨Buffer.empty (c :: t).length, [], false⟩ with
      | error e =>
        rw [hrun] at h
        cases h
      | ok s =>
        rw [hrun] at h
        simp only [bind, Except.bind] at h
        split at h
        · cases h
        · rename_i hs
          simp only [not_or, ne_eq, Decidable.not_not] at hs
          obtain ⟨b', hdata, htext⟩ := decode_sound hspaces hrun hs.1
          cases h
          have hb' : s.data.data = b' := hdata
          exact ⟨hs.2, by rw [hb', htext]⟩
    · rintro ⟨hb, htext⟩
      have hlen := encodeText_length b
      have hle : (strip (c :: t)).length ≤ (c :: t).length := List.length_filter_le _ _
      rw [htext] at hle
      obtain ⟨out', last, hrun, hdata⟩ := @decode_encodeText b
        (Buffer.empty (c :: t).length) (by
          show 0 + b.length ≤ (c :: t).length
          omega)
      have hdata' : out'.data = b := hdata
      rw [htext, hrun]
      simp [bind, Except.bind, hdata', hb]

/-- **The photo Base64 codec is exact.** What is encoded is decoded to the same bytes; the texts that
are decoded are the canonical ones with spaces in between, and are encoded back without them; and
neither function computes a size wrongly or writes past the end of its block. -/
theorem codec_exact (w : Nat) (hw : 4 ≤ w) :
    (∀ b, b ≠ [] → b.length ≤ limit w →
      ∃ t, encodeBytes w (some b) = .ok t ∧ decodeBytes (some t) = .ok b) ∧
    (∀ t, (∃ b, decodeBytes (some t) = .ok b) ↔ Canonical (strip t)) ∧
    (∀ t b, decodeBytes (some t) = .ok b → b.length ≤ limit w →
      encodeBytes w (some b) = .ok (strip t)) ∧
    (∀ t b, decodeBytes (some t) = .ok b → 2 * t.length < 2 ^ w → b.length ≤ limit w) ∧
    (∀ n, n ≤ limit w →
      allocated w n = (n + 2) / 3 * 4 + 1 ∧ (n + 2) / 3 * 4 + 1 < 2 ^ w) ∧
    (∀ b, encodeBytes w b ≠ .error .overrun) ∧ ∀ t, decodeBytes t ≠ .error .overrun := by
  refine ⟨fun b hb hlen => ?_, fun t => ?_, fun t b h hlen => ?_, fun t b h ht => ?_,
    fun n hn => allocated_eq hw hn, fun b => ?_, fun t => ?_⟩
  · exact ⟨_, encodeBytes_eq hw hb hlen,
      (decodeBytes_iff _ b).2 ⟨hb, strip_canonical (canonical_encodeText hb)⟩⟩
  · rw [canonical_iff]
    exact exists_congr fun b => decodeBytes_iff t b
  · obtain ⟨hb, ht⟩ := (decodeBytes_iff t b).1 h
    rw [encodeBytes_eq hw hb hlen, ht]
  · obtain ⟨hb, hs⟩ := (decodeBytes_iff t b).1 h
    have hlen := encodeText_length b
    have hle : (strip t).length ≤ t.length := List.length_filter_le _ _
    obtain ⟨k, rfl⟩ := Nat.exists_eq_add_of_le hw
    have hpow : 2 ^ (4 + k) = 16 * 2 ^ k := by rw [Nat.pow_add]
    have hk : 0 < 2 ^ k := Nat.two_pow_pos k
    rw [hs] at hle
    unfold limit
    rw [hpow] at ht ⊢
    omega
  · cases b with
    | none => simp [encodeBytes]
    | some b =>
      by_cases hacc : b = [] ∨ limit w < b.length
      · simp [encodeBytes, hacc]
      · simp only [not_or, Nat.not_lt] at hacc
        rw [encodeBytes_eq hw hacc.1 hacc.2]
        simp
  · cases t with
    | none => simp [decodeBytes]
    | some t =>
      cases t with
      | nil => simp [decodeBytes]
      | cons c t =>
        have hroom : Roomy ⟨Buffer.empty (c :: t).length, [], false⟩ (c :: t).length :=
          ⟨Nat.zero_le 3, by simp only [Buffer.empty, List.length_nil]; omega⟩
        have hrun := foldlM_roomy hroom
        simp only [decodeBytes]
        cases hs : (c :: t).foldlM decodeStep ⟨Buffer.empty (c :: t).length, [], false⟩ with
        | error e =>
          rw [hs] at hrun
          simpa [bind, Except.bind] using hrun
        | ok s =>
          simp only [bind, Except.bind]
          split <;> simp

theorem codec_exact_spaces : ∃ b, decodeBytes (some (ascii " Z m\t9v\r\n")) = .ok b := by
  have hstrip : strip (ascii " Z m\t9v\r\n") = [alphabet.getD (25 : Fin 64) 0,
      alphabet.getD (38 : Fin 64) 0, alphabet.getD (61 : Fin 64) 0,
      alphabet.getD (47 : Fin 64) 0] := by decide +kernel
  refine ((codec_exact 32 (by decide)).2.1 _).2 ?_
  rw [hstrip]
  exact .three 25 38 61 47

end Photo
