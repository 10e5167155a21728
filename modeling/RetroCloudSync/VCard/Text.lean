import RetroCloudSync.Library.Composed
import RetroCloudSync.Library.Escaped
import RetroCloudSync.ContactStore.Tables
import RetroCloudSync.Native.Cocoa

/-!
# Escaped text

`RCDecodeValue` and `RCParseParts` of `RCVCard.c` read the bytes of a value; `RCTwoWayEscape` of
`RCTwoWaySync.m` writes the characters of one. A C string is its bytes without the NUL behind them,
an `NSString` its characters. The encoder searches without options, so that a character is found
where a canonically equivalent one stands, and is not found where a composed character sequence goes
on behind it: what Foundation makes of characters is a `TextSearch`, and `Unicode` what is known of
it.

`escape_eq`: six replacements one after the other come to one character at a time, after the line
ends that are found have been made LF (`breaks`).
-/

set_option autoImplicit false

namespace VCard

open Library Journal ContactStore Native

/-! ## Bytes and characters -/

/-- `-UTF8String`. -/
def utf8 (s : List Char) : Bytes := s.flatMap String.utf8EncodeChar

/-- `+stringWithUTF8String:`; there is no string of bytes that are not UTF-8. -/
def stringWithUTF8 (b : Bytes) : Option (List Char) :=
  (ByteArray.utf8Decode? ⟨b.toArray⟩).map Array.toList

/-- What a pointer to these bytes points to. -/
def cString (b : Bytes) : Bytes := b.takeWhile fun c => c ≠ 0

/-! ## Reading -/

def backslash : UInt8 := 0x5c
def semicolon : UInt8 := 0x3b

/-- `RCDecodeValue`. -/
def decodeValue : Bytes → Bytes
  | [] => []
  | [c] => [c]
  | c :: d :: s =>
    if c = backslash then (if d = 0x6e ∨ d = 0x4e then 0x0a else d) :: decodeValue s
    else c :: decodeValue (d :: s)

/-- The properties that have components. -/
def structured (name : Bytes) : Bool :=
  Resource.sameLetters name (ascii "N") || Resource.sameLetters name (ascii "ADR") ||
    Resource.sameLetters name (ascii "ORG")

/-- The components of a value, as they stand. -/
def rawParts (value : Bytes) : List Bytes :=
  Escaped.split semicolon backslash false (cString value)

/-- `RCParseParts`. -/
def parseParts (p : VCardProperty) : List VCardValuePart :=
  if structured p.name then
    (rawParts p.originalValue).mapIdx fun i raw => ⟨decodeValue raw, i, 0⟩
  else []

/-! ## Writing -/

/-- The Greek question mark, which is a semicolon up to equivalence. -/
def questionMark : Char := '\u037e'

/-- What is known of the characters that are looked for. -/
structure Unicode (k : TextSearch Char) : Prop where
  equivalent : ∀ c ∈ ['\\', '\r', '\n', ';', ','], ∀ d,
    k.equivalent c d = decide (d = c ∨ c = ';' ∧ d = questionMark)
  ascii : ∀ c, c.toNat < 128 → k.continues c = false
  questionMark : k.continues questionMark = false

/-- `-replaceOccurrencesOfString:withString:options:range:` without options over a whole text. -/
def replaceOccurrences (k : TextSearch Char) (target replacement : String) (s : List Char) :
    List Char :=
  k.replace target.toList replacement.toList s

section
variable {U I : Type} [DecidableEq U] [DecidableEq I] [Foundation U I]

/-- `RCTwoWayString`. -/
def twoWayString : Option (Cocoa U I) → List Char
  | some (.scalar (.url u)) => (Foundation.absoluteString I u).toList
  | some (.scalar (.text s)) => s.toList
  | _ => []

end

/-- `RCTwoWayEscape` of a string. -/
def escape (k : TextSearch Char) (s : List Char) : List Char :=
  let s := replaceOccurrences k "\\" "\\\\" s
  let s := replaceOccurrences k "\r\n" "\n" s
  let s := replaceOccurrences k "\r" "\n" s
  let s := replaceOccurrences k "\n" "\\n" s
  let s := replaceOccurrences k ";" "\\;" s
  replaceOccurrences k "," "\\," s

/-! ## Line ends -/

/-- A text with LF for every line end. -/
def normalize : List Char → List Char
  | [] => []
  | [c] => [if c = '\r' then '\n' else c]
  | c :: d :: s =>
    if c = '\r' ∧ d = '\n' then '\n' :: normalize s
    else (if c = '\r' then '\n' else c) :: normalize (d :: s)

/-- A text with LF for every line end that is found. -/
def breaks (k : TextSearch Char) : List Char → List Char
  | [] => []
  | [c] => [if c = '\r' then '\n' else c]
  | c :: d :: s =>
    if c = '\r' ∧ d = '\n' ∧ k.ahead false s = false then '\n' :: breaks k s
    else (if c = '\r' ∧ k.continues d = false then '\n' else c) :: breaks k (d :: s)

/-- No sequence goes on behind a CRLF. -/
def crlfFound (k : TextSearch Char) : List Char → Bool
  | [] => true
  | c :: s => !(c = '\r' && s.head? = some '\n' && k.ahead false s.tail) && crlfFound k s

section
variable {k : TextSearch Char}

theorem breaks_cons (hk : Unicode k) {c : Char} {s : List Char}
    (h : c ≠ '\r' ∨ k.ahead false s = true) : breaks k (c :: s) = c :: breaks k s := by
  cases s with
  | nil =>
    have hc : c ≠ '\r' := h.resolve_right (by simp [TextSearch.ahead])
    simp only [breaks, hc, if_false]
  | cons d s =>
    have hd : ¬ (c = '\r' ∧ k.continues d = false) := by
      rintro ⟨hc, hd⟩
      exact absurd (h.resolve_left (not_not.2 hc)) (by simp [TextSearch.ahead, hd])
    have hlf : ¬ (c = '\r' ∧ d = '\n' ∧ k.ahead false s = false) := by
      rintro ⟨hc, rfl, -⟩
      exact hd ⟨hc, hk.ascii '\n' (by decide)⟩
    rw [breaks, if_neg hlf, if_neg hd]

theorem ahead_breaks (hk : Unicode k) (s : List Char) :
    k.ahead false (breaks k s) = k.ahead false s := by
  have hcr := hk.ascii '\r' (by decide)
  have hlf := hk.ascii '\n' (by decide)
  fun_cases breaks k s with
  | case1 => rfl
  | case2 c =>
    by_cases hc : c = '\r'
    · simp [TextSearch.ahead, hc, hcr, hlf]
    · simp [TextSearch.ahead, hc]
  | case3 c d s h => simp [TextSearch.ahead, h.1, hcr, hlf]
  | case4 c d s h =>
    by_cases hc : c = '\r' ∧ k.continues d = false
    · simp [TextSearch.ahead, hc, hcr, hlf]
    · simp only [TextSearch.ahead, hc, if_false]

theorem breaks_found (hk : Unicode k) {s : List Char} (h : k.ahead false s = false) :
    ∃ t, breaks k ('\r' :: s) = '\n' :: t ∧ k.ahead false t = false := by
  cases s with
  | nil => exact ⟨[], rfl, rfl⟩
  | cons d s =>
    by_cases hd : d = '\n' ∧ k.ahead false s = false
    · exact ⟨breaks k s, by rw [breaks, if_pos ⟨rfl, hd⟩], (ahead_breaks hk s).trans hd.2⟩
    · refine ⟨breaks k (d :: s), ?_, (ahead_breaks hk (d :: s)).trans h⟩
      rw [breaks, if_neg fun hand => hd hand.2, if_pos ⟨rfl, h⟩]

/-- The line ends of a text in front of another are those of each, when no CR is found in it. -/
theorem breaks_append (hk : Unicode k) {s t : List Char}
    (h : k.every (fun a c => a || c ≠ '\r') (k.ahead false t) s = true) :
    breaks k (s ++ t) = s ++ breaks k t := by
  induction s with
  | nil => rfl
  | cons c s ih =>
    simp only [TextSearch.every, Bool.and_eq_true, Bool.or_eq_true, decide_eq_true_iff] at h
    rw [List.cons_append, breaks_cons hk, ih h.2, List.cons_append]
    rw [TextSearch.ahead_append]
    exact h.1.symm

theorem every_breaks (hk : Unicode k) {p : Bool → Char → Bool} (hp : ∀ a, p a '\n' = true)
    {s : List Char} (h : k.every p false s = true) : k.every p false (breaks k s) = true := by
  fun_induction breaks k s with
  | case1 => rfl
  | case2 c =>
    simp only [TextSearch.every, Bool.and_true] at h ⊢
    split
    · exact hp _
    · exact h
  | case3 c d s hcd ih =>
    simp only [TextSearch.every, Bool.and_eq_true] at h ⊢
    exact ⟨hp _, ih h.2.2⟩
  | case4 c d s hcd ih =>
    rw [TextSearch.every, Bool.and_eq_true] at h ⊢
    rw [ahead_breaks hk]
    refine ⟨?_, ih h.2⟩
    split
    · exact hp _
    · exact h.1

theorem breaks_eq {s : List Char} (hcr : k.every (fun a c => !a || c ≠ '\r') false s = true)
    (hcrlf : crlfFound k s = true) : breaks k s = normalize s := by
  fun_induction breaks k s with
  | case1 => rfl
  | case2 c => rfl
  | case3 c d s h ih =>
    obtain ⟨rfl, rfl, -⟩ := h
    simp only [TextSearch.every, crlfFound, Bool.and_eq_true] at hcr hcrlf
    rw [normalize, if_pos ⟨rfl, rfl⟩, ih hcr.2.2 hcrlf.2.2]
  | case4 c d s h ih =>
    rw [crlfFound, Bool.and_eq_true] at hcrlf
    have hno : ¬ (c = '\r' ∧ d = '\n') := by
      rintro ⟨rfl, rfl⟩
      exact h ⟨rfl, rfl, by simpa using hcrlf.1⟩
    rw [TextSearch.every, Bool.and_eq_true] at hcr
    have hd : c = '\r' → k.continues d = false := by
      rintro rfl
      simpa [TextSearch.ahead] using hcr.1
    have hif : (if c = '\r' ∧ k.continues d = false then '\n' else c) =
        if c = '\r' then '\n' else c := by
      by_cases hc : c = '\r'
      · rw [if_pos ⟨hc, hd hc⟩, if_pos hc]
      · rw [if_neg fun hand => hc hand.1, if_neg hc]
    rw [normalize, if_neg hno, hif, ih hcr.2 hcrlf.2]

end

/-! ## One character at a time -/

/-- What a character is written as, when no line end but LF is left. -/
def escapeChar (c : Char) : List Char :=
  if c = '\\' then ['\\', '\\']
  else if c = '\n' then ['\\', 'n']
  else if c = ';' ∨ c = questionMark then ['\\', ';']
  else if c = ',' then ['\\', ',']
  else [c]

/-- One that is not found is copied. -/
def piece (a : Bool) (c : Char) : List Char := if a then [c] else escapeChar c

section
variable {k : TextSearch Char}

theorem replace_breaks (hk : Unicode k) (s : List Char) :
    k.replace ['\r'] ['\n'] (k.replace ['\r', '\n'] ['\n'] s) = breaks k s := by
  have hcr := hk.ascii '\r' (by decide)
  have hlf := hk.ascii '\n' (by decide)
  have heq : ∀ d, k.equivalent '\r' d = decide (d = '\r') := by
    intro d
    rw [hk.equivalent '\r' (by simp)]
    simp
  have heq' : ∀ d, k.equivalent '\n' d = decide (d = '\n') := by
    intro d
    rw [hk.equivalent '\n' (by simp)]
    simp
  have hahead : ∀ s, k.ahead false (k.replace ['\r', '\n'] ['\n'] s) = k.ahead false s := by
    intro s
    cases s with
    | nil => rfl
    | cons c s =>
      rw [TextSearch.replace, TextSearch.replaceFrom]
      split
      · rename_i hf
        simp only [TextSearch.found, heq, Bool.and_eq_true, decide_eq_true_iff] at hf
        simp [TextSearch.ahead, hf.1, hcr, hlf]
      · rfl
  rw [TextSearch.replace_one]
  fun_induction breaks k s with
  | case1 => rfl
  | case2 c =>
    have hf : k.found ['\r', '\n'] [c] = false := by simp [TextSearch.found]
    rw [TextSearch.replace, TextSearch.replaceFrom, hf, if_neg Bool.false_ne_true]
    simp only [TextSearch.replaceFrom, TextSearch.mapped, TextSearch.ahead, TextSearch.single,
      heq, List.append_nil]
    by_cases hc : c = '\r' <;> simp [hc]
  | case3 c d s h ih =>
    obtain ⟨rfl, rfl, hs⟩ := h
    have hf : k.found ['\r', '\n'] ('\r' :: '\n' :: s) = true := by
      simp [TextSearch.found, heq, heq', hs]
    have hrun : k.replace ['\r', '\n'] ['\n'] ('\r' :: '\n' :: s) =
        '\n' :: k.replace ['\r', '\n'] ['\n'] s := by
      rw [TextSearch.replace, TextSearch.replaceFrom, if_pos hf]
      rfl
    rw [hrun, TextSearch.mapped, ih]
    simp [TextSearch.single, heq]
  | case4 c d s h ih =>
    have hf : k.found ['\r', '\n'] (c :: d :: s) = false := by
      rw [← Bool.not_eq_true]
      intro hf
      simp only [TextSearch.found, heq, heq', Bool.and_eq_true, decide_eq_true_iff,
        Bool.not_eq_true'] at hf
      exact h hf
    have hrun : k.replace ['\r', '\n'] ['\n'] (c :: d :: s) =
        c :: k.replace ['\r', '\n'] ['\n'] (d :: s) := by
      rw [TextSearch.replace, TextSearch.replaceFrom, hf]
      rfl
    rw [hrun, TextSearch.mapped, ih, hahead]
    have hd : k.ahead false (d :: s) = k.continues d := rfl
    rw [hd, TextSearch.single, heq]
    by_cases hc : c = '\r' <;> cases k.continues d <;> simp [hc]

theorem double_eq (hk : Unicode k) (a : Bool) (c : Char) :
    k.single '\\' ['\\', '\\'] a c = if c = '\\' ∧ a = false then ['\\', '\\'] else [c] := by
  rw [TextSearch.single, hk.equivalent '\\' (by simp)]
  cases a <;> simp

theorem tame_of_ascii (hk : Unicode k) {x : Char} (hx : x ∈ ['\\', '\r', '\n', ';', ','])
    {w : List Char} : k.Tame (k.single x ('\\' :: w)) := by
  refine TextSearch.tame_single (fun c hc => ?_) (hk.ascii '\\' (by decide))
  rw [hk.equivalent x hx, decide_eq_true_iff] at hc
  obtain rfl | ⟨-, rfl⟩ := hc
  · simp only [List.mem_cons, List.not_mem_nil, or_false] at hx
    refine hk.ascii c ?_
    rcases hx with rfl | rfl | rfl | rfl | rfl <;> decide
  · exact hk.questionMark

theorem breaks_double (hk : Unicode k) (s : List Char) :
    breaks k (k.mapped (k.single '\\' ['\\', '\\']) false s) =
      k.mapped (k.single '\\' ['\\', '\\']) false (breaks k s) := by
  have htame : k.Tame (k.single '\\' ['\\', '\\']) := tame_of_ascii hk (by simp)
  have hplain : ∀ a c, c ≠ '\\' → k.single '\\' ['\\', '\\'] a c = [c] := by
    intro a c hc
    rw [double_eq hk, if_neg fun h => hc h.1]
  fun_induction breaks k s with
  | case1 => rfl
  | case2 c =>
    by_cases hc : c = '\\'
    · subst hc
      simp [TextSearch.mapped, double_eq hk, TextSearch.ahead, breaks]
    · by_cases hr : c = '\r'
      · subst hr
        simp [TextSearch.mapped, hplain, breaks]
      · simp [TextSearch.mapped, hplain _ _ hc, breaks, hr]
  | case3 c d s h ih =>
    obtain ⟨rfl, rfl, hs⟩ := h
    have hs' := (TextSearch.ahead_mapped htame false s).trans hs
    simp only [TextSearch.mapped, hplain _ '\r' (by decide), hplain _ '\n' (by decide),
      List.singleton_append, breaks, hs', and_self, if_true, ih]
  | case4 c d s h ih =>
    obtain ⟨u, hu, hlf⟩ : ∃ u, k.mapped (k.single '\\' ['\\', '\\']) false (d :: s) = d :: u ∧
        (d = '\n' → k.ahead false u = k.ahead false s) := by
      rw [TextSearch.mapped, double_eq hk]
      split
      · rename_i hd
        exact ⟨_, by rw [hd.1]; rfl, fun hn => absurd (hd.1.symm.trans hn) (by decide)⟩
      · exact ⟨_, rfl, fun _ => TextSearch.ahead_mapped htame false s⟩
    have hcons : k.mapped (k.single '\\' ['\\', '\\']) false (c :: d :: s) =
        k.single '\\' ['\\', '\\'] (k.continues d) c ++ d :: u := hu ▸ rfl
    rw [hcons, TextSearch.mapped, ahead_breaks hk, ← ih, hu]
    have hahead : k.ahead false (d :: s) = k.continues d := rfl
    rw [hahead]
    by_cases hb : c = '\\'
    · subst hb
      rw [if_neg fun hand => absurd hand.1 (by decide), double_eq hk]
      split
      · rw [List.cons_append, List.singleton_append, breaks_cons hk (.inl (by decide)),
          breaks_cons hk (.inl (by decide))]
        rfl
      · rw [List.singleton_append, breaks_cons hk (.inl (by decide))]
        rfl
    · rw [hplain _ c hb, List.singleton_append]
      by_cases hr : c = '\r' ∧ k.continues d = false
      · obtain ⟨rfl, hd⟩ := hr
        -- no LF that is found with the CR stands behind it
        have hno : ¬ ('\r' = '\r' ∧ d = '\n' ∧ k.ahead false u = false) := fun hand =>
          h ⟨rfl, hand.2.1, (hlf hand.2.1).symm.trans hand.2.2⟩
        rw [breaks, if_neg hno, if_pos ⟨rfl, hd⟩, hplain _ '\n' (by decide)]
        rfl
      · rw [if_neg hr, hplain _ c hb]
        refine breaks_cons hk ?_
        by_cases hc : c = '\r'
        · exact .inr (by simpa [hc, TextSearch.ahead] using hr)
        · exact .inl hc

/-- **The replacements, one character at a time.** -/
theorem escape_eq (hk : Unicode k) (s : List Char) :
    escape k s = k.mapped piece false (breaks k s) := by
  have hbreaks : ∀ t, replaceOccurrences k "\r" "\n" (replaceOccurrences k "\r\n" "\n" t) =
      breaks k t := replace_breaks hk
  have hdouble : replaceOccurrences k "\\" "\\\\" s =
      k.mapped (k.single '\\' ['\\', '\\']) false s := TextSearch.replace_one k '\\' _ s
  have hline : ∀ t, replaceOccurrences k "\n" "\\n" t =
      k.mapped (k.single '\n' ['\\', 'n']) false t := fun t => TextSearch.replace_one k '\n' _ t
  have hsemicolon : ∀ t, replaceOccurrences k ";" "\\;" t =
      k.mapped (k.single ';' ['\\', ';']) false t := fun t => TextSearch.replace_one k ';' _ t
  have hcomma : ∀ t, replaceOccurrences k "," "\\," t =
      k.mapped (k.single ',' ['\\', ',']) false t := fun t => TextSearch.replace_one k ',' _ t
  simp only [escape, hbreaks, hdouble, hline, hsemicolon, hcomma]
  rw [breaks_double hk, TextSearch.mapped_mapped (tame_of_ascii hk (by simp)),
    TextSearch.mapped_mapped (tame_of_ascii hk (by simp)),
    TextSearch.mapped_mapped (tame_of_ascii hk (by simp))]
  have heq := fun x (hx : x ∈ ['\\', '\r', '\n', ';', ',']) => hk.equivalent x hx
  refine TextSearch.mapped_congr fun a c _ => ?_
  cases a with
  | true => simp [TextSearch.single, TextSearch.mapped, TextSearch.ahead, piece]
  | false =>
    simp only [TextSearch.single, Bool.not_false, Bool.and_true]
    by_cases h1 : c = '\\'
    · subst h1
      simp [TextSearch.mapped, TextSearch.single, piece, escapeChar, heq, questionMark]
    by_cases h2 : c = '\n'
    · subst h2
      simp [TextSearch.mapped, TextSearch.single, TextSearch.ahead, piece, escapeChar, heq,
        questionMark]
    by_cases h3 : c = ';' ∨ c = questionMark
    · obtain rfl | rfl := h3 <;>
        simp [TextSearch.mapped, TextSearch.single, TextSearch.ahead, piece, escapeChar, heq,
          questionMark]
    by_cases h4 : c = ','
    · subst h4
      simp [TextSearch.mapped, TextSearch.single, TextSearch.ahead, piece, escapeChar, heq,
        questionMark]
    simp [TextSearch.mapped, TextSearch.single, piece, escapeChar, heq, h1, h2, not_or.1 h3, h4]

end

end VCard
