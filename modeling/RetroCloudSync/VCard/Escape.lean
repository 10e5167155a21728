import Mathlib.Data.List.TakeWhile
import RetroCloudSync.VCard.Text

/-!
# Escaped text is read back

The pieces that `escapeChar` writes are closed, so joined values are cut where they were joined
(`rawParts_join`); decoding takes the pieces apart again (`decodeValue_escape`). Both hold of the
characters that the search finds as they stand: a backslash or a semicolon with a sequence that goes
on behind it is copied. UTF-8 writes the separator and the escape character as one byte each and no
other character with these bytes (`keeps_utf8`), so cutting bytes is cutting characters.
-/

set_option autoImplicit false

namespace VCard

open Library Journal ContactStore

/-! ## ASCII in UTF-8 -/

theorem utf8_append (s t : List Char) : utf8 (s ++ t) = utf8 s ++ utf8 t := List.flatMap_append

theorem eq_of_mem_utf8EncodeChar {c : Char} {x : UInt8} (h : x ∈ String.utf8EncodeChar c)
    (hx : x.toNat < 128) : c.toNat = x.toNat := by
  unfold String.utf8EncodeChar at h
  have hv : c.val.toNat = c.toNat := rfl
  simp only [hv] at h
  split_ifs at h with h1 h2 h3 <;>
    simp only [List.mem_cons, List.not_mem_nil, or_false] at h
  · subst h
    rw [UInt8.toNat_ofNat']
    omega
  · obtain rfl | rfl := h <;> rw [UInt8.toNat_ofNat'] at hx <;> omega
  · obtain rfl | rfl | rfl := h <;> rw [UInt8.toNat_ofNat'] at hx <;> omega
  · obtain rfl | rfl | rfl | rfl := h <;> rw [UInt8.toNat_ofNat'] at hx <;> omega

theorem not_mem_utf8EncodeChar {c d : Char} {x : UInt8} (hd : d.toNat = x.toNat)
    (hx : x.toNat < 128) (hc : c ≠ d) : ∀ y ∈ String.utf8EncodeChar c, y ≠ x := by
  rintro y hy rfl
  exact hc (Char.toNat_inj.1 ((eq_of_mem_utf8EncodeChar hy hx).trans hd.symm))

theorem keeps_utf8 :
    Escaped.Keeps ';' '\\' semicolon backslash String.utf8EncodeChar where
  separator := by decide
  escape := by decide
  other c h1 h2 := ⟨String.utf8EncodeChar_ne_nil, fun x hx =>
    ⟨not_mem_utf8EncodeChar (d := ';') rfl (by decide) h1 x hx,
      not_mem_utf8EncodeChar (d := '\\') rfl (by decide) h2 x hx⟩⟩

/-- **The bytes of a text are cut where its characters are.** -/
theorem split_utf8 (s : List Char) : Escaped.split semicolon backslash false (utf8 s) =
    (Escaped.split ';' '\\' false s).map utf8 :=
  Escaped.split_flatMap keeps_utf8 (by decide) false s

/-! ## NUL -/

theorem zero_not_mem_utf8 {s : List Char} (h : '\x00' ∉ s) : (0 : UInt8) ∉ utf8 s := by
  intro hm
  obtain ⟨c, hc, hx⟩ := List.mem_flatMap.1 hm
  have hn : c ≠ '\x00' := fun he => h (he ▸ hc)
  exact not_mem_utf8EncodeChar (d := '\x00') rfl (by decide) hn 0 hx rfl

theorem cString_eq {b : Bytes} (h : (0 : UInt8) ∉ b) : cString b = b := by
  refine List.takeWhile_eq_self_iff.2 fun c hc => ?_
  simp only [ne_eq, decide_not, Bool.not_eq_true', decide_eq_false_iff_not]
  rintro rfl
  exact h hc

theorem mem_breaks {k : TextSearch Char} {x : Char} {s : List Char} (h : x ∈ breaks k s) :
    x ∈ s ∨ x = '\n' := by
  fun_induction breaks k s with
  | case1 => simp at h
  | case2 c =>
    split at h <;> simp_all
  | case3 c d s hcd ih =>
    obtain rfl | h := List.mem_cons.1 h
    · exact .inr rfl
    · exact (ih h).imp_left fun hx => List.mem_cons_of_mem c (List.mem_cons_of_mem d hx)
  | case4 c d s hcd ih =>
    obtain rfl | h := List.mem_cons.1 h
    · split <;> simp
    · exact (ih h).imp_left (List.mem_cons_of_mem c)

theorem zero_not_mem_escape {k : TextSearch Char} (hk : Unicode k) {s : List Char}
    (h : '\x00' ∉ s) : '\x00' ∉ escape k s := by
  rw [escape_eq hk]
  intro hm
  obtain ⟨a, c, hc, hx⟩ := TextSearch.mem_mapped hm
  have hcs : c ≠ '\x00' := by
    rintro rfl
    obtain hs | hs := mem_breaks hc
    · exact h hs
    · exact absurd hs (by decide)
  unfold piece escapeChar at hx
  split_ifs at hx <;> simp at hx <;> exact hcs hx.symm

theorem mem_join {x c : Char} {ws : List (List Char)} (h : x ∈ Escaped.join c ws) :
    x = c ∨ ∃ w ∈ ws, x ∈ w := by
  fun_induction Escaped.join c ws with
  | case1 => simp at h
  | case2 w => exact .inr ⟨w, by simp, h⟩
  | case3 w v ws ih =>
    simp only [List.mem_append, List.mem_cons] at h
    obtain h | rfl | h := h
    · exact .inr ⟨w, by simp, h⟩
    · exact .inl rfl
    · obtain rfl | ⟨y, hy, hx⟩ := ih h
      · exact .inl rfl
      · exact .inr ⟨y, List.mem_cons_of_mem w hy, hx⟩

/-! ## Components -/

theorem closed_escapeChar (c : Char) : Escaped.Closed ';' '\\' (escapeChar c) := by
  unfold escapeChar
  split_ifs with h1 h2 h3 h4
  · exact ⟨rfl, rfl⟩
  · exact ⟨rfl, rfl⟩
  · exact ⟨rfl, rfl⟩
  · exact ⟨rfl, rfl⟩
  · have hc : ∀ x ∈ [c], x ≠ ';' ∧ x ≠ '\\' := by simp [h1, (not_or.1 h3).1]
    exact ⟨Escaped.one_plain hc, Escaped.dangling_plain (fun x hx => (hc x hx).2) (by simp)⟩

/-- Neither a backslash nor a semicolon with a sequence that goes on behind it. -/
def closes (a : Bool) (c : Char) : Bool := !a || (c ≠ '\\' && c ≠ ';')

theorem closed_piece {a : Bool} {c : Char} (h : closes a c = true) :
    Escaped.Closed ';' '\\' (piece a c) := by
  cases a with
  | false => exact closed_escapeChar c
  | true =>
    have hc : ∀ x ∈ [c], x ≠ ';' ∧ x ≠ '\\' := by
      simpa [closes, and_comm] using h
    exact ⟨Escaped.one_plain hc,
      Escaped.dangling_plain (fun x hx => (hc x hx).2) (List.cons_ne_nil c [])⟩

section
variable {k : TextSearch Char}

theorem closed_mapped {b : Bool} {s : List Char} (h : k.every closes b s = true) :
    Escaped.Closed ';' '\\' (k.mapped piece b s) := by
  induction s with
  | nil => exact Escaped.closed_nil
  | cons c s ih =>
    rw [TextSearch.every, Bool.and_eq_true] at h
    exact (closed_piece h.1).append (ih h.2)

/-- **An escaped text is one component**, whatever stands behind it. -/
theorem closed_escape (hk : Unicode k) {s : List Char} (h : k.every closes false s = true) :
    Escaped.Closed ';' '\\' (escape k s) := by
  rw [escape_eq hk]
  exact closed_mapped (every_breaks hk (by decide) h)

/-- **Joined texts are cut where they were joined.** -/
theorem rawParts_join (hk : Unicode k) {l : List (List Char)} (hne : l ≠ [])
    (h0 : ∀ s ∈ l, '\x00' ∉ s) (hl : ∀ s ∈ l, k.every closes false s = true) :
    rawParts (utf8 (Escaped.join ';' (l.map (escape k)))) = l.map fun s => utf8 (escape k s) := by
  have hzero : '\x00' ∉ Escaped.join ';' (l.map (escape k)) := by
    intro hm
    obtain h | ⟨w, hw, hx⟩ := mem_join hm
    · exact absurd h (by decide)
    · obtain ⟨s, hs, rfl⟩ := List.mem_map.1 hw
      exact zero_not_mem_escape hk (h0 s hs) hx
  have hclosed : ∀ w ∈ l.map (escape k), Escaped.Closed ';' '\\' w := by
    intro w hw
    obtain ⟨s, hs, rfl⟩ := List.mem_map.1 hw
    exact closed_escape hk (hl s hs)
  rw [rawParts, cString_eq (zero_not_mem_utf8 hzero), split_utf8]
  obtain ⟨first, last, rfl⟩ : ∃ first last, l = first ++ [last] :=
    ⟨_, _, (List.dropLast_append_getLast hne).symm⟩
  rw [List.map_append] at hclosed ⊢
  have hlast := hclosed (escape k last) (List.mem_append_right _ (List.mem_singleton_self _))
  rw [List.map_singleton, Escaped.split_join (fun w hw => hclosed w (List.mem_append_left _ hw))
    hlast.one, ← List.map_singleton, ← List.map_append, List.map_map]
  rfl

end

/-! ## Decoding -/

theorem decodeValue_plain {w : Bytes} (h : ∀ c ∈ w, c ≠ backslash) (rest : Bytes) :
    decodeValue (w ++ rest) = w ++ decodeValue rest := by
  induction w with
  | nil => rfl
  | cons c w ih =>
    have hc : c ≠ backslash := h c List.mem_cons_self
    have ih' := ih fun x hx => h x (List.mem_cons_of_mem c hx)
    rw [List.cons_append, List.cons_append, ← ih']
    cases w ++ rest with
    | nil => rfl
    | cons d s => rw [decodeValue, if_neg hc]

theorem decodeValue_escapeChar {c : Char} (h : c ≠ questionMark) (rest : Bytes) :
    decodeValue (utf8 (escapeChar c) ++ rest) = String.utf8EncodeChar c ++ decodeValue rest := by
  unfold escapeChar
  split_ifs with h1 h2 h3 h4
  · subst h1
    rfl
  · subst h2
    rfl
  · obtain rfl | h3 := h3
    · rfl
    · exact absurd h3 h
  · subst h4
    rfl
  · rw [utf8, List.flatMap_cons, List.flatMap_nil, List.append_nil]
    exact decodeValue_plain (not_mem_utf8EncodeChar (d := '\\') rfl (by decide) h1) rest

/-- Neither a backslash with a sequence that goes on behind it nor what is taken for a semicolon. -/
def legible (a : Bool) (c : Char) : Bool := if a then c ≠ '\\' else c ≠ questionMark

theorem decodeValue_piece {a : Bool} {c : Char} (h : legible a c = true) (rest : Bytes) :
    decodeValue (utf8 (piece a c) ++ rest) = String.utf8EncodeChar c ++ decodeValue rest := by
  cases a with
  | false => exact decodeValue_escapeChar (by simpa [legible] using h) rest
  | true =>
    have hc : c ≠ '\\' := by simpa [legible] using h
    rw [piece, if_pos rfl, utf8, List.flatMap_cons, List.flatMap_nil, List.append_nil]
    exact decodeValue_plain (not_mem_utf8EncodeChar (d := '\\') rfl (by decide) hc) rest

section
variable {k : TextSearch Char}

/-- **Decoding takes the pieces apart**, whatever stands behind them. -/
theorem decodeValue_mapped {b : Bool} {s : List Char} (h : k.every legible b s = true)
    (rest : Bytes) :
    decodeValue (utf8 (k.mapped piece b s) ++ rest) = utf8 s ++ decodeValue rest := by
  induction s with
  | nil => rfl
  | cons c s ih =>
    rw [TextSearch.every, Bool.and_eq_true] at h
    rw [TextSearch.mapped, utf8_append, List.append_assoc, decodeValue_piece h.1, ih h.2,
      ← List.append_assoc]
    rfl

theorem decodeValue_escape (hk : Unicode k) {s : List Char}
    (h : k.every legible false s = true) :
    decodeValue (utf8 (escape k s)) = utf8 (breaks k s) := by
  rw [escape_eq hk, ← List.append_nil (utf8 (k.mapped piece false _)),
    decodeValue_mapped (every_breaks hk (by decide) h)]
  exact List.append_nil _

/-! ## The round trip -/

/-- A text that is searched as it stands: no sequence goes on behind a backslash, a CR or a CRLF,
and no Greek question mark is taken for a semicolon. -/
structure Searchable (k : TextSearch Char) (s : List Char) : Prop where
  found : k.every (fun a c => !a || (c ≠ '\\' && c ≠ '\r')) false s = true
  crlf : crlfFound k s = true
  mark : k.every (fun a c => a || c ≠ questionMark) false s = true

theorem Searchable.legible {s : List Char} (h : Searchable k s) :
    k.every legible false s = true := by
  have hboth := TextSearch.every_and h.found h.mark
  refine TextSearch.every_mono (fun a c hc => ?_) hboth
  cases a <;> simp_all [VCard.legible]

theorem Searchable.breaks {s : List Char} (h : Searchable k s) : breaks k s = normalize s := by
  refine breaks_eq (TextSearch.every_mono (fun a c hc => ?_) h.found) h.crlf
  cases a <;> simp_all

/-- **Text escaping round-trips.** Components without NUL that are searched as they stand, with no
sequence that goes on behind a semicolon, are read back with their line ends as LF when they are
escaped and joined, and where nothing was joined there is one empty component; decoding an escaped
text gives the text, with its line ends as LF. -/
theorem escape_roundtrip (hk : Unicode k) :
    (∀ (p : VCardProperty) (l : List (List Char)), structured p.name = true → l ≠ [] →
      (∀ s ∈ l, '\x00' ∉ s ∧ Searchable k s ∧ k.every (fun a c => !a || c ≠ ';') false s = true) →
      p.originalValue = utf8 (Escaped.join ';' (l.map (escape k))) →
      parseParts p = l.mapIdx fun i s => ⟨utf8 (normalize s), i, 0⟩) ∧
    (∀ p : VCardProperty, structured p.name = true →
      p.originalValue = utf8 (Escaped.join ';' []) → parseParts p = [⟨[], 0, 0⟩]) ∧
    ∀ s : List Char, Searchable k s → decodeValue (utf8 (escape k s)) = utf8 (normalize s) := by
  have hread : ∀ s, Searchable k s → decodeValue (utf8 (escape k s)) = utf8 (normalize s) :=
    fun s hs => by rw [decodeValue_escape hk hs.legible, hs.breaks]
  refine ⟨fun p l hp hl hs hv => ?_, fun p hp hv => ?_, hread⟩
  · have hcloses : ∀ s ∈ l, k.every closes false s = true := by
      intro s hm
      obtain ⟨-, hfound, hsemicolon⟩ := hs s hm
      refine TextSearch.every_mono (fun a c hc => ?_)
        (TextSearch.every_and hfound.found hsemicolon)
      cases a <;> simp_all [closes]
    rw [parseParts, if_pos hp, hv, rawParts_join hk hl (fun s hm => (hs s hm).1) hcloses]
    refine List.ext_getElem? fun i => ?_
    rw [List.getElem?_mapIdx, List.getElem?_mapIdx, List.getElem?_map, Option.map_map]
    cases hi : l[i]? with
    | none => rfl
    | some s =>
      simp only [Option.map_some, Function.comp_apply,
        hread s (hs s (List.mem_of_getElem? hi)).2.1]
  · rw [parseParts, if_pos hp, hv]
    rfl

end

/-- Canonical equivalence and the combining diacritical marks. -/
def unicode : TextSearch Char where
  equivalent c d := d = c || (c = ';' && d = questionMark)
  continues c := 0x300 ≤ c.toNat && c.toNat ≤ 0x36f

theorem unicode_documented : Unicode unicode where
  equivalent c _ d := by simp [unicode]
  ascii c hc := by
    simp only [unicode, Bool.and_eq_false_iff, decide_eq_false_iff_not]
    omega
  questionMark := by decide

theorem escape_roundtrip_ends :
    parseParts ⟨none, ascii "N", [],
      utf8 (Escaped.join ';' (["a\\;\r\n", ",\\n", "e\u0301"].map (escape unicode ·.toList))), none,
        0, [], []⟩ = [⟨ascii "a\\;\n", 0, 0⟩, ⟨ascii ",\\n", 1, 0⟩, ⟨utf8 ['e', '\u0301'], 2, 0⟩] := by
  have h := (escape_roundtrip unicode_documented).1 ⟨none, ascii "N", [], utf8 (Escaped.join ';'
    ((["a\\;\r\n", ",\\n", "e\u0301"].map String.toList).map (escape unicode))), none, 0, [], []⟩
    (["a\\;\r\n", ",\\n", "e\u0301"].map String.toList) (by decide) (by simp) ?_ rfl
  · exact h
  · intro s hs
    simp only [List.map_cons, List.map_nil, List.mem_cons, List.not_mem_nil, or_false] at hs
    obtain rfl | rfl | rfl := hs
    · exact ⟨by decide, ⟨by decide, by decide, by decide⟩, by decide⟩
    · exact ⟨by decide, ⟨by decide, by decide, by decide⟩, by decide⟩
    · exact ⟨by decide, ⟨by decide, by decide, by decide⟩, by decide⟩

/-- No component at all is read back as one; a semicolon with an accent cuts its component, and a
backslash with one is lost. -/
theorem escape_composed :
    (¬ ∀ (p : VCardProperty) (l : List (List Char)), structured p.name = true → l = [] →
      (∀ s ∈ l, '\x00' ∉ s) → p.originalValue = utf8 (Escaped.join ';' (l.map (escape unicode))) →
      (parseParts p).map VCardValuePart.value = l.map fun s => utf8 (normalize s)) ∧
    (¬ ∀ (p : VCardProperty) (l : List (List Char)), structured p.name = true → l ≠ [] →
      (∀ s ∈ l, '\x00' ∉ s) → p.originalValue = utf8 (Escaped.join ';' (l.map (escape unicode))) →
      (parseParts p).map VCardValuePart.value = l.map fun s => utf8 (normalize s)) ∧
    ¬ ∀ s : List Char, decodeValue (utf8 (escape unicode s)) = utf8 (normalize s) := by
  refine ⟨fun h => ?_, fun h => ?_, fun h => ?_⟩
  · exact absurd (h ⟨none, ascii "N", [], [], none, 0, [], []⟩ [] (by decide) rfl (by simp) rfl)
      (by decide)
  · exact absurd (h ⟨none, ascii "N", [], utf8 [';', '\u0301'], none, 0, [], []⟩ [[';', '\u0301']]
      (by decide) (by simp) (by decide) (by decide)) (by decide)
  · exact absurd (h ['\\', '\u0301']) (by decide)

end VCard
