import RetroCloudSync.Native.Equality
import RetroCloudSync.VCard.Escape

/-!
# Editing a structured value

`StructuredEdit` of `RCContactTwoWay.m`: the original value is cut at its free semicolons, missing
components are appended, and the components of the keys that changed are replaced; the edit of a
street clears the two components that the format reserves.

A component that is left in the middle of an escape swallows the semicolon behind it. Only the last
component of the original can be left so, and only where another one is appended behind it
(`Swallows`). A new text is read back as it was when it is `Readable`; everywhere else the first
character that is not is read as another one, or as none (`decodeValue_unreadable`).
-/

set_option autoImplicit false

namespace VCard

open Library Journal ContactStore Native

section
variable {U I : Type} [DecidableEq U] [DecidableEq I] [Foundation U I] (k : TextSearch Char)

/-! ## The edit -/

/-- `Changed`. -/
def changed (a b : Record (Cocoa U I)) (key : String) : Bool :=
  let kind := if (entity a).isSome && entity a = entity b then entity a else none
  !propertyValuesEqual kind key (a.lookup key) (b.lookup key)

/-- The original value of an occurrence of a property. -/
def originalValue (doc : VCardDocument) (name : String) (occurrence : Nat) : Bytes :=
  match (doc.properties.filter fun p =>
      Resource.sameLetters p.name (utf8 name.toList))[occurrence]? with
  | none => []
  | some p => p.originalValue

/-- The components with those of the changed keys replaced. -/
def replaceChanged (keys : List String) (base record : Record (Cocoa U I))
    (parts : List (List Char)) : List (List Char) :=
  parts.mapIdx fun i part => match keys[i]? with
    | some key =>
      if key ≠ "" ∧ changed base record key then escape k (twoWayString (record.lookup key))
      else part
    | none => part

/-- `StructuredEdit`. Of a value that is not UTF-8 there is no string, and `addObject:` raises; so
does `replaceObjectAtIndex:` beyond the components. -/
def structuredEdit (doc : VCardDocument) (name : String) (occurrence : Nat) (keys : List String)
    (base record : Record (Cocoa U I)) (address : Bool) : Option (List Char) :=
  (stringWithUTF8 (cString (originalValue doc name occurrence))).bind fun original =>
    let parts := Escaped.split ';' '\\' false original
    let parts := parts ++ List.replicate (keys.length - parts.length) []
    let parts := replaceChanged k keys base record parts
    if address && changed base record "street" then
      if parts.length < 2 then none else some (Escaped.join ';' ((parts.set 0 []).set 1 []))
    else some (Escaped.join ';' parts)

/-! ## What it is for -/

/-- What a component is to become: the text of its key when that changed, nothing for the two
reserved components of an address whose street changed. -/
def newText (keys : List String) (base record : Record (Cocoa U I)) (address : Bool) (i : Nat) :
    Option (List Char) :=
  if address && changed base record "street" && i < 2 then some []
  else match keys[i]? with
    | some key =>
      if key ≠ "" ∧ changed base record key then some (twoWayString (record.lookup key)) else none
    | none => none

/-- What is read back where it stands: with a sequence that goes on behind it, neither a backslash
nor a semicolon, and otherwise neither a CR nor what is taken for a semicolon. -/
def readable (a : Bool) (c : Char) : Bool :=
  if a then c ≠ '\\' && c ≠ ';' else c ≠ '\r' && c ≠ questionMark

/-- A text that is read back as it was. -/
structure Readable (s : List Char) : Prop where
  zero : '\x00' ∉ s
  every : k.every readable false s = true

instance (s : List Char) : Decidable (Readable k s) :=
  decidable_of_iff ('\x00' ∉ s ∧ k.every readable false s = true)
    ⟨fun h => ⟨h.1, h.2⟩, fun h => ⟨h.zero, h.every⟩⟩

/-- **Only the edited components change**: parsing gives each its new text, every other component
has the bytes it had, and there are no more components than before or than the program shows. -/
structure OnlyEdited (original edited : Bytes) (shown : Nat) (new : Nat → Option (List Char)) :
    Prop where
  written : ∀ p : VCardProperty, structured p.name = true → p.originalValue = edited →
    ∀ i s, new i = some s → (parseParts p)[i]?.map VCardValuePart.value = some (utf8 s)
  kept : ∀ i, new i = none → ∀ raw, (rawParts original)[i]? = some raw →
    (rawParts edited)[i]? = some raw
  count : (rawParts edited).length = max (rawParts original).length shown

/-- The last component of the original is left in the middle of an escape, is kept, and has one
appended behind it. -/
def Swallows (original : Bytes) (shown : Nat) (new : Nat → Option (List Char)) : Prop :=
  Escaped.dangling backslash false (cString original) = true ∧
    (rawParts original).length < shown ∧ new ((rawParts original).length - 1) = none

instance (original : Bytes) (shown : Nat) (new : Nat → Option (List Char)) :
    Decidable (Swallows original shown new) := inferInstanceAs (Decidable (_ ∧ _ ∧ _))

end

/-! ## Characters and bytes -/

theorem utf8_of_stringWithUTF8 {b : Bytes} {s : List Char} (h : stringWithUTF8 b = some s) :
    utf8 s = b := by
  obtain ⟨a, ha, rfl⟩ := Option.map_eq_some_iff.1 h
  have hsome : (ByteArray.utf8Decode? ⟨b.toArray⟩).isSome := by rw [ha]; rfl
  have henc := ByteArray.utf8Encode_get_utf8Decode? (b := ⟨b.toArray⟩) (h := hsome)
  simp only [ha, Option.get_some] at henc
  have hdata := congrArg (fun x => x.data.toList) henc
  simpa [List.utf8Encode, utf8] using hdata

section
variable {s : List Char} {b : Bytes}

theorem mem_decodeValue {x : UInt8} (h : x ∈ decodeValue b) : x ∈ b ∨ x = 0x0a := by
  fun_induction decodeValue b with
  | case1 => simp at h
  | case2 c => exact .inl h
  | case3 d rest ih =>
    obtain rfl | h := List.mem_cons.1 h
    · split
      · exact .inr rfl
      · exact .inl (by simp)
    · obtain h | h := ih h
      · exact .inl (by simp [h])
      · exact .inr h
  | case4 c d rest hc ih =>
    obtain rfl | h := List.mem_cons.1 h
    · exact .inl (by simp)
    · obtain h | h := ih h
      · exact .inl (List.mem_cons_of_mem c h)
      · exact .inr h

theorem zero_not_mem_cString (b : Bytes) : (0 : UInt8) ∉ cString b := fun h => by
  have := List.mem_takeWhile_imp h
  simp at this

theorem zero_not_mem_parsed {raw : Bytes} (h : raw ∈ rawParts b) :
    (0 : UInt8) ∉ decodeValue raw := by
  intro h0
  obtain h0 | h0 := mem_decodeValue h0
  · exact zero_not_mem_cString b (Escaped.mem_split h h0)
  · exact absurd h0 (by decide)

theorem mem_utf8 {c : Char} {x : UInt8} (hc : c.toNat = x.toNat) (hx : x.toNat < 128) :
    x ∈ utf8 s ↔ c ∈ s := by
  constructor
  · intro h
    obtain ⟨d, hd, hm⟩ := List.mem_flatMap.1 h
    rwa [Char.toNat_inj.1 (hc.trans (eq_of_mem_utf8EncodeChar hm hx).symm)]
  · intro h
    refine List.mem_flatMap.2 ⟨c, h, ?_⟩
    have hv : c.val.toNat = x.toNat := hc
    simp only [String.utf8EncodeChar, hv]
    rw [if_pos (by omega), UInt8.ofNat_toNat]
    exact List.mem_singleton_self x

end

/-! ## Texts that are read back -/

section
variable {k : TextSearch Char} {s : List Char}

theorem Readable.closes (h : Readable k s) : k.every closes false s = true :=
  TextSearch.every_mono (fun a c hc => by cases a <;> simp_all [readable, VCard.closes]) h.every

/-- **A readable text is read back as it was.** -/
theorem Readable.decode (hk : Unicode k) (h : Readable k s) :
    decodeValue (utf8 (escape k s)) = utf8 s := by
  have hcr : k.every (fun a c => a || c ≠ '\r') (k.ahead false []) s = true :=
    TextSearch.every_mono (fun a c hc => by cases a <;> simp_all [readable]) h.every
  have hbreaks := breaks_append hk hcr
  rw [List.append_nil] at hbreaks
  rw [decodeValue_escape hk, hbreaks]
  · exact congrArg utf8 (List.append_nil s)
  · exact TextSearch.every_mono
      (fun a c hc => by cases a <;> simp_all [readable, VCard.legible]) h.every

theorem head_split_append {w t v : List Char} (hw : Escaped.Closed ';' '\\' w)
    (h : (Escaped.split ';' '\\' false (w ++ t)).head? = some v) :
    ∃ u, (Escaped.split ';' '\\' false t).head? = some u ∧ v = w ++ u := by
  rw [Escaped.split_append hw.one, hw.closed] at h
  obtain ⟨u, us, hu⟩ := List.exists_cons_of_ne_nil
    (@Escaped.split_ne_nil _ _ ';' '\\' false t)
  rw [hu] at h ⊢
  exact ⟨u, rfl, (Option.some.inj h).symm⟩

theorem closed_escaped (c : Char) : Escaped.Closed ';' '\\' ['\\', c] := by
  constructor
  · exact Escaped.one_cons.2 ⟨by decide, Escaped.one_cons.2 ⟨by simp [Escaped.after], rfl⟩⟩
  · simp [Escaped.dangling, Escaped.after]

/-- The first octet that a character is decoded to behind a backslash. -/
theorem head_decodeValue_escaped {c : Char} {d : UInt8} {w : Bytes} (rest : List Char)
    (hc : String.utf8EncodeChar c = d :: w) :
    (decodeValue (utf8 ('\\' :: c :: rest))).head? =
      some (if d = 0x6e ∨ d = 0x4e then 0x0a else d) := by
  have hbytes : utf8 ('\\' :: c :: rest) = backslash :: d :: (w ++ utf8 rest) := by
    rw [utf8, List.flatMap_cons, List.flatMap_cons, hc]
    rfl
  rw [hbytes, decodeValue, if_pos rfl]
  rfl

theorem utf8EncodeChar_continues (hk : Unicode k) {c : Char} (hc : k.continues c = true) :
    ∃ d w, String.utf8EncodeChar c = d :: w ∧ 128 ≤ d.toNat := by
  obtain ⟨d, w, hd⟩ := List.exists_cons_of_ne_nil (@String.utf8EncodeChar_ne_nil c)
  refine ⟨d, w, hd, ?_⟩
  by_contra hlt
  have hsame := eq_of_mem_utf8EncodeChar (hd ▸ List.mem_cons_self : d ∈ String.utf8EncodeChar c)
    (by omega)
  rw [hk.ascii c (by omega)] at hc
  cases hc

/-- **From the first character on that is not readable, something else is read.** -/
theorem head_unreadable (hk : Unicode k) {x : Char} {t tail u : List Char}
    (hx : readable (k.ahead false t) x = false)
    (hu : (Escaped.split ';' '\\' false (k.mapped piece false (breaks k (x :: t)) ++ tail)).head? =
      some u) : decodeValue (utf8 u) ≠ utf8 (x :: t) := by
  intro he
  have hhead := congrArg List.head? he
  cases ha : k.ahead false t with
  | true =>
    obtain ⟨c, t, rfl⟩ : ∃ c r, t = c :: r := by
      cases t with
      | nil => cases ha
      | cons c r => exact ⟨c, r, rfl⟩
    have hc : k.continues c = true := ha
    obtain ⟨d, w, hd, hbig⟩ := utf8EncodeChar_continues hk hc
    have hcr : c ≠ '\r' := by
      rintro rfl
      rw [hk.ascii '\r' (by decide)] at hc
      cases hc
    rw [ha] at hx
    have hx' : x = '\\' ∨ x = ';' := by simpa [readable, or_iff_not_imp_left] using hx
    have hbreaks : breaks k (x :: c :: t) = x :: c :: breaks k t := by
      rw [breaks_cons hk (.inr ha), breaks_cons hk (.inl hcr)]
    have hahead : k.ahead false (c :: breaks k t) = true := hc
    rw [hbreaks, TextSearch.mapped, hahead] at hu
    obtain rfl | rfl := hx'
    · -- the backslash is lost
      have hplain : piece (k.ahead false (breaks k t)) c = [c] := by
        have hne : c ≠ '\\' ∧ c ≠ '\n' ∧ (c ≠ ';' ∧ c ≠ questionMark) ∧ c ≠ ',' := by
          refine ⟨?_, ?_, ⟨?_, ?_⟩, ?_⟩ <;> rintro rfl
          · exact absurd hc (by rw [hk.ascii _ (by decide)]; decide)
          · exact absurd hc (by rw [hk.ascii _ (by decide)]; decide)
          · exact absurd hc (by rw [hk.ascii _ (by decide)]; decide)
          · exact absurd hc (by rw [hk.questionMark]; decide)
          · exact absurd hc (by rw [hk.ascii _ (by decide)]; decide)
        unfold piece escapeChar
        split <;> simp [hne]
      rw [TextSearch.mapped, hplain] at hu
      obtain ⟨v, -, rfl⟩ := head_split_append (closed_escaped c) hu
      have hfirst := head_decodeValue_escaped v hd
      rw [show ['\\', c] ++ v = '\\' :: c :: v from rfl, hfirst] at hhead
      have hback : (utf8 ('\\' :: c :: t)).head? = some backslash := rfl
      rw [hback, Option.some.injEq] at hhead
      split at hhead
      · cases hhead
      · rw [hhead] at hbig
        exact absurd hbig (by decide)
    · -- the component ends at the semicolon
      have hend : (Escaped.split ';' '\\' false
          (piece true ';' ++ k.mapped piece false (c :: breaks k t) ++ tail)).head? = some [] := rfl
      rw [hend, Option.some.injEq] at hu
      subst hu
      cases hhead
  | false =>
    rw [ha] at hx
    have hx' : x = '\r' ∨ x = questionMark := by
      simpa [readable, or_iff_not_imp_left] using hx
    obtain rfl | rfl := hx'
    · obtain ⟨r, hr, hahead⟩ := breaks_found hk ha
      rw [hr, TextSearch.mapped, hahead] at hu
      obtain ⟨v, -, rfl⟩ := head_split_append (closed_escaped 'n') hu
      rw [show ['\\', 'n'] ++ v = '\\' :: 'n' :: v from rfl,
        head_decodeValue_escaped v (show String.utf8EncodeChar 'n' = 0x6e :: [] from rfl)] at hhead
      cases hhead
    · have hne : questionMark ≠ '\r' := by decide
      rw [breaks_cons hk (.inl hne), TextSearch.mapped, ahead_breaks hk, ha] at hu
      obtain ⟨v, -, rfl⟩ := head_split_append (closed_escaped ';') hu
      rw [show ['\\', ';'] ++ v = '\\' :: ';' :: v from rfl,
        head_decodeValue_escaped v (show String.utf8EncodeChar ';' = 0x3b :: [] from rfl)] at hhead
      cases hhead

/-- **A text that is not readable is not read back**, whatever stands behind it. -/
theorem decodeValue_unreadable (hk : Unicode k) (h : k.every readable false s = false)
    {tail v : List Char}
    (hv : (Escaped.split ';' '\\' false (escape k s ++ tail)).head? = some v) :
    decodeValue (utf8 v) ≠ utf8 s := by
  obtain ⟨s₁, x, s₂, rfl, hs, hx⟩ := TextSearch.every_false h
  have hcx : k.ahead false (x :: s₂) = k.continues x := rfl
  have hcr : k.every (fun a c => a || c ≠ '\r') (k.ahead false (x :: s₂)) s₁ = true :=
    TextSearch.every_mono (fun a c hc => by cases a <;> simp_all [readable]) hs
  have hclosed : Escaped.Closed ';' '\\' (k.mapped piece (k.continues x) s₁) :=
    closed_mapped (TextSearch.every_mono
      (fun a c hc => by cases a <;> simp_all [readable, VCard.closes]) hs)
  have hlegible : k.every VCard.legible (k.continues x) s₁ = true :=
    TextSearch.every_mono
      (fun a c hc => by cases a <;> simp_all [readable, VCard.legible]) hs
  rw [escape_eq hk, breaks_append hk hcr, TextSearch.mapped_append, ahead_breaks hk, hcx,
    List.append_assoc] at hv
  obtain ⟨u, hu, rfl⟩ := head_split_append hclosed hv
  rw [utf8_append, decodeValue_mapped hlegible, utf8_append]
  exact fun he => head_unreadable hk hx hu (List.append_cancel_left he)

end

/-! ## What is written -/

section
variable {U I : Type} [DecidableEq U] [DecidableEq I] [Foundation U I] {k : TextSearch Char}
  {keys : List String} {base record : Record (Cocoa U I)} {address : Bool}

/-- The components with their new texts. -/
def rewritten (k : TextSearch Char) (new : Nat → Option (List Char)) (parts : List (List Char)) :
    List (List Char) :=
  parts.mapIdx fun i part => ((new i).map (escape k)).getD part

theorem getElem?_rewritten (new : Nat → Option (List Char)) (parts : List (List Char)) (i : Nat) :
    (rewritten k new parts)[i]? = parts[i]?.map fun part => ((new i).map (escape k)).getD part :=
  List.getElem?_mapIdx

theorem length_rewritten (new : Nat → Option (List Char)) (parts : List (List Char)) :
    (rewritten k new parts).length = parts.length := List.length_mapIdx

/-- The components of the original, and empty ones for the keys that have none. -/
def padded (shown : Nat) (original : List Char) : List (List Char) :=
  Escaped.split ';' '\\' false original ++
    List.replicate (shown - (Escaped.split ';' '\\' false original).length) []

theorem length_padded (shown : Nat) (original : List Char) : (padded shown original).length =
    max (Escaped.split ';' '\\' false original).length shown := by
  rw [padded, List.length_append, List.length_replicate]
  omega

theorem clear_eq {parts : List (List Char)} (h : 2 ≤ parts.length)
    (hs : address && changed base record "street") :
    ((replaceChanged k keys base record parts).set 0 []).set 1 [] =
      rewritten k (newText keys base record address) parts := by
  refine List.ext_getElem? fun i => ?_
  rw [getElem?_rewritten]
  simp only [List.getElem?_set, List.length_set, replaceChanged, List.length_mapIdx,
    List.getElem?_mapIdx]
  by_cases h0 : i = 0
  · subst h0
    have hlt : 0 < parts.length := by omega
    simp [newText, hs, hlt, show escape k [] = [] from rfl]
  by_cases h1 : i = 1
  · subst h1
    have hlt : 1 < parts.length := by omega
    simp [newText, hs, hlt, show escape k [] = [] from rfl]
  have hi : ¬ i < 2 := by omega
  rw [if_neg (Ne.symm h1), if_neg (Ne.symm h0)]
  congr 1
  funext part
  simp only [newText, hi, decide_false, Bool.and_false, Bool.false_eq_true, if_false]
  cases keys[i]? with
  | none => rfl
  | some key => dsimp only; split <;> rfl

theorem replaceChanged_eq {parts : List (List Char)}
    (hs : ¬ (address && changed base record "street")) :
    replaceChanged k keys base record parts =
      rewritten k (newText keys base record address) parts := by
  refine List.ext_getElem? fun i => ?_
  rw [getElem?_rewritten, replaceChanged, List.getElem?_mapIdx]
  congr 1
  funext part
  simp only [newText, hs, Bool.false_and, Bool.false_eq_true, if_false]
  cases keys[i]? with
  | none => rfl
  | some key => dsimp only; split <;> rfl

/-- **An edit joins the components with their new texts**; there is room for all of these. -/
theorem structuredEdit_eq {doc : VCardDocument} {name : String} {occurrence : Nat}
    {edited : List Char}
    (h : structuredEdit k doc name occurrence keys base record address = some edited) :
    ∃ original, utf8 original = cString (originalValue doc name occurrence) ∧
      edited = Escaped.join ';'
        (rewritten k (newText keys base record address) (padded keys.length original)) ∧
      ∀ i s, newText keys base record address i = some s →
        i < (padded keys.length original).length := by
  obtain ⟨original, ho, h⟩ := Option.bind_eq_some_iff.1 h
  refine ⟨original, utf8_of_stringWithUTF8 ho, ?_⟩
  have hroom : ∀ i s, newText keys base record address i = some s →
      ¬ ((address && changed base record "street") = true ∧ i < 2) →
      i < (padded keys.length original).length := by
    intro i s hi hno
    have hlt : ¬ (address && changed base record "street" && decide (i < 2)) = true := by
      simpa [Bool.and_assoc] using hno
    rw [newText, if_neg hlt] at hi
    split at hi
    · rename_i key hkey
      have hk := (List.getElem?_eq_some_iff.1 hkey).1
      have hl := length_padded keys.length original
      omega
    · cases hi
  dsimp only at h
  split at h
  · rename_i hs
    split at h
    · cases h
    · rename_i hlen
      have hl : 2 ≤ (padded keys.length original).length := by
        simp only [replaceChanged, padded, List.length_mapIdx, List.length_append,
          List.length_replicate] at hlen ⊢
        omega
      rw [← clear_eq hl hs]
      refine ⟨(Option.some.inj h).symm, fun i s hi => ?_⟩
      by_cases h2 : i < 2
      · omega
      · exact hroom i s hi fun hh => h2 hh.2
  · rename_i hs
    rw [← replaceChanged_eq hs]
    exact ⟨(Option.some.inj h).symm, fun i s hi => hroom i s hi fun hh => hs hh.1⟩

end

/-! ## What is read back -/

section
variable {k : TextSearch Char} {new : Nat → Option (List Char)} {shown : Nat}
  {original : List Char}

/-- A component is closed, but for the last of the original, which is kept and left as the original
is, and for new texts that are not. -/
theorem rewritten_closed {i : Nat} {w : List Char}
    (hclosed : ∀ s, new i = some s → Escaped.Closed ';' '\\' (escape k s))
    (h : (rewritten k new (padded shown original))[i]? = some w) :
    Escaped.Closed ';' '\\' w ∨
      (i + 1 = (Escaped.split ';' '\\' false original).length ∧ new i = none ∧
        Escaped.One ';' '\\' false w ∧
        Escaped.dangling '\\' false w = Escaped.dangling '\\' false original) := by
  obtain ⟨vs, v, hsplit, hvs, hv, hd⟩ :=
    @Escaped.split_parts _ _ ';' '\\' (by decide) original
  rw [getElem?_rewritten] at h
  obtain ⟨part, hpart, rfl⟩ := Option.map_eq_some_iff.1 h
  cases hn : new i with
  | some s => exact .inl (hclosed s hn)
  | none =>
    rw [padded, hsplit] at hpart
    simp only [Option.map_none, Option.getD_none, hsplit, List.length_append, List.length_singleton]
    obtain hi | hi | hi := lt_trichotomy i vs.length
    · rw [List.append_assoc, List.getElem?_append_left hi] at hpart
      exact .inl (hvs part (List.mem_of_getElem? hpart))
    · rw [List.append_assoc, List.getElem?_append_right (by omega), hi, Nat.sub_self] at hpart
      obtain rfl := Option.some.inj hpart
      exact .inr ⟨by omega, trivial, hv, hd⟩
    · rw [List.getElem?_append_right (by simp; omega)] at hpart
      rw [List.eq_of_mem_replicate (List.mem_of_getElem? hpart)]
      exact .inl Escaped.closed_nil

theorem zero_not_mem_rewritten (hk : Unicode k) (h0 : '\x00' ∉ original)
    (hnew : ∀ i s, new i = some s → '\x00' ∉ s) :
    '\x00' ∉ Escaped.join ';' (rewritten k new (padded shown original)) := by
  intro hm
  obtain h | ⟨w, hw, hx⟩ := mem_join hm
  · exact absurd h (by decide)
  obtain ⟨i, hi⟩ := List.getElem?_of_mem hw
  rw [getElem?_rewritten] at hi
  obtain ⟨part, hpart, rfl⟩ := Option.map_eq_some_iff.1 hi
  cases hn : new i with
  | some s =>
    rw [hn] at hx
    exact zero_not_mem_escape hk (hnew i s hn) hx
  | none =>
    rw [hn] at hx
    obtain hp | hp := List.mem_append.1 (List.mem_of_getElem? hpart)
    · exact h0 (Escaped.mem_split hp hx)
    · rw [List.eq_of_mem_replicate hp] at hx
      cases hx

/-- The last component of the original is kept, left in the middle of an escape, and has one behind
it. -/
def SwallowsAt (new : Nat → Option (List Char)) (shown : Nat) (original : List Char) (i : Nat) :
    Prop :=
  i + 1 = (Escaped.split ';' '\\' false original).length ∧
    Escaped.dangling '\\' false original = true ∧
    (Escaped.split ';' '\\' false original).length < shown ∧ new i = none

/-- **Where nothing is swallowed, the components are read back as they were written.** -/
theorem rawParts_rewritten (hk : Unicode k) (h0 : '\x00' ∉ original)
    (hnew : ∀ i s, new i = some s → Readable k s) (hkeep : ∀ i, ¬ SwallowsAt new shown original i) :
    rawParts (utf8 (Escaped.join ';' (rewritten k new (padded shown original)))) =
      (rewritten k new (padded shown original)).map utf8 := by
  have hne : 0 < (Escaped.split ';' '\\' false original).length :=
    List.length_pos_of_ne_nil Escaped.split_ne_nil
  have hlen := @length_rewritten k new (padded shown original)
  rw [length_padded] at hlen
  have hclosed : ∀ i s, new i = some s → Escaped.Closed ';' '\\' (escape k s) :=
    fun i s hs => closed_escape hk (hnew i s hs).closes
  have hzero := @zero_not_mem_rewritten k new shown original hk h0 fun i s hs => (hnew i s hs).zero
  rw [rawParts, cString_eq (zero_not_mem_utf8 hzero), split_utf8, Escaped.split_join_getElem]
  · exact List.ne_nil_of_length_pos (by omega)
  · intro i w hw
    obtain h | h := rewritten_closed (hclosed i) hw
    · exact h.one
    · exact h.2.2.1
  · intro i w hw hi
    obtain h | ⟨hlast, hn, -, hd⟩ := rewritten_closed (hclosed i) hw
    · exact h.closed
    · rw [hd]
      by_contra hc
      exact hkeep i ⟨hlast, by simpa using hc, by omega, hn⟩

/-- **The first component that is not readable is not read back**: those in front of it are closed,
so that it is read where it stands. -/
theorem rawParts_getElem (hk : Unicode k) (h0 : '\x00' ∉ original)
    (hzero : ∀ i s, new i = some s → '\x00' ∉ s) {i : Nat} {w : List Char}
    (hw : (rewritten k new (padded shown original))[i]? = some w)
    (hbefore : ∀ j < i, (∀ s, new j = some s → Readable k s) ∧ ¬ SwallowsAt new shown original j) :
    ∃ tail u, (Escaped.split ';' '\\' false (w ++ tail)).head? = some u ∧
      (i + 1 < (rewritten k new (padded shown original)).length → ∃ r, tail = ';' :: r) ∧
      (rawParts (utf8 (Escaped.join ';' (rewritten k new (padded shown original)))))[i]? =
        some (utf8 u) := by
  have hlen := @length_rewritten k new (padded shown original)
  rw [length_padded] at hlen
  have hzero' := @zero_not_mem_rewritten k new shown original hk h0 hzero
  have hclosed : ∀ j < i, ∀ v, (rewritten k new (padded shown original))[j]? = some v →
      Escaped.Closed ';' '\\' v := by
    intro j hj v hv
    obtain ⟨hread, hkeep⟩ := hbefore j hj
    have hi := (List.getElem?_eq_some_iff.1 hw).1
    obtain h | ⟨hlast, hn, hone, hd⟩ :=
      rewritten_closed (fun s hs => closed_escape hk (hread s hs).closes) hv
    · exact h
    · refine ⟨hone, ?_⟩
      rw [hd]
      by_contra hc
      exact hkeep ⟨hlast, by simpa using hc, by omega, hn⟩
  generalize rewritten k new (padded shown original) = ws at *
  obtain ⟨hi, hwi⟩ := List.getElem?_eq_some_iff.1 hw
  have hcut : ws = ws.take i ++ w :: ws.drop (i + 1) := by
    rw [← hwi, ← List.drop_eq_getElem_cons hi, List.take_append_drop]
  have htake : (ws.take i).length = i := List.length_take_of_le hi.le
  have hfront : ∀ v ∈ ws.take i, Escaped.Closed ';' '\\' v := by
    intro v hv
    obtain ⟨j, hj⟩ := List.getElem?_of_mem hv
    have hji : j < i := htake ▸ (List.getElem?_eq_some_iff.1 hj).1
    rw [List.getElem?_take_of_lt hji] at hj
    exact hclosed j hji v hj
  obtain ⟨tail, htail, hmore⟩ : ∃ tail, Escaped.join ';' (w :: ws.drop (i + 1)) = w ++ tail ∧
      (i + 1 < ws.length → ∃ r, tail = ';' :: r) := by
    cases hd : ws.drop (i + 1) with
    | nil =>
      refine ⟨[], (List.append_nil w).symm, fun hlt => ?_⟩
      have hle := List.drop_eq_nil_iff.1 hd
      omega
    | cons x xs => exact ⟨';' :: Escaped.join ';' (x :: xs), rfl, fun _ => ⟨_, rfl⟩⟩
  obtain ⟨u, us, hu⟩ := List.exists_cons_of_ne_nil
    (@Escaped.split_ne_nil _ _ ';' '\\' false (w ++ tail))
  refine ⟨tail, u, by rw [hu]; rfl, hmore, ?_⟩
  rw [rawParts, cString_eq (zero_not_mem_utf8 hzero'), split_utf8, hcut,
    Escaped.split_join_append hfront (List.cons_ne_nil w _), htail, hu, List.map_append,
    List.getElem?_append_right (by rw [List.length_map, htake]), List.length_map, htake,
    Nat.sub_self]
  rfl

end

/-! ## When only the edited components change -/

theorem parseParts_value {p : VCardProperty} (h : structured p.name = true) (i : Nat) :
    (parseParts p)[i]?.map VCardValuePart.value =
      (rawParts p.originalValue)[i]?.map decodeValue := by
  rw [parseParts, if_pos h, List.getElem?_mapIdx, Option.map_map]
  rfl

/-- A property with this value that has components. -/
def nameProperty (value : Bytes) : VCardProperty := ⟨none, ascii "N", [], value, none, 0, [], []⟩

theorem structured_nameProperty (value : Bytes) : structured (nameProperty value).name = true := rfl

section
variable {original edited : Bytes} {shown : Nat} {new : Nat → Option (List Char)}

theorem OnlyEdited.zero_not_mem (h : OnlyEdited original edited shown new) {i : Nat}
    {s : List Char} (hs : new i = some s) : '\x00' ∉ s := by
  have hw := h.written (nameProperty edited) rfl rfl i s hs
  rw [parseParts_value (structured_nameProperty edited)] at hw
  obtain ⟨raw, hraw, hd⟩ := Option.map_eq_some_iff.1 hw
  intro hm
  refine zero_not_mem_parsed (List.mem_of_getElem? hraw) ?_
  rw [hd]
  exact (mem_utf8 rfl (by decide)).2 hm

end

section
variable {U I : Type} [DecidableEq U] [DecidableEq I] [Foundation U I]

/-- **An edit changes only the edited components** exactly when the last component of the original
does not swallow the semicolon behind it and every new text is readable. -/
theorem structuredEdit_exact {k : TextSearch Char} (hk : Unicode k) (doc : VCardDocument)
    (name : String) (occurrence : Nat) (keys : List String) (base record : Record (Cocoa U I))
    (address : Bool) (edited : List Char)
    (h : structuredEdit k doc name occurrence keys base record address = some edited) :
    OnlyEdited (originalValue doc name occurrence) (utf8 edited) keys.length
        (newText keys base record address) ↔
      ¬ Swallows (originalValue doc name occurrence) keys.length
          (newText keys base record address) ∧
        ∀ i s, newText keys base record address i = some s → Readable k s := by
  obtain ⟨original, ho, rfl, hroom⟩ := structuredEdit_eq h
  generalize newText keys base record address = new at *
  have h0 : '\x00' ∉ original := fun hm =>
    zero_not_mem_cString _ (ho ▸ (mem_utf8 rfl (by decide)).2 hm)
  have hraw : rawParts (originalValue doc name occurrence) =
      (Escaped.split ';' '\\' false original).map utf8 := by
    rw [rawParts, ← ho, split_utf8]
  have hpos : 0 < (Escaped.split ';' '\\' false original).length :=
    List.length_pos_of_ne_nil Escaped.split_ne_nil
  have hd : Escaped.dangling backslash false (cString (originalValue doc name occurrence)) =
      Escaped.dangling '\\' false original := by
    rw [← ho]
    exact Escaped.dangling_flatMap keeps_utf8 (by decide) (by decide) false original
  have hswallows : Swallows (originalValue doc name occurrence) keys.length new ↔
      ∃ i, SwallowsAt new keys.length original i := by
    simp only [Swallows, hd, hraw, List.length_map]
    constructor
    · rintro ⟨hdang, hlt, hn⟩
      exact ⟨_, by omega, hdang, hlt, hn⟩
    · rintro ⟨i, hi, hdang, hlt, hn⟩
      exact ⟨hdang, hlt, by rwa [show _ - 1 = i by omega]⟩
  have hpad : ∀ (i : Nat) part, (Escaped.split ';' '\\' false original)[i]? = some part →
      (padded keys.length original)[i]? = some part := by
    intro i part hi
    rw [padded, List.getElem?_append_left (List.getElem?_eq_some_iff.1 hi).1, hi]
  constructor
  · intro hedit
    have hnul : ∀ i s, new i = some s → '\x00' ∉ s := fun i s hs => hedit.zero_not_mem hs
    have hgood : ∀ i, (∀ s, new i = some s → Readable k s) ∧
        ¬ SwallowsAt new keys.length original i := by
      intro i
      induction i using Nat.strongRecOn with
      | ind i hbefore =>
        refine ⟨fun s hs => ⟨hnul i s hs, ?_⟩, fun hsw => ?_⟩
        · by_contra hevery
          rw [Bool.not_eq_true] at hevery
          have hw : (rewritten k new (padded keys.length original))[i]? = some (escape k s) := by
            simp [getElem?_rewritten, List.getElem?_eq_getElem (hroom i s hs), hs]
          obtain ⟨tail, u, hu, -, hread⟩ := rawParts_getElem hk h0 hnul hw hbefore
          have hwritten := hedit.written (nameProperty (utf8 (Escaped.join ';'
            (rewritten k new (padded keys.length original))))) rfl rfl i s hs
          rw [parseParts_value (structured_nameProperty _)] at hwritten
          simp only [nameProperty, hread, Option.map_some, Option.some.injEq] at hwritten
          exact decodeValue_unreadable hk hevery hu hwritten
        · obtain ⟨hi, hdang, hlt, hn⟩ := hsw
          obtain ⟨vs, v, hsplit, -, hone, hv⟩ :=
            @Escaped.split_parts _ _ ';' '\\' (by decide) original
          obtain rfl : i = vs.length := by
            rw [hsplit, List.length_append, List.length_singleton] at hi
            omega
          have hlast : (Escaped.split ';' '\\' false original)[vs.length]? = some v := by
            simp [hsplit]
          have hw : (rewritten k new (padded keys.length original))[vs.length]? = some v := by
            simp [getElem?_rewritten, hpad _ v hlast, hn]
          obtain ⟨tail, u, hu, hmore, hread⟩ := rawParts_getElem hk h0 hnul hw hbefore
          obtain ⟨r, rfl⟩ := hmore (by rw [length_rewritten, length_padded]; omega)
          obtain ⟨y, ys, hy⟩ := Escaped.split_swallowed (s := r) hone (hv.trans hdang)
          rw [hy] at hu
          have hpart : (rawParts (originalValue doc name occurrence))[vs.length]? =
              some (utf8 v) := by
            rw [hraw, List.getElem?_map, hlast]
            rfl
          have hkept := hedit.kept vs.length hn (utf8 v) hpart
          rw [hread, Option.some.injEq, ← Option.some.inj hu, utf8_append] at hkept
          have hnil : utf8 (';' :: y) = [] := List.append_right_eq_self.1 hkept
          exact absurd hnil (List.append_ne_nil_of_left_ne_nil String.utf8EncodeChar_ne_nil _)
    exact ⟨fun hs => (hswallows.1 hs).elim fun i hi => (hgood i).2 hi, fun i => (hgood i).1⟩
  · intro hc
    obtain ⟨hkeep, hnew⟩ := hc
    have hread := @rawParts_rewritten k new keys.length original hk h0 hnew
      fun i hi => hkeep (hswallows.2 ⟨i, hi⟩)
    constructor
    · intro p hp hv i s hs
      rw [parseParts_value hp, hv, hread]
      simp only [List.getElem?_map, getElem?_rewritten, List.getElem?_eq_getElem (hroom i s hs),
        Option.map_some, hs, Option.getD_some, (hnew i s hs).decode hk]
    · intro i hn raw hr
      rw [hraw, List.getElem?_map] at hr
      obtain ⟨part, hpart, rfl⟩ := Option.map_eq_some_iff.1 hr
      simp only [hread, List.getElem?_map, getElem?_rewritten, hpad i part hpart, Option.map_some,
        hn, Option.map_none, Option.getD_none]
    · rw [hread, hraw, List.length_map, List.length_map, length_rewritten, length_padded]

end

/-! ## The name is shifted -/

def nameKeys : List String := ["last name", "first name", "middle name", "title", "suffix"]

/-- A card with this name. -/
def named (value : Bytes) : VCardDocument := ⟨Projection.none, [nameProperty value]⟩

/-- A contact without a middle name, and one with. -/
def unnamed : Record (Cocoa String Int) :=
  Dict.ofList [(entityKey, .scalar (.text "com.apple.contacts.Contact"))]

def middle (s : String) : Record (Cocoa String Int) :=
  Dict.ofList [(entityKey, .scalar (.text "com.apple.contacts.Contact")),
    ("middle name", .scalar (.text s))]

theorem structuredEdit_exact_middle :
    OnlyEdited (ascii "Doe;John") (utf8 "Doe;John;\\;;;".toList) 5
      (newText nameKeys unnamed (middle ";") false) :=
  (structuredEdit_exact unicode_documented (named (ascii "Doe;John")) "N" 0 nameKeys unnamed
    (middle ";") false "Doe;John;\\;;;".toList (by decide +kernel)).2
      ⟨by decide +kernel, fun i s hi => by
        obtain h | h : i < 5 ∨ 5 ≤ i := lt_or_ge i 5
        · have hnew : ∀ i < 5, newText nameKeys unnamed (middle ";") false i =
              if i = 2 then some [';'] else none := by decide +kernel
          rw [hnew i h] at hi
          split at hi
          · cases hi
            decide
          · cases hi
        · have hnone : nameKeys[i]? = none := List.getElem?_eq_none h
          simp [newText, hnone] at hi⟩

/-- **The middle name becomes a part of the first name** where that ends in a backslash. -/
theorem structuredEdit_shifts :
    ¬ ∀ edited, structuredEdit unicode (named (ascii "Doe;John\\")) "N" 0 nameKeys unnamed
        (middle "Q") false = some edited →
      OnlyEdited (ascii "Doe;John\\") (utf8 edited) nameKeys.length
        (newText nameKeys unnamed (middle "Q") false) := by
  intro h
  have hedit := h "Doe;John\\;Q;;".toList (by decide +kernel)
  have hkept := hedit.kept 1 (by decide +kernel) (ascii "John\\") (by decide +kernel)
  exact absurd hkept (by decide +kernel)

end VCard
