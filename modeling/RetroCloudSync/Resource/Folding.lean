import RetroCloudSync.Resource.Read
import RetroCloudSync.VCard.Escape

/-!
# Folding

`folded` of `RCResourcePatch.c` cuts a line into `pieces` of at most 75 octets and backs up from a
cut in the middle of a character. The two readers take the folds out again: the patcher's own
(`readLines_physicalLines`) and `RCUnfold` (`unfold_physicalLines`).

Valid UTF-8 is cut between characters (`cut_utf8`), so every piece is text and none is empty;
folding it fails only where `add` does (`pieces_utf8`, `foldLoop_eq`).
-/

set_option autoImplicit false

namespace Resource

open Library Library.Text Journal VCard

/-! ## Octets of characters -/

/-- An octet in the middle of a character. -/
def continuation (c : UInt8) : Bool := c &&& 0xc0 = 0x80

theorem continuation_iff {c : UInt8} : continuation c = true ↔ 128 ≤ c.toNat ∧ c.toNat < 192 := by
  have h : ∀ n < 256, continuation (UInt8.ofNat n) = true ↔ 128 ≤ n ∧ n < 192 := by
    decide +kernel
  have hc := h c.toNat c.toNat_lt
  rwa [UInt8.ofNat_toNat] at hc

/-- A character is one octet that starts it and at most three that continue it. -/
theorem utf8EncodeChar_shape (c : Char) : ∃ x t, String.utf8EncodeChar c = x :: t ∧
    continuation x = false ∧ (∀ y ∈ t, continuation y = true) ∧ t.length ≤ 3 := by
  have hlow : ∀ n, continuation (UInt8.ofNat (n % 64 + 128)) = true := by
    intro n
    rw [continuation_iff, UInt8.toNat_ofNat']
    omega
  unfold String.utf8EncodeChar
  dsimp only
  split_ifs with h1 h2 h3
  · refine ⟨_, [], rfl, ?_, by simp, by simp⟩
    rw [← Bool.not_eq_true, continuation_iff, UInt8.toNat_ofNat']
    omega
  · refine ⟨_, _, rfl, ?_, List.forall_mem_singleton.2 (hlow _), by simp⟩
    rw [← Bool.not_eq_true, continuation_iff, UInt8.toNat_ofNat']
    omega
  · refine ⟨_, _, rfl, ?_, ?_, by simp⟩
    · rw [← Bool.not_eq_true, continuation_iff, UInt8.toNat_ofNat']
      omega
    · exact List.forall_mem_cons.2 ⟨hlow _, List.forall_mem_singleton.2 (hlow _)⟩
  · refine ⟨_, _, rfl, ?_, ?_, by simp⟩
    · rw [← Bool.not_eq_true, continuation_iff, UInt8.toNat_ofNat']
      omega
    · exact List.forall_mem_cons.2
        ⟨hlow _, List.forall_mem_cons.2 ⟨hlow _, List.forall_mem_singleton.2 (hlow _)⟩⟩

/-- **Between two characters** is where no octet continues one. -/
theorem boundary : ∀ {s : List Char} {n : Nat}, n < (utf8 s).length →
    continuation ((utf8 s).getD n 0) = false →
    ∃ a b, s = a ++ b ∧ utf8 a = (utf8 s).take n ∧ utf8 b = (utf8 s).drop n
  | [], _, h, _ => absurd h (Nat.not_lt_zero _)
  | c :: s, n, h, hc => by
    obtain ⟨x, t, hx, -, ht, -⟩ := utf8EncodeChar_shape c
    have hcons : utf8 (c :: s) = String.utf8EncodeChar c ++ utf8 s := List.flatMap_cons
    have hlen : (String.utf8EncodeChar c).length = t.length + 1 := by rw [hx, List.length_cons]
    rw [hcons] at h hc ⊢
    by_cases h0 : n = 0
    · exact ⟨[], c :: s, rfl, by simp [h0, utf8], by simp [h0, hcons]⟩
    by_cases hin : n < (String.utf8EncodeChar c).length
    · obtain ⟨m, rfl⟩ : ∃ m, n = m + 1 := ⟨n - 1, by omega⟩
      have hm : m < t.length := by omega
      have hget : (String.utf8EncodeChar c ++ utf8 s).getD (m + 1) 0 = t[m] := by
        rw [hx, List.cons_append, List.getD_cons_succ, List.getD_eq_getElem?_getD,
          List.getElem?_append_left hm, List.getElem?_eq_getElem hm, Option.getD_some]
      rw [hget, ht _ (List.getElem_mem hm)] at hc
      cases hc
    · rw [List.length_append] at h
      have hget : (String.utf8EncodeChar c ++ utf8 s).getD n 0 =
          (utf8 s).getD (n - (String.utf8EncodeChar c).length) 0 := by
        rw [List.getD_eq_getElem?_getD, List.getElem?_append_right (by omega),
          ← List.getD_eq_getElem?_getD]
      rw [hget] at hc
      obtain ⟨a, b, hs, ha, hb⟩ := boundary (by omega) hc
      refine ⟨c :: a, b, by rw [hs]; rfl, ?_, ?_⟩
      · rw [List.take_append, List.take_of_length_le (by omega), ← ha]
        exact List.flatMap_cons
      · rw [List.drop_append, List.drop_of_length_le (by omega), ← hb, List.nil_append]

/-! ## One cut -/

section
variable {line : Bytes} {n m limit : Nat}

theorem backUp_le : ∀ {n : Nat}, backUp line n ≤ n
  | 0 => Nat.le_refl 0
  | n + 1 => by
    rw [backUp]
    split
    · exact Nat.le_succ_of_le backUp_le
    · exact Nat.le_refl _

/-- The cut is made where no octet continues a character. -/
theorem continuation_backUp : ∀ {n : Nat}, backUp line n ≠ 0 →
    continuation (line.getD (backUp line n) 0) = false
  | 0, h => absurd rfl h
  | n + 1, h => by
    rw [backUp] at h ⊢
    split
    · rename_i hc
      rw [if_pos hc] at h
      exact continuation_backUp h
    · rename_i hc
      exact decide_eq_false hc

theorem le_backUp : ∀ {n : Nat}, m ≤ n → continuation (line.getD m 0) = false →
    m ≤ backUp line n
  | 0, h, _ => h
  | n + 1, h, hc => by
    rw [backUp]
    split
    · rename_i hn
      obtain h | rfl := Nat.le_succ_iff.1 h
      · exact le_backUp h hc
      · exact absurd hn (of_decide_eq_false hc)
    · exact h

theorem cut_le : cut limit line ≤ limit := by
  unfold cut
  split
  · exact backUp_le
  · omega

end

/-- **Valid UTF-8 is cut between characters**, and the cut makes progress. -/
theorem cut_utf8 {s : List Char} {limit : Nat} (hs : s ≠ []) (hl : 4 ≤ limit) :
    ∃ a b, s = a ++ b ∧ a ≠ [] ∧ utf8 a = (utf8 s).take (cut limit (utf8 s)) ∧
      utf8 b = (utf8 s).drop (cut limit (utf8 s)) := by
  unfold cut
  split
  · rename_i hlt
    obtain ⟨c, t, rfl⟩ := List.exists_cons_of_ne_nil hs
    have hcons : utf8 (c :: t) = String.utf8EncodeChar c ++ utf8 t := List.flatMap_cons
    obtain ⟨x, r, hx, -, -, hr⟩ := utf8EncodeChar_shape c
    have hlen : (String.utf8EncodeChar c).length = r.length + 1 := by rw [hx, List.length_cons]
    have hsecond :
        continuation ((utf8 (c :: t)).getD (String.utf8EncodeChar c).length 0) = false := by
      cases t with
      | nil =>
        rw [hcons, List.length_append] at hlt
        simp only [utf8, List.flatMap_nil, List.length_nil] at hlt
        omega
      | cons d t =>
        obtain ⟨y, u, hy, hc, -⟩ := utf8EncodeChar_shape d
        have hcons' : utf8 (d :: t) = String.utf8EncodeChar d ++ utf8 t := List.flatMap_cons
        rw [hcons, List.getD_eq_getElem?_getD, List.getElem?_append_right (Nat.le_refl _),
          Nat.sub_self, hcons', hy]
        exact hc
    have hle := le_backUp (show (String.utf8EncodeChar c).length ≤ limit by omega) hsecond
    have hcut : backUp (utf8 (c :: t)) limit ≤ limit := backUp_le
    obtain ⟨a, b, hab, ha, hb⟩ := @boundary (c :: t) (backUp (utf8 (c :: t)) limit) (by omega)
      (continuation_backUp (by omega))
    refine ⟨a, b, hab, ?_, ha, hb⟩
    rintro rfl
    have hzero := congrArg List.length ha
    rw [List.length_take] at hzero
    simp only [utf8, List.flatMap_nil, List.length_nil] at hzero hle hlt
    omega
  · exact ⟨s, [], by simp, hs, by simp, by simp [utf8]⟩

/-! ## The physical lines -/

/-- The pieces of a line; `none` where a cut makes no progress. -/
def pieces : Nat → Bool → Bytes → Option (List Bytes)
  | 0, _, _ => some []
  | fuel + 1, first, line =>
    if line = [] then some []
    else
      let n := cut (if first then 75 else 74) line
      if n = 0 then none else (pieces fuel false (line.drop n)).map (line.take n :: ·)

/-- A blank stands before every piece but the first. -/
def physicalLines : Bool → List Bytes → List Bytes
  | _, [] => []
  | first, s :: ss => ((if first then [] else [SP]) ++ s) :: physicalLines false ss

/-- What is written. -/
def ended (lines : List Bytes) : Bytes := lines.flatMap (· ++ CRLF)

theorem add_iff {b p : Bytes} : add b p =
    if (b ++ p).length ≤ INT_MAX then some (b ++ p) else none := by
  unfold add
  rw [List.length_append]
  split_ifs with h1 h2 h2
  · rfl
  · exact absurd h1.2 h2
  · exact absurd ⟨by omega, h2⟩ h1
  · rfl

theorem addAll_iff : ∀ {ps : List Bytes} {b : Bytes}, b.length ≤ INT_MAX → addAll b ps =
    if (b ++ ps.flatten).length ≤ INT_MAX then some (b ++ ps.flatten) else none
  | [], b, h => by simp [addAll, h]
  | p :: ps, b, h => by
    have hrun : addAll b (p :: ps) = (add b p).bind fun b => addAll b ps := by
      rw [addAll, List.foldlM_cons]
      rfl
    rw [hrun, add_iff, List.flatten_cons, ← List.append_assoc]
    by_cases hp : (b ++ p).length ≤ INT_MAX
    · rw [if_pos hp, Option.bind_some, addAll_iff hp]
    · rw [if_neg hp, Option.bind_none, if_neg]
      rw [List.length_append]
      omega

/-- **The loop writes the physical lines of the pieces**, unless they do not fit. -/
theorem foldLoop_eq : ∀ {fuel : Nat} {first : Bool} {out line : Bytes}, out.length ≤ INT_MAX →
    foldLoop fuel out first line = (pieces fuel first line).bind fun ss =>
      if (out ++ ended (physicalLines first ss)).length ≤ INT_MAX then
        some (out ++ ended (physicalLines first ss))
      else none
  | 0, first, out, line, h => by simp [foldLoop, pieces, physicalLines, ended, h]
  | fuel + 1, first, out, line, h => by
    simp only [foldLoop, pieces]
    by_cases hline : line = []
    · simp [hline, physicalLines, ended, h]
    rw [if_neg hline, if_neg hline]
    generalize cut (if first = true then 75 else 74) line = n
    by_cases hn : n = 0
    · simp only [hn, if_true, Option.bind_none]
    rw [if_neg hn, if_neg hn, addAll_iff h]
    have hflat : [if first = true then [] else [SP], line.take n, CRLF].flatten =
        (if first = true then [] else [SP]) ++ line.take n ++ CRLF := by simp
    rw [hflat]
    generalize hp : (if first = true then [] else [SP]) ++ line.take n ++ CRLF = p
    have hended : ∀ ss, ended (physicalLines first (line.take n :: ss)) =
        p ++ ended (physicalLines false ss) := by
      intro ss
      rw [physicalLines, ended, List.flatMap_cons, hp]
      rfl
    by_cases hfit : (out ++ p).length ≤ INT_MAX
    · rw [if_pos hfit, Option.bind_some, foldLoop_eq hfit, Option.bind_map]
      congr 1
      funext ss
      simp only [Function.comp_apply, hended, List.append_assoc]
    · rw [if_neg hfit, Option.bind_none, eq_comm, Option.bind_eq_none_iff]
      intro ss hss
      obtain ⟨ts, -, rfl⟩ := Option.map_eq_some_iff.1 hss
      rw [hended, ← List.append_assoc, List.length_append, if_neg (by omega)]

/-- **A line is the text of its pieces**, and no physical line has more than 75 octets. -/
theorem pieces_spec : ∀ {fuel : Nat} {first : Bool} {line : Bytes} {ss : List Bytes},
    line.length ≤ fuel → pieces fuel first line = some ss →
    ss.flatten = line ∧ ∀ l ∈ physicalLines first ss, l.length ≤ 75
  | 0, first, line, ss, hl, h => by
    cases h
    exact ⟨(List.length_eq_zero_iff.1 (Nat.le_zero.1 hl)).symm, by simp [physicalLines]⟩
  | fuel + 1, first, line, ss, hl, h => by
    rw [pieces] at h
    by_cases hline : line = []
    · rw [if_pos hline] at h
      cases h
      exact ⟨hline.symm, by simp [physicalLines]⟩
    rw [if_neg hline] at h
    have hcut := @cut_le line (if first = true then 75 else 74)
    generalize cut (if first = true then 75 else 74) line = n at *
    by_cases hn : n = 0
    · simp [hn] at h
    · simp only [hn, if_false] at h
      obtain ⟨ts, hts, rfl⟩ := Option.map_eq_some_iff.1 h
      have hlen : (line.drop n).length ≤ fuel := by
        rw [List.length_drop]
        omega
      obtain ⟨hflat, hall⟩ := pieces_spec hlen hts
      refine ⟨by rw [List.flatten_cons, hflat, List.take_append_drop], ?_⟩
      intro l hmem
      obtain rfl | hmem := List.mem_cons.1 hmem
      · rw [List.length_append, List.length_take]
        cases first
        · simp only [Bool.false_eq_true, if_false, List.length_singleton] at hcut ⊢
          omega
        · simp only [if_true, List.length_nil] at hcut ⊢
          omega
      · exact hall l hmem

theorem pieces_ne_nil : ∀ {fuel : Nat} {first : Bool} {line : Bytes} {ss : List Bytes},
    line.length ≤ fuel → pieces fuel first line = some ss → ∀ x ∈ ss, x ≠ []
  | 0, first, line, ss, _, h => by
    cases h
    exact fun x hx => absurd hx List.not_mem_nil
  | fuel + 1, first, line, ss, hl, h => by
    rw [pieces] at h
    by_cases hline : line = []
    · rw [if_pos hline] at h
      cases h
      exact fun x hx => absurd hx List.not_mem_nil
    rw [if_neg hline] at h
    generalize cut (if first = true then 75 else 74) line = n at *
    by_cases hn : n = 0
    · simp [hn] at h
    · simp only [hn, if_false] at h
      obtain ⟨ts, hts, rfl⟩ := Option.map_eq_some_iff.1 h
      have hlen : (line.drop n).length ≤ fuel := by
        rw [List.length_drop]
        omega
      refine List.forall_mem_cons.2 ⟨fun htake => ?_, pieces_ne_nil hlen hts⟩
      obtain h0 | h0 := List.take_eq_nil_iff.1 htake
      · exact hn h0
      · exact hline h0

/-- **Valid UTF-8 has pieces**, and each of them is text. -/
theorem pieces_utf8 : ∀ {fuel : Nat} {first : Bool} {s : List Char}, (utf8 s).length ≤ fuel →
    ∃ ws : List (List Char), pieces fuel first (utf8 s) = some (ws.map utf8)
  | 0, first, s, h => ⟨[], rfl⟩
  | fuel + 1, first, s, h => by
    simp only [pieces]
    by_cases hs : s = []
    · exact ⟨[], by simp [hs, utf8]⟩
    have hlimit : 4 ≤ if first = true then 75 else 74 := by split <;> omega
    obtain ⟨a, b, hab, hne, ha, hb⟩ := cut_utf8 hs hlimit
    have hpos : 0 < (utf8 a).length := by
      obtain ⟨c, t, rfl⟩ := List.exists_cons_of_ne_nil hne
      rw [utf8, List.flatMap_cons, List.length_append]
      exact Nat.add_pos_left (List.length_pos_of_ne_nil String.utf8EncodeChar_ne_nil) _
    have hlen : (utf8 s).length = (utf8 a).length + (utf8 b).length := by
      rw [hab, utf8_append, List.length_append]
    have hcut : cut (if first = true then 75 else 74) (utf8 s) ≠ 0 := by
      intro h0
      rw [h0, List.take_zero] at ha
      rw [ha] at hpos
      exact absurd hpos (Nat.lt_irrefl 0)
    have hne' : utf8 s ≠ [] := List.ne_nil_of_length_pos (by omega)
    obtain ⟨ws, hws⟩ := @pieces_utf8 fuel false b (by omega)
    rw [if_neg hne', if_neg hcut, ← ha, ← hb, hws]
    exact ⟨a :: ws, rfl⟩

/-! ## Unfolding -/

theorem ended_true (s : Bytes) (ss : List Bytes) :
    ended (physicalLines true (s :: ss)) = s ++ CRLF ++ ended (physicalLines false ss) := by
  simp [ended, physicalLines]

theorem ended_false (s : Bytes) (ss : List Bytes) :
    ended (physicalLines false (s :: ss)) =
      SP :: (s ++ CRLF ++ ended (physicalLines false ss)) := by
  simp [ended, physicalLines]

theorem physical_crlf {s : Bytes} (hs : unbroken s = true) (rest : Bytes) :
    physical (s ++ CRLF ++ rest) = (s, rest) := by
  have hall : ∀ c ∈ s, (!isBreak c) = true := List.all_eq_true.1 hs
  have htake : (s ++ CRLF ++ rest).takeWhile (fun c => !isBreak c) = s := by
    rw [List.append_assoc, List.takeWhile_append_of_pos hall]
    exact List.append_nil s
  have hdrop : (s ++ CRLF ++ rest).dropWhile (fun c => !isBreak c) = CRLF ++ rest := by
    rw [List.append_assoc, List.dropWhile_append_of_pos hall]
    rfl
  rw [physical, htake, hdrop]
  rfl

/-- **`RCUnfold` takes the folds out.** -/
theorem unfold_physicalLines : ∀ {ss : List Bytes} {s : Bytes} {fuel : Nat},
    (∀ x ∈ s :: ss, unbroken x = true) → ss.length < fuel →
    unfold fuel (ended (physicalLines true (s :: ss))) = (s :: ss).flatten ++ [LF]
  | [], s, fuel + 1, hs, _ => by
    have hne : s ++ CRLF ++ [] ≠ [] := by simp [CRLF]
    rw [ended_true, show ended (physicalLines false []) = [] from rfl, unfold, if_neg hne,
      physical_crlf (hs s List.mem_cons_self)]
    have hnil : unfold fuel [] = [] := by cases fuel <;> rfl
    simp [startsBlank, hnil]
  | t :: ss, s, fuel + 1, hs, hfuel => by
    have hne : s ++ CRLF ++ SP :: (t ++ CRLF ++ ended (physicalLines false ss)) ≠ [] := by
      simp [CRLF]
    rw [ended_true, ended_false, unfold, if_neg hne, physical_crlf (hs s List.mem_cons_self),
      ← ended_true]
    have ih := @unfold_physicalLines ss t fuel (fun x hx => hs x (List.mem_cons_of_mem s hx))
      (Nat.lt_of_succ_lt_succ hfuel)
    simp [startsBlank, isBlank, ih]

theorem length_ended (first : Bool) (ss : List Bytes) :
    ss.flatten.length + 2 * ss.length ≤ (ended (physicalLines first ss)).length := by
  induction ss generalizing first with
  | nil => exact Nat.le_refl 0
  | cons s ss ih =>
    have ih' := ih false
    simp only [physicalLines, ended, List.flatMap_cons, List.flatten_cons, List.length_append,
      List.length_cons, CRLF, List.length_nil] at ih' ⊢
    omega

/-- Folding writes at most four octets for each octet of the pieces. -/
theorem ended_le : ∀ (first : Bool) {ss : List Bytes}, (∀ x ∈ ss, x ≠ []) →
    (ended (physicalLines first ss)).length ≤ 4 * ss.flatten.length
  | first, [], _ => Nat.zero_le _
  | first, s :: ss, h => by
    have ih := ended_le false (List.forall_mem_cons.1 h).2
    have hs := List.length_pos_of_ne_nil (h s List.mem_cons_self)
    have hblank : (if first then [] else [SP] : Bytes).length ≤ 1 := by cases first <;> decide
    simp only [physicalLines, ended, List.flatMap_cons, List.flatten_cons, List.length_append,
      List.length_cons, List.length_nil, CRLF] at ih ⊢
    omega

/-! ## The round trip -/

/-- What a property name consists of. -/
def nameOctet (c : UInt8) : Bool := isAlphaNum c || c = 0x2d

/-- No CR, LF and NUL. -/
def Plain (b : Bytes) : Prop := ∀ c ∈ b, c ≠ CR ∧ c ≠ LF ∧ c ≠ 0

theorem Plain.unbroken {b : Bytes} (h : Plain b) : unbroken b = true := by
  refine List.all_eq_true.2 fun c hc => ?_
  obtain ⟨hcr, hlf, -⟩ := h c hc
  simp [isBreak, hcr, hlf]

/-- **What `folded` returns.** -/
theorem folded_eq {head value : Bytes} : folded head value =
    (pieces (head ++ value).length true (head ++ value)).bind fun ss =>
      if (ended (physicalLines true ss)).length ≤ INT_MAX then
        some (ended (physicalLines true ss))
      else none := by
  rw [folded, addAll_iff (Nat.zero_le _)]
  have hline : ([] ++ [head, value].flatten : Bytes) = head ++ value := by simp
  rw [hline]
  by_cases hfit : (head ++ value).length ≤ INT_MAX
  · rw [if_pos hfit, Option.bind_some, foldLoop_eq (Nat.zero_le _)]
    rfl
  · rw [if_neg hfit, Option.bind_none, eq_comm, Option.bind_eq_none_iff]
    intro ss hss
    have hlen := length_ended true ss
    rw [(pieces_spec (Nat.le_refl _) hss).1] at hlen
    rw [if_neg (by omega)]

/-- What folding comes to: lines of at most 75 octets whose pieces are the text, and that cut no
character of it. -/
structure Folds (text out : Bytes) : Prop where
  /-- The patcher's own unfolding. -/
  patcher : (readLines out.length out).map Line.text = [text]
  /-- `RCUnfold`. -/
  reader : unfold out.length out = text ++ [LF]
  lines : ∃ ss : List Bytes, out = ended (physicalLines true ss) ∧ ss.flatten = text ∧
    (∀ l ∈ physicalLines true ss, l.length ≤ 75 ∧ unbroken l = true) ∧
    ∀ s, utf8 s = text → ∃ ws : List (List Char), ss = ws.map utf8

theorem unbroken_physicalLines {first : Bool} {ss : List Bytes}
    (h : ∀ s ∈ ss, unbroken s = true) : ∀ l ∈ physicalLines first ss, unbroken l = true := by
  induction ss generalizing first with
  | nil => simp [physicalLines]
  | cons s ss ih =>
    intro l hl
    obtain rfl | hl := List.mem_cons.1 hl
    · rw [unbroken_append, h s List.mem_cons_self]
      cases first <;> rfl
    · exact ih (fun x hx => h x (List.mem_cons_of_mem s hx)) l hl

/-- **Folding round-trips**: what is folded is unfolded to the same line by both readers, and valid
UTF-8 is folded exactly if its physical lines have at most `INT_MAX` octets together. -/
theorem folded_roundtrip (head value : Bytes) (hname : head.head?.any nameOctet = true)
    (hplain : Plain (head ++ value)) :
    (∀ out, folded head value = some out → Folds (head ++ value) out) ∧
      ∀ s, utf8 s = head ++ value → ∃ ss : List Bytes,
        pieces (head ++ value).length true (head ++ value) = some ss ∧
        ss.flatten = head ++ value ∧ (∀ x ∈ ss, x ≠ []) ∧
        (∀ l ∈ physicalLines true ss, l.length ≤ 75) ∧
        folded head value = (if (ended (physicalLines true ss)).length ≤ INT_MAX then
          some (ended (physicalLines true ss)) else none) ∧
        (4 * (head ++ value).length ≤ INT_MAX → (folded head value).isSome = true) := by
  obtain ⟨c, t, rfl⟩ : ∃ c t, head = c :: t := by
    cases head with
    | nil => cases hname
    | cons c t => exact ⟨c, t, rfl⟩
  refine ⟨fun out h => ?_, fun s hs => ?_⟩
  · have hblank : startsBlank (c :: t) = false := by
      have hc : nameOctet c = true := hname
      rw [← Bool.not_eq_true]
      intro hb
      have hsp : c = SP ∨ c = TAB := by simpa [startsBlank, isBlank] using hb
      obtain rfl | rfl := hsp <;> exact absurd hc (by decide)
    have hfresh := folded_fresh (List.cons_ne_nil c t) hblank hplain.unbroken h
    rw [folded_eq] at h
    obtain ⟨ss, hss, h⟩ := Option.bind_eq_some_iff.1 h
    split at h
    · cases h
      obtain ⟨hflat, hlen⟩ := pieces_spec (Nat.le_refl _) hss
      have hun : ∀ x ∈ ss, unbroken x = true := by
        have hall := hplain.unbroken
        rw [← hflat] at hall
        simp only [unbroken, List.all_flatten, List.all_eq_true] at hall ⊢
        exact hall
      constructor
      · rw [readLines_eq _ _ (Nat.le_refl _), show split _ = _ from hfresh.one]
        rfl
      · cases ss with
        | nil => simp at hflat
        | cons x xs =>
          have hroom := length_ended true (x :: xs)
          rw [List.length_cons] at hroom
          rw [unfold_physicalLines hun (by omega), hflat]
      · refine ⟨ss, rfl, hflat, fun l hl => ⟨hlen l hl, unbroken_physicalLines hun l hl⟩, ?_⟩
        intro s hs
        obtain ⟨ws, hws⟩ := @pieces_utf8 (c :: t ++ value).length true s (by rw [hs])
        rw [hs, hss] at hws
        exact ⟨ws, Option.some.inj hws⟩
    · cases h
  · obtain ⟨ws, hws⟩ := @pieces_utf8 (c :: t ++ value).length true s (by rw [hs])
    rw [hs] at hws
    obtain ⟨hflat, hlen⟩ := pieces_spec (Nat.le_refl _) hws
    have hne := pieces_ne_nil (Nat.le_refl _) hws
    have heq : folded (c :: t) value =
        if (ended (physicalLines true (ws.map utf8))).length ≤ INT_MAX then
          some (ended (physicalLines true (ws.map utf8))) else none := by
      rw [folded_eq, hws, Option.bind_some]
    refine ⟨ws.map utf8, hws, hflat, hne, hlen, heq, fun hfit => ?_⟩
    have hroom := ended_le true hne
    rw [hflat] at hroom
    rw [heq, if_pos (hroom.trans hfit)]
    rfl

theorem folded_roundtrip_long : Folds (ascii "X:" ++ utf8 (List.replicate 72 'a' ++ ['é', 'b']))
    (ascii "X:" ++ utf8 (List.replicate 72 'a') ++ CRLF ++ SP :: utf8 ['é', 'b'] ++ CRLF) :=
  (folded_roundtrip (ascii "X:") (utf8 (List.replicate 72 'a' ++ ['é', 'b'])) (by decide)
    (by unfold Plain; decide +kernel)).1 _ (by decide +kernel)

theorem utf8_replicate (n : Nat) : utf8 (List.replicate n 'a') = List.replicate n 0x61 := by
  induction n with
  | zero => rfl
  | succ n ih =>
    rw [List.replicate_succ, List.replicate_succ, ← ih]
    rfl

/-- **A line that is too long is not folded**, whatever memory there is. -/
theorem folded_refuses : ¬ ∀ head value : Bytes, head.head?.any nameOctet = true →
    Plain (head ++ value) → (∃ s, utf8 s = head ++ value) → (folded head value).isSome = true := by
  intro h
  have hsome := h (ascii "X:") (List.replicate INT_MAX 0x61) rfl ?_
    ⟨['X', ':'] ++ List.replicate INT_MAX 'a', by rw [utf8_append, utf8_replicate]; rfl⟩
  · rw [folded, addAll_iff (Nat.zero_le _), if_neg] at hsome
    · cases hsome
    · simp only [List.nil_append, List.flatten_cons, List.flatten_nil, List.append_nil,
        List.length_append, List.length_replicate]
      exact Nat.not_le.2 (Nat.lt_add_of_pos_left (by decide))
  · intro c hc
    obtain hc | hc := List.mem_append.1 hc
    · obtain rfl | rfl : c = 0x58 ∨ c = 0x3a := by simpa [ascii] using hc
      · decide
      · decide
    · rw [List.eq_of_mem_replicate hc]
      decide

end Resource
