import RetroCloudSync.Resource.Patch

/-!
# What the patcher reads and writes

* `readLines_eq`: the lines the patcher reads are the logical lines of the base.
* `foldLoop_segments`, `write_fresh`: what an edit writes is one line, in folded segments, that
  ends in a CRLF and can stand after any other line.
-/

set_option autoImplicit false

namespace Resource

open Library Library.Text Journal

variable {b out r line head value : Bytes} {ps : List Bytes} {fuel : Nat}

/-! ## The lines the patcher reads -/

/-- What a break makes of the line that starts after it. -/
structure Broken (br rest : Bytes) : Prop where
  ended : startsBlank rest = false → split (br ++ rest) = ⟨br, []⟩ :: split rest
  last : ∀ x, isBlank x = true → rest = [x] → split (br ++ rest) = [⟨br ++ [x], []⟩]
  continued : ∀ x b l ls, isBlank x = true → rest = x :: b → split b = l :: ls →
    split (br ++ rest) = ⟨br ++ x :: l.raw, l.text⟩ :: ls

theorem broken_single {c : UInt8} {rest : Bytes} (hc : isBreak c = true)
    (hn : ¬ Clash [c] rest) : Broken [c] rest where
  ended hb := split_break hc hn hb
  last x hx hr := by
    subst hr
    exact split_fold_end hc hx
  continued x b l ls hx hr h := by
    subst hr
    exact split_fold hc hx h

theorem broken_crlf (rest : Bytes) : Broken [CR, LF] rest := by
  have hlf : Broken [LF] rest := broken_single rfl (by simp [Clash, endsCR, CR, LF])
  constructor
  · intro hb
    exact split_crlf (hlf.ended hb)
  · intro x hx hr
    exact split_crlf (hlf.last x hx hr)
  · intro x b l ls hx hr h
    exact split_crlf (hlf.continued x b l ls hx hr h)

theorem skipBreak_broken {c : UInt8} (hc : isBreak c = true) (d : Bytes) :
    ∃ br, br ≠ [] ∧ c :: d = br ++ skipBreak (c :: d) ∧ Broken br (skipBreak (c :: d)) := by
  have hcases : c = CR ∨ c = LF := by simpa [isBreak] using hc
  obtain rfl | rfl := hcases
  · by_cases hd : d.head? = some LF
    · obtain ⟨d, rfl⟩ : ∃ d', d = LF :: d' := by
        cases d with
        | nil => cases hd
        | cons x d => exact ⟨d, by simpa using hd⟩
      have hskip : skipBreak (CR :: LF :: d) = d := by simp [skipBreak]
      rw [hskip]
      exact ⟨[CR, LF], by simp, rfl, broken_crlf d⟩
    · have hskip : skipBreak (CR :: d) = d := by simp [skipBreak, hd]
      rw [hskip]
      exact ⟨[CR], by simp, rfl, broken_single rfl (by simp [Clash, startsLF, hd])⟩
  · have hskip : skipBreak (LF :: d) = d := by simp [skipBreak, CR, LF]
    rw [hskip]
    exact ⟨[LF], by simp, rfl, broken_single rfl (by simp [Clash, endsCR, CR, LF])⟩

theorem unbroken_takeWhile (b : Bytes) : unbroken (b.takeWhile fun c => !isBreak c) = true := by
  simp only [unbroken, List.all_eq_true]
  exact fun c hc => List.all_eq_true.1 List.all_takeWhile c hc

theorem physical_broken (hb : b ≠ []) : ∃ s br rest, physical b = (s, rest) ∧ unbroken s = true ∧
    b = s ++ br ++ rest ∧ ((br = [] ∧ rest = [] ∧ s ≠ []) ∨ (br ≠ [] ∧ Broken br rest)) := by
  have happ : b.takeWhile (fun c => !isBreak c) ++ b.dropWhile (fun c => !isBreak c) = b :=
    List.takeWhile_append_dropWhile
  cases hd : b.dropWhile (fun c => !isBreak c) with
  | nil =>
    rw [hd, List.append_nil] at happ
    refine ⟨_, [], [], ?_, unbroken_takeWhile b, by simp [happ], Or.inl ⟨rfl, rfl, ?_⟩⟩
    · simp [physical, hd, skipBreak]
    · rwa [happ]
  | cons c d =>
    have hc : isBreak c = true := by
      have h := List.head?_dropWhile_not (fun c => !isBreak c) b
      simpa [hd] using h
    obtain ⟨br, hne, hbr, hbroken⟩ := skipBreak_broken hc d
    refine ⟨_, br, _, by simp only [physical, hd], unbroken_takeWhile b, ?_, Or.inr ⟨hne, hbroken⟩⟩
    rw [List.append_assoc, ← hbr, ← hd, happ]

/-- **One logical line** of the patcher is the first line of the text. -/
theorem logicalLine_split : ∀ (n : Nat) (b : Bytes), b ≠ [] → b.length ≤ n →
    ∃ raw, raw ≠ [] ∧ b = raw ++ (logicalLine n b).2 ∧
      split b = ⟨raw, (logicalLine n b).1⟩ :: split (logicalLine n b).2
  | 0, b, hb, hn => absurd (List.length_eq_zero_iff.1 (Nat.le_zero.1 hn)) hb
  | n + 1, b, hb, hn => by
    obtain ⟨s, br, rest, hp, hun, heq, ⟨rfl, rfl, hs⟩ | ⟨hne, hbroken⟩⟩ := physical_broken hb
    · have hline : logicalLine (n + 1) b = (s, []) := by simp [logicalLine, hp, startsBlank]
      rw [hline]
      refine ⟨s, hs, by simpa using heq, ?_⟩
      have hb : b = s := by simpa using heq
      simp [hb, split, split_content hun hs]
    · simp only [logicalLine, hp]
      subst heq
      cases hbl : startsBlank rest with
      | false =>
        refine ⟨s ++ br, by simp [hne], by simp, ?_⟩
        simpa using split_unbroken hun (hbroken.ended hbl)
      | true =>
        obtain ⟨x, rest, rfl⟩ : ∃ x r, rest = x :: r := by
          cases rest with
          | nil => cases hbl
          | cons x r => exact ⟨x, r, rfl⟩
        have hx : isBlank x = true := by simpa [startsBlank] using hbl
        simp only [if_true, List.tail_cons]
        by_cases hr : rest = []
        · subst hr
          have hnil : logicalLine n [] = ([], []) := by
            cases n <;> simp [logicalLine, physical, skipBreak, startsBlank]
          refine ⟨s ++ br ++ [x], by simp, by simp [hnil], ?_⟩
          simpa [hnil, split] using split_unbroken hun (hbroken.last x hx rfl)
        · have hlen : rest.length ≤ n := by
            simp only [List.length_append, List.length_cons] at hn
            omega
          obtain ⟨raw, hraw, heq, hsplit⟩ := logicalLine_split n rest hr hlen
          refine ⟨s ++ br ++ x :: raw, by simp, ?_, ?_⟩
          · simpa using heq
          · simpa using split_unbroken hun (hbroken.continued x rest _ _ hx rfl hsplit)

/-- **The patcher reads the lines of the text.** -/
theorem readLines_eq : ∀ (n : Nat) (b : Bytes), b.length ≤ n → readLines n b = split b
  | 0, b, hn => by
    rw [List.length_eq_zero_iff.1 (Nat.le_zero.1 hn)]
    rfl
  | n + 1, b, hn => by
    simp only [readLines]
    split_ifs with hb
    · rw [hb]
      rfl
    · obtain ⟨raw, hraw, heq, hsplit⟩ := logicalLine_split b.length b hb le_rfl
      generalize hl : logicalLine b.length b = l at *
      have hpos : 0 < raw.length := List.length_pos_iff.2 hraw
      have hlen : b.length = raw.length + l.2.length := by
        rw [← List.length_append, ← heq]
      have htake : b.take (b.length - l.2.length) = raw := by
        rw [hlen, Nat.add_sub_cancel, heq, List.take_left]
      rw [hsplit, htake, readLines_eq n l.2 (by omega)]

/-! ## The lines the patcher writes -/

theorem add_eq {p : Bytes} (h : add b p = some r) : r = b ++ p := by
  unfold add at h
  split_ifs at h
  simpa using h.symm

theorem addAll_eq (h : addAll b ps = some r) : r = b ++ ps.flatten := by
  induction ps generalizing b with
  | nil =>
    have hr : b = r := by simpa [addAll] using h
    simp [hr]
  | cons p ps ih =>
    obtain ⟨b', hb', h⟩ : ∃ b', add b p = some b' ∧ addAll b' ps = some r := by
      simpa [addAll, List.foldlM_cons, Option.bind_eq_some_iff] using h
    rw [ih h, add_eq hb']
    simp

/-- Segments but the first. -/
def continued (ss : List Bytes) : Bytes := ss.flatMap fun s => SP :: s ++ CRLF

theorem segments_cons (s : Bytes) (ss : List Bytes) :
    segments (s :: ss) = s ++ CRLF ++ continued ss := by
  induction ss generalizing s with
  | nil => simp [segments, continued]
  | cons t ss ih =>
    rw [segments, ih t]
    simp [continued]

theorem foldLoop_continued : ∀ {fuel : Nat} {out line : Bytes}, line.length ≤ fuel →
    foldLoop fuel out false line = some r →
    ∃ ss : List Bytes, ss.flatten = line ∧ r = out ++ continued ss
  | 0, out, line, hl, h => by
    have hline : line = [] := List.length_eq_zero_iff.1 (Nat.le_zero.1 hl)
    exact ⟨[], by simp [hline], by simpa [foldLoop, continued] using h.symm⟩
  | fuel + 1, out, line, hl, h => by
    simp only [foldLoop, Bool.false_eq_true, if_false] at h
    split_ifs at h with hline hn
    · exact ⟨[], by simp [hline], by simpa [continued] using h.symm⟩
    · obtain ⟨out', hout, h⟩ := Option.bind_eq_some_iff.1 h
      generalize cut 74 line = n at *
      have hlen : (line.drop n).length ≤ fuel := by
        rw [List.length_drop]
        omega
      obtain ⟨ss, hss, hr⟩ := foldLoop_continued hlen h
      refine ⟨line.take n :: ss, by simp [hss], ?_⟩
      rw [hr, addAll_eq hout]
      simp [continued]

/-- **The loop of `folded`** writes the line in segments, and the first one is not empty. -/
theorem foldLoop_segments (hne : line ≠ []) (hl : line.length ≤ fuel)
    (h : foldLoop fuel out true line = some r) :
    ∃ s ss, s ≠ [] ∧ (s :: ss).flatten = line ∧ r = out ++ segments (s :: ss) := by
  cases fuel with
  | zero => exact absurd (List.length_eq_zero_iff.1 (Nat.le_zero.1 hl)) hne
  | succ fuel =>
    simp only [foldLoop, hne, if_false, if_true] at h
    split_ifs at h with hn
    obtain ⟨out', hout, h⟩ := Option.bind_eq_some_iff.1 h
    generalize cut 75 line = n at *
    have hlen : (line.drop n).length ≤ fuel := by
      rw [List.length_drop]
      omega
    obtain ⟨ss, hss, hr⟩ := foldLoop_continued hlen h
    refine ⟨line.take n, ss, by simp [hn, hne], by simp [hss], ?_⟩
    rw [hr, addAll_eq hout, segments_cons]
    simp

/-- A line that can stand after any other one and before any other one. -/
structure Fresh (l : Line) : Prop where
  one : l.One
  starts : startsBlank l.raw = false ∧ startsLF l.raw = false
  ends : endsBreak l.raw = true ∧ endsCR l.raw = false

theorem segments_ends (s : Bytes) (ss : List Bytes) : ∃ p, segments (s :: ss) = p ++ CRLF := by
  induction ss generalizing s with
  | nil => exact ⟨s, rfl⟩
  | cons t ss ih =>
    obtain ⟨p, hp⟩ := ih t
    exact ⟨s ++ CRLF ++ SP :: p, by simp [segments, hp]⟩

/-- **What `folded` writes** is one line with this head and this value. -/
theorem folded_fresh (hhead : head ≠ []) (hbl : startsBlank head = false)
    (hun : unbroken (head ++ value) = true) (h : folded head value = some r) :
    Fresh ⟨r, head ++ value⟩ := by
  obtain ⟨line, hline, h⟩ := Option.bind_eq_some_iff.1 h
  have hline : line = head ++ value := by simpa using addAll_eq hline
  subst hline
  obtain ⟨s, ss, hs, hss, hr⟩ := foldLoop_segments (by simp [hhead]) le_rfl h
  have hr : r = segments (s :: ss) := by simpa using hr
  have huns : ∀ x ∈ s :: ss, unbroken x = true := by
    rw [← hss] at hun
    simp only [unbroken, List.all_flatten, List.all_eq_true] at hun ⊢
    exact hun
  have hfirst : (segments (s :: ss)).head? = head.head? := by
    obtain ⟨c, s, rfl⟩ := List.exists_cons_of_ne_nil hs
    obtain ⟨d, head, rfl⟩ := List.exists_cons_of_ne_nil hhead
    have hcd : c = d := by simpa using congrArg List.head? hss
    simp [segments_cons, hcd]
  have hlf : startsLF head = false := by
    obtain ⟨d, head, rfl⟩ := List.exists_cons_of_ne_nil hhead
    have hd : isBreak d = false := by
      simp only [unbroken, List.cons_append, List.all_cons, Bool.and_eq_true] at hun
      simpa using hun.1
    have hd : d ≠ LF := by
      rintro rfl
      cases hd
    simpa [startsLF] using hd
  obtain ⟨p, hp⟩ := segments_ends s ss
  refine ⟨?_, ⟨?_, ?_⟩, ?_, ?_⟩
  · show split r = _
    rw [hr, split_segments (by simp) huns, hss]
  · simpa [hr, startsBlank, hfirst] using hbl
  · simpa [hr, startsLF, hfirst] using hlf
  · simp [hr, hp, endsBreak, CRLF, isBreak]
  · simp [hr, hp, endsCR, CRLF, CR, LF]

end Resource
