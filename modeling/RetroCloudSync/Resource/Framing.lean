import RetroCloudSync.Library.Nested
import RetroCloudSync.Resource.Parse

/-!
# What `RCFraming` accepts

`RCFraming` reads a body line by line with a stack of open components. `framing_exact` says which
bodies it accepts: those whose lines are one calendar in which every `END` closes the component
opened last, with no line outside of it.
-/

set_option autoImplicit false

namespace Resource

open Library Library.Text Library.Nested Journal

/-! ## The lines of a body -/

/-- A line without the CR before its LF. -/
def stripCR (line : Text) : Text := if line.getLast? = some CR then line.dropLast else line

/-- The lines that are not empty. -/
def frameLines (b : Text) : List Text :=
  ((b.splitOnP fun c => c = LF).map stripCR).filter fun line => line ≠ []

/-- What a line is to `RCFraming`. -/
def frameToken (line : Text) : Token Text Text :=
  if startsBlank line then .content line
  else if 6 < line.length ∧ startsWith (ascii "BEGIN:") line then .opening (line.drop 6)
  else if 4 < line.length ∧ startsWith (ascii "END:") line then .closing (line.drop 4)
  else .content line

def frameTokens (b : Text) : List (Token Text Text) := (frameLines b).map frameToken

/-- `sizeof(stack[0])` holds the name and a zero byte. -/
def shortName (name : Text) : Bool := name.length < 64

variable {b : Text} {stack : List Text} {n : Nat}

theorem framed_eq (b : Text) : framed b =
    (stripCR (b.takeWhile fun c => c ≠ LF), (b.dropWhile fun c => c ≠ LF).tail) := rfl

theorem frameTokens_nil : frameTokens [] = [] := by
  simp [frameTokens, frameLines, stripCR]

theorem framed_length (h : b ≠ []) : (framed b).2.length < b.length := by
  rw [framed_eq]
  have hle := (List.dropWhile_sublist (fun c => decide (c ≠ LF)) (l := b)).length_le
  have hpos : 0 < b.length := List.length_pos_iff.2 h
  simp only [List.length_tail]
  omega

theorem tokens_cons (line : Text) (lines : List Text) :
    (((line :: lines).map stripCR).filter fun l => l ≠ []).map frameToken =
      if stripCR line = [] then ((lines.map stripCR).filter fun l => l ≠ []).map frameToken
      else frameToken (stripCR line) ::
        ((lines.map stripCR).filter fun l => l ≠ []).map frameToken := by
  by_cases hs : stripCR line = [] <;> simp [hs]

theorem frameTokens_framed (b : Text) : frameTokens b =
    if (framed b).1 = [] then frameTokens (framed b).2
    else frameToken (framed b).1 :: frameTokens (framed b).2 := by
  rw [framed_eq]
  dsimp only
  have hb : b.takeWhile (fun c => c ≠ LF) ++ b.dropWhile (fun c => c ≠ LF) = b :=
    List.takeWhile_append_dropWhile
  have hline : ∀ c ∈ b.takeWhile (fun c => c ≠ LF), decide (c = LF) = false := by
    intro c hc
    simpa using List.all_eq_true.1 List.all_takeWhile c hc
  have hnot := List.head?_dropWhile_not (fun c => decide (c ≠ LF)) b
  generalize b.takeWhile (fun c => c ≠ LF) = line at hb hline
  generalize b.dropWhile (fun c => c ≠ LF) = after at hb hnot
  subst hb
  cases after with
  | nil =>
    rw [List.append_nil, List.tail_nil]
    show (((line.splitOnP fun c => c = LF).map stripCR).filter fun l => l ≠ []).map frameToken = _
    rw [List.splitOnP_eq_singleton hline, tokens_cons, frameTokens_nil]
    rfl
  | cons c rest =>
    have hc : decide (c = LF) = true := by simpa using hnot
    show ((((line ++ c :: rest).splitOnP fun c => c = LF).map stripCR).filter
      fun l => l ≠ []).map frameToken = _
    rw [List.splitOnP_append_cons_of_forall_mem hline c hc, tokens_cons]
    rfl

/-! ## The loop -/

theorem closes_content {limit : Nat} {c : Text} {ts : List (Token Text Text)} :
    closes shortName sameLetters limit stack (.content c :: ts) =
      (decide (stack ≠ []) && closes shortName sameLetters limit stack ts) := by
  cases stack <;> simp [closes]

theorem framing_open (hn : b.length ≤ n) (hs : stack.length ≤ 32) :
    framing n stack 1 b = closes shortName sameLetters 32 stack (frameTokens b) := by
  induction n generalizing b stack with
  | zero =>
    obtain rfl : b = [] := List.length_eq_zero_iff.1 (by omega)
    rw [framing, frameTokens_nil, closes]
    cases stack <;> simp
  | succ n ih =>
    rw [framing]
    by_cases hb : b = []
    · subst hb
      rw [if_pos rfl, frameTokens_nil, closes]
      cases stack <;> simp
    have hlen := framed_length hb
    rw [if_neg hb, frameTokens_framed]
    dsimp only
    generalize (framed b).1 = line
    generalize (framed b).2 = rest at hlen
    have ih {stack : List Text} (hs : stack.length ≤ 32) := ih (b := rest) (by omega) hs
    by_cases hl : line = []
    · rw [if_pos hl, if_pos hl, ih hs]
    rw [if_neg hl, if_neg hl]
    unfold frameToken
    by_cases hblank : startsBlank line = true
    · rw [if_pos hblank, if_pos hblank, closes_content, ih hs]
    rw [if_neg hblank, if_neg hblank]
    by_cases hbegin : 6 < line.length ∧ startsWith (ascii "BEGIN:") line = true
    · rw [if_pos hbegin, if_pos hbegin]
      cases stack with
      | nil => simp [closes]
      | cons top outer =>
        rw [closes]
        by_cases hfull : (top :: outer).length = 32 ∨ 64 ≤ line.length - 6
        · rw [if_pos hfull]
          rcases hfull with hfull | hfull
          · have hlimit : ¬ outer.length + 1 < 32 := by simp at hfull; omega
            simp [hlimit]
          · have hshort : shortName (line.drop 6) = false := by
              simpa [shortName] using hfull
            simp [hshort]
        · rw [if_neg hfull, if_neg (by simp)]
          simp only [List.length_cons, not_or, not_le] at hfull hs
          have hlimit : outer.length + 1 < 32 := by omega
          have hshort : shortName (line.drop 6) = true := by simpa [shortName] using hfull.2
          rw [ih (by rw [List.length_cons, List.length_cons]; omega), hshort]
          simp [hlimit]
    rw [if_neg hbegin, if_neg hbegin]
    by_cases hend : 4 < line.length ∧ startsWith (ascii "END:") line = true
    · rw [if_pos hend, if_pos hend]
      cases stack with
      | nil => simp [closes]
      | cons top outer =>
        rw [closes]
        dsimp only
        rw [ih (by simp at hs; omega)]
    · rw [if_neg hend, if_neg hend, closes_content, ih hs]

theorem framing_start (hn : b.length ≤ n) : framing n [] 0 b = true ↔
    ∃ name ts, frameTokens b = .opening name :: ts ∧ shortName name = true ∧
      sameLetters name (ascii "VCALENDAR") = true ∧
      closes shortName sameLetters 32 [name] ts = true := by
  induction n generalizing b with
  | zero =>
    obtain rfl : b = [] := List.length_eq_zero_iff.1 (by omega)
    simp [framing, frameTokens_nil]
  | succ n ih =>
    rw [framing]
    by_cases hb : b = []
    · subst hb
      simp [frameTokens_nil]
    have hlen := framed_length hb
    rw [if_neg hb, frameTokens_framed]
    dsimp only
    have hopen {name : Text} := @framing_open (framed b).2 [name] n (by omega) (by simp)
    generalize (framed b).1 = line
    generalize (framed b).2 = rest at hlen hopen
    by_cases hl : line = []
    · rw [if_pos hl, if_pos hl, ih (by omega)]
    rw [if_neg hl, if_neg hl]
    unfold frameToken
    by_cases hblank : startsBlank line = true
    · simp [hblank]
    rw [if_neg hblank, if_neg hblank]
    by_cases hbegin : 6 < line.length ∧ startsWith (ascii "BEGIN:") line = true
    · rw [if_pos hbegin, if_pos hbegin, hopen]
      by_cases hlong : 64 ≤ line.length - 6
      · have hshort : shortName (line.drop 6) = false := by simpa [shortName] using hlong
        simp [hlong, hshort]
      · have hshort : shortName (line.drop 6) = true := by simpa [shortName] using hlong
        simp [hlong, hshort]
    rw [if_neg hbegin, if_neg hbegin]
    by_cases hend : 4 < line.length ∧ startsWith (ascii "END:") line = true
    · rw [if_pos hend, if_pos hend]
      simp
    · rw [if_neg hend, if_neg hend]
      simp

/-! ## The main theorem -/

/-- **`RCFraming` accepts exactly the balanced bodies**: the lines that are not empty are one
`VCALENDAR` from its `BEGIN` to its `END`, in which every component closes under the name it opened
with, up to letter case, at most 32 are open at once and no name has more than 63 bytes. -/
theorem framing_exact (b : Text) : framing b.length [] 0 b = true ↔
    ∃ name inside close, frameTokens b = .opening name :: (inside ++ [.closing close]) ∧
      sameLetters name (ascii "VCALENDAR") = true ∧ sameLetters name close = true ∧
      Balanced shortName sameLetters 31 inside := by
  rw [framing_start (Nat.le_refl _)]
  constructor
  · rintro ⟨name, ts, htokens, -, hname, hc⟩
    obtain ⟨inside, close, rest, rfl, hi, hclose, hrest⟩ :=
      (@closes_iff Text Text shortName sameLetters 32 31 name [] ts rfl).1 hc
    obtain rfl : rest = [] := by
      cases rest with
      | nil => rfl
      | cons t rest => simp [closes] at hrest
    exact ⟨name, inside, close, htokens, hname, hclose, hi⟩
  · rintro ⟨name, inside, close, htokens, hname, hclose, hi⟩
    have hlen : name.length = 9 := by
      have h := congrArg List.length (of_decide_eq_true hname)
      simpa [ascii] using h
    refine ⟨name, _, htokens, by simp [shortName, hlen], hname, ?_⟩
    exact (@closes_iff Text Text shortName sameLetters 32 31 name [] _ rfl).2
      ⟨inside, close, [], rfl, hi, hclose, rfl⟩

/-- A component inside another, with both kinds of line breaks. -/
example : framing 52 [] 0
    (ascii "BEGIN:VCALENDAR\r\nBEGIN:X\n\nend:x\r\nEND:VCALENDAR\r\n") = true := by
  decide +kernel

end Resource
