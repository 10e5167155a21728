import Mathlib.Data.List.Chain
import Mathlib.Data.List.Flatten

/-!
# Folded lines

A text is a list of bytes. A line ends in CR, LF or CRLF, and a physical line that starts with a
space or a tab continues the one before it. `split` reads a text into its logical lines, each with
its bytes (`raw`) and its content without breaks and folds (`text`).

* `split_join`: the lines of a text, joined, are the text.
* `split_append`: two texts that meet cleanly (`Meets`) are read separately; `split_clash`: where
  only a CR and an LF run together, the two lines become one.
* `split_eq_iff`: a list of lines is what its bytes are read as exactly when each is one line and
  neighbours meet cleanly.
* `split_segments`: a line written in folded segments is read back as one line.
-/

set_option autoImplicit false

namespace Library

abbrev Text := List UInt8

namespace Text

def CR : UInt8 := 0x0d
def LF : UInt8 := 0x0a
def SP : UInt8 := 0x20
def TAB : UInt8 := 0x09

def isBreak (c : UInt8) : Bool := c = CR || c = LF

/-- The bytes that fold a line. -/
def isBlank (c : UInt8) : Bool := c = SP || c = TAB

def startsBlank (b : Text) : Bool := b.head?.any isBlank

def startsLF (b : Text) : Bool := b.head? = some LF

def endsCR (b : Text) : Bool := b.getLast? = some CR

def endsBreak (b : Text) : Bool := b.getLast?.any isBreak

/-- A logical line: its bytes, and its content. -/
structure Line where
  raw : Text
  text : Text
deriving DecidableEq, Repr

/-- The bytes of a list of lines. -/
def join (ls : List Line) : Text := ls.flatMap Line.raw

/-! ## Reading -/

/-- The content of the line `l` with the byte `c` before it, unless `c` is a line of its own. -/
def absorb (c : UInt8) (l : Line) : Option Text :=
  if c = CR ∧ startsLF l.raw = true then some l.text
  else if isBreak c = false then some (c :: l.text)
  else if startsBlank l.raw = true then some l.text.tail
  else none

/-- The line a byte is by itself. -/
def single (c : UInt8) : Line := ⟨[c], if isBreak c then [] else [c]⟩

/-- A byte before the first line. -/
def push (c : UInt8) : List Line → List Line
  | [] => [single c]
  | l :: ls => match absorb c l with
    | some t => ⟨c :: l.raw, t⟩ :: ls
    | none => single c :: l :: ls

/-- The logical lines of a text. -/
def split : Text → List Line
  | [] => []
  | c :: b => push c (split b)

variable {a b : Text} {c : UInt8} {l m : Line} {ls ms : List Line}

/-- A break that no line absorbs ends the line before it. -/
theorem absorb_none (h : absorb c l = none) :
    isBreak c = true ∧ startsBlank l.raw = false ∧ ¬ (c = CR ∧ startsLF l.raw = true) := by
  unfold absorb at h
  split_ifs at h with h1 h2 h3
  exact ⟨by simpa using h2, by simpa using h3, h1⟩

theorem push_ne_nil (c : UInt8) (ls : List Line) : push c ls ≠ [] := by
  cases ls with
  | nil => simp [push]
  | cons l ls =>
    simp only [push]
    split <;> simp

theorem split_eq_nil : split b = [] ↔ b = [] := by
  cases b with
  | nil => simp [split]
  | cons c b => simp [split, push_ne_nil]

/-- The first line starts where the text starts. -/
theorem split_head (h : split b = l :: ls) : l.raw.head? = b.head? := by
  cases b with
  | nil => cases h
  | cons c b =>
    simp only [split] at h
    cases hs : split b with
    | nil =>
      simp only [hs, push, List.cons.injEq] at h
      simp [← h.1, single]
    | cons l' ls' =>
      simp only [hs, push] at h
      split at h <;> simp only [List.cons.injEq] at h <;> simp [← h.1, single]

theorem startsBlank_split (h : split b = l :: ls) : startsBlank l.raw = startsBlank b := by
  simp [startsBlank, split_head h]

theorem startsLF_split (h : split b = l :: ls) : startsLF l.raw = startsLF b := by
  simp [startsLF, split_head h]

theorem join_push (c : UInt8) (ls : List Line) : join (push c ls) = c :: join ls := by
  cases ls with
  | nil => simp [push, join, single]
  | cons l ls =>
    simp only [push]
    split <;> simp [join, single]

/-- **Nothing is lost.** -/
theorem split_join : ∀ b : Text, join (split b) = b
  | [] => rfl
  | c :: b => by rw [split, join_push, split_join b]

theorem raw_ne_nil : ∀ {b : Text}, ∀ l ∈ split b, l.raw ≠ []
  | [], l, hl => by simp [split] at hl
  | c :: b, l, hl => by
    have ih := @raw_ne_nil b
    simp only [split] at hl
    cases hs : split b with
    | nil => simp_all [push, single]
    | cons l' ls' =>
      rw [hs] at hl ih
      simp only [push] at hl
      split at hl
      · rcases List.mem_cons.1 hl with rfl | hl
        · simp
        · exact ih l (List.mem_cons_of_mem _ hl)
      · rcases List.mem_cons.1 hl with rfl | hl
        · simp [single]
        · exact ih l hl

/-- A line that starts with a blank has it in its content. -/
theorem text_of_blank : ∀ {b : Text} {l : Line} {ls : List Line}, split b = l :: ls →
    startsBlank b = true → l.text.head? = b.head?
  | [], _, _, h, _ => by simp [split] at h
  | c :: b, l, ls, h, hb => by
    have hc : isBreak c = false := by
      simp only [startsBlank, List.head?_cons, Option.any_some, isBlank, Bool.or_eq_true,
        decide_eq_true_iff] at hb
      rcases hb with rfl | rfl <;> rfl
    have hcr : ¬ (c = CR) := by
      rintro rfl
      cases hc
    simp only [split] at h
    cases hs : split b with
    | nil =>
      simp only [hs, push, single, hc, List.cons.injEq] at h
      simp [← h.1]
    | cons l' ls' =>
      simp only [hs, push, absorb, hcr, hc, false_and, if_false, if_true, List.cons.injEq] at h
      simp [← h.1]

/-- Content has no breaks. -/
def unbroken (s : Text) : Bool := s.all fun c => !isBreak c

theorem unbroken_append (s t : Text) : unbroken (s ++ t) = (unbroken s && unbroken t) := by
  simp [unbroken]

theorem absorb_unbroken {t : Text} (h : absorb c l = some t) (hl : unbroken l.text = true) :
    unbroken t = true := by
  unfold absorb at h
  split_ifs at h with h1 h2 h3 <;> simp only [Option.some.injEq] at h
  · rwa [← h]
  · simpa [← h, unbroken, h2] using hl
  · rw [← h]
    simp only [unbroken, List.all_eq_true] at hl ⊢
    exact fun x hx => hl x (List.mem_of_mem_tail hx)

/-- The content of every line is unbroken. -/
theorem text_unbroken : ∀ {b : Text}, ∀ l ∈ split b, unbroken l.text = true
  | [], l, hl => by simp [split] at hl
  | c :: b, l, hl => by
    have ih := @text_unbroken b
    have hsingle : unbroken (single c).text = true := by
      unfold single
      split <;> simp_all [unbroken]
    simp only [split] at hl
    cases hs : split b with
    | nil =>
      rw [hs] at hl
      rwa [List.mem_singleton.1 hl]
    | cons l' ls' =>
      rw [hs] at hl ih
      simp only [push] at hl
      split at hl
      · rename_i t ht
        obtain rfl | hl := List.mem_cons.1 hl
        · exact absorb_unbroken ht (ih l' List.mem_cons_self)
        · exact ih l (List.mem_cons_of_mem _ hl)
      · obtain rfl | hl := List.mem_cons.1 hl
        · exact hsingle
        · exact ih l hl

/-! ## Texts that meet -/

/-- `b` starts a new line after `a`. -/
structure Meets (a b : Text) : Prop where
  ended : endsBreak a = true
  fresh : startsBlank b = false

/-- The CR that ends `a` and the LF that starts `b` make one break. -/
def Clash (a b : Text) : Prop := endsCR a = true ∧ startsLF b = true

instance (a b : Text) : Decidable (Clash a b) := inferInstanceAs (Decidable (_ ∧ _))

theorem endsBreak_cons (h : b ≠ []) : endsBreak (c :: b) = endsBreak b := by
  obtain ⟨d, b, rfl⟩ := List.exists_cons_of_ne_nil h
  simp [endsBreak, List.getLast?_cons_cons]

theorem endsCR_cons (h : b ≠ []) : endsCR (c :: b) = endsCR b := by
  obtain ⟨d, b, rfl⟩ := List.exists_cons_of_ne_nil h
  simp [endsCR, List.getLast?_cons_cons]

/-- A byte that ends a line is no part of the next one. -/
theorem absorb_fresh (h : Meets [c] b) (hn : ¬ Clash [c] b) (hs : split b = l :: ls) :
    absorb c l = none := by
  have hb : isBreak c = true := by simpa [endsBreak] using h.ended
  have hlf : ¬ (c = CR ∧ startsLF l.raw = true) := by
    rw [startsLF_split hs]
    simpa [Clash, endsCR] using hn
  have hbl : startsBlank l.raw = false := (startsBlank_split hs).trans h.fresh
  simp [absorb, hlf, hb, hbl]

theorem push_append (c : UInt8) (ls ms : List Line) (h : ls ≠ []) :
    push c (ls ++ ms) = push c ls ++ ms := by
  obtain ⟨l, ls, rfl⟩ := List.exists_cons_of_ne_nil h
  simp only [List.cons_append, push]
  split <;> rfl

/-- **Texts that meet cleanly are read separately.** -/
theorem split_append : ∀ {a b : Text}, Meets a b → ¬ Clash a b → split (a ++ b) = split a ++ split b
  | [], b, h, _ => absurd h.ended (by simp [endsBreak])
  | [c], b, h, hn => by
    cases hs : split b with
    | nil => simp [split_eq_nil.1 hs, split]
    | cons l ls => simp [split, hs, push, absorb_fresh h hn hs]
  | c :: d :: a, b, h, hn => by
    have h' : Meets (d :: a) b := ⟨by simpa [endsBreak_cons] using h.ended, h.fresh⟩
    have hn' : ¬ Clash (d :: a) b := by simpa [Clash, endsCR_cons] using hn
    have ih := split_append h' hn'
    rw [List.cons_append, split, ih, push_append c _ _ (by simp [split_eq_nil])]
    rfl

/-- Two lines in one. -/
def Line.append (l m : Line) : Line := ⟨l.raw ++ m.raw, l.text ++ m.text⟩

/-- A byte that makes one line of `l` makes one line of `l` and what runs into it. -/
theorem absorb_append {t : Text} (h : absorb c l = some t) (hr : l.raw ≠ [])
    (hb : startsBlank l.raw = true → l.text ≠ []) :
    absorb c (l.append m) = some (t ++ m.text) := by
  have hlf : startsLF (l.raw ++ m.raw) = startsLF l.raw := by
    obtain ⟨d, r, hd⟩ := List.exists_cons_of_ne_nil hr
    simp [hd, startsLF]
  have hbl : startsBlank (l.raw ++ m.raw) = startsBlank l.raw := by
    obtain ⟨d, r, hd⟩ := List.exists_cons_of_ne_nil hr
    simp [hd, startsBlank]
  simp only [absorb, Line.append, hlf, hbl] at h ⊢
  split_ifs at h ⊢ with h1 h2 h3
  · simpa using h
  · simp only [Option.some.injEq] at h ⊢
    rw [← h, List.cons_append]
  · obtain ⟨d, x, hx⟩ := List.exists_cons_of_ne_nil (hb h3)
    simp only [hx, List.tail_cons, List.cons_append, Option.some.injEq] at h ⊢
    rw [h]

/-- **Where a CR and an LF run together two lines become one.** -/
theorem split_clash : ∀ {a b : Text} {l m : Line} {ms : List Line}, split a = [l] →
    split b = m :: ms → Clash a b → split (a ++ b) = l.append m :: ms
  | [], _, _, _, _, ha, _, _ => by simp [split] at ha
  | [c], b, l, m, ms, ha, hb, hc => by
    have hcr : c = CR := by simpa [endsCR] using hc.1
    have hlf : startsLF m.raw = true := (startsLF_split hb).trans hc.2
    have hl : single c = l := by simpa [split, push] using ha
    subst hl hcr
    simp only [List.singleton_append, split, hb, push, absorb, hlf, and_self, if_true]
    rfl
  | c :: d :: a, b, l, m, ms, ha, hb, hc => by
    have hc' : Clash (d :: a) b := by simpa [Clash, endsCR_cons] using hc
    rw [split] at ha
    cases hs : split (d :: a) with
    | nil => simp [split_eq_nil] at hs
    | cons l' ls' =>
      simp only [hs, push] at ha
      split at ha
      · rename_i t ht
        simp only [List.cons.injEq] at ha
        obtain ⟨rfl, rfl⟩ := ha
        have ih := split_clash hs hb hc'
        rw [List.cons_append, split, ih]
        have hbl : startsBlank l'.raw = true → l'.text ≠ [] := by
          rintro h he
          have hd := text_of_blank hs ((startsBlank_split hs).symm.trans h)
          simp [he] at hd
        have hr : l'.raw ≠ [] := raw_ne_nil l' (by rw [hs]; exact List.mem_cons_self)
        simp only [push, absorb_append ht hr hbl]
        rfl
      · simp at ha

/-! ## Lists of lines -/

/-- `l` is one line. -/
def Line.One (l : Line) : Prop := split l.raw = [l]

theorem Line.One.ne_nil (h : l.One) : l.raw ≠ [] := by
  intro he
  simp [Line.One, he, split] at h

/-- Every line of a text is one line. -/
theorem split_one : ∀ {b : Text}, ∀ l ∈ split b, l.One
  | [], l, hl => by simp [split] at hl
  | c :: b, l, hl => by
    have ih := @split_one b
    simp only [split] at hl
    have hsingle : (single c).One := by simp [Line.One, single, split, push]
    cases hs : split b with
    | nil =>
      rw [hs] at hl
      rwa [List.mem_singleton.1 hl]
    | cons l' ls' =>
      rw [hs] at hl ih
      have hone : l'.One := ih l' List.mem_cons_self
      simp only [push] at hl
      split at hl
      · rename_i t ht
        rcases List.mem_cons.1 hl with rfl | hl
        · simp only [Line.One, split]
          rw [hone]
          simp [push, ht]
        · exact ih l (List.mem_cons_of_mem _ hl)
      · rcases List.mem_cons.1 hl with rfl | hl
        · exact hsingle
        · exact ih l hl

/-- Neighbours in a text meet cleanly. -/
theorem split_chain : ∀ b : Text,
    (split b).IsChain fun l m => Meets l.raw m.raw ∧ ¬ Clash l.raw m.raw
  | [] => by simp [split]
  | c :: b => by
    have ih := split_chain b
    simp only [split]
    cases hs : split b with
    | nil => simp [push]
    | cons l ls =>
      rw [hs] at ih
      have hne : l.raw ≠ [] := raw_ne_nil l (by rw [hs]; exact List.mem_cons_self)
      simp only [push]
      split
      · cases ls with
        | nil => simp
        | cons m ms =>
          obtain ⟨⟨hm, hc⟩, hrest⟩ := List.isChain_cons_cons.1 ih
          refine List.isChain_cons_cons.2 ⟨⟨⟨?_, hm.fresh⟩, ?_⟩, hrest⟩
          · simpa [endsBreak_cons hne] using hm.ended
          · simpa [Clash, endsCR_cons hne] using hc
      · rename_i ha
        obtain ⟨hb, hbl, hcr⟩ := absorb_none ha
        refine List.isChain_cons_cons.2 ⟨⟨⟨?_, hbl⟩, ?_⟩, ih⟩
        · simpa [single, endsBreak] using hb
        · simpa [Clash, single, endsCR] using hcr

/-- Where the text does not start with a blank no line of it does. -/
theorem startsBlank_of_mem (hb : startsBlank b = false) :
    ∀ l ∈ split b, startsBlank l.raw = false := by
  cases hs : split b with
  | nil => simp
  | cons l ls =>
    have hchain := split_chain b
    rw [hs] at hchain
    intro m hm
    obtain rfl | hm := List.mem_cons.1 hm
    · exact (startsBlank_split hs).trans hb
    · obtain ⟨xs, ys, rfl⟩ := List.append_of_mem hm
      rw [← List.cons_append, List.isChain_append] at hchain
      exact (hchain.2.2 _ (List.getLast?_eq_some_getLast (by simp)) m (by simp)).1.fresh

theorem join_cons (l : Line) (ls : List Line) : join (l :: ls) = l.raw ++ join ls := by
  simp [join]

theorem join_append (ls ms : List Line) : join (ls ++ ms) = join ls ++ join ms := by
  simp [join]

theorem startsBlank_join (h : l.raw ≠ []) : startsBlank (join (l :: ls)) = startsBlank l.raw := by
  obtain ⟨d, r, hd⟩ := List.exists_cons_of_ne_nil h
  simp [join, hd, startsBlank]

theorem startsLF_join (h : l.raw ≠ []) : startsLF (join (l :: ls)) = startsLF l.raw := by
  obtain ⟨d, r, hd⟩ := List.exists_cons_of_ne_nil h
  simp [join, hd, startsLF]

/-- **Reading back**: a list of lines is what its bytes are read as exactly when each is one line
and neighbours meet cleanly. -/
theorem split_eq_iff {ls : List Line} : split (join ls) = ls ↔
    (∀ l ∈ ls, l.One) ∧ ls.IsChain fun l m => Meets l.raw m.raw ∧ ¬ Clash l.raw m.raw := by
  refine ⟨fun h => ⟨fun l hl => split_one l (h.symm ▸ hl), h ▸ split_chain _⟩, ?_⟩
  rintro ⟨hone, hchain⟩
  induction hchain with
  | nil => simp [join, split]
  | singleton l =>
    have h : split l.raw = [l] := hone l List.mem_cons_self
    simpa [join] using h
  | cons_cons hlm hrest ih =>
    rename_i l m ms
    have hm : m.raw ≠ [] := (hone m (by simp)).ne_nil
    have hl : split l.raw = [l] := hone l List.mem_cons_self
    rw [join_cons, split_append ⟨hlm.1.ended, ?_⟩ ?_, hl,
      ih fun x hx => hone x (List.mem_cons_of_mem _ hx)]
    · rfl
    · exact (startsBlank_join hm).trans hlm.1.fresh
    · simpa [Clash, startsLF_join hm] using hlm.2

/-! ## Lines that run together -/

/-- Lines whose breaks run together are one line. -/
def glue : List Line → List Line
  | [] => []
  | l :: ls => match glue ls with
    | [] => [l]
    | m :: ms => if Clash l.raw m.raw then l.append m :: ms else l :: m :: ms

/-- The lines that a list of lines is read as. -/
theorem split_glue {ls : List Line} (hone : ∀ l ∈ ls, l.One)
    (hchain : ls.IsChain fun l m => Meets l.raw m.raw) : split (join ls) = glue ls := by
  induction hchain with
  | nil => simp [join, split, glue]
  | singleton l =>
    have h : split l.raw = [l] := hone l List.mem_cons_self
    simpa [join, glue] using h
  | cons_cons hlm hrest ih =>
    rename_i l m ms
    have hm : m.raw ≠ [] := (hone m (by simp)).ne_nil
    have hl : split l.raw = [l] := hone l List.mem_cons_self
    have ih' := ih fun x hx => hone x (List.mem_cons_of_mem _ hx)
    have hmeets : Meets l.raw (join (m :: ms)) :=
      ⟨hlm.ended, (startsBlank_join hm).trans hlm.fresh⟩
    rw [join_cons, glue]
    cases hg : glue (m :: ms) with
    | nil =>
      rw [hg, split_eq_nil] at ih'
      simp [join, hm] at ih'
    | cons x xs =>
      rw [hg] at ih'
      have hx : startsLF x.raw = startsLF (join (m :: ms)) := startsLF_split ih'
      by_cases hc : Clash l.raw x.raw
      · simp only [hc, if_true]
        exact split_clash hl ih' (by simpa [Clash, hx] using hc)
      · simp only [hc, if_false]
        rw [split_append hmeets (by simpa [Clash, hx] using hc), hl, ih']
        rfl

/-! ## One line at a time -/

/-- Content before the first line. -/
theorem split_unbroken : ∀ {s : Text}, unbroken s = true → split b = l :: ls →
    split (s ++ b) = ⟨s ++ l.raw, s ++ l.text⟩ :: ls
  | [], _, h => h
  | c :: s, hs, h => by
    simp only [unbroken, List.all_cons, Bool.and_eq_true, Bool.not_eq_true'] at hs
    have hcr : c ≠ CR := by
      rintro rfl
      exact absurd hs.1 (by decide)
    rw [List.cons_append, split, split_unbroken hs.2 h]
    simp [push, absorb, hcr, hs.1]

/-- A text without breaks is one line. -/
theorem split_content : ∀ {s : Text}, unbroken s = true → s ≠ [] → split s = [⟨s, s⟩]
  | [], _, h => absurd rfl h
  | [c], hs, _ => by
    have hc : isBreak c = false := by simpa [unbroken] using hs
    simp [split, push, single, hc]
  | c :: d :: s, hs, _ => by
    simp only [unbroken, List.all_cons, Bool.and_eq_true, Bool.not_eq_true'] at hs
    have ih : split (d :: s) = [⟨d :: s, d :: s⟩] :=
      split_content (by simp [unbroken, hs.2.1]; simpa using hs.2.2) (by simp)
    have hcr : c ≠ CR := by
      rintro rfl
      exact absurd hs.1 (by decide)
    rw [split, ih]
    simp [push, absorb, hcr, hs.1]

/-- A break that no fold follows ends an empty line. -/
theorem split_break (hc : isBreak c = true) (hn : ¬ Clash [c] b) (hb : startsBlank b = false) :
    split (c :: b) = ⟨[c], []⟩ :: split b := by
  have h := split_append ⟨by simpa [endsBreak] using hc, hb⟩ hn
  simpa [split, push, single, hc] using h

/-- A break and a fold before a line. -/
theorem split_fold {x : UInt8} (hc : isBreak c = true) (hx : isBlank x = true)
    (h : split b = l :: ls) : split (c :: x :: b) = ⟨c :: x :: l.raw, l.text⟩ :: ls := by
  have hcr : x ≠ CR ∧ x ≠ LF ∧ isBreak x = false := by
    simp only [isBlank, Bool.or_eq_true, decide_eq_true_iff] at hx
    rcases hx with rfl | rfl <;> decide
  have hpush : split (x :: b) = ⟨x :: l.raw, x :: l.text⟩ :: ls := by
    rw [split, h]
    simp [push, absorb, hcr]
  rw [split, hpush]
  simp [push, absorb, startsLF, startsBlank, hcr, hc, hx]

/-- A break and a fold at the end. -/
theorem split_fold_end {x : UInt8} (hc : isBreak c = true) (hx : isBlank x = true) :
    split [c, x] = [⟨[c, x], []⟩] := by
  have hcr : x ≠ CR ∧ x ≠ LF ∧ isBreak x = false := by
    simp only [isBlank, Bool.or_eq_true, decide_eq_true_iff] at hx
    rcases hx with rfl | rfl <;> decide
  simp [split, push, single, absorb, startsLF, startsBlank, hcr, hc, hx]

/-- The CR of a CRLF. -/
theorem split_crlf (h : split (LF :: b) = l :: ls) :
    split (CR :: LF :: b) = ⟨CR :: l.raw, l.text⟩ :: ls := by
  have hlf : startsLF l.raw = true := startsLF_split h
  rw [split, h]
  simp [push, absorb, hlf]

/-! ## Folding -/

def CRLF : Text := [CR, LF]

/-- A line written in segments, each but the first behind a blank. -/
def segments : List Text → Text
  | [] => []
  | [s] => s ++ CRLF
  | s :: t :: ss => s ++ CRLF ++ SP :: segments (t :: ss)

/-- **A folded line is read back as one line.** -/
theorem split_segments : ∀ {ss : List Text}, ss ≠ [] → (∀ s ∈ ss, unbroken s = true) →
    split (segments ss) = [⟨segments ss, ss.flatten⟩]
  | [], h, _ => absurd rfl h
  | [s], _, hs => by
    have hcrlf : split CRLF = [⟨CRLF, []⟩] := by decide
    rw [segments, split_unbroken (hs s List.mem_cons_self) hcrlf]
    simp
  | s :: t :: ss, _, hs => by
    have ih := @split_segments (t :: ss) (by simp) fun x hx => hs x (List.mem_cons_of_mem _ hx)
    have hfold : split (CRLF ++ SP :: segments (t :: ss)) =
        [⟨CRLF ++ SP :: segments (t :: ss), (t :: ss).flatten⟩] :=
      split_crlf (split_fold rfl rfl ih)
    rw [segments, List.append_assoc, split_unbroken (hs s List.mem_cons_self) hfold]
    simp

end Text

end Library
