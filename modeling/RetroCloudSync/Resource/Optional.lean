import RetroCloudSync.Resource.Read

/-!
# Leaving out empty properties

`RCOmitEmptyOptionalProperties` of `RCICalendar.c` goes through the physical lines of the copy that
libical parses. A line that it drops is a logical line (`omit_eq`): a continuation starts with a
blank, and a line that is continued is kept.

What is left can be read differently in one way only. A kept line that ends in a CR runs together
with a kept line that starts with an LF when everything between them is dropped (`omit_exact`).
-/

set_option autoImplicit false

namespace Resource

open Library Library.Text Journal

/-! ## Breaks -/

def breaks : List Bytes := [[CR], [LF], CRLF]

variable {s br rest b : Bytes}

theorem physical_breaks (h : physical b = (s, rest)) :
    b = s ++ rest ∧ rest = [] ∨ ∃ br ∈ breaks, b = s ++ br ++ rest := by
  have happ : b.takeWhile (fun c => !isBreak c) ++ b.dropWhile (fun c => !isBreak c) = b :=
    List.takeWhile_append_dropWhile
  obtain ⟨hs, hrest⟩ := Prod.mk.inj h
  cases hd : b.dropWhile (fun c => !isBreak c) with
  | nil =>
    rw [hd, List.append_nil, hs] at happ
    rw [hd] at hrest
    have hnil : rest = [] := hrest.symm
    exact .inl ⟨by simp [hnil, happ], hnil⟩
  | cons c d =>
    have hc : isBreak c = true := by
      have hnot := List.head?_dropWhile_not (fun c => !isBreak c) b
      simpa [hd] using hnot
    rw [hd] at hrest happ
    rw [hs] at happ
    have hcases : c = CR ∨ c = LF := by simpa [isBreak] using hc
    refine .inr ?_
    obtain rfl | rfl := hcases
    · by_cases hlf : d.head? = some LF
      · obtain ⟨e, rfl⟩ : ∃ e, d = LF :: e := by
          cases d with
          | nil => cases hlf
          | cons x e => exact ⟨e, by simpa using hlf⟩
        have he : e = rest := hrest
        exact ⟨CRLF, by decide, by simp [← happ, he, CRLF]⟩
      · have he : d = rest := by simpa [skipBreak, hlf] using hrest
        exact ⟨[CR], by decide, by simp [← happ, he]⟩
    · have he : d = rest := by simpa [skipBreak, CR, LF] using hrest
      exact ⟨[LF], by decide, by simp [← happ, he]⟩

theorem physical_append (hs : unbroken s = true) (hbr : br ∈ breaks) (hlf : startsLF rest = false) :
    physical (s ++ br ++ rest) = (s, rest) := by
  have hall : ∀ c ∈ s, (!isBreak c) = true := List.all_eq_true.1 hs
  have hskip : (br ++ rest).takeWhile (fun c => !isBreak c) = [] ∧
      skipBreak ((br ++ rest).dropWhile fun c => !isBreak c) = rest := by
    have hhead : ¬ rest.head? = some LF := by simpa [startsLF] using hlf
    simp only [breaks, List.mem_cons, List.not_mem_nil, or_false] at hbr
    obtain rfl | rfl | rfl := hbr
    · simp [isBreak, skipBreak, hhead]
    · simp [isBreak, skipBreak, CR, LF]
    · simp [CRLF, isBreak, skipBreak]
  rw [physical, List.append_assoc, List.takeWhile_append_of_pos hall,
    List.dropWhile_append_of_pos hall, hskip.1, hskip.2, List.append_nil]

/-! ## Lines that are dropped -/

/-- The line has no fold. -/
def Unfolded (l : Line) : Prop := (physical l.raw).2 = []

instance (l : Line) : Decidable (Unfolded l) := inferInstanceAs (Decidable (_ = _))

/-- An empty optional property that is written on one physical line. -/
def dropped (l : Line) : Bool := emptyOptional l.text && Unfolded l

theorem emptyOptional_blank (h : startsBlank s = true) : emptyOptional s = false := by
  cases s with
  | nil => cases h
  | cons c s =>
    have hc : c = SP ∨ c = TAB := by simpa [startsBlank, isBlank] using h
    obtain rfl | rfl := hc <;> simp [emptyOptional, sameLetters, ascii, upper, SP, TAB]

theorem dropped_blank {l : Line} {ls : List Line} (h : split b = l :: ls)
    (hb : startsBlank b = true) : dropped l = false := by
  have htext : startsBlank l.text = true := by
    rwa [startsBlank, text_of_blank h hb]
  rw [dropped, emptyOptional_blank htext, Bool.false_and]

/-- A line that the next physical line continues. -/
theorem split_continues {l : Line} {ls : List Line} (hun : unbroken s = true)
    (hbroken : Broken br rest) (hb : startsBlank rest = true) (h : split rest = l :: ls) :
    split (s ++ br ++ rest) = ⟨s ++ br ++ l.raw, s ++ l.text.tail⟩ :: ls := by
  obtain ⟨x, t, rfl⟩ : ∃ x t, rest = x :: t := by
    cases rest with
    | nil => cases hb
    | cons x t => exact ⟨x, t, rfl⟩
  have hx : isBlank x = true := by simpa [startsBlank] using hb
  have hplain : unbroken [x] = true := by
    have hc : x = SP ∨ x = TAB := by simpa [isBlank] using hx
    obtain rfl | rfl := hc <;> rfl
  rw [List.append_assoc]
  by_cases ht : t = []
  · subst ht
    rw [split_content hplain (by simp)] at h
    obtain ⟨rfl, rfl⟩ := List.cons.inj h
    have hone := split_unbroken hun (hbroken.last x hx rfl)
    simpa using hone
  · obtain ⟨m, ms, hm⟩ := List.exists_cons_of_ne_nil (mt split_eq_nil.1 ht)
    have hcons := split_unbroken hplain hm
    rw [List.singleton_append, h] at hcons
    obtain ⟨rfl, rfl⟩ := List.cons.inj hcons
    have hall := split_unbroken hun (hbroken.continued x t m ls hx rfl hm)
    simpa using hall

/-- **What is left is the kept lines, one after the other.** -/
theorem omit_eq : ∀ {n : Nat} {b : Bytes}, b.length ≤ n →
    omitEmptyOptionalProperties n b = join ((split b).filter fun l => !dropped l)
  | 0, b, hn => by
    rw [List.length_eq_zero_iff.1 (Nat.le_zero.1 hn)]
    rfl
  | n + 1, b, hn => by
    by_cases hb : b = []
    · rw [hb]
      rfl
    rw [omitEmptyOptionalProperties, if_neg hb]
    obtain ⟨s, br, rest, hp, hun, heq, ⟨rfl, rfl, hs⟩ | ⟨hne, hbroken⟩⟩ := physical_broken hb
    · -- the text ends without a break
      have hbs : b = s := by simpa using heq
      have hnil : omitEmptyOptionalProperties n [] = [] := by cases n <;> rfl
      have hsingle : Unfolded ⟨s, s⟩ := by
        rw [Unfolded, ← hbs, hp]
      rw [hp]
      simp only [startsBlank, List.head?_nil, Option.any_none, Bool.not_false, Bool.and_true, hnil,
        List.length_nil, Nat.sub_zero, List.take_length, List.append_nil]
      rw [hbs, split_content hun hs]
      by_cases hd : emptyOptional s = true
      · simp [dropped, hsingle, hd, join]
      · simp [dropped, hd, join]
    · have hmem : br ∈ breaks := by
        obtain ⟨h, hnil⟩ | ⟨br', hmem, h⟩ := physical_breaks hp
        · rw [heq, hnil] at h
          simp [hne] at h
        · rw [heq] at h
          have hbr := List.append_cancel_left (List.append_cancel_right h)
          rwa [hbr]
      have hlen : rest.length ≤ n := by
        have hpos := List.length_pos_of_ne_nil hne
        rw [heq] at hn
        simp only [List.length_append] at hn
        omega
      have htake : b.take (b.length - rest.length) = s ++ br := by
        rw [heq, List.length_append, Nat.add_sub_cancel]
        exact List.take_left
      rw [hp]
      dsimp only
      rw [htake, omit_eq hlen]
      cases hbl : startsBlank rest with
      | false =>
        have hsplit := split_unbroken hun (hbroken.ended hbl)
        rw [← List.append_assoc, ← heq] at hsplit
        have hphys := @physical_append s br [] hun hmem rfl
        rw [List.append_nil] at hphys
        have hsingle : Unfolded ⟨s ++ br, s⟩ := by rw [Unfolded, hphys]
        rw [hsplit]
        by_cases hd : emptyOptional s = true
        · simp [dropped, hsingle, hd]
        · simp [dropped, hd, join]
      | true =>
        obtain ⟨l, ls, hl⟩ : ∃ l ls, split rest = l :: ls :=
          List.exists_cons_of_ne_nil fun h => by
            rw [split_eq_nil.1 h] at hbl
            cases hbl
        have hraw : startsBlank l.raw = true := (startsBlank_split hl).trans hbl
        have hlf : startsLF l.raw = false := by
          cases hr : l.raw with
          | nil => rfl
          | cons c t =>
            rw [hr] at hraw
            have hc : c = SP ∨ c = TAB := by simpa [startsBlank, isBlank] using hraw
            obtain rfl | rfl := hc <;> rfl
        have hfold : ¬ Unfolded ⟨s ++ br ++ l.raw, s ++ l.text.tail⟩ := by
          rw [Unfolded, physical_append hun hmem hlf]
          intro h
          rw [show l.raw = [] from h] at hraw
          cases hraw
        have hkept : dropped ⟨s ++ br ++ l.raw, s ++ l.text.tail⟩ = false := by
          rw [dropped, decide_eq_false hfold, Bool.and_false]
        have hkept' : dropped l = false := dropped_blank hl hbl
        rw [heq, split_continues hun hbroken hbl hl, hl, List.filter_cons_of_pos (by simp [hkept']),
          List.filter_cons_of_pos (by rw [hkept]; rfl), join_cons, join_cons]
        simp

/-! ## What is left is read -/

/-- Of two lines of a text the first ends in a break, and the second starts with no blank. -/
theorem split_pairwise (b : Bytes) : (split b).Pairwise fun l m => Meets l.raw m.raw := by
  have hchain := split_chain b
  generalize split b = ls at hchain
  induction hchain with
  | nil => exact List.Pairwise.nil
  | singleton l => exact List.pairwise_singleton _ l
  | @cons_cons l m ms hlm hrest ih =>
    refine List.pairwise_cons.2 ⟨fun x hx => ⟨hlm.1.ended, ?_⟩, ih⟩
    obtain rfl | hx := List.mem_cons.1 hx
    · exact hlm.1.fresh
    · exact ((List.pairwise_cons.1 ih).1 x hx).fresh

/-- Two kept lines, with only dropped ones between them, of which the first ends in a CR and the
second starts with an LF. -/
def RunTogether (b : Bytes) : Prop :=
  ¬ ((split b).filter fun l => !dropped l).IsChain fun l m => ¬ Clash l.raw m.raw

instance (b : Bytes) : Decidable (RunTogether b) := inferInstanceAs (Decidable (¬ _))

/-- **Nothing but the empty properties is lost**, and no line continues another one that it did not
continue before, exactly when no two kept lines run together. -/
theorem omit_exact (b : Bytes) :
    split (omitEmptyOptionalProperties b.length b) = (split b).filter (fun l => !dropped l) ↔
      ¬ RunTogether b := by
  rw [omit_eq (Nat.le_refl _), split_eq_iff, RunTogether, not_not]
  constructor
  · intro h
    exact h.2.imp fun _ _ hlm => hlm.2
  · intro h
    have hmeets := ((split_pairwise b).filter fun l => !dropped l).isChain
    refine ⟨fun l hl => split_one l (List.mem_filter.1 hl).1, ?_⟩
    exact List.isChain_iff_getElem.2 fun i hi =>
      ⟨List.isChain_iff_getElem.1 hmeets i hi, List.isChain_iff_getElem.1 h i hi⟩

/-- A calendar in which an empty URL stands between a line that ends in a CR and an empty line that
is continued. -/
def glued : Bytes := ascii "BEGIN:VCALENDAR\nX-A:1\rURL:\n\n X-B:2\nEND:VCALENDAR\n"

/-- **The second line becomes a continuation of the first** when the URL is left out. -/
theorem omit_glues : framing glued.length [] 0 glued = true ∧
    ⟨ascii "X-A:1\r", ascii "X-A:1"⟩ ∈ split glued ∧
    (split (omitEmptyOptionalProperties glued.length glued)).map Line.text =
      [ascii "BEGIN:VCALENDAR", ascii "X-A:1X-B:2", ascii "END:VCALENDAR"] ∧
    ¬ ∀ b : Bytes, split (omitEmptyOptionalProperties b.length b) =
      (split b).filter fun l => !dropped l := by
  refine ⟨by decide +kernel, by decide +kernel, by decide +kernel, fun h => ?_⟩
  exact absurd (h glued) (by decide +kernel)

end Resource
