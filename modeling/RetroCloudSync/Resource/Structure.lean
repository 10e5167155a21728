import RetroCloudSync.Resource.Rewritten
import Mathlib.Algebra.Ring.Nat

/-!
# A patch and the structure of a resource

`fuse` are the marks of a list of lines after lines that run together have become one. What runs
together can change the fixed lines only by joining a line with content that is fixed to another
one with content (`filter_fuse`).

* `patch_structure`: a patch keeps the structure and every line that is not writable exactly when
  it joins no such line to another.
-/

set_option autoImplicit false

namespace Resource

open Library Library.Text Journal

variable {parsers : Parsers} {format : Format} {f g : Frame} {base out : Bytes}
  {edits : List Edit} {ms rs : List Mark} {m x : Mark} {c : Mark → Bool}

/-! ## Marks that run together -/

def Mark.fuse (m x : Mark) : Mark :=
  ⟨m.line.append x.line, if m.line.text = [] then x.role else m.role⟩

/-- Lines whose breaks run together are one line, in the role of the first that has content. -/
def fuse : List Mark → List Mark
  | [] => []
  | m :: ms => match fuse ms with
    | [] => [m]
    | x :: xs => if Clash m.line.raw x.line.raw then m.fuse x :: xs else m :: x :: xs

variable {xs : List Mark}

theorem fuse_alone (hf : fuse ms = []) : fuse (m :: ms) = [m] := by rw [fuse, hf]

theorem fuse_joined (hf : fuse ms = x :: xs) (hc : Clash m.line.raw x.line.raw) :
    fuse (m :: ms) = m.fuse x :: xs := by
  rw [fuse, hf]
  exact if_pos hc

theorem fuse_apart (hf : fuse ms = x :: xs) (hc : ¬ Clash m.line.raw x.line.raw) :
    fuse (m :: ms) = m :: x :: xs := by
  rw [fuse, hf]
  exact if_neg hc

theorem fuse_lines : ∀ ms : List Mark, (fuse ms).map Mark.line = glue (ms.map Mark.line)
  | [] => rfl
  | m :: ms => by
    have ih := fuse_lines ms
    rw [List.map_cons, glue, ← ih]
    cases hf : fuse ms with
    | nil =>
      rw [fuse_alone hf]
      rfl
    | cons x xs =>
      rw [List.map_cons]
      dsimp only
      by_cases hc : Clash m.line.raw x.line.raw
      · rw [fuse_joined hf hc, if_pos hc]
        rfl
      · rw [fuse_apart hf hc, if_neg hc]
        rfl

/-- `P` holds of any two that are joined. -/
def Joins (P : Mark → Mark → Prop) : List Mark → Prop
  | [] => True
  | m :: ms => Joins P ms ∧ ∀ x xs, fuse ms = x :: xs → Clash m.line.raw x.line.raw → P m x

theorem joins_alone {P : Mark → Mark → Prop} (hf : fuse ms = []) :
    Joins P (m :: ms) ↔ Joins P ms := by
  simp [Joins, hf]

theorem joins_joined {P : Mark → Mark → Prop} (hf : fuse ms = x :: xs)
    (hc : Clash m.line.raw x.line.raw) : Joins P (m :: ms) ↔ Joins P ms ∧ P m x := by
  refine and_congr_right fun _ => ⟨fun h => h x xs hf hc, fun h y ys hy _ => ?_⟩
  obtain ⟨rfl, -⟩ := List.cons.inj (hf.symm.trans hy)
  exact h

theorem joins_apart {P : Mark → Mark → Prop} (hf : fuse ms = x :: xs)
    (hc : ¬ Clash m.line.raw x.line.raw) : Joins P (m :: ms) ↔ Joins P ms := by
  refine and_iff_left fun y ys hy hclash => ?_
  obtain ⟨rfl, -⟩ := List.cons.inj (hf.symm.trans hy)
  exact absurd hclash hc

theorem Joins.mono {P Q : Mark → Mark → Prop} (hpq : ∀ m x, P m x → Q m x) :
    ∀ {ms : List Mark}, Joins P ms → Joins Q ms
  | [], _ => trivial
  | _ :: _, h => ⟨h.1.mono hpq, fun x xs hx hc => hpq _ _ (h.2 x xs hx hc)⟩

theorem Joins.and {P Q : Mark → Mark → Prop} :
    ∀ {ms : List Mark}, Joins P ms → Joins Q ms → Joins (fun m x => P m x ∧ Q m x) ms
  | [], _, _ => trivial
  | _ :: _, h, h' => ⟨h.1.and h'.1, fun x xs hx hc => ⟨h.2 x xs hx hc, h'.2 x xs hx hc⟩⟩

/-- Joining the two changes no line of the class `c`. -/
def Keeps (c : Mark → Bool) (m x : Mark) : Prop :=
  m.line.text = [] ∨ x.line.text = [] ∨ (c m = false ∧ c x = false)

/-- A class that lines without content are not in, and that the first line with content decides. -/
structure Class (c : Mark → Bool) (ms : List Mark) : Prop where
  content : ∀ m ∈ ms, c m = true → m.line.text ≠ []
  fuse : ∀ m ∈ ms, ∀ x, c (m.fuse x) = if m.line.text = [] then c x else c m

theorem Class.tail (h : Class c (m :: ms)) : Class c ms :=
  ⟨fun x hx => h.content x (List.mem_cons_of_mem _ hx),
    fun x hx => h.fuse x (List.mem_cons_of_mem _ hx)⟩

theorem Class.fused (h : Class c ms) : ∀ x ∈ Resource.fuse ms, c x = true → x.line.text ≠ [] := by
  induction ms with
  | nil => simp [Resource.fuse]
  | cons m ms ih =>
    have ih := ih h.tail
    have hm := h.content m List.mem_cons_self
    cases hf : Resource.fuse ms with
    | nil =>
      rw [fuse_alone hf]
      simpa using hm
    | cons x xs =>
      rw [hf, List.forall_mem_cons] at ih
      by_cases hc : Clash m.line.raw x.line.raw
      · rw [fuse_joined hf hc, List.forall_mem_cons]
        refine ⟨fun hcm => ?_, ih.2⟩
        rw [h.fuse m List.mem_cons_self] at hcm
        split_ifs at hcm with hnil
        · simp [Mark.fuse, Line.append, ih.1 hcm]
        · simp [Mark.fuse, Line.append, hnil]
      · rw [fuse_apart hf hc, List.forall_mem_cons, List.forall_mem_cons]
        exact ⟨hm, ih⟩

/-- The length of the lines of a class. -/
def volume (c : Mark → Bool) (ms : List Mark) : Nat :=
  ((ms.filter c).map fun m => m.line.text.length).sum

theorem volume_cons (c : Mark → Bool) (m : Mark) (ms : List Mark) :
    volume c (m :: ms) = (if c m then m.line.text.length else 0) + volume c ms := by
  rw [volume, List.filter_cons]
  split_ifs <;> simp [volume]

theorem countP_cons' (c : Mark → Bool) (m : Mark) (ms : List Mark) :
    (m :: ms).countP c = (if c m then 1 else 0) + ms.countP c := by
  rw [List.countP_cons, Nat.add_comm]

/-- **Joining loses lines of a class, or makes them longer**, unless it keeps them. -/
theorem fuse_measure (h : Class c ms) : (fuse ms).countP c ≤ ms.countP c ∧
    ((fuse ms).countP c = ms.countP c → volume c ms ≤ volume c (fuse ms) ∧
      (volume c (fuse ms) = volume c ms → Joins (Keeps c) ms)) := by
  induction ms with
  | nil => simp [fuse, Joins]
  | cons m ms ih =>
    obtain ⟨hle, hrest⟩ := ih h.tail
    have hfuse := h.fuse m List.mem_cons_self
    cases hf : fuse ms with
    | nil =>
      rw [hf] at hle hrest
      rw [fuse_alone hf, joins_alone hf]
      simp only [countP_cons', volume_cons]
      refine ⟨by omega, fun hcount => ?_⟩
      obtain ⟨hv, hj⟩ := hrest (by omega)
      exact ⟨by omega, fun hvol => hj (by omega)⟩
    | cons x xs =>
      rw [hf] at hle hrest
      by_cases hc : Clash m.line.raw x.line.raw
      · rw [fuse_joined hf hc, joins_joined hf hc]
        simp only [countP_cons', volume_cons] at hle hrest ⊢
        by_cases hnil : m.line.text = []
        · -- a line without content is in no class
          have hm : c m = false := by
            by_contra hcm
            exact h.content m List.mem_cons_self (by simpa using hcm) hnil
          have hx : c (m.fuse x) = c x := by rw [hfuse, if_pos hnil]
          have hlen : (m.fuse x).line.text.length = x.line.text.length := by
            simp [Mark.fuse, Line.append, hnil]
          rw [hx, hlen, hm]
          simp only [Bool.false_eq_true, if_false, Nat.zero_add]
          refine ⟨hle, fun hcount => ?_⟩
          obtain ⟨hv, hj⟩ := hrest hcount
          exact ⟨hv, fun hvol => ⟨hj hvol, Or.inl hnil⟩⟩
        · -- the joined line is in the class of the first one
          have hx : c (m.fuse x) = c m := by rw [hfuse, if_neg hnil]
          have hlen : (m.fuse x).line.text.length =
              m.line.text.length + x.line.text.length := by
            simp [Mark.fuse, Line.append]
          rw [hx, hlen]
          refine ⟨by omega, fun hcount => ?_⟩
          have hcx : c x = false := by
            by_contra hcx
            rw [if_pos (by simpa using hcx)] at hle
            omega
          rw [hcx] at hle hrest
          simp only [Bool.false_eq_true, if_false, Nat.zero_add] at hle hrest
          obtain ⟨hv, hj⟩ := hrest (by omega)
          cases hcm : c m with
          | false =>
            simp only [Bool.false_eq_true, if_false, Nat.zero_add]
            exact ⟨hv, fun hvol => ⟨hj hvol, Or.inr (Or.inr ⟨hcm, hcx⟩)⟩⟩
          | true =>
            simp only [if_true]
            refine ⟨by omega, fun hvol => ⟨hj (by omega), Or.inr (Or.inl ?_)⟩⟩
            exact List.length_eq_zero_iff.1 (by omega)
      · rw [fuse_apart hf hc, joins_apart hf hc]
        simp only [countP_cons', volume_cons] at hle hrest ⊢
        refine ⟨by omega, fun hcount => ?_⟩
        obtain ⟨hv, hj⟩ := hrest (by omega)
        exact ⟨by omega, fun hvol => hj (by omega)⟩

theorem map_filter_cons (c : Mark → Bool) (m : Mark) (ms : List Mark) :
    ((m :: ms).filter c).map (fun m => m.line.text) =
      if c m then m.line.text :: (ms.filter c).map fun m => m.line.text
      else (ms.filter c).map fun m => m.line.text := by
  rw [List.filter_cons]
  split_ifs <;> rfl

/-- **What is joined keeps the lines of a class** exactly when every joining does. -/
theorem filter_fuse (h : Class c ms) :
    ((fuse ms).filter c).map (fun m => m.line.text) = (ms.filter c).map (fun m => m.line.text) ↔
      Joins (Keeps c) ms := by
  constructor
  · intro heq
    obtain ⟨-, hrest⟩ := fuse_measure h
    have hcount : (fuse ms).countP c = ms.countP c := by
      rw [List.countP_eq_length_filter, List.countP_eq_length_filter]
      simpa using congrArg List.length heq
    have hvol : volume c (fuse ms) = volume c ms := by
      have hsum := congrArg (fun ts : List Bytes => (ts.map List.length).sum) heq
      simp only [List.map_map] at hsum
      exact hsum
    exact (hrest hcount).2 hvol
  · intro hj
    induction ms with
    | nil => rfl
    | cons m ms ih =>
      have ih := ih h.tail hj.1
      have hfuse := h.fuse m List.mem_cons_self
      have hcontent := h.content m List.mem_cons_self
      have hfused := h.tail.fused
      cases hf : fuse ms with
      | nil =>
        rw [hf] at ih
        rw [fuse_alone hf, map_filter_cons, map_filter_cons, ih]
      | cons x xs =>
        rw [hf] at ih
        by_cases hc : Clash m.line.raw x.line.raw
        · rw [fuse_joined hf hc, map_filter_cons, map_filter_cons, ← ih, hfuse, map_filter_cons]
          by_cases hnil : m.line.text = []
          · have hcm : c m = false := by
              by_contra hcm
              exact hcontent (by simpa using hcm) hnil
            simp [hnil, hcm, Mark.fuse, Line.append]
          · rw [if_neg hnil]
            obtain hxnil | ⟨hcm, hcx⟩ := ((joins_joined hf hc).1 hj).2.resolve_left hnil
            · have hcx : c x = false := by
                by_contra hcx
                exact hfused x (by rw [hf]; exact List.mem_cons_self) (by simpa using hcx) hxnil
              simp [hxnil, hcx, Mark.fuse, Line.append]
            · simp [hcm, hcx]
        · rw [fuse_apart hf hc, map_filter_cons, map_filter_cons (m := m), ih]

/-! ## The structure after joining -/

/-- A line that opens or closes a component. -/
def frameText (text : Bytes) : Bool :=
  startsWith (ascii "BEGIN:") text || startsWith (ascii "END:") text

def Mark.frame (m : Mark) : Bool := frameText m.line.text

/-- A property that is not writable in its component. -/
def Role.locked : Role → Bool
  | .property _ kind p => !allowed kind p.name
  | _ => false

def Mark.locked (m : Mark) : Bool := m.role.locked

theorem frameText_append {t u head rest : Bytes} (h : colon false t = some (head, rest)) :
    startsWith (ascii "BEGIN:") (t ++ u) = startsWith (ascii "BEGIN:") t ∧
      startsWith (ascii "END:") (t ++ u) = startsWith (ascii "END:") t := by
  have hlong : colon false (t ++ u) = some (head, rest ++ u) := by
    rw [colon_append h, List.append_assoc]
    exact colon_prefix h _
  have hword : ∀ w : Bytes, (∀ c ∈ w, upper c ≠ 0x22 ∧ upper c ≠ 0x3a) →
      startsWith (w ++ [0x3a]) (t ++ u) = startsWith (w ++ [0x3a]) t := by
    intro w hw
    exact Bool.eq_iff_iff.2 ((startsWith_iff hw hlong).trans (startsWith_iff hw h).symm)
  exact ⟨hword (ascii "BEGIN") (by decide +kernel), hword (ascii "END") (by decide +kernel)⟩

theorem classify_class {f' : Frame} (h : classify format f m.line.text = some (m.role, f')) :
    m.role.fixed = (m.frame || m.locked) ∧ (m.locked = true → m.frame = false) ∧
      (m.line.text = [] ∨ ∃ head rest, colon false m.line.text = some (head, rest)) ∧
      (m.line.text ≠ [] → m.frame = false → m.locked = false → m.role.writable = true) := by
  obtain ⟨hnil, hrole, -⟩ | ⟨head, rest, hcolon, ⟨hrole, hb, -⟩ |
    ⟨number, kind, outer, -, hb, ⟨hrole, he, -⟩ | ⟨hrole, he, -⟩⟩⟩ := classify_cases h
  · have hframe : m.frame = false := by rw [Mark.frame, hnil]; decide
    exact ⟨by simp [hrole, Role.fixed, hframe, Mark.locked, Role.locked],
      fun hl => by simp [Mark.locked, hrole, Role.locked] at hl, Or.inl hnil,
      fun hne => absurd hnil hne⟩
  · have hframe : m.frame = true := by simp [Mark.frame, frameText, hb]
    exact ⟨by simp [hrole, Role.fixed, hframe], fun hl => by
      simp [Mark.locked, hrole, Role.locked] at hl, Or.inr ⟨head, rest, hcolon⟩,
      fun _ hf => by simp [hframe] at hf⟩
  · have hframe : m.frame = true := by simp [Mark.frame, frameText, he]
    exact ⟨by simp [hrole, Role.fixed, hframe], fun hl => by
      simp [Mark.locked, hrole, Role.locked] at hl, Or.inr ⟨head, rest, hcolon⟩,
      fun _ hf => by simp [hframe] at hf⟩
  · have hframe : m.frame = false := by simp [Mark.frame, frameText, hb, he]
    exact ⟨by simp [hrole, Role.fixed, hframe, Mark.locked, Role.locked], fun _ => hframe,
      Or.inr ⟨head, rest, hcolon⟩, fun _ _ hl => by
        simpa [Mark.locked, hrole, Role.locked, Role.writable] using hl⟩

/-- Lines that were classified. -/
def Classified (format : Format) (ms : List Mark) : Prop :=
  ∀ m ∈ ms, ∃ f₁ f₂, classify format f₁ m.line.text = some (m.role, f₂)

theorem frame_class (h : Classified format ms) : Class Mark.frame ms := by
  constructor
  · rintro m - hm hnil
    rw [Mark.frame, hnil] at hm
    exact absurd hm (by decide)
  · intro m hm x
    obtain ⟨f₁, f₂, hc⟩ := h m hm
    split_ifs with hnil
    · simp [Mark.frame, Mark.fuse, Line.append, hnil]
    · obtain ⟨head, rest, hcolon⟩ := (classify_class hc).2.2.1.resolve_left hnil
      simp only [Mark.frame, Mark.fuse, Line.append, frameText, frameText_append hcolon]

theorem locked_class (h : Classified format ms) : Class Mark.locked ms := by
  constructor
  · intro m hm hl hnil
    obtain ⟨f₁, f₂, hc⟩ := h m hm
    obtain ⟨-, hrole, -⟩ | ⟨_, _, hcolon, -⟩ := classify_cases hc
    · simp [Mark.locked, hrole, Role.locked] at hl
    · rw [hnil] at hcolon
      cases hcolon
  · intro m _ x
    simp only [Mark.locked, Mark.fuse]
    split_ifs <;> rfl

theorem classify_append {f' : Frame} {u : Bytes}
    (h : classify format f m.line.text = some (m.role, f')) (hne : m.line.text ≠ [])
    (hframe : m.frame = false) :
    classify format f (m.line.text ++ u) = some (m.role, f) ∧ f' = f := by
  simp only [Mark.frame, frameText, Bool.or_eq_false_iff] at hframe
  obtain ⟨hnil, -, -⟩ | ⟨head, rest, hcolon, ⟨-, hb, -⟩ |
    ⟨number, kind, outer, hstack, -, ⟨-, he, -⟩ | ⟨hrole, -, hf⟩⟩⟩ := classify_cases h
  · exact absurd hnil hne
  · rw [hb] at hframe
    cases hframe.1
  · rw [he] at hframe
    cases hframe.2
  · refine ⟨?_, hf⟩
    have hlong : colon false (m.line.text ++ u) = some (head, rest ++ u) := by
      rw [colon_append hcolon, List.append_assoc]
      exact colon_prefix hcolon _
    obtain ⟨hb, he⟩ := frameText_append (u := u) hcolon
    unfold classify
    rw [if_neg (by simp [hne]), hlong]
    simp [hb, he, hframe, hstack, hrole]

/-- **Joined lines have the structure of the lines**, as long as no line that opens or closes a
component is joined to another with content. -/
theorem marks_fuse : ∀ {rs : List Mark} {f : Frame},
    marks format f (rs.map Mark.line) = some (rs, g) → Joins (Keeps Mark.frame) rs →
    marks format f ((fuse rs).map Mark.line) = some (fuse rs, g)
  | [], _, h, _ => h
  | m :: rs, f, h, hj => by
    obtain ⟨role, f', rs', hc, hrs, heq⟩ := marks_cons.1 h
    obtain ⟨hm, rfl⟩ := List.cons.inj heq
    obtain rfl : m.role = role := by rw [hm]
    have ih := marks_fuse hrs hj.1
    cases hf : fuse rs with
    | nil =>
      rw [hf] at ih
      rw [fuse_alone hf]
      exact marks_cons.2 ⟨m.role, f', [], hc, ih, rfl⟩
    | cons x xs =>
      rw [hf] at ih
      by_cases hclash : Clash m.line.raw x.line.raw
      · rw [fuse_joined hf hclash]
        obtain ⟨role, f'', xs', hcx, hxs, heq⟩ := marks_cons.1 ih
        obtain ⟨hx, rfl⟩ := List.cons.inj heq
        obtain rfl : x.role = role := by rw [hx]
        refine marks_cons.2 ⟨(m.fuse x).role, f'', xs, ?_, hxs, rfl⟩
        have htext : (m.fuse x).line.text = m.line.text ++ x.line.text := rfl
        rw [htext]
        by_cases hnil : m.line.text = []
        · -- a line without content leaves the frame alone
          have hrole : (m.fuse x).role = x.role := if_pos hnil
          rw [hnil] at hc ⊢
          obtain ⟨-, rfl⟩ : Role.blank = m.role ∧ f = f' := by simpa [classify] using hc
          rw [hrole, List.nil_append]
          exact hcx
        · have hrole : (m.fuse x).role = m.role := if_neg hnil
          rw [hrole]
          obtain hxnil | ⟨hcm, hcx'⟩ := ((joins_joined hf hclash).1 hj).2.resolve_left hnil
          · rw [hxnil] at hcx ⊢
            obtain ⟨-, rfl⟩ : Role.blank = x.role ∧ f' = f'' := by simpa [classify] using hcx
            rw [List.append_nil]
            exact hc
          · by_cases hxnil : x.line.text = []
            · rw [hxnil] at hcx ⊢
              obtain ⟨-, rfl⟩ : Role.blank = x.role ∧ f' = f'' := by simpa [classify] using hcx
              rw [List.append_nil]
              exact hc
            · obtain ⟨hlong, rfl⟩ := classify_append (u := x.line.text) hc hnil hcm
              obtain ⟨-, rfl⟩ := classify_append (u := []) hcx hxnil hcx'
              exact hlong
      · rw [fuse_apart hf hclash]
        exact marks_cons.2 ⟨m.role, f', x :: xs, hc, ih, rfl⟩

/-! ## The structure of the output -/

/-- Joining the two changes nothing that must stay: one of them has no content, or both are
writable. -/
def Harmless (m x : Mark) : Prop :=
  m.line.text = [] ∨ x.line.text = [] ∨
    (m.frame = false ∧ m.locked = false ∧ x.frame = false ∧ x.locked = false)

theorem Joins.harmless : Joins Harmless rs ↔
    Joins (Keeps Mark.frame) rs ∧ Joins (Keeps Mark.locked) rs := by
  constructor
  · intro h
    refine ⟨h.mono fun m x hmx => ?_, h.mono fun m x hmx => ?_⟩
    · exact hmx.imp_right (Or.imp_right fun h => ⟨h.1, h.2.2.1⟩)
    · exact hmx.imp_right (Or.imp_right fun h => ⟨h.2.1, h.2.2.2⟩)
  · rintro ⟨hf, hl⟩
    refine (hf.and hl).mono fun m x => ?_
    rintro ⟨hm | hx | ⟨h1, h2⟩, h⟩
    · exact Or.inl hm
    · exact Or.inr (Or.inl hx)
    · obtain hm | hx | ⟨h3, h4⟩ := h
      · exact Or.inl hm
      · exact Or.inr (Or.inl hx)
      · exact Or.inr (Or.inr ⟨h1, h3, h2, h4⟩)

theorem fuse_writable (hc : Classified format rs) (hj : Joins Harmless rs) :
    ∀ y ∈ fuse rs, (∃ r ∈ rs, r.line.text = y.line.text ∧ r.role = y.role) ∨
      y.role.writable = true := by
  induction rs with
  | nil => simp [fuse]
  | cons m rs ih =>
    have ih := ih (fun x hx => hc x (List.mem_cons_of_mem _ hx)) hj.1
    have hup : ∀ y ∈ fuse rs, (∃ r ∈ m :: rs, r.line.text = y.line.text ∧ r.role = y.role) ∨
        y.role.writable = true := by
      intro y hy
      refine (ih y hy).imp_left ?_
      rintro ⟨r, hr, h⟩
      exact ⟨r, List.mem_cons_of_mem _ hr, h⟩
    have hm : ∃ r ∈ m :: rs, r.line.text = m.line.text ∧ r.role = m.role :=
      ⟨m, List.mem_cons_self, rfl, rfl⟩
    cases hf : fuse rs with
    | nil =>
      rw [fuse_alone hf]
      simp
    | cons x xs =>
      rw [hf, List.forall_mem_cons] at hup
      by_cases hclash : Clash m.line.raw x.line.raw
      · rw [fuse_joined hf hclash, List.forall_mem_cons]
        refine ⟨?_, hup.2⟩
        by_cases hnil : m.line.text = []
        · have htext : (m.fuse x).line.text = x.line.text := by
            simp [Mark.fuse, Line.append, hnil]
          have hrole : (m.fuse x).role = x.role := if_pos hnil
          rw [htext, hrole]
          exact hup.1
        · have hrole : (m.fuse x).role = m.role := if_neg hnil
          rw [hrole]
          obtain hxnil | ⟨hmf, hml, -, -⟩ := ((joins_joined hf hclash).1 hj).2.resolve_left hnil
          · have htext : (m.fuse x).line.text = m.line.text := by
              simp [Mark.fuse, Line.append, hxnil]
            rw [htext]
            exact Or.inl hm
          · obtain ⟨f₁, f₂, hcm⟩ := hc m List.mem_cons_self
            exact Or.inr ((classify_class hcm).2.2.2 hnil hmf hml)
      · rw [fuse_apart hf hclash, List.forall_mem_cons]
        exact ⟨Or.inl hm, List.forall_mem_cons.2 hup⟩

theorem structured_eq {lines : List Line} (h : marks format ⟨[], 0, false⟩ lines = some (rs, g)) :
    structured format lines = rs := by
  rw [structured, h]

theorem filter_fixed (hrs : Classified format rs) (hms : Classified format ms)
    (hfixed : (rs.filter fun r => r.role.fixed) = ms.filter fun m => m.role.fixed)
    (hc : ∀ (f f' : Frame) (m : Mark), classify format f m.line.text = some (m.role, f') →
      c m = true → m.role.fixed = true) : rs.filter c = ms.filter c := by
  have hsub : ∀ {ns : List Mark}, Classified format ns →
      ns.filter c = (ns.filter fun n => n.role.fixed).filter c := by
    intro ns hns
    rw [List.filter_filter]
    refine List.filter_congr fun n hn => ?_
    obtain ⟨f₁, f₂, hcn⟩ := hns n hn
    cases hcc : c n with
    | false => rfl
    | true => simp [hc f₁ f₂ n hcn hcc]
  rw [hsub hrs, hsub hms, hfixed]

/-- **A patch keeps structure and identity exactly when it joins no fixed line to another.** -/
theorem patch_structure (h : patch parsers format base edits = .ok out) :
    (((split out).map Line.text).filter frameText =
        ((split base).map Line.text).filter frameText ∧
      ((marked format out).filter Mark.locked).map (fun m => m.line.text) =
        ((marked format base).filter Mark.locked).map (fun m => m.line.text) ∧
      ∀ m ∈ marked format out,
        m.line.text ∈ (split base).map Line.text ∨ m.role.writable = true) ↔
    Joins Harmless (structured format (reference edits [] (marked format base))) := by
  obtain ⟨ms, ps, hs⟩ := patch_ok.1 h
  have hsound := hs.sound
  obtain ⟨hout, hsingle⟩ := hs.output
  obtain ⟨g, hms, -, -⟩ := hs.structured
  have hlines : ms.map Mark.line = split base := marks_lines hms
  have hlands : ∀ b m a, ms = b ++ m :: a → ∀ e ∈ edits, e.aims ([] ++ b) m = true →
      e.Lands m.role := by
    intro b m a hx e he ha
    obtain ⟨p, b', m', a', hx', hat⟩ := forall₂_left hs.placed e he
    obtain ⟨rfl, rfl, -⟩ := aims_unique hsound.nodup hx hx' ha hat.aims
    exact hat.lands
  obtain ⟨rs, hrs, hfixed, hall⟩ := marks_reference hs.proper hlands hsingle (hlines.symm ▸ hms)
  have hrlines : rs.map Mark.line = reference edits [] ms := marks_lines hrs
  have hcms : Classified format ms := marks_classified hms
  have hcrs : Classified format rs := marks_classified hrs
  have hsplit : split out = (fuse rs).map Mark.line := by
    have hone : ∀ l ∈ reference edits [] ms, l.One :=
      mem_reference (fun b m a hx e he ha l hl => (hsound.written b m a hx e he ha l hl).one)
        hsound.one
    rw [hout, split_glue hone (reference_chain hsound.chain hsound.fresh hsound.written),
      fuse_lines, hrlines]
  rw [hs.marked, structured_eq hrs, Joins.harmless]
  have htexts : ∀ ns : List Mark, ((ns.map Mark.line).map Line.text).filter frameText =
      (ns.filter Mark.frame).map fun m => m.line.text := by
    intro ns
    rw [List.map_map, List.filter_map]
    rfl
  have hframes : rs.filter Mark.frame = ms.filter Mark.frame :=
    filter_fixed hcrs hcms hfixed fun f f' m hc hm => by
      rw [(classify_class hc).1, hm, Bool.true_or]
  have hlocked : rs.filter Mark.locked = ms.filter Mark.locked :=
    filter_fixed hcrs hcms hfixed fun f f' m hc hm => by
      rw [(classify_class hc).1, hm, Bool.or_true]
  rw [hsplit, ← hlines, htexts, htexts, ← hframes, filter_fuse (frame_class hcrs), ← hlocked]
  refine and_congr_right fun hjf => ?_
  have hmarked : marked format out = fuse rs := by
    rw [marked, hsplit]
    exact structured_eq (marks_fuse (hrlines.symm ▸ hrs) hjf)
  rw [hmarked, filter_fuse (locked_class hcrs)]
  refine and_iff_left_of_imp fun hjl => ?_
  intro y hy
  obtain ⟨r, hr, htext, hrole⟩ | hw := fuse_writable hcrs (Joins.harmless.2 ⟨hjf, hjl⟩) y hy
  · obtain hr | hw := hall r hr
    · left
      rw [← htext]
      exact List.mem_map_of_mem (List.mem_map_of_mem hr)
    · rw [← hrole]
      exact Or.inr hw
  · exact Or.inr hw

/-! ## A note that runs into an identity -/

/-- A card with its identity before the telephone number. -/
def identityCard : Bytes :=
  [66, 69, 71, 73, 78, 58, 86, 67, 65, 82, 68, 13, 10,  -- BEGIN:VCARD
   86, 69, 82, 83, 73, 79, 78, 58, 51, 46, 48, 13, 10,  -- VERSION:3.0
   78, 58, 120, 59, 59, 59, 59, 13, 10,  -- N:x;;;;
   70, 78, 58, 120, 13, 10,  -- FN:x
   85, 73, 68, 58, 49, 13,  -- UID:1, CR only
   84, 69, 76, 58, 50, 13, 10,  -- TEL:2
   10, 32, 78, 79, 84, 69, 58, 104, 105, 13, 10,  -- an empty line, folded: NOTE:hi
   69, 78, 68, 58, 86, 67, 65, 82, 68, 13, 10]  -- END:VCARD

def changedIdentity : Bytes :=
  [66, 69, 71, 73, 78, 58, 86, 67, 65, 82, 68, 13, 10,  -- BEGIN:VCARD
   86, 69, 82, 83, 73, 79, 78, 58, 51, 46, 48, 13, 10,  -- VERSION:3.0
   78, 58, 120, 59, 59, 59, 59, 13, 10,  -- N:x;;;;
   70, 78, 58, 120, 13, 10,  -- FN:x
   85, 73, 68, 58, 49, 13, 10, 32, 78, 79, 84, 69, 58, 104, 105, 13, 10,  -- UID:1, folded: NOTE:hi
   69, 78, 68, 58, 86, 67, 65, 82, 68, 13, 10]  -- END:VCARD

theorem patch_structure_note :
    (((split severedCard).map Line.text).filter frameText =
        ((split noteCard).map Line.text).filter frameText ∧
      ((marked .vcard severedCard).filter Mark.locked).map (fun m => m.line.text) =
        ((marked .vcard noteCard).filter Mark.locked).map (fun m => m.line.text) ∧
      ∀ m ∈ marked .vcard severedCard,
        m.line.text ∈ (split noteCard).map Line.text ∨ m.role.writable = true) ↔
    Joins Harmless
      (structured .vcard (reference [removeTel] [] (marked .vcard noteCard))) :=
  @patch_structure cardParsers .vcard noteCard severedCard [removeTel] (by decide +kernel)

/-- Removing the telephone number changes the identity of the card. -/
theorem patch_structure_identity :
    patch cardParsers .vcard identityCard [removeTel] = .ok changedIdentity ∧
      ((marked .vcard changedIdentity).filter Mark.locked).map (fun m => m.line.text) ≠
        ((marked .vcard identityCard).filter Mark.locked).map (fun m => m.line.text) :=
  ⟨by decide +kernel, by decide +kernel⟩

end Resource
