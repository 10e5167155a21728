/-!
# Nested brackets

A text is a list of tokens: opening and closing brackets that carry a name, and content. `Balanced`
is the grammar of texts whose brackets pair up and nest to a limited depth, `closes` the machine
that reads one from left to right with the names of the open brackets on a stack. `closes_iff` says
that the machine accepts the grammar.
-/

set_option autoImplicit false

namespace Library.Nested

variable {ν χ : Type}

inductive Token (ν χ : Type)
  | opening (name : ν)
  | closing (name : ν)
  | content (c : χ)

section
variable (ok : ν → Bool) (fits : ν → ν → Bool)

/-- Brackets that pair up, no more than `room` deep: each opens under a name that is `ok` and closes
under one that `fits` it. -/
inductive Balanced : Nat → List (Token ν χ) → Prop
  | nil (room : Nat) : Balanced room []
  | content {room : Nat} (c : χ) {ts : List (Token ν χ)} (h : Balanced room ts) :
      Balanced room (.content c :: ts)
  | nested {room : Nat} {n m : ν} {inside ts : List (Token ν χ)} (hn : ok n = true)
      (hm : fits n m = true) (hi : Balanced room inside) (h : Balanced (room + 1) ts) :
      Balanced (room + 1) (.opening n :: (inside ++ .closing m :: ts))

/-- Read a text with brackets open, innermost first, to the end of the outermost and of the text;
`limit` brackets may be open. -/
def closes (limit : Nat) : List ν → List (Token ν χ) → Bool
  | stack, [] => stack.isEmpty
  | [], _ :: _ => false
  | top :: outer, .content _ :: ts => closes limit (top :: outer) ts
  | top :: outer, .opening n :: ts =>
    outer.length + 1 < limit && ok n && closes limit (n :: top :: outer) ts
  | top :: outer, .closing m :: ts => fits top m && closes limit outer ts

end

variable {ok : ν → Bool} {fits : ν → ν → Bool} {limit : Nat}

/-- The innermost open bracket closes after a balanced text, and the others after it. -/
theorem closes_iff {room : Nat} {top : ν} {outer : List ν} (ts : List (Token ν χ))
    (hroom : limit = outer.length + 1 + room) :
    closes ok fits limit (top :: outer) ts = true ↔
      ∃ inside m rest, ts = inside ++ .closing m :: rest ∧ Balanced ok fits room inside ∧
        fits top m = true ∧ closes ok fits limit outer rest = true := by
  -- on the number of tokens: what follows a nested pair is read with the same brackets open
  induction hlen : ts.length using Nat.strongRecOn generalizing room top outer ts with
  | ind len ih =>
    subst hlen
    cases ts with
    | nil => simp [closes]
    | cons t ts =>
      cases t with
      | content c =>
        rw [closes, ih ts.length (by simp) ts hroom rfl]
        constructor
        · rintro ⟨inside, m, rest, rfl, hi, hm, hr⟩
          exact ⟨.content c :: inside, m, rest, rfl, .content c hi, hm, hr⟩
        · rintro ⟨inside, m, rest, he, hi, hm, hr⟩
          cases hi with
          | nil => cases he
          | content c hi =>
            cases he
            exact ⟨_, m, rest, rfl, hi, hm, hr⟩
          | nested => cases he
      | opening n =>
        rw [closes]
        simp only [Bool.and_eq_true, decide_eq_true_iff]
        constructor
        · rintro ⟨⟨hlimit, hn⟩, hc⟩
          obtain ⟨room, rfl⟩ : ∃ r, room = r + 1 := ⟨room - 1, by omega⟩
          obtain ⟨inside, m, rest, rfl, hi, hm, hr⟩ :=
            (@ih ts.length (by simp) room n (top :: outer) ts (by simp; omega) rfl).1 hc
          obtain ⟨inside', m', rest', rfl, hi', hm', hr'⟩ :=
            (ih rest.length (by simp; omega) rest hroom rfl).1 hr
          exact ⟨.opening n :: (inside ++ .closing m :: inside'), m', rest', by simp,
            .nested hn hm hi hi', hm', hr'⟩
        · rintro ⟨inside, m', rest', he, hi, hm', hr'⟩
          cases hi with
          | nil => cases he
          | content => cases he
          | @nested room n m inside inside' hn hm hi hi' =>
            simp only [List.cons_append, List.append_assoc, List.cons.injEq,
              Token.opening.injEq] at he
            obtain ⟨rfl, rfl⟩ := he
            refine ⟨⟨by omega, hn⟩, (@ih _ (by simp) room n (top :: outer) _ (by simp; omega) rfl).2
              ⟨inside, m, _, rfl, hi, hm, ?_⟩⟩
            exact (ih _ (by simp; omega) _ hroom rfl).2 ⟨inside', m', rest', rfl, hi', hm', hr'⟩
      | closing m =>
        rw [closes, Bool.and_eq_true]
        constructor
        · exact fun h => ⟨[], m, ts, rfl, .nil _, h⟩
        · rintro ⟨inside, m', rest, he, hi, h⟩
          cases hi with
          | nil =>
            cases he
            exact h
          | content => cases he
          | nested => cases he

end Library.Nested
