import Mathlib.Data.List.Nodup
import Mathlib.Data.List.Basic

/-!
# Tables with a primary key and a unique column

`Table key uniq`: the rows of a relational table in insertion order, no two of them with the same
`key` and no two with the same `uniq` (a table without a second constraint repeats its key). The
statements of SQL act on it: `insert` refuses a key or a unique value in use, `replace` evicts
what it collides with, `update` rewrites the selected rows without touching their keys, `delete`
drops the selected rows. Each has one membership lemma (`mem_insert`, `mem_replace`,
`mem_update`, `mem_delete`); everything else is read off those and `eq_of_key`.
-/

set_option autoImplicit false

namespace Library

variable {ρ κ υ : Type}

/-- The rows of a table with primary key `key` and a `UNIQUE` column `uniq`. -/
structure Table (key : ρ → κ) (uniq : ρ → υ) where
  rows : List ρ
  nodup : (rows.map key).Nodup
  nodup' : (rows.map uniq).Nodup

namespace Table

variable {key : ρ → κ} {uniq : ρ → υ}

def empty : Table key uniq := ⟨[], List.nodup_nil, List.nodup_nil⟩

instance : Membership ρ (Table key uniq) := ⟨fun t r => r ∈ t.rows⟩

theorem mem_rows {t : Table key uniq} {r : ρ} : r ∈ t.rows ↔ r ∈ t := Iff.rfl

@[simp] theorem not_mem_empty (r : ρ) : r ∉ (empty : Table key uniq) := List.not_mem_nil

@[ext] theorem ext {t t' : Table key uniq} (h : t.rows = t'.rows) : t = t' := by
  cases t; cases t'; simp_all

/-- A key determines its row. -/
theorem eq_of_key {t : Table key uniq} {r s : ρ} (hr : r ∈ t) (hs : s ∈ t) (h : key r = key s) :
    r = s :=
  List.inj_on_of_nodup_map t.nodup hr hs h

/-- So does the unique column. -/
theorem eq_of_uniq {t : Table key uniq} {r s : ρ} (hr : r ∈ t) (hs : s ∈ t)
    (h : uniq r = uniq s) : r = s :=
  List.inj_on_of_nodup_map t.nodup' hr hs h

/-! ## Queries -/

/-- `SELECT … WHERE p` reading the first row. -/
def find? (t : Table key uniq) (p : ρ → Bool) : Option ρ := t.rows.find? p

/-- `EXISTS(SELECT 1 … WHERE p)`. -/
def any (t : Table key uniq) (p : ρ → Bool) : Bool := t.rows.any p

theorem find?_some {t : Table key uniq} {p : ρ → Bool} {r : ρ} (h : t.find? p = some r) :
    r ∈ t ∧ p r = true :=
  ⟨List.mem_of_find?_eq_some h, List.find?_some h⟩

theorem find?_none {t : Table key uniq} {p : ρ → Bool} (h : t.find? p = none) {r : ρ}
    (hr : r ∈ t) : p r = false := by
  simpa using List.find?_eq_none.1 h r hr

/-- The row found is the only one, when the condition pins the key. -/
theorem find?_eq {t : Table key uniq} {p : ρ → Bool} {r : ρ} (hr : r ∈ t) (hp : p r = true)
    (hk : ∀ s, p s = true → key s = key r) : t.find? p = some r := by
  cases h : t.find? p with
  | none => simp [find?_none h hr] at hp
  | some s =>
    obtain ⟨hs, hps⟩ := find?_some h
    rw [eq_of_key hs hr (hk s hps)]

theorem any_iff {t : Table key uniq} {p : ρ → Bool} : t.any p = true ↔ ∃ r ∈ t, p r = true := by
  simp [any, mem_rows]

theorem any_false {t : Table key uniq} {p : ρ → Bool} :
    t.any p = false ↔ ∀ r ∈ t, p r = false := by
  simp [any, mem_rows]

/-! ## Insertion -/

section
variable [DecidableEq κ] [DecidableEq υ]

/-- `INSERT`: refused when the key or the unique value is in use. -/
def insert (t : Table key uniq) (r : ρ) : Option (Table key uniq) :=
  if h : key r ∉ t.rows.map key ∧ uniq r ∉ t.rows.map uniq then
    some ⟨t.rows ++ [r], by
      rw [List.map_append, List.map_singleton]
      exact t.nodup.append (List.nodup_singleton _) (by simpa using h.1), by
      rw [List.map_append, List.map_singleton]
      exact t.nodup'.append (List.nodup_singleton _) (by simpa using h.2)⟩
  else none

theorem insert_rows {t t' : Table key uniq} {r : ρ} (h : t.insert r = some t') :
    t'.rows = t.rows ++ [r] := by
  unfold insert at h
  split at h
  · cases h
    rfl
  · cases h

theorem mem_insert {t t' : Table key uniq} {r : ρ} (h : t.insert r = some t') (x : ρ) :
    x ∈ t' ↔ x ∈ t ∨ x = r := by
  show x ∈ t'.rows ↔ x ∈ t.rows ∨ x = r
  simp [insert_rows h]

theorem insert_fresh {t t' : Table key uniq} {r : ρ} (h : t.insert r = some t') :
    ∀ x ∈ t, key x ≠ key r ∧ uniq x ≠ uniq r := by
  unfold insert at h
  split at h
  · rename_i hk
    exact fun x hx => ⟨fun he => hk.1 (List.mem_map.2 ⟨x, hx, he⟩),
      fun he => hk.2 (List.mem_map.2 ⟨x, hx, he⟩)⟩
  · cases h

/-- What refuses an insertion. -/
theorem insert_none {t : Table key uniq} {r : ρ} (h : t.insert r = none) :
    ∃ x ∈ t, key x = key r ∨ uniq x = uniq r := by
  unfold insert at h
  split at h
  · cases h
  · rename_i hk
    by_contra hn
    simp only [not_exists, not_and, not_or] at hn
    refine hk ⟨fun hm => ?_, fun hm => ?_⟩
    · obtain ⟨x, hx, he⟩ := List.mem_map.1 hm
      exact (hn x hx).1 he
    · obtain ⟨x, hx, he⟩ := List.mem_map.1 hm
      exact (hn x hx).2 he

/-- `INSERT OR REPLACE`: the rows it collides with are dropped first. -/
def replace (t : Table key uniq) (r : ρ) : Table key uniq where
  rows := t.rows.filter (fun x => key x ≠ key r ∧ uniq x ≠ uniq r) ++ [r]
  nodup := by
    rw [List.map_append, List.map_singleton]
    refine (t.nodup.sublist (List.filter_sublist.map key)).append (List.nodup_singleton _) ?_
    rw [List.disjoint_singleton, List.mem_map]
    rintro ⟨x, hx, he⟩
    exact (of_decide_eq_true (List.mem_filter.1 hx).2).1 he
  nodup' := by
    rw [List.map_append, List.map_singleton]
    refine (t.nodup'.sublist (List.filter_sublist.map uniq)).append (List.nodup_singleton _) ?_
    rw [List.disjoint_singleton, List.mem_map]
    rintro ⟨x, hx, he⟩
    exact (of_decide_eq_true (List.mem_filter.1 hx).2).2 he

theorem mem_replace (t : Table key uniq) (r x : ρ) :
    x ∈ t.replace r ↔ x ∈ t ∧ key x ≠ key r ∧ uniq x ≠ uniq r ∨ x = r := by
  show x ∈ t.rows.filter _ ++ [r] ↔ _
  simp [mem_rows]

/-- `INSERT OR IGNORE`. -/
def insertOrIgnore (t : Table key uniq) (r : ρ) : Table key uniq := (t.insert r).getD t

theorem mem_insertOrIgnore {t : Table key uniq} {r x : ρ} (h : x ∈ t.insertOrIgnore r) :
    x ∈ t ∨ x = r := by
  unfold insertOrIgnore at h
  cases hi : t.insert r with
  | none =>
    rw [hi] at h
    exact .inl h
  | some t' =>
    rw [hi] at h
    exact (mem_insert hi x).1 h

theorem mem_insertOrIgnore_of_mem {t : Table key uniq} {r x : ρ} (h : x ∈ t) :
    x ∈ t.insertOrIgnore r := by
  unfold insertOrIgnore
  cases hi : t.insert r with
  | none => exact h
  | some t' => exact (mem_insert hi x).2 (.inl h)

/-- `INSERT … SELECT`: all the rows of a query, or none of them. -/
def insertAll (t : Table key uniq) (rs : List ρ) : Option (Table key uniq) := rs.foldlM insert t

theorem mem_insertAll {t t' : Table key uniq} {rs : List ρ} (h : t.insertAll rs = some t')
    (x : ρ) : x ∈ t' ↔ x ∈ t ∨ x ∈ rs := by
  induction rs generalizing t with
  | nil =>
    cases h
    simp
  | cons r rs ih =>
    obtain ⟨t₁, hi, hr⟩ := Option.bind_eq_some_iff.1 (show (t.insert r).bind _ = some t' from h)
    rw [ih hr, mem_insert hi, List.mem_cons, or_assoc]

end

/-! ## Row identifiers -/

/-- The id an `INTEGER PRIMARY KEY` gives the next row: one more than the largest in use. -/
def nextRowid (t : Table key uniq) (id : ρ → Int) : Int := (t.rows.map id).foldr max 0 + 1

theorem lt_nextRowid {t : Table key uniq} (id : ρ → Int) {r : ρ} (h : r ∈ t) :
    id r < t.nextRowid id := by
  have hl : ∀ l : List ρ, r ∈ l → id r ≤ (l.map id).foldr max 0 := by
    intro l
    induction l with
    | nil => simp
    | cons s l ih =>
      intro hm
      rw [List.map_cons, List.foldr_cons]
      rcases List.mem_cons.1 hm with rfl | hm
      · exact Int.le_max_left _ _
      · exact Int.le_trans (ih hm) (Int.le_max_right _ _)
  exact Int.lt_add_one_of_le (hl t.rows h)

theorem nextRowid_pos (t : Table key uniq) (id : ρ → Int) : 0 < t.nextRowid id := by
  have hl : ∀ l : List Int, 0 ≤ l.foldr max 0 := by
    intro l
    induction l with
    | nil => simp
    | cons i l ih => exact Int.le_trans ih (Int.le_max_right _ _)
  have := hl (t.rows.map id)
  unfold nextRowid
  omega

/-- The next row gets the next id. -/
theorem nextRowid_insert [DecidableEq κ] [DecidableEq υ] {t t' : Table key uniq} {r : ρ}
    {id : ρ → Int} (h : t.insert r = some t') (hr : id r = t.nextRowid id) :
    t'.nextRowid id = t.nextRowid id + 1 := by
  have hl : ∀ l : List Int, ∀ n, (l ++ [n]).foldr max 0 = max (l.foldr max 0) (max n 0) := by
    intro l n
    induction l with
    | nil =>
      show max n 0 = max 0 (max n 0)
      omega
    | cons i l ih =>
      rw [List.cons_append, List.foldr_cons, List.foldr_cons, ih]
      omega
  have hp := t.nextRowid_pos id
  unfold nextRowid at hr hp ⊢
  rw [insert_rows h, List.map_append, List.map_singleton, hl, hr]
  omega

/-! ## Updates and deletions -/

/-- `UPDATE … SET f WHERE p`; the keys are not among the columns set. -/
def update (t : Table key uniq) (p : ρ → Bool) (f : ρ → ρ) (hf : ∀ r, key (f r) = key r)
    (hf' : ∀ r, uniq (f r) = uniq r) : Table key uniq where
  rows := t.rows.map fun r => if p r then f r else r
  nodup := by
    have hk : (key ∘ fun r => if p r then f r else r) = key := by
      funext r
      by_cases h : p r <;> simp [h, hf]
    rw [List.map_map, hk]
    exact t.nodup
  nodup' := by
    have hk : (uniq ∘ fun r => if p r then f r else r) = uniq := by
      funext r
      by_cases h : p r <;> simp [h, hf']
    rw [List.map_map, hk]
    exact t.nodup'

section
variable {p : ρ → Bool} {f : ρ → ρ} {hf : ∀ r, key (f r) = key r}
  {hf' : ∀ r, uniq (f r) = uniq r}

theorem mem_update {t : Table key uniq} (x : ρ) :
    x ∈ t.update p f hf hf' ↔ ∃ r ∈ t, x = if p r then f r else r := by
  show x ∈ t.rows.map _ ↔ _
  rw [List.mem_map]
  exact ⟨fun ⟨r, hr, he⟩ => ⟨r, hr, he.symm⟩, fun ⟨r, hr, he⟩ => ⟨r, hr, he.symm⟩⟩

/-- The ids stay, and with them the next one. -/
theorem nextRowid_update (t : Table key uniq) {id : ρ → Int} (hf : ∀ r, key (f r) = key r)
    (hf' : ∀ r, uniq (f r) = uniq r) (hid : ∀ r, id (f r) = id r) :
    (t.update p f hf hf').nextRowid id = t.nextRowid id := by
  have hk : (id ∘ fun r => if p r then f r else r) = id := by
    funext r
    by_cases h : p r <;> simp [h, hid]
  show ((t.rows.map fun r => if p r then f r else r).map id).foldr max 0 + 1 = _
  rw [List.map_map, hk]
  rfl

/-- An `UPDATE` that selects nothing changes nothing. -/
theorem update_none {t : Table key uniq} (h : ∀ r ∈ t, p r = false) :
    t.update p f hf hf' = t := by
  refine ext ((List.map_congr_left fun r hr => ?_).trans (List.map_id _))
  simp [h r hr]

end

/-- `UPDATE … SET f WHERE p` that sets the unique column too: refused when two rows would share its
value. -/
def reassign [DecidableEq υ] (t : Table key uniq) (p : ρ → Bool) (f : ρ → ρ)
    (hf : ∀ r, key (f r) = key r) : Option (Table key uniq) :=
  if h : ((t.rows.map fun r => if p r then f r else r).map uniq).Nodup then
    some ⟨t.rows.map fun r => if p r then f r else r, by
      have hk : (key ∘ fun r => if p r then f r else r) = key := by
        funext r
        by_cases hp : p r <;> simp [hp, hf]
      rw [List.map_map, hk]
      exact t.nodup, h⟩
  else none

theorem mem_reassign [DecidableEq υ] {t t' : Table key uniq} {p : ρ → Bool} {f : ρ → ρ}
    {hf : ∀ r, key (f r) = key r} (h : t.reassign p f hf = some t') (x : ρ) :
    x ∈ t' ↔ ∃ r ∈ t, x = if p r then f r else r := by
  unfold reassign at h
  split at h
  · cases h
    show x ∈ t.rows.map _ ↔ _
    rw [List.mem_map]
    exact ⟨fun ⟨r, hr, he⟩ => ⟨r, hr, he.symm⟩, fun ⟨r, hr, he⟩ => ⟨r, hr, he.symm⟩⟩
  · cases h

/-- A row rewritten has a value that no other row has. -/
theorem reassign_free [DecidableEq υ] {t t' : Table key uniq} {p : ρ → Bool} {f : ρ → ρ}
    {hf : ∀ r, key (f r) = key r} (h : t.reassign p f hf = some t') {r x : ρ} (hr : r ∈ t)
    (hp : p r = true) (hx : x ∈ t) (hpx : p x = false) : uniq x ≠ uniq (f r) := by
  intro he
  have hr' : f r ∈ t' := (mem_reassign h _).2 ⟨r, hr, (if_pos hp).symm⟩
  have hx' : x ∈ t' := (mem_reassign h _).2 ⟨x, hx, (if_neg (by simp [hpx])).symm⟩
  have hk : key x = key r := (congrArg key (eq_of_uniq hx' hr' he)).trans (hf r)
  rw [eq_of_key hx hr hk, hp] at hpx
  cases hpx

/-- Values that no other row uses are accepted, when the condition selects one row at most. -/
theorem reassign_some [DecidableEq υ] {t : Table key uniq} {p : ρ → Bool} {f : ρ → ρ}
    (hf : ∀ r, key (f r) = key r) (hp : ∀ r ∈ t, ∀ s ∈ t, p r = true → p s = true → r = s)
    (hu : ∀ r ∈ t, ∀ s ∈ t, p r = true → s ≠ r → uniq (f r) ≠ uniq s) :
    ∃ t', t.reassign p f hf = some t' := by
  have hn : ((t.rows.map fun r => if p r then f r else r).map uniq).Nodup := by
    rw [List.map_map]
    refine (List.Nodup.of_map key t.nodup).map_on ?_
    intro r hr s hs he
    simp only [Function.comp_apply] at he
    by_cases hrs : s = r
    · exact hrs.symm
    by_cases hpr : p r = true
    · by_cases hps : p s = true
      · exact hp r hr s hs hpr hps
      · rw [if_pos hpr, if_neg hps] at he
        exact absurd he (hu r hr s hs hpr hrs)
    · by_cases hps : p s = true
      · rw [if_neg hpr, if_pos hps] at he
        exact absurd he.symm (hu s hs r hr hps fun h => hrs h.symm)
      · rw [if_neg hpr, if_neg hps] at he
        exact List.inj_on_of_nodup_map t.nodup' hr hs he
  exact ⟨_, dif_pos hn⟩

/-- `sqlite3_changes` of an `UPDATE` with condition `p`. -/
def count (t : Table key uniq) (p : ρ → Bool) : Nat := t.rows.countP p

theorem count_pos {t : Table key uniq} {p : ρ → Bool} (h : 0 < t.count p) :
    ∃ r ∈ t, p r = true := by
  simpa [count, mem_rows] using List.countP_pos_iff.1 h

theorem count_zero {t : Table key uniq} {p : ρ → Bool} (h : t.count p = 0) {r : ρ} (hr : r ∈ t) :
    p r = false := by
  simpa using List.countP_eq_zero.1 h r hr

/-- Of the rows that were counted there is only one. -/
theorem eq_of_count {t : Table key uniq} {p : ρ → Bool} (h : t.count p = 1) {r s : ρ} (hr : r ∈ t)
    (hs : s ∈ t) (hpr : p r = true) (hps : p s = true) : r = s := by
  rw [count, List.countP_eq_length_filter] at h
  obtain ⟨x, hx⟩ := List.length_eq_one_iff.1 h
  have hmem : ∀ y ∈ t, p y = true → y = x := by
    intro y hy hpy
    have hm : y ∈ t.rows.filter p := List.mem_filter.2 ⟨hy, hpy⟩
    rw [hx] at hm
    exact List.mem_singleton.1 hm
  rw [hmem r hr hpr, hmem s hs hps]

/-- A condition that singles out a row selects at most one. -/
theorem count_le_one {t : Table key uniq} {p : ρ → Bool}
    (hp : ∀ r ∈ t, ∀ s ∈ t, p r = true → p s = true → r = s) : t.count p ≤ 1 := by
  have hn : (t.rows.filter p).Nodup := (List.Nodup.of_map key t.nodup).filter p
  rw [count, List.countP_eq_length_filter]
  match hf : t.rows.filter p with
  | [] => simp
  | [_] => simp
  | r :: s :: rest =>
    have hm : ∀ x ∈ r :: s :: rest, x ∈ t ∧ p x = true := fun x hx => List.mem_filter.1 (hf ▸ hx)
    have hr := hm r (by simp)
    have hs := hm s (by simp)
    rw [hf, List.nodup_cons, hp r hr.1 s hs.1 hr.2 hs.2] at hn
    simp at hn

/-- `DELETE … WHERE p`. -/
def delete (t : Table key uniq) (p : ρ → Bool) : Table key uniq where
  rows := t.rows.filter fun r => !p r
  nodup := t.nodup.sublist (List.filter_sublist.map key)
  nodup' := t.nodup'.sublist (List.filter_sublist.map uniq)

theorem mem_delete {t : Table key uniq} {p : ρ → Bool} (x : ρ) :
    x ∈ t.delete p ↔ x ∈ t ∧ p x = false := by
  show x ∈ t.rows.filter _ ↔ _
  simp [mem_rows]

/-- A `DELETE` that selects nothing changes nothing. -/
theorem delete_none {t : Table key uniq} {p : ρ → Bool} (h : ∀ r ∈ t, p r = false) :
    t.delete p = t := by
  refine ext (List.filter_eq_self.2 fun r hr => ?_)
  simp [h r hr]

/-- A query that selects none of the rows deleted. -/
theorem filter_delete {t : Table key uniq} {p q : ρ → Bool}
    (h : ∀ r ∈ t, q r = true → p r = false) :
    (t.delete p).rows.filter q = t.rows.filter q := by
  show (t.rows.filter fun r => !p r).filter q = _
  rw [List.filter_filter]
  refine List.filter_congr fun r hr => ?_
  cases hq : q r with
  | false => rfl
  | true => simp [h r hr hq]

/-! ## What one statement did

`Added` and `Rewrote` say which rows a table holds after one row was inserted or rewritten. -/

/-- `t'` is `t` with the new row `r`. -/
structure Added (t t' : Table key uniq) (r : ρ) : Prop where
  fresh : ∀ x ∈ t, key x ≠ key r ∧ uniq x ≠ uniq r
  mem_iff : ∀ x, x ∈ t' ↔ x ∈ t ∨ x = r

/-- `t'` is `t` with the row `r` rewritten to `r'`. -/
structure Rewrote (t t' : Table key uniq) (r r' : ρ) : Prop where
  mem : r ∈ t
  key_eq : key r' = key r
  mem_iff : ∀ x, x ∈ t' ↔ x = r' ∨ x ∈ t ∧ x ≠ r

theorem insert_added [DecidableEq κ] [DecidableEq υ] {t t' : Table key uniq} {r : ρ}
    (h : t.insert r = some t') : Added t t' r :=
  ⟨insert_fresh h, mem_insert h⟩

namespace Added

variable {t t' : Table key uniq} {r : ρ}

theorem mem_new (h : Added t t' r) : r ∈ t' := (h.mem_iff r).2 (.inr rfl)

theorem keeps (h : Added t t' r) {x : ρ} (hx : x ∈ t) : x ∈ t' := (h.mem_iff x).2 (.inl hx)

theorem iff_of_ne (h : Added t t' r) {x : ρ} (hn : x ≠ r) : x ∈ t' ↔ x ∈ t := by
  simp [h.mem_iff, hn]

end Added

namespace Rewrote

variable {t t' : Table key uniq} {r r' : ρ}

theorem mem_new (h : Rewrote t t' r r') : r' ∈ t' := (h.mem_iff r').2 (.inl rfl)

theorem keeps (h : Rewrote t t' r r') {x : ρ} (hx : x ∈ t) (hn : x ≠ r) : x ∈ t' :=
  (h.mem_iff x).2 (.inr ⟨hx, hn⟩)

theorem iff_of_ne (h : Rewrote t t' r r') {x : ρ} (hn : x ≠ r) (hn' : x ≠ r') :
    x ∈ t' ↔ x ∈ t := by
  simp [h.mem_iff, hn, hn']

/-- Every row goes on, possibly rewritten, under its key. -/
theorem goes_on (h : Rewrote t t' r r') {x : ρ} (hx : x ∈ t) :
    x ∈ t' ∨ x = r ∧ r' ∈ t' := by
  by_cases hn : x = r
  · exact .inr ⟨hn, h.mem_new⟩
  · exact .inl (h.keeps hx hn)

end Rewrote

section
variable {p : ρ → Bool} {f : ρ → ρ} (hf : ∀ r, key (f r) = key r)
  (hf' : ∀ r, uniq (f r) = uniq r)

/-- An `UPDATE` of one row. -/
theorem update_one {t : Table key uniq}
    (hp : ∀ r ∈ t, ∀ s ∈ t, p r = true → p s = true → r = s) (hc : t.count p = 1) :
    ∃ r, p r = true ∧ Rewrote t (t.update p f hf hf') r (f r) := by
  obtain ⟨r, hr, hpr⟩ := count_pos (hc ▸ Nat.one_pos)
  refine ⟨r, hpr, hr, hf r, fun x => ?_⟩
  rw [mem_update]
  constructor
  · rintro ⟨s, hs, rfl⟩
    by_cases hps : p s = true
    · rw [if_pos hps, hp s hs r hr hps hpr]
      exact .inl rfl
    · rw [if_neg hps]
      exact .inr ⟨hs, fun he => hps (he ▸ hpr)⟩
  · rintro (rfl | ⟨hx, hn⟩)
    · exact ⟨r, hr, by rw [if_pos hpr]⟩
    · exact ⟨x, hx, by rw [if_neg fun hpx => hn (hp x hx r hr hpx hpr)]⟩

/-- An `UPDATE` that should change one row and does not, changes none. -/
theorem update_not_one {t : Table key uniq}
    (hp : ∀ r ∈ t, ∀ s ∈ t, p r = true → p s = true → r = s) (hc : t.count p ≠ 1) :
    t.update p f hf hf' = t := by
  have hle := count_le_one hp
  exact update_none fun r hr => count_zero (by omega) hr

end

end Table

end Library
