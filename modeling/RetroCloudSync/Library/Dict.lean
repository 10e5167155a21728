import Mathlib.Data.List.AList

/-!
# Dictionaries

`Dict κ ν`: a mutable dictionary as its entries in the order an enumerator happens to visit them
(Mathlib's `AList`). `put` with `none` removes a key, and `lookup_put` is the only fact about it
that is needed. Two dictionaries are the same when they answer the same (`Dict.Same`).

A loop that visits keys and touches only what belongs to the key it is at is described by
`foldl_view`: at every key the loop visits, one step is made from what was there initially.
-/

set_option autoImplicit false

namespace Library

/-- A dictionary from `κ` to `ν`. -/
abbrev Dict (κ ν : Type) := AList fun _ : κ => ν

namespace Dict

variable {κ ν : Type} [DecidableEq κ]

/-- `setObject:forKey:`, or `removeObjectForKey:` for `none`. -/
def put (d : Dict κ ν) (k : κ) : Option ν → Dict κ ν
  | some v => d.insert k v
  | none => d.erase k

/-- The dictionary of a list of entries, the first one of a key winning. -/
def ofList (l : List (κ × ν)) : Dict κ ν := l.foldr (fun e d => d.insert e.1 e.2) ∅

/-- Two dictionaries answer the same. -/
def Same (d d' : Dict κ ν) : Prop := ∀ k, d.lookup k = d'.lookup k

theorem lookup_put (d : Dict κ ν) (k k' : κ) (v : Option ν) :
    (d.put k v).lookup k' = if k' = k then v else d.lookup k' := by
  by_cases h : k' = k
  · subst h
    rw [if_pos rfl]
    cases v with
    | some v => exact AList.lookup_insert d
    | none => exact AList.lookup_erase k' d
  · rw [if_neg h]
    cases v with
    | some v => exact AList.lookup_insert_ne h
    | none => exact AList.lookup_erase_ne h

theorem mem_keys_iff {d : Dict κ ν} {k : κ} : k ∈ d.keys ↔ d.lookup k ≠ none := by
  rw [← AList.mem_keys, Ne, AList.lookup_eq_none, not_not]

theorem lookup_of_not_mem {d : Dict κ ν} {k : κ} (h : k ∉ d.keys) : d.lookup k = none :=
  not_not.1 fun hn => h (mem_keys_iff.2 hn)

/-- What a loop puts into a new dictionary: `f k`, where there is something to put. -/
def collect (ks : List κ) (f : κ → Option ν) : Dict κ ν :=
  ks.foldl (fun d k => if (f k).isSome then d.put k (f k) else d) ∅

theorem lookup_collect (ks : List κ) (f : κ → Option ν) (k : κ) :
    (collect ks f).lookup k = if k ∈ ks then f k else none := by
  have hloop : ∀ (l : List κ) (d : Dict κ ν),
      (l.foldl (fun d k => if (f k).isSome then d.put k (f k) else d) d).lookup k =
        if k ∈ l ∧ (f k).isSome then f k else d.lookup k := by
    intro l
    induction l with
    | nil => simp
    | cons j l ih =>
      intro d
      rw [List.foldl_cons, ih]
      by_cases hj : k = j
      · subst hj
        by_cases hs : (f k).isSome
        · simp [hs, lookup_put]
        · simp [hs]
      · have hd : (if (f j).isSome then d.put j (f j) else d).lookup k = d.lookup k := by
          split
          · rw [lookup_put, if_neg hj]
          · rfl
        rw [hd]
        simp [hj]
  rw [collect, hloop]
  cases hf : f k with
  | none => simp
  | some v => simp

/-- `setObject:forKey:` for each entry in turn. -/
def putAll (d : Dict κ ν) (l : List (κ × ν)) : Dict κ ν := l.foldl (fun d e => d.put e.1 (some e.2)) d

theorem mem_of_lookup_putAll {l : List (κ × ν)} {d : Dict κ ν} {k : κ} {v : ν}
    (h : (putAll d l).lookup k = some v) : (k, v) ∈ l ∨ d.lookup k = some v := by
  induction l generalizing d with
  | nil => exact .inr h
  | cons e l ih =>
    rcases ih h with hm | hd
    · exact .inl (List.mem_cons_of_mem _ hm)
    · rw [lookup_put] at hd
      split at hd
      · rename_i hk
        cases hd
        exact .inl (hk ▸ List.mem_cons_self)
      · exact .inr hd

theorem mem_keys_putAll {l : List (κ × ν)} {d : Dict κ ν} {k : κ} :
    k ∈ (putAll d l).keys ↔ k ∈ l.map Prod.fst ∨ k ∈ d.keys := by
  induction l generalizing d with
  | nil => simp [putAll]
  | cons e l ih =>
    show k ∈ (putAll (d.put e.1 (some e.2)) l).keys ↔ _
    rw [ih, mem_keys_iff, lookup_put, List.map_cons, List.mem_cons, mem_keys_iff]
    by_cases hk : k = e.1
    · simp [hk]
    · simp [hk]

/-! ## Loops over keys -/

/-- **A loop over distinct keys** whose step changes only what `view` sees at its own key makes,
at each key it visits, one step from what was there initially. -/
theorem foldl_view {σ β : Type} (view : σ → κ → β) {step : σ → κ → σ} {g : κ → β → β}
    (hstep : ∀ s k k', view (step s k) k' = if k' = k then g k (view s k) else view s k')
    {l : List κ} (hl : l.Nodup) (s : σ) (k : κ) :
    view (l.foldl step s) k = if k ∈ l then g k (view s k) else view s k := by
  induction l generalizing s with
  | nil => simp
  | cons j l ih =>
    rw [List.nodup_cons] at hl
    rw [List.foldl_cons, ih hl.2, hstep]
    by_cases hj : k = j
    · subst hj
      rw [if_neg hl.1, if_pos rfl, if_pos List.mem_cons_self]
    · have hm : k ∈ j :: l ↔ k ∈ l := by simp [hj]
      simp only [if_neg hj, hm]

/-- `addEntriesFromDictionary:`. -/
def update (d new : Dict κ ν) : Dict κ ν := new.keys.foldl (fun d k => d.put k (new.lookup k)) d

theorem lookup_update (d new : Dict κ ν) (k : κ) :
    (d.update new).lookup k = if (new.lookup k).isSome then new.lookup k else d.lookup k := by
  have hstep : ∀ (s : Dict κ ν) (k k' : κ),
      (s.put k (new.lookup k)).lookup k' = if k' = k then new.lookup k else s.lookup k' :=
    fun s k k' => lookup_put s k k' _
  unfold update
  rw [foldl_view (fun (s : Dict κ ν) k => s.lookup k) (g := fun k _ => new.lookup k) hstep
    new.keys_nodup]
  by_cases hk : k ∈ new.keys
  · rw [if_pos hk, if_pos (Option.isSome_iff_ne_none.2 (mem_keys_iff.1 hk))]
  · rw [if_neg hk, lookup_of_not_mem hk, if_neg (by simp)]

end Dict

end Library
