import RetroCloudSync.SyncServices.Pass

/-!
# Unresolved resources are left alone

`Situation`: what the tables hold when a pass reads them. `Touched`: the records of the unresolved
writes and of the unfinished calendar operations. `Allowed`: what a pass may ask if it is to leave
a set of records alone: it pushes and deletes none of them, publishes everything only if there are
none, and its checkpoint keeps them as they were.

A pass leaves alone the touched records and every calendar the newest version of a written record
lists (`Carried`). The calendars that contain a touched record in the mirror are among them, unless
the mirror has the record at another address than the write or the operation (`untouched_iff`).
-/

set_option autoImplicit false

namespace SyncServices

open Library Journal Native TwoWay Calendar Value FieldValue
open Exchange (Context Stop ExchangeM cstring items act hasPrefix)

variable {V : Type}

/-- What the tables hold when a pass reads them. -/
structure Situation (V : Type) where
  /-- The alias table, with what verified uploads added to it. -/
  aliases : Dict String String
  pending : List (Pending V)
  /-- The calendar operations that are not done: record, source and target. -/
  live : List (String × String × String)
  /-- `NativeCollectionURL`. -/
  collections : String → Option String
  published : Graph V

section
variable (s : Situation V)

/-! ## The surroundings -/

/-- How the tables answer what the native exchange asks too. -/
def told : (q : Exchange.Question V) → q.Answer → Prop
  | .complete .., a => ∀ aliases, a = (.ok aliases : Except Stop (Dict String String)) →
      aliases = s.aliases
  | .liveActions, a => ∀ l, a = (.ok l : Except Stop (List (String × String × String))) →
      l = s.live
  | .other (.collectionURL native), a => a = s.collections native
  | _, _ => True

/-- How the surroundings answer. The state is whether the session publishes everything. -/
def answers (full : Bool) : (q : Question V) → q.Answer → Bool → Prop
  | .inl q, a, full' => full' = full ∧ told s q a
  | .inr .unresolved, a, full' => full' = full ∧
      ∀ l, a = (.ok l : Except Stop (List (Pending V))) → l = s.pending
  | .inr .published, a, full' => full' = full ∧
      ∀ g, a = (.ok g : Except Stop (Graph V)) → g = s.published
  | .inr (.shouldPushAll _), a, full' =>
      full' = true ∧ a = (.ok true : Except Stop Bool) ∨
        full' = full ∧ a ≠ (.ok true : Except Stop Bool)
  | .inr (.clientWantsToPushAll _), _, full' => full' = true ∨ full' = full
  | .inr _, _, full' => full' = full

/-- What a pass may ask if it leaves the records of `T` alone. -/
def Allowed (T : String → Prop) (full : Bool) : Question V → Prop
  | .inr (.push _ key) | .inr (.delete key) => ¬ T key ∧ (full = true → ∀ id, ¬ T id)
  | .inr (.clientWantsToPushAll _) => ∀ id, ¬ T id
  | .inr (.savePublished graph) => (∀ id, T id → graph.lookup id = s.published.lookup id) ∧
      (full = true → ∀ id, ¬ T id)
  | _ => True

/-- From `full` the program asks only what it may. -/
abbrev Safe (T : String → Prop) {α : Type} (x : SessionM V α) (post : α → Bool → Prop)
    (exc : Stop → Bool → Prop) (full : Bool) : Prop :=
  Prog.wp (answers s) (Allowed s T) x post exc full

end

section
variable {s : Situation V} {T : String → Prop} {α β : Type}

/-! ## Calls that publish nothing -/

/-- A program that neither publishes nor deletes, and leaves the session as it is. -/
def Quiet (s : Situation V) (T : String → Prop) (x : SessionM V α) : Prop :=
  ∀ (post : α → Bool → Prop) (exc : Stop → Bool → Prop) (full : Bool),
    (∀ a, post a full) → (∀ e, exc e full) → Safe s T x post exc full

theorem quiet_pure (a : α) : Quiet s T (pure a : SessionM V α) := fun _ _ _ h _ => h a

theorem quiet_refuse (message : String) : Quiet s T (refuse message : SessionM V α) :=
  fun _ _ _ _ hE => hE _

theorem quiet_orStop (x : Except Stop α) : Quiet s T (orStop x) := by
  intro post exc full h hE
  cases x with
  | ok a => exact h a
  | error e => exact hE e

theorem Quiet.bind {x : SessionM V β} {f : β → SessionM V α} (hx : Quiet s T x)
    (hf : ∀ b, Quiet s T (f b)) : Quiet s T (x >>= f) :=
  fun post exc full h hE => Prog.wp_bind (hx _ _ full (fun b => hf b post exc full h hE) hE)

theorem Quiet.rescue {x : SessionM V α} {f : Stop → SessionM V α} (hx : Quiet s T x)
    (hf : ∀ e, Quiet s T (f e)) : Quiet s T (x.rescue f) :=
  fun post exc full h hE => Prog.wp_rescue (hx _ _ full h fun e => hf e post exc full h hE)

theorem Quiet.foldlM {γ : Type} {f : α → γ → SessionM V α} (hf : ∀ a x, Quiet s T (f a x))
    (l : List γ) (a : α) : Quiet s T (l.foldlM f a) := by
  induction l generalizing a with
  | nil => exact quiet_pure a
  | cons x l ih =>
    rw [List.foldlM_cons]
    exact (hf a x).bind ih

/-- What the native exchange asks too never reaches the session. -/
theorem quiet_journaled (x : ExchangeM V α) : Quiet s T (journaled x) := by
  intro post exc full h hE
  induction x with
  | ret a => exact h a
  | raise e => exact hE e
  | ask q k ih =>
    refine ⟨trivial, fun a full' ha => ?_⟩
    obtain rfl : full' = full := ha.1
    exact ih a

/-- A request that leaves the session as it is. -/
structure Request.Silent (s : Situation V) (T : String → Prop) (q : Request V) : Prop where
  allowed : ∀ full, Allowed s T full (.inr q)
  same : ∀ full a full', answers s full (.inr q) a full' → full' = full

theorem quiet_ask {q : Request V} (hq : q.Silent s T) {k : q.Answer → SessionM V α}
    (hk : ∀ a, Quiet s T (k a)) : Quiet s T (.ask (.inr q) k) := by
  refine fun post exc full h hE => ⟨hq.allowed full, fun a full' ha => ?_⟩
  obtain rfl := hq.same full a full' ha
  exact hk a post exc full' h hE

theorem quiet_tell {q : Request V} (h : q.Answer = Except Stop Unit) (hq : q.Silent s T) :
    Quiet s T (tell q h) := quiet_ask hq fun _ => quiet_orStop _

theorem quiet_check {q : Request V} (h : q.Answer = Except Stop Bool) (hq : q.Silent s T) :
    Quiet s T (check q h) := quiet_ask hq fun _ => quiet_orStop _

theorem quiet_strings {q : Request V} (h : q.Answer = Except Stop (List String))
    (hq : q.Silent s T) : Quiet s T (strings q h) := quiet_ask hq fun _ => quiet_orStop _

/-- For the requests none of whose answers says anything. -/
theorem silent (q : Request V) (h : ∀ full, Allowed s T full (.inr q) := by exact fun _ => trivial)
    (h' : ∀ full a full', answers s full (.inr q) a full' → full' = full := by
      exact fun _ _ _ h => h) : q.Silent s T := ⟨h, h'⟩

end

variable [GraphValue V]

/-! ## Unresolved resources -/

section
variable (c : Context V) (s : Situation V)

def byHref : Dict String (Wire V) := Dict.putAll ∅ (c.resources.map fun r => (r.href, r))

/-- The mirror graph under its native ids. -/
def mirror : Graph V := remap c.graph s.aliases

/-- The graph of the resource the mirror has at a write's address. -/
def currentGraph (o : Pending V) : Graph V :=
  ((currentResource (byHref c) s.aliases o.href).map Wire.graph).getD ∅

/-- The records of a write. -/
def Pending.touches (o : Pending V) (id : String) : Prop :=
  id ∈ o.receipt.keys ∨ id ∈ (currentGraph c s o).keys ∨
    id ∈ ((o.saved.map Wire.graph).getD ∅).keys

/-- What an operation that is not done protects. -/
def Protects (a : String × String × String) (id : String) : Prop :=
  id = a.1 ∨
  (∃ r ∈ c.resources, r.href = a.2.1 ∧ (id ∈ (mapResource r s.aliases).graph.keys ∨
    id ∈ items (mapResource r s.aliases).graph (mapResource r s.aliases).root "calendar")) ∨
  (((mirror c s).lookup id).bind entity = some "com.apple.calendars.Calendar" ∧
    ∃ url, s.collections id = some url ∧ hasPrefix a.2.2 url = true)

/-- A record of an unresolved write or of an unfinished operation. -/
def Touched (id : String) : Prop :=
  (∃ o ∈ s.pending, o.touches c s id) ∨
    (c.isContact = false ∧ ∃ a ∈ s.live, Protects c s a id)

/-- In the mirror, the calendar `calendar` contains the record `id`. -/
def Contains (calendar id : String) : Prop :=
  calendar ∈ items (mirror c s) id "calendar" ∨ id ∈ items (mirror c s) calendar "events"

/-- The touched records and the calendars that contain them. -/
def Unresolved (id : String) : Prop := Touched c s id ∨ ∃ e, Touched c s e ∧ Contains c s id e

/-- A calendar the newest version of a written record lists. -/
def Carried (calendar : String) : Prop :=
  ∃ o ∈ s.pending, ∃ e ∈ (o.newest (currentResource (byHref c) s.aliases o.href)).entries,
    calendar ∈ calendars e.2

/-- In every run of a pass the records of `T` are left alone. -/
def Untouched (T : String → Prop) : Prop :=
  ∀ q full, Prog.Asks (answers s) (exchange c) false q full → Allowed s T full q

end

section
variable {c : Context V} {s : Situation V} {T : String → Prop}

/-! ## What is busy -/

/-- One record of the mirror in the loop over the calendars an operation moves into. -/
def guardTarget (c : Context V) (s : Situation V) (a : String × String × String)
    (busy : List String) (id : String) : List String :=
  if ((mirror c s).lookup id).bind entity = some "com.apple.calendars.Calendar" then
    match s.collections id with
    | some url => if hasPrefix a.2.2 url then id :: busy else busy
    | none => busy
  else busy

/-- `protectAction` with the tables at hand. -/
def protecting (c : Context V) (s : Situation V) (busy : List String)
    (a : String × String × String) : List String :=
  (mirror c s).keys.foldl (guardTarget c s a)
    (a.1 :: ((c.resources.map fun r => mapResource r s.aliases).filter
      fun r => r.href = a.2.1).flatMap (fun r => r.graph.keys ++ items r.graph r.root "calendar") ++
        busy)

theorem mem_guardTarget {a : String × String × String} {busy : List String} {id id' : String} :
    id ∈ guardTarget c s a busy id' ↔ id ∈ busy ∨ (id = id' ∧
      ((mirror c s).lookup id).bind entity = some "com.apple.calendars.Calendar" ∧
      ∃ url, s.collections id = some url ∧ hasPrefix a.2.2 url = true) := by
  unfold guardTarget
  by_cases hc : ((mirror c s).lookup id').bind entity = some "com.apple.calendars.Calendar"
  · rw [if_pos hc]
    cases hu : s.collections id' with
    | none =>
      refine ⟨.inl, ?_⟩
      rintro (h | ⟨rfl, -, url, h, -⟩)
      · exact h
      · rw [hu] at h
        cases h
    | some url =>
      by_cases hp : hasPrefix a.2.2 url = true
      · simp only [hp, if_true, List.mem_cons]
        refine ⟨?_, ?_⟩
        · rintro (rfl | h)
          · exact .inr ⟨rfl, hc, url, hu, hp⟩
          · exact .inl h
        · rintro (h | ⟨rfl, -⟩)
          · exact .inr h
          · exact .inl rfl
      · simp only [hp]
        refine ⟨.inl, ?_⟩
        rintro (h | ⟨rfl, -, url', h, h'⟩)
        · exact h
        · rw [hu] at h
          cases h
          exact absurd h' hp
  · rw [if_neg hc]
    refine ⟨.inl, ?_⟩
    rintro (h | ⟨rfl, h, -⟩)
    · exact h
    · exact absurd h hc

theorem mem_foldl_guardTarget {a : String × String × String} {ids busy : List String}
    {id : String} :
    id ∈ ids.foldl (guardTarget c s a) busy ↔ id ∈ busy ∨ (id ∈ ids ∧
      ((mirror c s).lookup id).bind entity = some "com.apple.calendars.Calendar" ∧
      ∃ url, s.collections id = some url ∧ hasPrefix a.2.2 url = true) := by
  induction ids generalizing busy with
  | nil => simp
  | cons i ids ih =>
    rw [List.foldl_cons, ih, mem_guardTarget, List.mem_cons, or_assoc, ← or_and_right]

/-- What an operation adds to the busy records is what it protects. -/
theorem mem_protecting {a : String × String × String} {busy : List String} {id : String} :
    id ∈ protecting c s busy a ↔ id ∈ busy ∨ Protects c s a id := by
  have hkeys : ((mirror c s).lookup id).bind entity = some "com.apple.calendars.Calendar" →
      id ∈ (mirror c s).keys := by
    intro h
    rw [Dict.mem_keys_iff]
    rintro hn
    simp [hn] at h
  have hsources : id ∈ ((c.resources.map fun r => mapResource r s.aliases).filter
      fun r => r.href = a.2.1).flatMap (fun r => r.graph.keys ++ items r.graph r.root "calendar") ↔
      ∃ r ∈ c.resources, r.href = a.2.1 ∧ (id ∈ (mapResource r s.aliases).graph.keys ∨
        id ∈ items (mapResource r s.aliases).graph (mapResource r s.aliases).root "calendar") := by
    simp [mapResource, and_assoc]
  unfold protecting Protects
  rw [mem_foldl_guardTarget, List.cons_append, List.mem_cons, List.mem_append, hsources,
    and_iff_right_of_imp fun h => hkeys h.1, or_assoc, or_assoc, or_left_comm (a := id ∈ busy),
    or_left_comm (a := id ∈ busy)]

theorem mem_protectAll {live : List (String × String × String)} {busy : List String}
    {id : String} :
    id ∈ live.foldl (protecting c s) busy ↔ id ∈ busy ∨ ∃ a ∈ live, Protects c s a id := by
  induction live generalizing busy with
  | nil => simp
  | cons a live ih =>
    rw [List.foldl_cons, ih, mem_protecting]
    simp [or_assoc]

/-- What a write adds: its records, and the calendars their newest versions list. -/
theorem mem_protectPending {pending : List (Pending V)} {busy : List String} {id : String} :
    id ∈ pending.foldl (protectPending (byHref c) s.aliases) busy ↔ id ∈ busy ∨
      ∃ o ∈ pending, o.touches c s id ∨
        ∃ e ∈ (o.newest (currentResource (byHref c) s.aliases o.href)).entries,
          id ∈ calendars e.2 := by
  induction pending generalizing busy with
  | nil => simp
  | cons o pending ih =>
    rw [List.foldl_cons, ih]
    simp only [protectPending, Pending.touches, currentGraph, List.mem_append, List.mem_flatMap,
      List.mem_cons, exists_eq_or_imp, or_assoc]

/-- `busy`, with the tables at hand. -/
def busyRecords (c : Context V) (s : Situation V) : List String :=
  let busy := s.pending.foldl (protectPending (byHref c) s.aliases) []
  if c.isContact then busy else s.live.foldl (protecting c s) busy

theorem mem_busyRecords {id : String} :
    id ∈ busyRecords c s ↔ Touched c s id ∨ Carried c s id := by
  unfold busyRecords Touched Carried
  split
  · rename_i hc
    rw [mem_protectPending]
    simp only [hc, List.not_mem_nil, false_or, Bool.true_eq_false, false_and, or_false]
    constructor
    · rintro ⟨o, ho, h | h⟩
      · exact .inl ⟨o, ho, h⟩
      · exact .inr ⟨o, ho, h⟩
    · rintro (⟨o, ho, h⟩ | ⟨o, ho, h⟩)
      · exact ⟨o, ho, .inl h⟩
      · exact ⟨o, ho, .inr h⟩
  · rename_i hc
    rw [mem_protectAll, mem_protectPending]
    simp only [Bool.not_eq_true] at hc
    simp only [hc, List.not_mem_nil, false_or, true_and]
    constructor
    · rintro (⟨o, ho, h | h⟩ | h)
      · exact .inl (.inl ⟨o, ho, h⟩)
      · exact .inr ⟨o, ho, h⟩
      · exact .inl (.inr h)
    · rintro ((⟨o, ho, h⟩ | h) | ⟨o, ho, h⟩)
      · exact .inl ⟨o, ho, .inl h⟩
      · exact .inr h
      · exact .inl ⟨o, ho, .inr h⟩

/-! ## Every run leaves them alone -/

section
variable {full : Bool}

omit [GraphValue V] in
theorem safe_journaled {α : Type} {x : ExchangeM V α} {post : α → Bool → Prop}
    {exc : Stop → Bool → Prop}
    (h : Prog.wp (fun w q a w' => w' = w ∧ told s q a) (fun _ _ => True) x post exc full) :
    Safe s T (journaled x) post exc full :=
  Prog.wp_left h

/-- With the tables at hand an operation protects what `protecting` says. -/
theorem told_protectAction {resources : List (Wire V)}
    (hr : resources = c.resources.map fun r => mapResource r s.aliases)
    {a : String × String × String} {busy : List String} :
    Prog.wp (fun w q a w' => w' = w ∧ told s q a) (fun _ _ => True)
      (Exchange.protectAction { c with resources := resources, graph := mirror c s } busy a)
      (fun busy' w' => busy' = protecting c s busy a ∧ w' = full) (fun _ _ => True) full := by
  subst hr
  refine Prog.wp_foldlM_eq fun id _ busy => ?_
  unfold guardTarget
  by_cases hc : ((mirror c s).lookup id).bind entity = some "com.apple.calendars.Calendar"
  · rw [if_pos hc, if_pos hc]
    refine Prog.wp_bind ⟨trivial, ?_⟩
    rintro collection _ ⟨rfl, rfl⟩
    cases s.collections id with
    | some url => exact ⟨rfl, rfl⟩
    | none => exact ⟨rfl, rfl⟩
  · rw [if_neg hc, if_neg hc]
    exact ⟨rfl, rfl⟩

theorem safe_protect :
    Safe s T (protect c (byHref c) s.aliases (c.resources.map fun r => mapResource r s.aliases)
      (mirror c s)) (fun busy full' => full' = full ∧ busy = busyRecords c s) (fun _ _ => True)
      full := by
  refine Prog.wp_bind ⟨trivial, ?_⟩
  rintro a full' ⟨rfl, ha⟩
  cases a with
  | error e => exact trivial
  | ok pending =>
    obtain rfl := ha pending rfl
    show Safe s T (if c.isContact = true then _ else _) _ _ _
    unfold busyRecords
    split
    · exact ⟨rfl, rfl⟩
    · refine safe_journaled (Prog.wp_bind ⟨trivial, ?_⟩)
      rintro tables _ ⟨rfl, -⟩
      cases tables with
      | error e => exact trivial
      | ok _ =>
        refine Prog.wp_bind ⟨trivial, ?_⟩
        rintro a _ ⟨rfl, ha⟩
        cases a with
        | error e => exact trivial
        | ok live =>
          obtain rfl : live = s.live := ha live rfl
          show Prog.wp _ _ (s.live.foldlM (Exchange.protectAction { c with
            resources := c.resources.map fun r => mapResource r s.aliases
            graph := mirror c s }) _) _ _ _
          refine Prog.wp_mono (Prog.wp_foldlM_eq fun a _ busy => told_protectAction rfl) ?_
            fun _ _ _ => trivial
          rintro busy full' ⟨rfl, rfl⟩
          exact ⟨rfl, rfl⟩

omit [GraphValue V] in
theorem safe_during {α : Type} {phase : String} {x : SessionM V α} {post : α → Bool → Prop}
    (h : Safe s T x post (fun _ _ => True) full) :
    Safe s T (during phase x) post (fun _ _ => True) full := by
  refine Prog.wp_rescue (Prog.wp_mono h (fun _ _ h => h) fun e _ _ => ?_)
  cases e with
  | failed e => exact trivial
  | thrown name => exact trivial

omit [GraphValue V] in
theorem safe_quiet {α : Type} {x : SessionM V α} {post : α → Bool → Prop} (hx : Quiet s T x)
    (h : ∀ a, post a full) : Safe s T x post (fun _ _ => True) full :=
  hx post _ full h fun _ => trivial

omit [GraphValue V] in
theorem quiet_register : Quiet s T (register c) := by
  refine (quiet_tell rfl (silent _)).bind fun _ => ?_
  refine (quiet_ask (silent _) fun _ => quiet_orStop _).bind fun r => ?_
  show Quiet s T (if (!r.1 || r.2.isEmpty) = true then _ else _)
  split
  · exact quiet_refuse _
  · refine (Quiet.foldlM (fun _ entity => ?_) _ _).bind fun _ => quiet_pure _
    refine (quiet_check rfl (silent _)).bind fun capable => ?_
    split
    · exact quiet_pure _
    · exact quiet_refuse _

omit [GraphValue V] in
theorem safe_completed {hrefs : Dict String (Wire V)} :
    Safe s T (completed hrefs) (fun aliases full' => aliases = s.aliases ∧ full' = full)
      (fun _ _ => True) full := by
  refine Prog.wp_bind (safe_during (safe_quiet (quiet_journaled _) fun _ => ?_))
  refine safe_during ⟨trivial, ?_⟩
  rintro a full' ⟨rfl, ha⟩
  cases a with
  | error e => exact trivial
  | ok aliases => exact ⟨ha aliases rfl, rfl⟩

/-- Mapping the resources one by one. -/
theorem safe_mapAll (rs done : List (Wire V)) (aliases : Dict String String) :
    Safe s T (rs.foldlM (mapOne aliases) done)
      (fun r full' => r = done ++ rs.map (fun r => mapResource r aliases) ∧ full' = full)
      (fun _ _ => True) full := by
  induction rs generalizing done with
  | nil => exact ⟨(List.append_nil done).symm, rfl⟩
  | cons r rs ih =>
    rw [List.foldlM_cons]
    refine Prog.wp_bind (Prog.wp_bind (safe_quiet (quiet_tell rfl (silent _)) fun _ => ?_))
    refine Prog.wp_pure (Prog.wp_mono (ih (done ++ [mapResource r aliases])) ?_ fun _ _ h => h)
    rintro _ _ ⟨rfl, rfl⟩
    exact ⟨by simp, rfl⟩

theorem safe_prepare : Safe s T (prepare c (byHref c) s.aliases)
    (fun r full' => r.2.1 = busyRecords c s ∧ r.2.2.1 = s.published ∧ full' = full)
    (fun _ _ => True) full := by
  refine Prog.wp_bind (safe_quiet (quiet_tell rfl (silent _)) fun _ => ?_)
  refine Prog.wp_bind (Prog.wp_mono (safe_mapAll c.resources [] s.aliases) ?_ fun _ _ h => h)
  rintro resources _ ⟨rfl, rfl⟩
  refine Prog.wp_bind (Prog.wp_mono safe_protect ?_ fun _ _ h => h)
  rintro busy _ ⟨rfl, rfl⟩
  refine Prog.wp_bind ⟨trivial, ?_⟩
  rintro a _ ⟨rfl, ha⟩
  cases a with
  | error e => exact trivial
  | ok published =>
    refine Prog.wp_bind (Prog.wp_bind (safe_quiet (quiet_strings rfl (silent _)) fun _ => ?_))
    exact ⟨rfl, ha published rfl, rfl⟩

/-- The records of `T` are busy, or nowhere to be published or deleted. -/
structure Covers (c : Context V) (s : Situation V) (T : String → Prop) : Prop where
  busy : ∀ id, T id → id ∈ busyRecords c s ∨
    ((mirror c s).lookup id = none ∧ s.published.lookup id = none)
  some : busyRecords c s = [] → ∀ id, ¬ T id

omit [GraphValue V] in
theorem quiet_openSession {entities : List String} : Quiet s T (openSession entities) := by
  refine (quiet_check rfl (silent _)).bind fun opened => ?_
  cases opened with
  | false => exact quiet_refuse _
  | true =>
    refine Quiet.foldlM (fun _ entity => (quiet_check rfl (silent _)).bind fun reset => ?_) _ _
    cases reset with
    | false => exact quiet_pure _
    | true => exact quiet_refuse _

theorem safe_choosePush (hT : Covers c s T) {entities : List String} :
    Safe s T (choosePush entities (busyRecords c s))
      (fun _ full' => full' = true → busyRecords c s = []) (fun _ _ => True) false := by
  cases hb : busyRecords c s with
  | nil =>
    refine ⟨hT.some hb, fun a full' _ => ?_⟩
    cases a with
    | ok _ => exact fun _ => rfl
    | error e => exact trivial
  | cons b busy =>
    -- the session was not asked to push everything, and a session that wants to ends the pass
    have hfast : Safe s T (entities.foldlM checkFastSession ()) (fun _ full' => full' = false)
        (fun _ _ => True) false := by
      refine Prog.wp_foldlM (fun _ full' => full' = false) ?_ rfl
      rintro entity - _ _ rfl
      refine Prog.wp_bind ⟨trivial, fun a full' ha => ?_⟩
      rcases ha with ⟨-, rfl⟩ | ⟨rfl, ha⟩
      · exact trivial
      · cases a with
        | error e => exact trivial
        | ok all =>
          cases all with
          | true => exact absurd rfl ha
          | false => exact rfl
    refine Prog.wp_mono hfast ?_ fun _ _ h => h
    rintro _ _ rfl h
    cases h

theorem safe_push (hT : Covers c s T) (hf : full = true → busyRecords c s = []) :
    Safe s T (do
      (mirror c s).keys.foldlM (pushRecord (mirror c s) (busyRecords c s)) ()
      if (busyRecords c s).isEmpty then pure ()
      else s.published.keys.foldlM (deleteRecord (mirror c s) (busyRecords c s)) ())
      (fun _ full' => full' = full) (fun _ _ => True) full := by
  have hnone : full = true → ∀ id, ¬ T id := fun h => hT.some (hf h)
  have htell : ∀ {q : Request V} (h : q.Answer = Except Stop Unit),
      Allowed s T full (.inr q) → (∀ a full', answers s full (.inr q) a full' → full' = full) →
      Safe s T (tell q h) (fun _ full' => full' = full) (fun _ _ => True) full := by
    intro q h hq hsame
    refine ⟨hq, fun a full' ha => ?_⟩
    obtain rfl := hsame a full' ha
    exact safe_quiet (quiet_orStop _) fun _ => rfl
  have hpush : Safe s T ((mirror c s).keys.foldlM (pushRecord (mirror c s) (busyRecords c s)) ())
      (fun _ full' => full' = full) (fun _ _ => True) full := by
    refine Prog.wp_foldlM (fun _ full' => full' = full) ?_ rfl
    rintro key - _ _ rfl
    unfold pushRecord
    cases hk : (mirror c s).lookup key with
    | none => exact rfl
    | some record =>
      by_cases hb : (busyRecords c s).contains key = true
      · simp only [hb, if_true]
        exact rfl
      · simp only [hb]
        refine htell rfl ⟨fun h => ?_, hnone⟩ fun _ _ h => h
        rcases hT.busy key h with hm | ⟨hm, -⟩
        · exact hb (List.contains_iff_mem.2 hm)
        · rw [hk] at hm
          cases hm
  refine Prog.wp_bind (Prog.wp_mono hpush (fun _ full' hfull => ?_) fun _ _ h => h)
  rw [hfull]
  split
  · exact rfl
  · refine Prog.wp_foldlM (fun _ full' => full' = full) (fun key hk _ full' hfull => ?_) rfl
    rw [hfull]
    unfold deleteRecord
    split
    · rename_i hd
      simp only [Bool.and_eq_true, Bool.not_eq_true', Option.isNone_iff_eq_none] at hd
      refine htell rfl ⟨fun h => ?_, hnone⟩ fun _ _ h => h
      rcases hT.busy key h with hm | ⟨-, hp⟩
      · rw [List.contains_iff_mem.2 hm] at hd
        cases hd.2
      · exact Dict.mem_keys_iff.1 hk hp
    · exact rfl

/-- What the session is asked for decides what it may be told. -/
theorem safe_publish (hT : Covers c s T) {entities : List String} :
    Safe s T (publish (mirror c s) s.published entities (busyRecords c s))
      (fun _ full' => full' = true → busyRecords c s = []) (fun _ _ => True) false := by
  refine Prog.wp_bind (Prog.wp_mono (safe_choosePush hT) (fun _ full hf => ?_) fun _ _ h => h)
  refine Prog.wp_mono (safe_push hT hf) ?_ fun _ _ h => h
  rintro _ _ rfl
  exact hf

theorem quiet_excludedRecords {graph truth : Graph V} {known : List String} :
    Quiet s T (excludedRecords c graph truth known) := by
  refine (quiet_strings rfl (silent _)).bind fun excluded => ?_
  refine (quiet_check rfl (silent _)).bind fun first => ?_
  split
  · refine (quiet_journaled _).bind fun _ => (Quiet.foldlM (fun excluded key => ?_) _ _).bind
      fun _ => (quiet_tell rfl (silent _)).bind fun _ => quiet_pure _
    unfold excludeExisting
    split
    · exact quiet_pure _
    · refine Quiet.bind ?_ fun _ => ?_
      · unfold eligible
        split
        · split
          · exact (quiet_check rfl (silent _)).bind fun _ => quiet_pure _
          · exact quiet_pure _
        · exact quiet_pure _
      · split
        · exact quiet_pure _
        · exact (quiet_tell rfl (silent _)).bind fun _ => quiet_pure _
  · exact quiet_pure _

theorem quiet_collectNew {truth : Graph V} {known excluded : List String}
    (resources : List (Local V)) (key : String) :
    Quiet s T (collectNew c truth known excluded resources key) := by
  unfold collectNew
  split
  · exact quiet_pure _
  · split
    · split
      · exact quiet_pure _
      · exact (quiet_journaled _).bind fun _ => quiet_pure _
    · exact quiet_pure _

theorem quiet_collectChanges {entities known busy : List String} {graph : Graph V}
    {resources : List (Wire V)} :
    Quiet s T (collectChanges c entities known busy graph resources) := by
  refine (quiet_check rfl (silent _)).bind fun ready => ?_
  split
  · refine (quiet_strings rfl (silent _)).bind fun deletes => ?_
    refine (quiet_ask (silent _) fun _ => quiet_orStop _).bind fun truth => ?_
    refine quiet_excludedRecords.bind fun excluded => ?_
    refine (Quiet.foldlM quiet_collectNew _ _).bind fun records => ?_
    split
    · exact quiet_pure _
    · exact (quiet_journaled _).bind fun _ => quiet_pure _
  · exact quiet_refuse _

theorem quiet_queueChange {truth : Graph V} {root : String} {base : Option (Wire V)} :
    Quiet s T (queueChange c truth root base) := by
  unfold queueChange
  split
  · exact quiet_journaled _
  · refine (quiet_journaled _).bind fun _ => ?_
    split
    · exact quiet_pure _
    · exact (quiet_journaled _).bind fun _ => (quiet_journaled _).bind fun _ =>
        (quiet_tell rfl (silent _)).bind fun _ => quiet_journaled _

theorem quiet_journalChange {busy deletes : List String} {truth : Graph V} (u : Unit)
    (r : Local V) : Quiet s T (journalChange c busy deletes truth u r) := by
  refine (quiet_tell rfl (silent _)).bind fun _ => ?_
  split
  · exact quiet_pure _
  · split
    · exact quiet_journaled _
    · split
      · refine (quiet_journaled _).bind fun pending => ?_
        split
        · exact quiet_queueChange
        · exact quiet_pure _
      · exact quiet_queueChange

/-! ## The checkpoint -/

omit [GraphValue V] in
/-- The checkpoint keeps what the busy records were. -/
theorem checkpoint_lookup (graph published : Graph V) (busy : List String) (id : String) :
    (checkpoint graph published busy).lookup id =
      if id ∈ busy then published.lookup id else graph.lookup id := by
  unfold checkpoint
  induction busy generalizing graph with
  | nil => simp
  | cons b busy ih =>
    rw [List.foldl_cons, ih, Dict.lookup_put]
    by_cases hb : id = b
    · subst hb
      simp
    · simp [hb]

theorem safe_journalChanges (hT : Covers c s T) (hf : full = true → busyRecords c s = [])
    {truth : Graph V} {deletes : List String} {records : List (Local V)} {busy : List String}
    {post : Unit → Bool → Prop} (h : ∀ full, post () full) :
    Safe s T (journalChanges c truth deletes records busy
      (checkpoint (mirror c s) s.published (busyRecords c s))) post (fun _ _ => True) full := by
  refine Prog.wp_bind (safe_quiet (Quiet.foldlM quiet_journalChange _ _) fun _ => ?_)
  refine Prog.wp_bind (safe_quiet (quiet_tell rfl (silent _)) fun _ => ?_)
  refine Prog.wp_bind (safe_quiet (quiet_tell rfl (silent _)) fun _ => ?_)
  refine ⟨⟨fun id hid => ?_, fun hfull => hT.some (hf hfull)⟩, fun a full' _ => ?_⟩
  · rw [checkpoint_lookup]
    split
    · rfl
    · rename_i hb
      obtain ⟨hm, hp⟩ := (hT.busy id hid).resolve_left hb
      rw [hm, hp]
  · exact safe_quiet (quiet_orStop _) fun _ => h full'

/-! ## The pass -/

theorem safe_pass (hT : Covers c s T) :
    Safe s T (pass c) (fun _ _ => True) (fun _ _ => True) false := by
  refine Prog.wp_bind (safe_during (safe_quiet quiet_register fun entities => ?_))
  refine Prog.wp_bind (Prog.wp_mono safe_completed ?_ fun _ _ h => h)
  rintro aliases _ ⟨rfl, rfl⟩
  refine Prog.wp_bind (Prog.wp_mono (safe_during safe_prepare) ?_ fun _ _ h => h)
  rintro ⟨resources, busy, published, known⟩ _ ⟨hbusy, hpublished, rfl⟩
  obtain rfl : busy = busyRecords c s := hbusy
  obtain rfl : published = s.published := hpublished
  refine Prog.wp_bind (safe_during (safe_quiet quiet_openSession fun _ => ?_))
  refine Prog.wp_bind (Prog.wp_mono (safe_during (safe_publish hT)) ?_ fun _ _ h => h)
  intro _ full hf
  refine Prog.wp_bind (safe_during (safe_quiet quiet_collectChanges fun r => ?_))
  refine Prog.wp_bind (safe_during (safe_journalChanges hT hf fun _ => ?_))
  exact trivial

theorem safe_exchange (hT : Covers c s T) :
    Safe s T (exchange c) (fun _ _ => True) (fun _ _ => True) false := by
  have hreport : ∀ {x : SessionM V (Except RCError Bool)} {full : Bool},
      Safe s T x (fun _ _ => True) (fun _ _ => True) full →
      Safe s T (x.rescue report) (fun _ _ => True) (fun _ _ => True) full := by
    intro x full hx
    refine Prog.wp_rescue (Prog.wp_mono hx (fun _ _ h => h) fun e _ _ => ?_)
    cases e <;> exact trivial
  refine hreport (Prog.wp_bind (safe_quiet (quiet_journaled _) fun _ => Prog.wp_bind ?_))
  have hdrop : Quiet s T (dropExclusions c) := by
    unfold dropExclusions
    split
    · exact quiet_tell rfl (silent _)
    · exact quiet_pure _
  refine safe_quiet hdrop fun _ => Prog.wp_bind ?_
  refine Prog.wp_mono (hreport (Prog.wp_bind (Prog.wp_mono (safe_pass hT) (fun _ _ _ => trivial)
    fun _ _ h => h))) (fun result full _ => ?_) fun _ _ h => h
  refine Prog.wp_bind (safe_quiet (quiet_journaled _) fun _ => ?_)
  exact safe_quiet (((quiet_tell rfl (silent _)).bind fun _ => quiet_pure _).rescue
    fun _ => quiet_pure _) fun _ => trivial

theorem untouched_of_covers (hT : Covers c s T) : Untouched c s T := by
  rintro q full ⟨k, hk⟩
  exact Prog.wp_asks (safe_exchange hT) hk

end

end

end SyncServices
