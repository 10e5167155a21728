import RetroCloudSync.Status.Policy

/-!
# What waits

`changes` is what the pending number is to be: the unresolved writes, the roots with pending fields
or attention, each counted once, the unfinished actions, the attention on applied writes and the
unusable resources of the mirror, all read off the rows. The evaluation adds the answers of its
queries (`Query.answer_getD`) and takes away that of a join; what SQLite refuses counts as nothing
and makes the result unknown (`addCount_count`, `pendingCount_eq`).
-/

set_option autoImplicit false

namespace Status

variable {R S : Type} {db : Database} {r : Refusals} {account : Int} {contacts : Bool}

/-! ## What waits -/

/-- The rows of a table, none where it is missing. -/
def rows (t : Option (List R)) : List R := t.getD []

def unresolved (db : Database) (account : Int) : Nat :=
  (rows db.writeOperations).countP fun o =>
    o.account = account ∧ o.state ≠ "acknowledged" ∧ o.state ≠ "cancelled"

def applied (db : Database) (account : Int) : Nat :=
  (rows db.writeOperations).countP fun o => o.account = account ∧ o.state = "applied"

/-- The roots of an account with pending fields. -/
def fieldRoots (db : Database) (account : Int) : Finset String :=
  (((rows db.twoWayPendingFields).filter fun p => p.account = account).map
    PendingFields.root).toFinset

/-- The roots of an account with attention. -/
def attentionRoots (db : Database) (account : Int) : Finset String :=
  (((rows db.twoWayAttention).filter fun a => a.account = account).map Attention.record).toFinset

def unfinished (db : Database) (account : Int) : Nat :=
  (rows db.calendarActions).countP fun a => a.account = account ∧ a.state ≠ "done"

/-- The attention on applied writes. -/
def appliedAttention (db : Database) (account : Int) : Nat :=
  (rows db.writeAttention).countP fun a => ∃ o ∈ rows db.writeOperations,
    o.id = a.operation ∧ o.account = account ∧ o.state = "applied"

/-- The resources of the mirror that cannot be used. -/
def unusable (db : Database) (account : Int) (contacts : Bool) : Nat :=
  if contacts then
    (rows db.contacts).countP fun c => c.remoteMissing = 0 ∧ c.parseError ≠ none ∧
      ∃ b ∈ rows db.collections, b.id = c.collection ∧ b.account = account
  else
    (rows db.calendarResources).countP fun r => r.remoteMissing = 0 ∧ r.scopeExcluded = 0 ∧
      (r.parseError ≠ none ∨ r.exportStatus = some "unsupported" ∨
        r.exportStatus = some "retained previous") ∧
      ∃ c ∈ rows db.calendars, c.id = r.calendar ∧ c.account = account

/-- A part of the sum, nothing where it is not counted. -/
def part (counted : Bool) (n : Nat) : Nat := if counted then n else 0

/-- The roots that wait for something. -/
def roots (db : Database) (account : Int) (counted : Query → Bool) : Finset String :=
  (if counted .pendingFields then fieldRoots db account else ∅) ∪
    if counted .attention then attentionRoots db account else ∅

/-- What waits beside the unresolved writes. -/
def others (db : Database) (account : Int) (contacts : Bool) (counted : Query → Bool) : Nat :=
  (roots db account counted).card + part (counted .actions) (unfinished db account) +
    part (counted .writeAttention) (appliedAttention db account) +
    part (counted .mirror) (unusable db account contacts)

/-- What waits. -/
def changes (db : Database) (account : Int) (contacts : Bool) (counted : Query → Bool) : Nat :=
  part (counted .unresolved) (unresolved db account) + others db account contacts counted

/-- Every part of the sum. -/
def everything : Query → Bool := fun _ => true

/-- The keys of the tables: at most one row of pending fields and one of attention for an account
and a root, and one write, collection and calendar for an id. -/
structure Unique (db : Database) : Prop where
  fields : ((rows db.twoWayPendingFields).map fun p => (p.account, p.root)).Nodup
  attention : ((rows db.twoWayAttention).map fun a => (a.account, a.record)).Nodup
  writes : ((rows db.writeOperations).map WriteOperation.id).Nodup
  collections : ((rows db.collections).map Mirror.id).Nodup
  calendars : ((rows db.calendars).map Mirror.id).Nodup

/-! ## Answers -/

/-- The table that is looked for in front of a query is there. -/
def Query.table (db : Database) (contacts : Bool) : Query → Bool
  | .unresolved | .uploaded => db.writeOperations.isSome
  | .pendingFields | .overlap => db.twoWayPendingFields.isSome
  | .attention => db.twoWayAttention.isSome
  | .actions => db.calendarActions.isSome
  | .writeAttention => db.writeAttention.isSome
  | .mirror => if contacts then db.contacts.isSome else db.calendarResources.isSome

/-- So is the table that it is joined with. -/
def Query.joined (db : Database) (contacts : Bool) : Query → Bool
  | .writeAttention => db.writeOperations.isSome
  | .overlap => db.twoWayAttention.isSome
  | .mirror => if contacts then db.collections.isSome else db.calendars.isSome
  | _ => true

def answer (db : Database) (account : Int) (contacts : Bool) : Query → Option Nat
  | .unresolved => unresolvedQuery db account
  | .pendingFields => pendingFieldsQuery db account
  | .attention => attentionQuery db account
  | .actions => actionsQuery db account
  | .writeAttention => writeAttentionQuery db account
  | .overlap => overlapQuery db account
  | .mirror => if contacts then contactsQuery db account else calendarResourcesQuery db account
  | .uploaded => uploadedQuery db account

/-- What a query is to count. -/
def number (db : Database) (account : Int) (contacts : Bool) : Query → Nat
  | .unresolved => unresolved db account
  | .pendingFields => (fieldRoots db account).card
  | .attention => (attentionRoots db account).card
  | .actions => unfinished db account
  | .writeAttention => appliedAttention db account
  | .overlap => (fieldRoots db account ∩ attentionRoots db account).card
  | .mirror => unusable db account contacts
  | .uploaded => applied db account

theorem nodup_own (account : Int) {l : List R} {f : R → Int} {g : R → String}
    (h : (l.map fun r => (f r, g r)).Nodup) :
    ((l.filter fun r => f r = account).map g).Nodup := by
  rw [List.Nodup, List.pairwise_map, List.pairwise_filter]
  rw [List.Nodup, List.pairwise_map] at h
  refine h.imp fun hne ha hb he => hne ?_
  rw [of_decide_eq_true ha, of_decide_eq_true hb, he]

theorem joinCount_roots {ps : List PendingFields} {as : List Attention}
    (has : (as.map fun a => (a.account, a.record)).Nodup) :
    joinCount ps as (fun p a =>
        a.account = p.account && a.record = p.root && p.account = account) =
      ((ps.filter fun p => p.account = account).map PendingFields.root).countP
        (· ∈ (as.filter fun a => a.account = account).map Attention.record) := by
  have hnodup : ((as.filter fun a => a.account = account).map Attention.record).Nodup :=
    nodup_own account has
  induction ps with
  | nil => rfl
  | cons p ps ih =>
    rw [joinCount, List.map_cons, List.sum_cons]
    rw [joinCount] at ih
    rw [ih]
    by_cases hp : p.account = account
    · have hone : as.countP (fun a =>
          a.account = p.account && a.record = p.root && p.account = account) =
          if p.root ∈ (as.filter fun a => a.account = account).map Attention.record then 1
          else 0 := by
        rw [← hnodup.count, List.count, List.countP_map, List.countP_filter]
        refine List.countP_congr fun a _ => ?_
        simp [hp, and_comm]
      rw [hone, List.filter_cons_of_pos (by simpa using hp), List.map_cons, List.countP_cons]
      simp only [decide_eq_true_iff]
      omega
    · have hnone : as.countP (fun a =>
          a.account = p.account && a.record = p.root && p.account = account) = 0 := by
        refine List.countP_eq_zero.2 fun a _ => ?_
        simp [hp]
      rw [hnone, List.filter_cons_of_neg (by simpa using hp), Nat.zero_add]

theorem card_inter {l m : List String} (hl : l.Nodup) :
    (l.toFinset ∩ m.toFinset).card = l.countP (· ∈ m) := by
  have heq : l.toFinset ∩ m.toFinset = (l.filter (· ∈ m)).toFinset := by
    ext x
    simp
  rw [heq, List.toFinset_card_of_nodup (hl.filter _), List.countP_eq_length_filter]

/-- **A join with the rows of an id counts the rows that name one.** -/
theorem joinCount_named {l : List R} {m : List S} {id : S → Int} {p : R → S → Bool} (f : R → Int)
    (hm : (m.map id).Nodup) (hp : ∀ a b, p a b = true → id b = f a) :
    joinCount l m p = l.countP fun a => ∃ b ∈ m, p a b = true := by
  have hone : ∀ a, m.countP (p a) = if ∃ b ∈ m, p a b = true then 1 else 0 := by
    intro a
    have hle : m.countP (p a) ≤ 1 := by
      refine (List.countP_mono_left fun b _ hb => ?_).trans
        ((@List.countP_map _ _ (· == f a) id m).symm.le.trans
          (List.nodup_iff_count_le_one.1 hm (f a)))
      simpa using hp a b hb
    split
    · rename_i h
      exact le_antisymm hle (List.countP_pos_iff.2 h)
    · rename_i h
      exact List.countP_eq_zero.2 fun b hb hab => h ⟨b, hb, hab⟩
  rw [joinCount]
  simp only [hone]
  induction l with
  | nil => rfl
  | cons a l ih =>
    rw [List.map_cons, List.sum_cons, List.countP_cons, ih]
    simp only [decide_eq_true_iff]
    omega

theorem Query.answer_isSome (db : Database) (account : Int) (contacts : Bool) (q : Query) :
    (answer db account contacts q).isSome = (q.table db contacts && q.joined db contacts) := by
  have hjoin : ∀ {R S : Type} (t : Option (List R)) (u : Option (List S)) (f : List R → List S →
      Nat), (t.bind fun l => u.map fun m => f l m).isSome = (t.isSome && u.isSome) := by
    intro R S t u f
    cases t <;> cases u <;> rfl
  cases q with
  | writeAttention => exact hjoin _ _ _
  | overlap => exact hjoin _ _ _
  | mirror => cases contacts <;> exact hjoin _ _ _
  | _ => simp [answer, Query.table, Query.joined, unresolvedQuery, pendingFieldsQuery,
      attentionQuery, actionsQuery, uploadedQuery]

theorem getD_count {t : Option (List R)} {p q : R → Bool} (h : ∀ a, p a = q a) :
    (t.map fun l => l.countP p).getD 0 = (rows t).countP q := by
  cases t with
  | none => rfl
  | some l => exact congrFun (congrArg List.countP (funext h)) l

theorem getD_join {t : Option (List R)} {u : Option (List S)} {id : S → Int} {p : R → S → Bool}
    {q : R → Bool} (f : R → Int) (hu : ((rows u).map id).Nodup)
    (hp : ∀ a b, p a b = true → id b = f a)
    (hq : ∀ a, (∃ b ∈ rows u, p a b = true) ↔ q a = true) :
    (t.bind fun l => u.map fun m => joinCount l m p).getD 0 = (rows t).countP q := by
  cases t with
  | none => rfl
  | some l =>
    cases u with
    | none =>
      refine (List.countP_eq_zero.2 fun a _ ha => ?_).symm
      obtain ⟨b, hb, -⟩ := (hq a).2 ha
      cases hb
    | some m =>
      refine (joinCount_named f hu hp).trans (List.countP_congr fun a _ => ?_)
      rw [decide_eq_true_iff]
      exact hq a

/-- **The queries count what they are to count.** -/
theorem Query.answer_getD (h : Unique db) (account : Int) (contacts : Bool) (q : Query) :
    (answer db account contacts q).getD 0 = number db account contacts q := by
  have hfields : (((rows db.twoWayPendingFields).filter fun p => p.account = account).map
      PendingFields.root).Nodup := nodup_own account h.fields
  have hattention : (((rows db.twoWayAttention).filter fun a => a.account = account).map
      Attention.record).Nodup := nodup_own account h.attention
  cases q with
  | unresolved => exact getD_count fun o => by simp [Bool.decide_and]
  | pendingFields =>
    refine (getD_count fun p => rfl).trans ?_
    rw [List.countP_eq_length_filter, number, fieldRoots, List.toFinset_card_of_nodup hfields,
      List.length_map]
  | attention =>
    refine (getD_count fun a => rfl).trans ?_
    rw [List.countP_eq_length_filter, number, attentionRoots,
      List.toFinset_card_of_nodup hattention, List.length_map]
  | actions => exact getD_count fun a => by simp [Bool.decide_and]
  | uploaded => exact getD_count fun o => by simp [Bool.decide_and]
  | writeAttention =>
    refine getD_join WriteAttention.operation h.writes (fun a o hp => ?_) fun a => ?_
    · simp only [Bool.and_eq_true, decide_eq_true_iff] at hp
      exact hp.1.1
    · simp [and_assoc]
  | overlap =>
    refine Eq.trans ?_ (card_inter hfields).symm
    have hunique := h.attention
    clear hfields hattention
    obtain ⟨_, fields, attention, _, _, _, _, _, _⟩ := db
    cases fields with
    | none => rfl
    | some ps =>
      cases attention with
      | none => exact (List.countP_eq_zero.2 fun _ _ => by simp [rows]).symm
      | some as => exact joinCount_roots hunique
  | mirror =>
    cases contacts with
    | true =>
      refine getD_join Contact.collection h.collections (fun c b hp => ?_) fun c => ?_
      · simp only [Bool.and_eq_true, decide_eq_true_iff] at hp
        exact hp.1.1.1
      · simp only [Bool.and_eq_true, decide_eq_true_iff, Option.isSome_iff_ne_none]
        constructor
        · rintro ⟨b, hb, ⟨⟨hid, hacc⟩, hm⟩, he⟩
          exact ⟨hm, he, b, hb, hid, hacc⟩
        · rintro ⟨hm, he, b, hb, hid, hacc⟩
          exact ⟨b, hb, ⟨⟨hid, hacc⟩, hm⟩, he⟩
    | false =>
      refine getD_join CalendarResource.calendar h.calendars (fun r c hp => ?_) fun r => ?_
      · simp only [Bool.and_eq_true, decide_eq_true_iff] at hp
        exact hp.1.1.1.1
      · simp only [Bool.and_eq_true, Bool.or_eq_true, decide_eq_true_iff,
          Option.isSome_iff_ne_none]
        constructor
        · rintro ⟨c, hc, ⟨⟨⟨hid, hacc⟩, hm⟩, hs⟩, he⟩
          exact ⟨hm, hs, or_assoc.1 he, c, hc, hid, hacc⟩
        · rintro ⟨hm, hs, he, c, hc, hid, hacc⟩
          exact ⟨c, hc, ⟨⟨⟨hid, hacc⟩, hm⟩, hs⟩, or_assoc.2 he⟩

/-! ## The sum -/

/-- A query is answered, or its table is missing. -/
def Query.known (q : Query) (db : Database) (r : Refusals) (contacts : Bool) : Bool :=
  !r.schema q && (!q.table db contacts || (!r.query q && q.joined db contacts))

/-- The roots of both tables are told. -/
def Refusals.compares (r : Refusals) : Bool :=
  !r.fieldsTable && !r.attentionTable && r.tells .overlap

theorem Query.number_none (h : Unique db) {q : Query}
    (hq : (q.table db contacts && q.joined db contacts) = false) :
    number db account contacts q = 0 := by
  rw [← q.answer_getD h account contacts]
  cases ha : answer db account contacts q with
  | none => rfl
  | some n =>
    have hsome := q.answer_isSome db account contacts
    rw [ha, hq] at hsome
    cases hsome

/-- **What a query returns**: its number, as far as it is told, or that it is not known. -/
theorem Query.count_eq (h : Unique db) (r : Refusals) (account : Int) {contacts : Bool}
    (q : Query) {t : Option (List R)} (ht : t.isSome = q.table db contacts) :
    count r q t (answer db account contacts q) =
      if q.known db r contacts then (part (r.tells q) (number db account contacts q) : Int)
      else -1 := by
  have hsome := q.answer_isSome db account contacts
  have hnumber := q.answer_getD h account contacts
  unfold count hasTable Query.known Refusals.tells part
  rw [ht, ← hnumber]
  cases r.schema q with
  | true => rfl
  | false =>
    cases hq : q.table db contacts with
    | false =>
      have hnone : answer db account contacts q = none := by
        rw [hq] at hsome
        exact Option.not_isSome_iff_eq_none.1 (by simp [hsome])
      simp [hnone]
    | true =>
      rw [hq, Bool.true_and] at hsome
      cases r.query q with
      | true => rfl
      | false =>
        cases ha : answer db account contacts q with
        | none =>
          rw [ha] at hsome
          simp [← hsome]
        | some n =>
          rw [ha] at hsome
          simp [← hsome]

theorem Query.part_unknown (h : Unique db) {q : Query} (hq : q.known db r contacts = false) :
    part (r.tells q) (number db account contacts q) = 0 := by
  unfold Query.known at hq
  unfold part Refusals.tells
  cases hs : r.schema q with
  | true => rfl
  | false =>
    cases hr : r.query q with
    | true => rfl
    | false =>
      rw [hs, hr] at hq
      refine (if_pos rfl).trans (Query.number_none h ?_)
      cases ht : q.table db contacts <;> simp_all

theorem addCount_count (h : Unique db) (contacts : Bool) (q : Query) {t : Option (List R)}
    (ht : t.isSome = q.table db contacts) (s : Int × Bool) :
    addCount s (count r q t (answer db account contacts q)) =
      (s.1 + part (r.tells q) (number db account contacts q), s.2 && q.known db r contacts) := by
  rw [q.count_eq h r account ht, addCount]
  cases hk : q.known db r contacts with
  | true => rw [if_pos rfl, if_neg (by omega), Bool.and_true]
  | false =>
    rw [if_neg Bool.false_ne_true, if_pos (by decide), Query.part_unknown h hk, Bool.and_false]
    simp

/-- The roots of both tables are asked for. -/
def overlaps (db : Database) : Bool :=
  db.twoWayPendingFields.isSome && db.twoWayAttention.isSome

theorem subtract_eq (h : Unique db) (contacts : Bool) (n : Int) (k : Bool) :
    (if hasTable r.fieldsTable db.twoWayPendingFields < 0 ∨
        hasTable r.attentionTable db.twoWayAttention < 0 then (n, false)
      else if hasTable r.fieldsTable db.twoWayPendingFields ≠ 0 ∧
          hasTable r.attentionTable db.twoWayAttention ≠ 0 then
        if count r .overlap db.twoWayPendingFields (overlapQuery db account) < 0 then
          (n, false)
        else (n - count r .overlap db.twoWayPendingFields (overlapQuery db account), k)
      else (n, k)) =
    (n - part r.compares (number db account contacts .overlap),
      k && !r.fieldsTable && !r.attentionTable &&
        (!overlaps db || Query.overlap.known db r contacts)) := by
  have hcount : count r .overlap db.twoWayPendingFields (overlapQuery db account) = _ :=
    @Query.count_eq _ _ h r account contacts .overlap db.twoWayPendingFields rfl
  rw [hcount]
  cases hf : r.fieldsTable with
  | true => simp [hasTable, Refusals.compares, part, hf]
  | false =>
    cases ha : r.attentionTable with
    | true => simp [hasTable, Refusals.compares, part, ha]
    | false =>
      have hcompares : r.compares = r.tells .overlap := by simp [Refusals.compares, hf, ha]
      rw [hcompares]
      cases ho : overlaps db with
      | false =>
        rw [@Query.number_none _ account contacts h .overlap ho]
        unfold overlaps at ho
        cases hp : db.twoWayPendingFields with
        | none => cases db.twoWayAttention <;> simp [hasTable, part]
        | some ps =>
          rw [hp] at ho
          have hq : db.twoWayAttention = none := by simpa using ho
          simp [hasTable, part, hq]
      | true =>
        obtain ⟨hp, hq⟩ := Bool.and_eq_true_iff.1 ho
        cases hk : Query.overlap.known db r contacts with
        | false =>
          rw [Query.part_unknown h hk]
          simp [hasTable, hp, hq]
        | true =>
          have hle : ¬ (part (r.tells .overlap) (number db account contacts .overlap) : Int) < 0 :=
            by omega
          simp [hasTable, hp, hq, hle]

theorem roots_card (db : Database) (account : Int) (contacts : Bool) (counted : Query → Bool) :
    (roots db account counted).card +
    part (counted .pendingFields && counted .attention) (number db account contacts .overlap) =
      part (counted .pendingFields) (number db account contacts .pendingFields) +
        part (counted .attention) (number db account contacts .attention) := by
  unfold roots part number
  cases counted .pendingFields with
  | false => cases counted .attention <;> simp
  | true =>
    cases counted .attention with
    | false => simp
    | true => simpa using Finset.card_union_add_card_inter _ _

/-- **The pending number**: what waits, as far as it is told, but for the roots of both tables. -/
theorem pendingCount_eq (h : Unique db) : (pendingCount db r account contacts).1 =
    (changes db account contacts r.tells : Int) +
      part (r.tells .pendingFields && r.tells .attention) (number db account contacts .overlap) -
      part r.compares (number db account contacts .overlap) ∧
    (pendingCount db r account contacts).2 =
      (Query.unresolved.known db r contacts && Query.pendingFields.known db r contacts &&
        Query.attention.known db r contacts && Query.actions.known db r contacts &&
        Query.writeAttention.known db r contacts && !r.fieldsTable && !r.attentionTable &&
        (!overlaps db || Query.overlap.known db r contacts) &&
        Query.mirror.known db r contacts) := by
  have hcard := roots_card db account contacts r.tells
  have hmirror : ∀ s : Int × Bool, addCount s (if contacts then
      count r .mirror db.contacts (contactsQuery db account)
        else count r .mirror db.calendarResources (calendarResourcesQuery db account)) =
      (s.1 + part (r.tells .mirror) (number db account contacts .mirror),
        s.2 && Query.mirror.known db r contacts) := by
    intro s
    cases contacts with
    | true => exact addCount_count h true .mirror rfl s
    | false => exact addCount_count h false .mirror rfl s
  have hwrites := @addCount_count _ _ r account h contacts .unresolved db.writeOperations rfl
  have hfields := @addCount_count _ _ r account h contacts .pendingFields db.twoWayPendingFields rfl
  have hattention := @addCount_count _ _ r account h contacts .attention db.twoWayAttention rfl
  have hactions := @addCount_count _ _ r account h contacts .actions db.calendarActions rfl
  have happlied := @addCount_count _ _ r account h contacts .writeAttention db.writeAttention rfl
  have hsubtract := @subtract_eq _ r account h contacts
  simp only [answer] at hwrites hfields hattention hactions happlied
  unfold pendingCount
  simp only [List.foldl_cons, List.foldl_nil, hwrites, hfields, hattention, hactions, happlied,
    hsubtract, hmirror, Bool.true_and, and_true]
  simp only [changes, others]
  simp only [number] at hcard ⊢
  omega

/-- Every table that is there is readable, and so is the schema. -/
structure Readable (db : Database) (r : Refusals) (contacts : Bool) : Prop where
  schema : ∀ q, (q = .overlap → overlaps db = true) → r.schema q = false
  tables : r.fieldsTable = false ∧ r.attentionTable = false
  query : ∀ q, (q = .overlap → overlaps db = true) → q.table db contacts = true →
    r.query q = false ∧ q.joined db contacts = true

theorem Readable.known (h : Readable db r contacts) {q : Query}
    (hq : q = .overlap → overlaps db = true) : q.known db r contacts = true := by
  unfold Query.known
  rw [h.schema q hq]
  cases ht : q.table db contacts with
  | false => rfl
  | true => simp [h.query q hq ht]

theorem Readable.of_known (hr : r.fieldsTable = false ∧ r.attentionTable = false)
    (h : ∀ q : Query, (q = .overlap → overlaps db = true) → q.known db r contacts = true) :
    Readable db r contacts where
  schema q hq := by simpa using (Bool.and_eq_true_iff.1 (h q hq)).1
  tables := hr
  query q hq ht := by simpa [ht] using (Bool.and_eq_true_iff.1 (h q hq)).2

theorem Readable.part_eq (h : Unique db) (hr : Readable db r contacts) {q : Query}
    (hq : q ≠ .overlap) : part (r.tells q) (number db account contacts q) =
      number db account contacts q := by
  unfold part Refusals.tells
  rw [hr.schema q fun he => absurd he hq]
  cases ht : q.table db contacts with
  | true => simp [hr.query q (fun he => absurd he hq) ht]
  | false =>
    rw [Query.number_none h (by rw [ht]; rfl)]
    exact ite_self _

end Status
