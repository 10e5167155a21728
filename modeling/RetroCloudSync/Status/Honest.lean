import RetroCloudSync.Status.Sum

/-!
# The status claims no success that is not there

Without all the answers no success is claimed (`evaluate_success`), and only the rows of the account
are looked at (`evaluate_own`). But the numbers are asked for one by one: SQLite may refuse the
unresolved writes and tell the uploaded ones, and the attention, their difference, falls below
nothing (`evaluate_refused`). `Told` says when the numbers belong together.
-/

set_option autoImplicit false

namespace Status

variable {R S : Type} {db : Database} {r : Refusals} {account : Int} {contacts : Bool}

/-! ## The result -/

theorem applied_le : applied db account ≤ unresolved db account := by
  refine List.countP_mono_left fun o _ ho => ?_
  obtain ⟨hown, hstate⟩ := of_decide_eq_true ho
  rw [decide_eq_true_iff, hstate]
  exact ⟨hown, by decide, by decide⟩

/-- **What is reported**, before the phase is chosen. -/
theorem evaluate_eq (h : Unique db) (complete failed stopping : Bool) :
    (evaluate db r account contacts complete failed stopping).pending =
        (pendingCount db r account contacts).1 ∧
      (evaluate db r account contacts complete failed stopping).uploaded =
        part (r.tells .uploaded) (applied db account) ∧
      ((evaluate db r account contacts complete failed stopping).known = true ↔
        Readable db r contacts) := by
  have hcount : count r .uploaded db.writeOperations (uploadedQuery db account) = _ :=
    @Query.count_eq _ _ h r account contacts .uploaded db.writeOperations rfl
  have hpending := (@pendingCount_eq db r account contacts h).2
  have hknown : ((pendingCount db r account contacts).2 &&
      Query.uploaded.known db r contacts) = true ↔ Readable db r contacts := by
    rw [hpending]
    simp only [Bool.and_eq_true, Bool.or_eq_true, Bool.not_eq_true']
    constructor
    · intro hk
      obtain ⟨⟨⟨⟨⟨⟨⟨⟨⟨hw, hp⟩, ha⟩, hc⟩, hn⟩, hft⟩, hat⟩, ho⟩, hm⟩, hu⟩ := hk
      refine .of_known ⟨hft, hat⟩ fun q hq => ?_
      cases q with
      | overlap => exact ho.resolve_left (by simp [hq rfl])
      | _ => assumption
    · intro hr
      refine ⟨⟨⟨⟨⟨⟨⟨⟨⟨hr.known ?_, hr.known ?_⟩, hr.known ?_⟩, hr.known ?_⟩, hr.known ?_⟩,
        hr.tables.1⟩, hr.tables.2⟩, ?_⟩, hr.known ?_⟩, hr.known ?_⟩
      case refine_6 =>
        cases ho : overlaps db with
        | false => exact .inl rfl
        | true => exact .inr (hr.known fun _ => ho)
      all_goals exact nofun
  unfold evaluate
  dsimp only
  rw [hcount]
  cases hk : Query.uploaded.known db r contacts with
  | true =>
    have hn : ¬ (part (r.tells .uploaded) (applied db account) : Int) < 0 := by omega
    simp only [if_true, number, hn, if_false]
    rw [hk, Bool.and_true] at hknown
    exact ⟨trivial, trivial, hknown⟩
  | false =>
    have hzero := @Query.part_unknown _ r account contacts h .uploaded hk
    rw [hk, Bool.and_false] at hknown
    simp only [number] at hzero
    simpa [hzero] using hknown

/-- The condition: no root is told twice or taken away untold, and uploads are not told alone. -/
structure Told (db : Database) (r : Refusals) (account : Int) (contacts : Bool) : Prop where
  roots : Disjoint (fieldRoots db account) (attentionRoots db account) ∨
    r.compares = (r.tells .pendingFields && r.tells .attention)
  uploaded : r.tells .unresolved = true ∨ r.tells .uploaded = false ∨
    applied db account ≤ others db account contacts r.tells

/-- **The pending number is what waits**, as far as it is told, exactly when the roots are. -/
theorem pending_iff (h : Unique db) :
    (pendingCount db r account contacts).1 = changes db account contacts r.tells ↔
      (Disjoint (fieldRoots db account) (attentionRoots db account) ∨
        r.compares = (r.tells .pendingFields && r.tells .attention)) := by
  rw [(pendingCount_eq h).1, Finset.disjoint_iff_inter_eq_empty, ← Finset.card_eq_zero]
  change _ ↔ number db account contacts .overlap = 0 ∨ _
  generalize number db account contacts .overlap = n
  generalize (r.tells .pendingFields && r.tells .attention) = both
  cases r.compares <;> cases both <;> simp [part] <;> omega

theorem attention_iff : part (r.tells .uploaded) (applied db account) ≤
    changes db account contacts r.tells ↔
      (r.tells .unresolved = true ∨ r.tells .uploaded = false ∨
        applied db account ≤ others db account contacts r.tells) := by
  have hle := @applied_le db account
  unfold changes
  cases r.tells .unresolved with
  | true =>
    refine iff_of_true ?_ (.inl rfl)
    cases r.tells .uploaded <;> simp [part]
    omega
  | false => cases r.tells .uploaded <;> simp [part]

theorem Readable.changes_eq (h : Unique db) (hr : Readable db r contacts) :
    changes db account contacts r.tells = changes db account contacts everything := by
  have hroots : ∀ {q : Query} {s : Finset String}, q ≠ .overlap →
      number db account contacts q = s.card → (if r.tells q then s else ∅) = s := by
    intro q s hq hs
    have hpart := @Readable.part_eq _ _ account _ h hr q hq
    cases ht : r.tells q with
    | true => rfl
    | false =>
      rw [ht, hs] at hpart
      exact (Finset.card_eq_zero.1 hpart.symm).symm
  have hfields := @hroots .pendingFields _ nofun rfl
  have hattention := @hroots .attention _ nofun rfl
  have hwrites := @Readable.part_eq _ _ account _ h hr .unresolved nofun
  have hactions := @Readable.part_eq _ _ account _ h hr .actions nofun
  have happlied := @Readable.part_eq _ _ account _ h hr .writeAttention nofun
  have hmirror := @Readable.part_eq _ _ account _ h hr .mirror nofun
  simp only [number] at hwrites hactions happlied hmirror
  simp only [changes, others, roots, hfields, hattention, hwrites, hactions, happlied, hmirror]
  rfl

/-- **Where everything is readable the condition is met.** -/
theorem Readable.told (h : Unique db) (hr : Readable db r contacts) :
    Told db r account contacts where
  roots := by
    cases ho : overlaps db with
    | false =>
      refine .inl (Finset.disjoint_iff_inter_eq_empty.2 (Finset.card_eq_zero.1 ?_))
      exact @Query.number_none _ account contacts h .overlap ho
    | true =>
      obtain ⟨hf, ha⟩ := Bool.and_eq_true_iff.1 ho
      have htells : ∀ q : Query, q.table db contacts = true → r.tells q = true := by
        intro q hq
        simp [Refusals.tells, hr.schema q fun _ => ho, hr.query q (fun _ => ho) hq]
      refine .inr ?_
      rw [Refusals.compares, hr.tables.1, hr.tables.2, htells .overlap hf,
        htells .pendingFields hf, htells .attention ha]
      rfl
  uploaded := by
    cases ht : db.writeOperations with
    | some os =>
      have hq : Query.unresolved.table db contacts = true := by
        rw [Query.table, ht]
        rfl
      have hplain : Query.unresolved = .overlap → overlaps db = true := by
        intro he
        cases he
      refine .inl ?_
      simp [Refusals.tells, hr.schema .unresolved hplain, hr.query .unresolved hplain hq]
    | none =>
      refine .inr (.inr ?_)
      rw [applied, ht]
      exact Nat.zero_le _

/-- Nothing waits, the run is complete and neither failed nor stopping, and everything was read. -/
structure Success (db : Database) (r : Refusals) (account : Int)
    (contacts complete failed stopping : Bool) : Prop where
  none : changes db account contacts everything = 0
  complete : complete = true
  sound : failed = false
  running : stopping = false
  readable : Readable db r contacts

/-- **The success is advanced exactly when there is one**, and so is the phase, whatever is
refused. -/
theorem evaluate_success (h : Unique db) (complete failed stopping : Bool) :
    ((evaluate db r account contacts complete failed stopping).phase = .upToDate ↔
        Success db r account contacts complete failed stopping) ∧
      ((evaluate db r account contacts complete failed stopping).advanceSuccess = true ↔
        Success db r account contacts complete failed stopping) := by
  obtain ⟨hpending, huploaded, hknown⟩ :=
    @evaluate_eq db r account contacts h complete failed stopping
  have hsum : Readable db r contacts → (pendingCount db r account contacts).1 =
      changes db account contacts everything := fun hr =>
    ((pending_iff h).2 (hr.told h).roots).trans (congrArg Nat.cast (hr.changes_eq h))
  have hle : part (r.tells .uploaded) (applied db account) ≤
      changes db account contacts everything := by
    refine (le_trans ?_ (@applied_le db account)).trans (Nat.le_add_right _ _)
    cases r.tells .uploaded <;> simp [part]
  generalize hr : evaluate db r account contacts complete failed stopping = result at *
  have hattention : result.attention = result.pending - result.uploaded := by
    rw [← hr]
    rfl
  have hphase : result.phase = if stopping then .stopping else if failed then .error
      else if !result.known || result.attention ≠ 0 || (!complete && result.uploaded = 0) then
        .attention
      else if result.uploaded ≠ 0 then .uploaded else .upToDate := by
    rw [← hr]
    rfl
  have hadvance : result.advanceSuccess =
      (!stopping && !failed && complete && result.known && result.pending = 0) := by
    rw [← hr]
    rfl
  constructor
  · constructor
    · intro hp
      rw [hphase] at hp
      split_ifs at hp with hs hf ho hu
      simp only [Bool.or_eq_true, Bool.not_eq_true', Bool.and_eq_true, decide_eq_true_iff, not_or,
        Bool.not_eq_false, not_and, ne_eq, not_not] at ho hu
      obtain ⟨⟨hk, ha⟩, hc⟩ := ho
      have hread := hknown.1 hk
      have hzero := hsum hread
      refine ⟨by omega, ?_, by simpa using hf, by simpa using hs, hread⟩
      by_contra hno
      exact hc (by simpa using hno) hu
    · intro hs
      have hk := hknown.2 hs.readable
      have hzero := hs.none
      have hall := hsum hs.readable
      have hu : result.uploaded = 0 := by omega
      have ha : result.attention = 0 := by omega
      rw [hphase, hs.running, hs.sound, hs.complete, hk, hu, ha]
      rfl
  · rw [hadvance]
    simp only [Bool.and_eq_true, Bool.not_eq_true', decide_eq_true_iff]
    constructor
    · intro hall
      obtain ⟨⟨⟨⟨hs, hf⟩, hc⟩, hk⟩, hp⟩ := hall
      have hzero := hsum (hknown.1 hk)
      exact ⟨by omega, hc, hf, hs, hknown.1 hk⟩
    · intro hs
      have hzero := hs.none
      have hall := hsum hs.readable
      exact ⟨⟨⟨⟨hs.running, hs.sound⟩, hs.complete⟩, hknown.2 hs.readable⟩, by omega⟩

/-! ## Other accounts -/

/-- The rows of an account; one that names a write, a collection or a calendar is of its account. -/
def Database.own (db : Database) (account : Int) : Database where
  writeOperations := db.writeOperations.map (List.filter fun o => o.account = account)
  twoWayPendingFields := db.twoWayPendingFields.map (List.filter fun p => p.account = account)
  twoWayAttention := db.twoWayAttention.map (List.filter fun a => a.account = account)
  calendarActions := db.calendarActions.map (List.filter fun a => a.account = account)
  writeAttention := db.writeAttention.map (List.filter fun a =>
    (rows db.writeOperations).any fun o => o.id = a.operation && o.account = account)
  collections := db.collections.map (List.filter fun b => b.account = account)
  contacts := db.contacts.map (List.filter fun c =>
    (rows db.collections).any fun b => b.id = c.collection && b.account = account)
  calendars := db.calendars.map (List.filter fun c => c.account = account)
  calendarResources := db.calendarResources.map (List.filter fun r =>
    (rows db.calendars).any fun c => c.id = r.calendar && c.account = account)

theorem countP_own {p q : R → Bool} (h : ∀ r, q r = true → p r = true) (l : List R) :
    (l.filter p).countP q = l.countP q := by
  rw [List.countP_filter]
  refine List.countP_congr fun r _ => ?_
  rw [Bool.and_eq_true]
  exact ⟨fun hr => hr.1, fun hr => ⟨hr, h r hr⟩⟩

theorem joinCount_own {l : List R} {m : List S} {p : R → S → Bool} {f : R → Bool} {g : S → Bool}
    (h : ∀ a, ∀ b ∈ m, p a b = true → f a = true ∧ g b = true) :
    joinCount (l.filter f) (m.filter g) p = joinCount l m p := by
  have hinner : ∀ a, (m.filter g).countP (p a) = m.countP (p a) := by
    intro a
    rw [List.countP_filter]
    refine List.countP_congr fun b hb => ?_
    rw [Bool.and_eq_true]
    exact ⟨fun hr => hr.1, fun hr => ⟨hr, (h a b hb hr).2⟩⟩
  unfold joinCount
  simp only [hinner]
  induction l with
  | nil => rfl
  | cons a l ih =>
    cases hf : f a with
    | true => rw [List.filter_cons_of_pos hf, List.map_cons, List.sum_cons, ih, List.map_cons,
        List.sum_cons]
    | false =>
      have hzero : m.countP (p a) = 0 := by
        refine List.countP_eq_zero.2 fun b hb hp => ?_
        rw [(h a b hb hp).1] at hf
        cases hf
      rw [List.filter_cons_of_neg (by simp [hf]), List.map_cons, List.sum_cons, hzero, ih,
        Nat.zero_add]

theorem count_own {t : Option (List R)} {p q : R → Bool} (h : ∀ a, q a = true → p a = true) :
    ((t.map (List.filter p)).map fun l => l.countP q) = t.map fun l => l.countP q := by
  rw [Option.map_map]
  congr 1
  funext l
  exact countP_own h l

theorem join_own {t : Option (List R)} {u : Option (List S)} {f : R → Bool} {g : S → Bool}
    {p : R → S → Bool} (h : ∀ a, ∀ b ∈ rows u, p a b = true → f a = true ∧ g b = true) :
    ((t.map (List.filter f)).bind fun l => (u.map (List.filter g)).map fun m => joinCount l m p) =
      t.bind fun l => u.map fun m => joinCount l m p := by
  cases t with
  | none => rfl
  | some l =>
    cases u with
    | none => rfl
    | some m => exact congrArg some (joinCount_own h)

/-- **The queries see the rows of the account only.** -/
theorem Query.answer_own (db : Database) (account : Int) (contacts : Bool) (q : Query) :
    answer (db.own account) account contacts q = answer db account contacts q := by
  cases q with
  | unresolved => exact count_own fun o ho => (Bool.and_eq_true_iff.1 ho).1
  | pendingFields => exact count_own fun p hp => hp
  | attention => exact count_own fun a ha => ha
  | actions => exact count_own fun a ha => (Bool.and_eq_true_iff.1 ha).1
  | uploaded => exact count_own fun o ho => (Bool.and_eq_true_iff.1 ho).1
  | writeAttention =>
    refine join_own fun a o ho hp => ?_
    simp only [Bool.and_eq_true] at hp
    exact ⟨List.any_eq_true.2 ⟨o, ho, Bool.and_eq_true_iff.2 hp.1⟩, hp.1.2⟩
  | overlap =>
    refine join_own fun p a _ hp => ?_
    simp only [Bool.and_eq_true, decide_eq_true_iff] at hp ⊢
    exact ⟨hp.2, hp.1.1.trans hp.2⟩
  | mirror =>
    cases contacts with
    | true =>
      refine join_own fun c b hb hp => ?_
      simp only [Bool.and_eq_true] at hp
      exact ⟨List.any_eq_true.2 ⟨b, hb, Bool.and_eq_true_iff.2 hp.1.1⟩, hp.1.1.2⟩
    | false =>
      refine join_own fun r c hc hp => ?_
      simp only [Bool.and_eq_true] at hp
      exact ⟨List.any_eq_true.2 ⟨c, hc, Bool.and_eq_true_iff.2 hp.1.1.1⟩, hp.1.1.1.2⟩

theorem evaluate_own (db : Database) (r : Refusals) (account : Int)
    (contacts complete failed stopping : Bool) :
    evaluate (db.own account) r account contacts complete failed stopping =
      evaluate db r account contacts complete failed stopping := by
  have hanswer := Query.answer_own db account contacts
  have hcount : ∀ {R : Type} (q : Query) (t : Option (List R)) (f : List R → List R)
      (n : Option Nat), count r q (t.map f) n = count r q t n := by
    intro R q t f n
    cases t <;> rfl
  have htable : ∀ {R : Type} (refused : Bool) (t : Option (List R)) (f : List R → List R),
      hasTable refused (t.map f) = hasTable refused t := by
    intro R refused t f
    cases t <;> rfl
  have hunresolved := hanswer .unresolved
  have hfields := hanswer .pendingFields
  have hattention := hanswer .attention
  have hactions := hanswer .actions
  have happlied := hanswer .writeAttention
  have hoverlap := hanswer .overlap
  have hmirror := hanswer .mirror
  have huploaded := hanswer .uploaded
  simp only [answer] at hunresolved hfields hattention hactions happlied hoverlap hmirror huploaded
  unfold evaluate pendingCount
  rw [hunresolved, hfields, hattention, hactions, happlied, hoverlap, huploaded]
  cases contacts with
  | true =>
    simp only [if_true] at hmirror ⊢
    rw [hmirror]
    simp only [Database.own, hcount, htable]
  | false =>
    simp only [Bool.false_eq_true, if_false] at hmirror ⊢
    rw [hmirror]
    simp only [Database.own, hcount, htable]

/-! ## What the status says -/

/-- The status is honest: it tells what waits, as far as the statements are answered, its attention
is not below nothing, it claims no success that is not there, and it is about the account. -/
structure Honest (db : Database) (r : Refusals) (account : Int)
    (contacts complete failed stopping : Bool) : Prop where
  pending : (evaluate db r account contacts complete failed stopping).pending =
    changes db account contacts r.tells
  whole : Readable db r contacts →
    (evaluate db r account contacts complete failed stopping).pending =
      changes db account contacts everything
  attention : 0 ≤ (evaluate db r account contacts complete failed stopping).attention
  upToDate : (evaluate db r account contacts complete failed stopping).phase = .upToDate →
    Success db r account contacts complete failed stopping
  advance : (evaluate db r account contacts complete failed stopping).advanceSuccess = true ↔
    Success db r account contacts complete failed stopping
  own : ∀ db' : Database, db'.own account = db.own account →
    evaluate db' r account contacts complete failed stopping =
      evaluate db r account contacts complete failed stopping

/-- **`RCStatusEvaluate` is honest exactly when no root is told twice or taken away untold and the
uploads are not told alone**; whatever is refused, it claims no false success. -/
theorem evaluate_honest (db : Database) (r : Refusals) (account : Int)
    (contacts complete failed stopping : Bool) (h : Unique db) :
    Honest db r account contacts complete failed stopping ↔ Told db r account contacts := by
  obtain ⟨hpending, huploaded, -⟩ :=
    @evaluate_eq db r account contacts h complete failed stopping
  obtain ⟨hphase, hadvance⟩ :=
    @evaluate_success db r account contacts h complete failed stopping
  have hattention : (evaluate db r account contacts complete failed stopping).attention =
      (evaluate db r account contacts complete failed stopping).pending -
        (evaluate db r account contacts complete failed stopping).uploaded := rfl
  constructor
  · intro hhonest
    have hsum := hpending.symm.trans hhonest.pending
    have hle := hhonest.attention
    rw [hattention, huploaded, hhonest.pending] at hle
    exact ⟨(pending_iff h).1 hsum, attention_iff.1 (by omega)⟩
  · intro htold
    have hsum : (pendingCount db r account contacts).1 = changes db account contacts r.tells :=
      (pending_iff h).2 htold.roots
    have hle := attention_iff.2 htold.uploaded
    refine ⟨hpending.trans hsum, fun hr => ?_, ?_, hphase.1, hadvance, fun db' hown => ?_⟩
    · rw [hpending, hsum, hr.changes_eq h]
    · rw [hattention, huploaded, hpending, hsum]
      omega
    · rw [← evaluate_own db', hown, evaluate_own]

/-- Nothing is refused. -/
def answered : Refusals where
  schema _ := false
  query _ := false
  fieldsTable := false
  attentionTable := false

/-- A write of another account, a root with pending fields and attention, and other attention. -/
def birthday : Database where
  writeOperations := some [⟨7, 2, "uncertain"⟩]
  twoWayPendingFields := some [⟨1, "birthday"⟩]
  twoWayAttention := some [⟨1, "birthday"⟩, ⟨1, "unrelated"⟩]
  calendarActions := none
  writeAttention := none
  collections := none
  contacts := none
  calendars := none
  calendarResources := none

theorem evaluate_honest_birthday :
    Honest birthday answered 1 true true false false ∧
      changes birthday 1 true everything = 2 :=
  ⟨(evaluate_honest birthday answered 1 true true false false
    ⟨by decide, by decide, by decide, by decide, by decide⟩).2
      ⟨.inr (by decide), .inl (by decide)⟩, by decide⟩

/-- One upload, and no row of the mirror. -/
def lunch : Database where
  writeOperations := some [⟨1, 1, "applied"⟩]
  twoWayPendingFields := none
  twoWayAttention := none
  calendarActions := none
  writeAttention := none
  collections := some []
  contacts := some []
  calendars := none
  calendarResources := none

/-- The database is busy while the unresolved writes are counted, and free afterwards. -/
def busyOnce : Refusals where
  schema _ := false
  query q := q = .unresolved
  fieldsTable := false
  attentionTable := false

/-- The upload is told alone. -/
theorem evaluate_refused : Unique lunch ∧
    (evaluate lunch busyOnce 1 true true false false).attention = -1 ∧
      ¬ Honest lunch busyOnce 1 true true false false :=
  ⟨⟨by decide, by decide, by decide, by decide, by decide⟩, by decide,
    fun h => absurd h.attention (by decide)⟩

end Status
