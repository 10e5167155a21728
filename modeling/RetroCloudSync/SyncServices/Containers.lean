import RetroCloudSync.SyncServices.Untouched

/-!
# Which calendars are left alone

A calendar that contains a touched record in the mirror is left alone only if some unresolved write
or unfinished operation leads to it. Otherwise a fast session that nothing interrupts reaches the
push or the deletion of that calendar (`asks_push`, `asks_delete`).
-/

set_option autoImplicit false

namespace SyncServices

open Library Journal Native TwoWay Calendar Value FieldValue Prog
open Exchange (Context Stop ExchangeM cstring items act hasPrefix)

variable {V : Type} [GraphValue V] {c : Context V} {s : Situation V}

/-! ## A session that nothing interrupts -/

section
variable {full : Bool} {α : Type}

omit [GraphValue V] in
theorem leads_journaled {x : ExchangeM V α} {a : α}
    (h : Leads (fun w q a w' => w' = w ∧ told s q a) x full (.ret a) full) :
    Leads (answers s) (journaled x) full (.ret a) full := by
  have hl : Leads (answers s) x.left full (left (.ret a)) full := leads_left h
  exact hl

theorem leads_protectAction {a : String × String × String} {busy : List String} :
    Leads (fun w q a w' => w' = w ∧ told s q a)
      (Exchange.protectAction { c with
        resources := c.resources.map fun r => mapResource r s.aliases
        graph := mirror c s } busy a) full (.ret (protecting c s busy a)) full := by
  refine leads_foldlM fun id _ busy => ?_
  unfold guardTarget
  by_cases hc : ((mirror c s).lookup id).bind entity = some "com.apple.calendars.Calendar"
  · rw [if_pos hc, if_pos hc]
    refine leads_then (leads_ask (a := s.collections id) ⟨rfl, rfl⟩ leads_refl) ?_
    cases s.collections id with
    | some url => exact leads_refl
    | none => exact leads_refl
  · rw [if_neg hc, if_neg hc]
    exact leads_refl

theorem leads_protect :
    Leads (answers s) (protect c (byHref c) s.aliases
      (c.resources.map fun r => mapResource r s.aliases) (mirror c s)) full
      (.ret (busyRecords c s)) full := by
  have hpending : answers s full (.inr .unresolved) (.ok s.pending) full :=
    ⟨rfl, fun l hl => (Except.ok.inj hl).symm⟩
  refine leads_then (leads_ask hpending leads_refl) ?_
  unfold busyRecords
  split
  · exact leads_refl
  · refine leads_journaled (leads_then (leads_ask (a := .ok ()) ⟨rfl, trivial⟩ leads_refl) ?_)
    refine leads_then (leads_ask (a := .ok s.live)
      ⟨rfl, fun l hl => (Except.ok.inj hl).symm⟩ leads_refl) ?_
    exact leads_foldlM fun a _ busy => leads_protectAction

omit [GraphValue V] in
theorem leads_during {phase : String} {x : SessionM V α} {a : α} {full' : Bool}
    (h : Leads (answers s) x full (.ret a) full') :
    Leads (answers s) (during phase x) full (.ret a) full' :=
  leads_rescue h

omit [GraphValue V] in
/-- One entity type is enough for a session. -/
theorem leads_register :
    Leads (answers s) (register c) full (.ret ["com.apple.calendars.Calendar"]) full := by
  refine leads_then (leads_ask (a := .ok ()) rfl leads_refl) ?_
  refine leads_then (leads_ask (a := .ok (true, ["com.apple.calendars.Calendar"])) rfl
    leads_refl) ?_
  refine leads_then (leads_foldlM (g := fun _ _ => ()) fun entity _ _ => ?_) leads_refl
  exact leads_then (leads_ask (a := .ok true) rfl leads_refl) leads_refl

omit [GraphValue V] in
theorem leads_completed {hrefs : Dict String (Wire V)} :
    Leads (answers s) (completed hrefs) full (.ret s.aliases) full := by
  refine leads_then (leads_during (leads_journaled
    (leads_ask (a := .ok ∅) ⟨rfl, trivial⟩ leads_refl))) ?_
  exact leads_during (leads_journaled (leads_ask (a := .ok s.aliases)
    ⟨rfl, fun l hl => (Except.ok.inj hl).symm⟩ leads_refl))

theorem leads_mapAll (rs done : List (Wire V)) (aliases : Dict String String) :
    Leads (answers s) (rs.foldlM (mapOne aliases) done) full
      (.ret (done ++ rs.map fun r => mapResource r aliases)) full := by
  induction rs generalizing done with
  | nil =>
    rw [List.map_nil, List.append_nil]
    exact leads_refl
  | cons r rs ih =>
    rw [List.foldlM_cons]
    refine leads_then (leads_then (leads_ask (a := .ok ()) rfl leads_refl) leads_refl) ?_
    have h := ih (done ++ [mapResource r aliases])
    rwa [List.append_assoc, List.singleton_append] at h

/-- The session starts with the busy records and the last checkpoint. -/
theorem leads_prepare : ∃ resources known,
    Leads (answers s) (prepare c (byHref c) s.aliases) full
      (.ret (resources, busyRecords c s, s.published, known)) full := by
  refine ⟨[] ++ c.resources.map fun r => mapResource r s.aliases,
    ([] ++ c.resources.map fun r => mapResource r s.aliases).map Wire.root ++ busyRecords c s ++
      s.published.keys ++ s.aliases.entries.map Sigma.snd ++ [],
    leads_then (leads_ask (a := .ok ()) rfl leads_refl) ?_⟩
  refine leads_then (leads_mapAll c.resources [] s.aliases) ?_
  refine leads_then leads_protect ?_
  refine leads_then (leads_ask (a := .ok s.published)
    ⟨rfl, fun g hg => (Except.ok.inj hg).symm⟩ leads_refl) ?_
  exact leads_then (leads_then (leads_ask (a := .ok []) rfl leads_refl) leads_refl) leads_refl

omit [GraphValue V] in
/-- A fast session. -/
theorem leads_openSession {entities : List String} :
    Leads (answers s) (openSession entities) full (.ret ()) full := by
  refine leads_then (leads_ask (a := .ok true) rfl leads_refl) ?_
  exact leads_foldlM (g := fun _ _ => ()) fun entity _ _ =>
    leads_then (leads_ask (a := .ok false) rfl leads_refl) leads_refl

omit [GraphValue V] in
theorem leads_choosePush {entities busy : List String} (hb : busy ≠ []) :
    Leads (answers s) (choosePush entities busy) full (.ret ()) full := by
  unfold choosePush
  rw [if_neg (by simpa using hb)]
  refine leads_foldlM (g := fun _ _ => ()) fun entity _ _ =>
    leads_then (leads_ask (a := .ok false) ?_ leads_refl) leads_refl
  exact .inr ⟨rfl, fun h => by cases h⟩

/-- Whatever the push asks, some pass asks. -/
theorem asks_exchange {q : Question V} (h : ∀ entities, Asks (answers s)
      (publish (mirror c s) s.published entities (busyRecords c s)) false q false) :
    Asks (answers s) (exchange c) false q false := by
  obtain ⟨resources, known, hprepare⟩ := @leads_prepare V _ c s false
  have hpass : Asks (answers s) (pass c) false q false :=
    asks_then (leads_during leads_register) (asks_then leads_completed
      (asks_then (leads_during hprepare) (asks_then (leads_during leads_openSession)
        (asks_bind (asks_rescue (h _))))))
  have hdrop : Leads (answers s) (dropExclusions c) false (.ret ()) false := by
    unfold dropExclusions
    split
    · exact leads_ask (a := .ok ()) rfl leads_refl
    · exact leads_refl
  refine asks_rescue (asks_then (leads_journaled (leads_ask (a := .ok ()) ⟨rfl, trivial⟩
    leads_refl)) (asks_then hdrop (asks_bind (asks_rescue (asks_bind hpass)))))

omit [GraphValue V] in
/-- Any record of the graph that is not busy is pushed. -/
theorem leads_pushRecord {graph : Graph V} {busy : List String} (key : String) :
    Leads (answers s) (pushRecord graph busy () key) full (.ret ()) full := by
  unfold pushRecord
  split
  · split
    · exact leads_refl
    · exact leads_ask (a := .ok ()) rfl leads_refl
  · exact leads_refl

omit [GraphValue V] in
theorem leads_deleteRecord {graph : Graph V} {busy : List String} (key : String) :
    Leads (answers s) (deleteRecord graph busy () key) full (.ret ()) full := by
  unfold deleteRecord
  split
  · exact leads_ask (a := .ok ()) rfl leads_refl
  · exact leads_refl

theorem asks_push (hb : busyRecords c s ≠ []) {key : String} {record : Record V}
    (hk : (mirror c s).lookup key = some record) (hn : key ∉ busyRecords c s) :
    Asks (answers s) (exchange c) false (.inr (.push record key)) false := by
  have hm : key ∈ (mirror c s).keys := Dict.mem_keys_iff.2 (by simp [hk])
  refine asks_exchange fun entities => asks_then (leads_choosePush hb)
    (asks_bind (asks_foldlM hm (fun key _ => leads_pushRecord key) ?_))
  unfold pushRecord
  rw [hk]
  have hc : (busyRecords c s).contains key = false := by
    rw [Bool.eq_false_iff]
    exact fun h => hn (List.contains_iff_mem.1 h)
  simp only [hc]
  exact asks_ask

theorem asks_delete (hb : busyRecords c s ≠ []) {key : String}
    (hk : (mirror c s).lookup key = none) (hp : s.published.lookup key ≠ none)
    (hn : key ∉ busyRecords c s) :
    Asks (answers s) (exchange c) false (.inr (.delete key)) false := by
  refine asks_exchange fun entities => asks_then (leads_choosePush hb)
    (asks_then (leads_foldlM (g := fun _ _ => ()) fun key _ _ => leads_pushRecord key) ?_)
  rw [if_neg (by simpa using hb)]
  refine asks_foldlM (Dict.mem_keys_iff.2 hp) (fun key _ => leads_deleteRecord key) ?_
  have hc : (busyRecords c s).contains key = false := by
    rw [Bool.eq_false_iff]
    exact fun h => hn (List.contains_iff_mem.1 h)
  unfold deleteRecord
  simp only [hk, hc]
  exact asks_ask

end

/-! ## The main theorem -/

/-- **Unresolved resources are left alone**: the touched records and the calendars the newest
versions of the written records list always, and the calendars that contain a touched record in the
mirror exactly if each that could be published or deleted is one of them. -/
theorem untouched_iff (c : Context V) (s : Situation V) :
    Untouched c s (fun id => Touched c s id ∨ Carried c s id) ∧
    (Untouched c s (Unresolved c s) ↔ ∀ calendar id, Touched c s id → Contains c s calendar id →
      (mirror c s).lookup calendar ≠ none ∨ s.published.lookup calendar ≠ none →
        Touched c s calendar ∨ Carried c s calendar) := by
  have hsome : ∀ {id}, Touched c s id ∨ Carried c s id → busyRecords c s ≠ [] := by
    intro id h hb
    have hm := mem_busyRecords.2 h
    rw [hb] at hm
    cases hm
  refine ⟨untouched_of_covers ⟨fun id h => .inl (mem_busyRecords.2 h),
    fun hb id h => hsome h hb⟩, ?_, ?_⟩
  · intro h calendar id ht hcon hthere
    by_contra hn
    have hnb : calendar ∉ busyRecords c s := fun hm => hn (mem_busyRecords.1 hm)
    have hb := hsome (.inl ht)
    have hu : Unresolved c s calendar := .inr ⟨id, ht, hcon⟩
    cases hm : (mirror c s).lookup calendar with
    | some record => exact (h _ _ (asks_push hb hm hnb)).1 hu
    | none =>
      have hp := hthere.resolve_left (not_not.2 hm)
      exact (h _ _ (asks_delete hb hm hp hnb)).1 hu
  · intro h
    refine untouched_of_covers ⟨fun calendar hu => ?_, fun hb calendar hu => ?_⟩
    · rcases hu with ht | ⟨id, ht, hcon⟩
      · exact .inl (mem_busyRecords.2 (.inl ht))
      · by_cases hthere : (mirror c s).lookup calendar ≠ none ∨ s.published.lookup calendar ≠ none
        · exact .inl (mem_busyRecords.2 (h calendar id ht hcon hthere))
        · rw [not_or, not_not, not_not] at hthere
          exact .inr hthere
    · rcases hu with ht | ⟨id, ht, -⟩
      · exact hsome (.inl ht) hb
      · exact hsome (.inl ht) hb

/-! ## An event at a new address -/

def event : Graph Plist :=
  Dict.ofList [("e", Dict.ofList [(entityKey, .text "com.apple.calendars.Event"),
    ("calendar", .list ["home"])])]

def calendar (events : List String) : Record Plist :=
  Dict.ofList [(entityKey, .text "com.apple.calendars.Calendar"), ("events", .list events)]

def eventResource : Wire Plist where
  key := "resource-1"
  href := "https://dav/home/new.ics"
  etag := some "\"v2\""
  body := ascii "BEGIN:VCALENDAR"
  revision := 2
  root := "e"
  graph := event
  paths := ∅

/-- Another client gave the event a new address in its calendar. -/
def renamed : Context Plist where
  account := 7
  rootEntity := "com.apple.calendars.Event"
  resources := [eventResource]
  graph := Dict.update (Dict.ofList [("home", calendar ["e"]), ("work", calendar [])]) event
  encoder := fun _ _ _ => .error ⟨1, "Calendar edit cannot be represented safely"⟩
  host := fun _ => none

/-- Its move to another calendar is not done. -/
def moving : Situation Plist where
  aliases := ∅
  pending := []
  live := [("e", "https://dav/home/old.ics", "https://dav/work/old.ics")]
  collections := fun id => (Dict.ofList [("home", "https://dav/home/"),
    ("work", "https://dav/work/")]).lookup id
  published := ∅

theorem busyRecords_renamed : busyRecords renamed moving = ["work", "e"] := by decide +kernel

/-- The calendar that contains the event is published. -/
theorem untouched_iff_renamed : ¬ Untouched renamed moving (Unresolved renamed moving) := by
  intro h
  obtain ⟨record, hm⟩ : ∃ record, (mirror renamed moving).lookup "home" = some record :=
    Option.isSome_iff_exists.1 (by decide +kernel)
  have ht : Touched renamed moving "e" :=
    .inr ⟨by decide +kernel, _, List.mem_cons_self, .inl rfl⟩
  have hcon : Contains renamed moving "home" "e" := .inr (by decide +kernel)
  have hb : busyRecords renamed moving ≠ [] := by rw [busyRecords_renamed]; simp
  have hn : "home" ∉ busyRecords renamed moving := by
    rw [busyRecords_renamed]
    decide
  exact (h _ _ (asks_push hb hm hn)).1 (.inr ⟨"e", ht, hcon⟩)

end SyncServices
