import RetroCloudSync.Library.Interaction
import RetroCloudSync.Dav.Document

/-!
# Sync reports of a collection

`RCDAVSyncCollection`: a program that asks for one report after the other, hands each page that it
accepts to its callback, and goes on with the token of the page while the server says that there is
more. The server is free to answer anything.

`Log`: the reports that were requested, with their answers, and the pages handed on. Everything
claimed about a run is read off its log.
-/

set_option autoImplicit false

namespace Dav

open Library Library.Prog Journal

/-- `RCDAVResource`: in a sync report no ETag denotes a deletion. -/
structure Change where
  url : Bytes
  etag : Option Bytes
deriving DecidableEq, Repr

/-- The fields of `RCHTTPResponse` that a report reads, with what libxml2 makes of the body. -/
structure Report where
  statusCode : Int
  effectiveURL : Bytes
  bodyLength : Nat
  document : Option Document

/-! ## One page -/

/-- One slash less at the end. -/
def dropSlash (url : Bytes) : Bytes := if url.getLast? = some 0x2f then url.dropLast else url

/-- `RCIsSyncCollectionURL`. -/
def isSyncCollectionURL (href collectionURL : Bytes) : Bool :=
  if href = collectionURL then true
  else if 0x3f ∈ href ∨ 0x23 ∈ href ∨ 0x3f ∈ collectionURL ∨ 0x23 ∈ collectionURL then false
  else dropSlash href = dropSlash collectionURL

/-- What the nodes of a page have shown so far. -/
structure Page where
  returned : Option Bytes
  more : Bool
  changes : List Change

def incomplete : RCError := ⟨1, "Incomplete, invalid, or excessive DAV sync response"⟩

/-- The status code a response states, zero when it states none. -/
def memberCode (response : Node) : Int :=
  (response.childText (ascii "status")).elim 0 scanStatus

/-- The ETag of a member, none when it was deleted. -/
def memberETag (response : Node) : Option Bytes :=
  if memberCode response = 404 then none
  else (response.successfulProperty (ascii "getetag")).map Node.content

/-- A `response`, whose `href` has been resolved. -/
def readMember (base : Bytes) (p : Page) (node : Node) (resolved : Bytes) : Except RCError Page :=
  let stated := (node.childText (ascii "status")).isSome
  let code := memberCode node
  let isCollection := isSyncCollectionURL resolved base
  let split := (node.findChild (ascii "propstat")).isSome
  let failed := (node.findDescendant (ascii "error")).isSome
  if code = 507 && isCollection && !p.more && !split then .ok { p with more := true }
  else if isCollection && !stated && !failed &&
      (node.successfulProperty (ascii "getetag")).isSome then .ok p
  else if (stated && (code ≠ 404 || split)) || isCollection || failed then .error incomplete
  else if code ≠ 404 && (memberETag node).getD [] = [] then .error incomplete
  else if p.changes.any fun c => c.url = resolved then .error incomplete
  else .ok { p with changes := p.changes ++ [⟨resolved, memberETag node⟩] }

/-- One node below the root. -/
def readNode (resolve : Bytes → Bytes → Option Bytes) (base : Bytes) (p : Page) (node : Node) :
    Except RCError Page :=
  if node.is (ascii "sync-token") then
    if p.returned.isSome then .error incomplete else .ok { p with returned := some node.content }
  else if node.is (ascii "error") then .error incomplete
  else if !node.is (ascii "response") then .ok p
  else match node.childText (ascii "href") with
    | none => .error incomplete
    | some href =>
      if href = [] then .error incomplete
      else match resolve base href with
        | none => .error ⟨1, "Could not resolve DAV href"⟩
        | some resolved => readMember base p node resolved

/-- A page that was accepted: its token, whether more is to come, its changes. -/
structure Accepted where
  token : Bytes
  more : Bool
  changes : List Change
deriving DecidableEq

/-- The checks on the page as a whole, given the tokens requested so far. -/
def Page.accept (used : List Bytes) (p : Page) : Except RCError Accepted :=
  match p.returned with
  | none => .error incomplete
  | some token =>
    if token = [] ∨ 16384 < token.length ∨ (p.more = true ∧ p.changes = []) then .error incomplete
    else if (p.more = true ∨ p.changes ≠ []) ∧ token ∈ used then .error incomplete
    else .ok ⟨token, p.more, p.changes⟩

/-- How one report is understood. -/
inductive Reading
  | page (p : Accepted)
  | fallback
  | failed (e : RCError)
deriving DecidableEq

/-- The server cannot answer from this token, or not at all. -/
def unsupported (r : Report) (root : Node) : Bool :=
  ((r.statusCode = 403 || r.statusCode = 409) &&
    ((root.findChild (ascii "valid-sync-token")).isSome ||
      (root.findChild (ascii "supported-report")).isSome)) ||
  (r.statusCode = 507 && (root.findChild (ascii "number-of-matches-within-limits")).isSome)

/-- From the response to a report to what is done about it. -/
def readReport (resolve : Bytes → Bytes → Option Bytes) (used : List Bytes) (r : Report) :
    Reading :=
  if r.statusCode = 405 ∨ r.statusCode = 501 then .fallback
  else if 0x7fffffff < r.bodyLength then .failed incomplete
  else match r.document with
    | none => .failed incomplete
    | some doc =>
      if doc.dtd then .failed incomplete
      else if doc.root.is (ascii "error") then
        if unsupported r doc.root then .fallback else .failed incomplete
      else if r.statusCode ≠ 207 ∨ doc.root.is (ascii "multistatus") = false then
        .failed incomplete
      else
        match doc.root.children.foldlM (readNode resolve r.effectiveURL) ⟨none, false, []⟩ >>=
            Page.accept used with
        | .ok p => .page p
        | .error e => .failed e

/-! ## The loop -/

/-- What the loop asks: whether shutdown was requested, for the report since a token, and for the
callback to take the changes of a page. -/
inductive Question
  | cancelled
  | report (token : Bytes)
  | page (changes : List Change)

def Question.Answer : Question → Type
  | cancelled => Bool
  | report _ => Except RCError Report
  | page _ => Except RCError Unit

/-- A write beyond the end of `tokens`. -/
inductive Overflow
  | tokens

abbrev SyncProg := Prog Question Question.Answer Overflow

/-- `RCDAVSyncFailed`, `RCDAVSyncComplete` and `RCDAVSyncFallback`. -/
inductive SyncResult
  | failed (e : RCError)
  | complete
  | fallback

/-- The result and `*nextToken`. -/
structure Synced where
  result : SyncResult
  nextToken : Option Bytes

/-- `tokens[tokenCount++] = token`, in an array of 1025. -/
def pushToken (tokens : List Bytes) (token : Bytes) : SyncProg (List Bytes) :=
  if tokens.length < 1025 then .ret (tokens ++ [token]) else .raise .tokens

/-- `RCCheckCancellation`. -/
def shutdown : RCError := ⟨-9999, "Shutdown requested"⟩

/-- The callback, when there is one. -/
def handOn (callback : Bool) (changes : List Change) : SyncProg (Except RCError Unit) :=
  if callback then .ask (.page changes) .ret else .ret (.ok ())

/-- The page has been handed on: it was the last one, or the loop goes on with its token. -/
def advance (next : List Bytes → SyncProg Synced) (tokens : List Bytes) (p : Accepted) :
    Except RCError Unit → SyncProg Synced
  | .error e => .ret ⟨.failed e, none⟩
  | .ok () => do
    let tokens ← pushToken tokens p.token
    if p.more then next tokens else pure ⟨.complete, tokens.getLast?⟩

/-- The loop of `RCDAVSyncCollection`, with the turns that are left and the tokens used so far. -/
def syncPages (resolve : Bytes → Bytes → Option Bytes) (callback : Bool) :
    Nat → List Bytes → SyncProg Synced
  | 0, _ => .ret ⟨.failed incomplete, none⟩
  | left + 1, tokens =>
    .ask .cancelled fun (stop : Bool) =>
      if stop then .ret ⟨.failed shutdown, none⟩
      else
        let token := tokens.getLast?.getD []
        if 16384 < token.length then .ret ⟨.failed incomplete, none⟩
        else .ask (.report token) fun (answer : Except RCError Report) =>
          match answer with
          | .error e => .ret ⟨.failed e, none⟩
          | .ok r =>
            match readReport resolve tokens r with
            | .failed e => .ret ⟨.failed e, none⟩
            | .fallback => .ret ⟨.fallback, none⟩
            | .page p =>
              handOn callback p.changes >>= advance (syncPages resolve callback left) tokens p

/-- `RCDAVSyncCollection`. -/
def syncCollection (resolve : Bytes → Bytes → Option Bytes) (callback : Bool)
    (token : Option Bytes) : SyncProg Synced := do
  let tokens ← pushToken [] (token.getD [])
  syncPages resolve callback 1024 tokens

/-! ## What a page says -/

variable {resolve : Bytes → Bytes → Option Bytes} {callback : Bool} {base : Bytes}

/-- The node marks the page as truncated: a `response` about the collection with status 507. -/
def Truncates (resolve : Bytes → Bytes → Option Bytes) (base : Bytes) (node : Node) : Prop :=
  node.is (ascii "response") = true ∧ memberCode node = 507 ∧
    ∃ href resolved, node.childText (ascii "href") = some href ∧
      resolve base href = some resolved ∧ isSyncCollectionURL resolved base = true

/-- Some node of the document marks it as truncated. -/
def Truncated (resolve : Bytes → Bytes → Option Bytes) (r : Report) : Prop :=
  ∃ doc, r.document = some doc ∧
    ∃ node ∈ doc.root.children, Truncates resolve r.effectiveURL node

theorem Node.is_unique {node : Node} {name name' : Bytes} (h : node.is name = true)
    (hne : name ≠ name') : ¬ node.is name' = true := by
  intro h'
  cases node with
  | text content => cases h
  | element n space children =>
    cases space with
    | none => cases h
    | some space =>
      simp only [Node.is, Bool.and_eq_true, decide_eq_true_iff] at h h'
      exact hne (h.1.symm.trans h'.1)

theorem memberCode_unstated {node : Node} (h : (node.childText (ascii "status")).isSome = false) :
    memberCode node = 0 := by
  unfold memberCode
  cases hs : node.childText (ascii "status") with
  | none => rfl
  | some status => rw [hs] at h; cases h

/-- No URL twice. -/
def Page.Distinct (p : Page) : Prop := (p.changes.map Change.url).Nodup

theorem readMember_spec {p p' : Page} {node : Node} {resolved : Bytes}
    (h : readMember base p node resolved = .ok p') (hp : p.Distinct) :
    p'.Distinct ∧ (p'.more = true ↔
      p.more = true ∨ (memberCode node = 507 ∧ isSyncCollectionURL resolved base = true)) := by
  unfold readMember at h
  dsimp only at h
  split at h
  · rename_i hmark
    cases h
    simp only [Bool.and_eq_true, decide_eq_true_iff] at hmark
    exact ⟨hp, fun _ => .inr ⟨hmark.1.1.1, hmark.1.1.2⟩, fun _ => rfl⟩
  · split at h
    · rename_i hown
      cases h
      simp only [Bool.and_eq_true, Bool.not_eq_true'] at hown
      refine ⟨hp, .inl, fun hor => ?_⟩
      rcases hor with hmore | ⟨hcode, -⟩
      · exact hmore
      · rw [memberCode_unstated hown.1.1.2] at hcode
        cases hcode
    · split at h
      · cases h
      · rename_i hmember
        simp only [Bool.or_eq_true, Bool.and_eq_true, not_or, Bool.not_eq_true] at hmember
        split at h
        · cases h
        · split at h
          · cases h
          · rename_i hnew
            cases h
            refine ⟨?_, .inl, fun hor => ?_⟩
            · unfold Page.Distinct
              rw [List.map_append, List.nodup_append]
              refine ⟨hp, List.nodup_singleton _, fun url hurl url' hurl' heq => ?_⟩
              obtain ⟨c, hc, rfl⟩ := List.mem_map.1 hurl
              obtain rfl := List.mem_singleton.1 hurl'
              exact hnew (List.any_eq_true.2 ⟨c, hc, decide_eq_true heq⟩)
            · rcases hor with hmore | ⟨-, hown⟩
              · exact hmore
              · rw [hmember.1.2] at hown
                cases hown

theorem readNode_spec {p p' : Page} {node : Node} (h : readNode resolve base p node = .ok p')
    (hp : p.Distinct) :
    p'.Distinct ∧ (p'.more = true ↔ p.more = true ∨ Truncates resolve base node) := by
  unfold readNode at h
  split at h
  · rename_i hn
    split at h
    · cases h
    · cases h
      refine ⟨hp, .inl, fun hor => hor.resolve_right fun ht => ?_⟩
      exact Node.is_unique hn (by decide +kernel) ht.1
  · split at h
    · cases h
    · split at h
      · rename_i hn
        cases h
        refine ⟨hp, .inl, fun hor => hor.resolve_right fun ht => ?_⟩
        rw [ht.1] at hn
        cases hn
      · rename_i hn
        split at h
        · cases h
        · rename_i href hhref
          split at h
          · cases h
          · split at h
            · cases h
            · rename_i resolved hresolved
              obtain ⟨hdistinct, hmore⟩ := readMember_spec h hp
              refine ⟨hdistinct, hmore.trans (or_congr_right ⟨fun hm => ?_, fun ht => ?_⟩)⟩
              · simp only [Bool.not_eq_true, Bool.not_eq_false'] at hn
                exact ⟨hn, hm.1, href, resolved, hhref, hresolved, hm.2⟩
              · obtain ⟨-, hcode, href', resolved', hhref', hresolved', hown⟩ := ht
                obtain rfl := Option.some.inj (hhref.symm.trans hhref')
                obtain rfl := Option.some.inj (hresolved.symm.trans hresolved')
                exact ⟨hcode, hown⟩

theorem readNodes_spec {nodes : List Node} {p p' : Page}
    (h : nodes.foldlM (readNode resolve base) p = .ok p') (hp : p.Distinct) :
    p'.Distinct ∧
      (p'.more = true ↔ p.more = true ∨ ∃ node ∈ nodes, Truncates resolve base node) := by
  induction nodes generalizing p with
  | nil =>
    cases h
    simp [hp]
  | cons node nodes ih =>
    rw [List.foldlM_cons] at h
    cases hn : readNode resolve base p node with
    | error e => rw [hn] at h; cases h
    | ok q =>
      rw [hn] at h
      obtain ⟨hq, hmore⟩ := readNode_spec hn hp
      obtain ⟨hp', hmore'⟩ := ih h hq
      refine ⟨hp', ?_⟩
      rw [hmore', hmore, List.exists_mem_cons_iff, or_assoc]

/-- What a report that is accepted has shown. -/
structure Accepted.Sound (resolve : Bytes → Bytes → Option Bytes) (used : List Bytes) (r : Report)
    (p : Accepted) : Prop where
  named : p.token ≠ []
  distinct : (p.changes.map Change.url).Nodup
  more : p.more = true ↔ Truncated resolve r
  fresh : p.more = true → p.token ∉ used

/-- Where a page that is accepted comes from. -/
theorem readReport_ok {used : List Bytes} {r : Report} {p : Accepted}
    (h : readReport resolve used r = .page p) :
    ∃ doc page, r.document = some doc ∧
      doc.root.children.foldlM (readNode resolve r.effectiveURL) ⟨none, false, []⟩ = .ok page ∧
      page.accept used = .ok p := by
  unfold readReport at h
  split at h
  · cases h
  · split at h
    · cases h
    · split at h
      · cases h
      · rename_i doc hdoc
        split at h
        · cases h
        · split at h
          · split at h <;> cases h
          · split at h
            · cases h
            · split at h
              · rename_i q hq
                cases h
                cases hf : doc.root.children.foldlM (readNode resolve r.effectiveURL)
                    ⟨none, false, []⟩ with
                | error e => rw [hf] at hq; cases hq
                | ok page =>
                  rw [hf] at hq
                  exact ⟨doc, page, hdoc, hf, hq⟩
              · cases h

theorem Page.accept_ok {used : List Bytes} {page : Page} {p : Accepted}
    (h : page.accept used = .ok p) :
    page.returned = some p.token ∧ page.more = p.more ∧ page.changes = p.changes ∧
      p.token ≠ [] ∧ (p.more = true → p.token ∉ used) := by
  unfold Page.accept at h
  split at h
  · cases h
  · rename_i token hreturned
    split at h
    · cases h
    · rename_i hwhole
      split at h
      · cases h
      · rename_i hfresh
        cases h
        refine ⟨hreturned, rfl, rfl, fun hnil => hwhole (.inl hnil), fun hm hused => ?_⟩
        exact hfresh ⟨.inl hm, hused⟩

theorem readReport_page {used : List Bytes} {r : Report} {p : Accepted}
    (h : readReport resolve used r = .page p) : p.Sound resolve used r := by
  obtain ⟨doc, page, hdoc, hf, hp⟩ := readReport_ok h
  obtain ⟨hdistinct, hmore⟩ := readNodes_spec hf List.nodup_nil
  obtain ⟨-, hsame, hchanges, hnamed, hfresh⟩ := Page.accept_ok hp
  have htruncated : p.more = true ↔ Truncated resolve r := by
    rw [← hsame, hmore]
    constructor
    · intro hor
      exact ⟨doc, hdoc, hor.resolve_left (by decide)⟩
    · intro ht
      obtain ⟨doc', hdoc', ht⟩ := ht
      obtain rfl := Option.some.inj (hdoc.symm.trans hdoc')
      exact .inr ht
  refine ⟨hnamed, ?_, htruncated, hfresh⟩
  rw [← hchanges]
  exact hdistinct

/-- The tokens used so far decide whether a report is accepted, not what it says. -/
theorem readReport_unique {used used' : List Bytes} {r : Report} {p p' : Accepted}
    (h : readReport resolve used r = .page p) (h' : readReport resolve used' r = .page p') :
    p = p' := by
  obtain ⟨doc, page, hdoc, hf, hp⟩ := readReport_ok h
  obtain ⟨doc', page', hdoc', hf', hp'⟩ := readReport_ok h'
  obtain rfl := Option.some.inj (hdoc.symm.trans hdoc')
  obtain rfl := Except.ok.inj (hf.symm.trans hf')
  obtain ⟨htoken, hmore, hchanges, -⟩ := Page.accept_ok hp
  obtain ⟨htoken', hmore', hchanges', -⟩ := Page.accept_ok hp'
  obtain ⟨token, more, changes⟩ := p
  obtain ⟨token', more', changes'⟩ := p'
  rw [Accepted.mk.injEq]
  exact ⟨Option.some.inj (htoken.symm.trans htoken'), hmore.symm.trans hmore',
    hchanges.symm.trans hchanges'⟩

/-! ## What a run does -/

/-- The reports that were requested, with their answers, and the pages handed on, oldest first. -/
structure Log where
  reports : List (Bytes × Except RCError Report)
  pages : List (List Change)

/-- Anything may be answered; what was asked is written down. -/
def Log.Answers (l : Log) : (q : Question) → q.Answer → Log → Prop
  | .cancelled, _, l' => l' = l
  | .report token, (answer : Except RCError Report), l' =>
    l' = { l with reports := l.reports ++ [(token, answer)] }
  | .page changes, _, l' => l' = { l with pages := l.pages ++ [changes] }

def Log.tokens (l : Log) : List Bytes := l.reports.map Prod.fst

/-- The page that an answer brings. -/
def brought (resolve : Bytes → Bytes → Option Bytes) (used : List Bytes) :
    Except RCError Report → List Accepted
  | .ok r =>
    match readReport resolve used r with
    | .page p => [p]
    | _ => []
  | .error _ => []

/-- The pages that are accepted, in order, each with the tokens requested until then. -/
def accepted (resolve : Bytes → Bytes → Option Bytes) :
    List Bytes → List (Bytes × Except RCError Report) → List Accepted
  | _, [] => []
  | used, (token, answer) :: rest =>
    brought resolve (used ++ [token]) answer ++ accepted resolve (used ++ [token]) rest

theorem accepted_append {used : List Bytes} {l : List (Bytes × Except RCError Report)}
    {token : Bytes} {answer : Except RCError Report} :
    accepted resolve used (l ++ [(token, answer)]) =
      accepted resolve used l ++ brought resolve (used ++ l.map Prod.fst ++ [token]) answer := by
  induction l generalizing used with
  | nil => simp [accepted]
  | cons e l ih => simp [accepted, ih, List.append_assoc]

/-- What the loop may ask: never more than 1024 reports, and none twice. -/
def Log.May (l : Log) : Question → Prop
  | .report token => l.reports.length < 1024 ∧ token ∉ l.tokens
  | _ => True

/-- The pages handed on are the accepted ones, each once. -/
def Handed (resolve : Bytes → Bytes → Option Bytes) (callback : Bool) (l : Log) : Prop :=
  l.pages = if callback then (accepted resolve [] l.reports).map Accepted.changes else []

/-- Before a turn of the loop: the tokens are those requested and the next one. -/
structure Ready (resolve : Bytes → Bytes → Option Bytes) (callback : Bool) (left : Nat)
    (tokens : List Bytes) (l : Log) : Prop where
  held : ∃ token, tokens = l.tokens ++ [token]
  room : tokens.length + left = 1025
  distinct : tokens.Nodup
  handed : Handed resolve callback l

/-- What the result and `*nextToken` say about the run that they are the outcome of. -/
structure Truthful (resolve : Bytes → Bytes → Option Bytes) (callback : Bool) (o : Synced)
    (l : Log) : Prop where
  handed : Handed resolve callback l
  silent : o.nextToken = none → o.result ≠ .complete
  complete : ∀ next, o.nextToken = some next → o.result = .complete ∧ next ≠ [] ∧
    ∃ before token r earlier p, l.reports = before ++ [(token, .ok r)] ∧
      readReport resolve l.tokens r = .page p ∧ accepted resolve [] l.reports = earlier ++ [p] ∧
      p.token = next ∧ ¬ Truncated resolve r

theorem truthful_failed {e : RCError} {l : Log} (h : Handed resolve callback l) :
    Truthful resolve callback ⟨.failed e, none⟩ l := ⟨h, nofun, nofun⟩

/-- A report that is not accepted brings nothing to hand on. -/
theorem handed_nothing {tokens : List Bytes} {token : Bytes} {answer : Except RCError Report}
    {l : Log} (htokens : tokens = l.tokens ++ [token]) (h : Handed resolve callback l)
    (hb : brought resolve tokens answer = []) :
    Handed resolve callback { l with reports := l.reports ++ [(token, answer)] } := by
  have hsame : accepted resolve [] (l.reports ++ [(token, answer)]) =
      accepted resolve [] l.reports := by
    rw [accepted_append, List.nil_append]
    change _ ++ brought resolve (l.tokens ++ [token]) answer = _
    rw [← htokens, hb, List.append_nil]
  unfold Handed
  rw [hsame]
  exact h

/-- What comes after a page that was handed on. -/
theorem advance_truthful {next : List Bytes → SyncProg Synced} {left : Nat} {tokens : List Bytes}
    {l l' : Log} {token : Bytes} {r : Report} {p : Accepted}
    (hnext : ∀ tokens l, Ready resolve callback left tokens l →
      wp Log.Answers Log.May (next tokens) (Truthful resolve callback) (fun _ _ => False) l)
    (h : Ready resolve callback (left + 1) tokens l) (htokens : tokens = l.tokens ++ [token])
    (hr : readReport resolve tokens r = .page p)
    (hreports : l'.reports = l.reports ++ [(token, .ok r)])
    (hhanded : Handed resolve callback l') (answer : Except RCError Unit) :
    wp Log.Answers Log.May (advance next tokens p answer) (Truthful resolve callback)
      (fun _ _ => False) l' := by
  have hsound := readReport_page hr
  have hroom := h.room
  cases answer with
  | error e => exact wp_ret (truthful_failed hhanded)
  | ok u =>
    have hpush : pushToken tokens p.token = .ret (tokens ++ [p.token]) := by
      unfold pushToken
      rw [if_pos (by omega)]
    refine wp_bind ?_
    rw [hpush]
    refine wp_ret ?_
    cases hmore : p.more with
    | true =>
      rw [if_pos rfl]
      refine hnext _ _ ⟨⟨p.token, ?_⟩, ?_, ?_, hhanded⟩
      · rw [htokens]
        unfold Log.tokens
        rw [hreports, List.map_append]
        rfl
      · rw [List.length_append, List.length_singleton]
        omega
      · rw [List.nodup_append]
        refine ⟨h.distinct, List.nodup_singleton _, fun a ha b hb hab => ?_⟩
        obtain rfl := List.mem_singleton.1 hb
        exact hsound.fresh hmore (hab ▸ ha)
    | false =>
      rw [if_neg Bool.false_ne_true]
      have haccepted : accepted resolve [] l'.reports = accepted resolve [] l.reports ++ [p] := by
        rw [hreports, accepted_append, List.nil_append]
        change _ ++ brought resolve (l.tokens ++ [token]) (.ok r) = _
        rw [← htokens]
        simp only [brought, hr]
      refine wp_pure ⟨hhanded, fun hn => ?_, fun next hn => ?_⟩
      · simp at hn
      · obtain rfl : p.token = next := by simpa using hn
        have hread : readReport resolve l'.tokens r = .page p := by
          unfold Log.tokens
          rw [hreports, List.map_append]
          change readReport resolve (l.tokens ++ [token]) r = .page p
          rw [← htokens, hr]
        refine ⟨rfl, hsound.named, l.reports, token, r, accepted resolve [] l.reports, p, hreports,
          hread, haccepted, rfl, fun ht => ?_⟩
        rw [hsound.more.2 ht] at hmore
        cases hmore

/-- The loop, from any of its turns. -/
theorem syncPages_truthful {left : Nat} {tokens : List Bytes} {l : Log}
    (h : Ready resolve callback left tokens l) :
    wp Log.Answers Log.May (syncPages resolve callback left tokens) (Truthful resolve callback)
      (fun _ _ => False) l := by
  induction left generalizing tokens l with
  | zero => exact wp_ret (truthful_failed h.handed)
  | succ left ih =>
    refine wp_ask trivial fun stop l' hl' => ?_
    cases hl'
    change Bool at stop
    cases stop with
    | true => exact wp_ret (truthful_failed h.handed)
    | false =>
      obtain ⟨token, htokens⟩ := h.held
      have hroom := h.room
      have hlength : l.tokens.length = l.reports.length := List.length_map _
      have hlast : tokens.getLast?.getD [] = token := by rw [htokens]; simp
      rw [if_neg Bool.false_ne_true, hlast]
      have hnew : token ∉ l.tokens := by
        have hdistinct := h.distinct
        rw [htokens, List.nodup_append] at hdistinct
        exact fun hm => hdistinct.2.2 token hm token (List.mem_singleton.2 rfl) rfl
      rw [htokens, List.length_append, List.length_singleton] at hroom
      dsimp only
      split
      · exact wp_ret (truthful_failed h.handed)
      · refine wp_ask ⟨by omega, hnew⟩ fun answer l' hl' => ?_
        change Except RCError Report at answer
        obtain rfl : l' = { l with reports := l.reports ++ [(token, answer)] } := hl'
        cases answer with
        | error e => exact wp_ret (truthful_failed (handed_nothing htokens h.handed rfl))
        | ok r =>
          dsimp only
          cases hr : readReport resolve tokens r with
          | failed e =>
            have hb : brought resolve tokens (.ok r) = [] := by simp only [brought, hr]
            exact wp_ret (truthful_failed (handed_nothing htokens h.handed hb))
          | fallback =>
            have hb : brought resolve tokens (.ok r) = [] := by simp only [brought, hr]
            exact wp_ret ⟨handed_nothing htokens h.handed hb, nofun, nofun⟩
          | page p =>
            have hgo := fun l' => @advance_truthful resolve callback _ left tokens l l' token r p
              (fun _ _ h => ih h) h htokens hr
            refine wp_bind ?_
            unfold handOn
            cases callback with
            | true =>
              rw [if_pos rfl]
              refine wp_ask trivial fun answer l' hl' => wp_ret ?_
              cases hl'
              refine hgo _ rfl ?_ answer
              have hbefore : l.pages = (accepted resolve [] l.reports).map Accepted.changes :=
                h.handed
              show l.pages ++ [p.changes] = (accepted resolve [] _).map Accepted.changes
              rw [accepted_append, List.nil_append]
              change _ = List.map _ (_ ++ brought resolve (l.tokens ++ [token]) (.ok r))
              rw [← htokens, hbefore, List.map_append]
              simp only [brought, hr, List.map_cons, List.map_nil]
            | false =>
              rw [if_neg Bool.false_ne_true]
              refine wp_ret (hgo ⟨l.reports ++ [(token, .ok r)], l.pages⟩ rfl ?_ (.ok ()))
              exact h.handed

theorem syncCollection_spec {token : Option Bytes} :
    wp Log.Answers Log.May (syncCollection resolve callback token) (Truthful resolve callback)
      (fun _ _ => False) ⟨[], []⟩ := by
  refine wp_bind ?_
  unfold pushToken
  rw [if_pos (by decide)]
  refine wp_ret (syncPages_truthful ⟨⟨token.getD [], rfl⟩, rfl, ?_, ?_⟩)
  · exact List.nodup_singleton _
  · show [] = if callback then [] else []
    split <;> rfl

/-- Every page that is accepted shows what `readReport_page` says. -/
theorem accepted_distinct {used : List Bytes} {l : List (Bytes × Except RCError Report)}
    {p : Accepted} (hp : p ∈ accepted resolve used l) : (p.changes.map Change.url).Nodup := by
  induction l generalizing used with
  | nil => cases hp
  | cons e l ih =>
    obtain ⟨token, answer⟩ := e
    rcases List.mem_append.1 hp with hp | hp
    · unfold brought at hp
      split at hp
      · rename_i r
        split at hp
        · rename_i q hq
          obtain rfl := List.mem_singleton.1 hp
          exact (readReport_page hq).distinct
        · cases hp
      · cases hp
    · exact ih hp

/-! ## The main theorem -/

/-- **Paging ends, and says truthfully whether it is complete**, whatever the server answers. At
every point of a run at most 1024 reports have been requested, none of them since the same token,
and the array of tokens has not overflowed. When the run is over, each accepted page has been handed
on once, in order, and names no URL twice; and `*nextToken` is set exactly when the result is
complete, to the token of the last accepted page, which answers the last report and is not marked as
truncated. -/
theorem syncCollection_truthful {token : Option Bytes} {x : SyncProg Synced} {l : Log}
    (h : Leads Log.Answers (syncCollection resolve callback token) ⟨[], []⟩ x l) :
    (l.reports.length ≤ 1024 ∧ l.tokens.Nodup ∧ ∀ overflow, x ≠ .raise overflow) ∧
      ∀ o, x = .ret o →
        (l.pages = if callback then (accepted resolve [] l.reports).map Accepted.changes else []) ∧
        (∀ p ∈ accepted resolve [] l.reports, (p.changes.map Change.url).Nodup) ∧
        (o.nextToken.isSome ↔ o.result = .complete) ∧
        ∀ next, o.nextToken = some next → next ≠ [] ∧
          ∃ before token r earlier p, l.reports = before ++ [(token, .ok r)] ∧
            readReport resolve l.tokens r = .page p ∧
            accepted resolve [] l.reports = earlier ++ [p] ∧ p.token = next ∧
            ¬ Truncated resolve r := by
  have hwp := wp_run syncCollection_spec h
  refine ⟨?_, ?_⟩
  · have hinv : l.reports.length ≤ 1024 ∧ l.tokens.Nodup := by
      refine leads_invariant (J := fun l => l.reports.length ≤ 1024 ∧ l.tokens.Nodup)
        (@syncCollection_spec resolve callback token) ⟨Nat.zero_le _, List.nodup_nil⟩ ?_ h
      intro l q a l' hl hmay ha
      cases q with
      | cancelled => cases ha; exact hl
      | page changes => cases ha; exact hl
      | report token =>
        cases ha
        refine ⟨?_, ?_⟩
        · rw [List.length_append, List.length_singleton]
          exact hmay.1
        · show (List.map Prod.fst (l.reports ++ [_])).Nodup
          rw [List.map_append, List.nodup_append]
          refine ⟨hl.2, List.nodup_singleton _, fun a ha b hb hab => ?_⟩
          obtain rfl := List.mem_singleton.1 hb
          exact hmay.2 (hab ▸ ha)
    refine ⟨hinv.1, hinv.2, fun overflow hx => ?_⟩
    rw [hx] at hwp
    exact hwp
  · intro o hx
    rw [hx] at hwp
    have ht : Truthful resolve callback o l := hwp
    refine ⟨ht.handed, fun p hp => accepted_distinct hp, ?_, fun next hn => (ht.complete next hn).2⟩
    cases hn : o.nextToken with
    | none => exact ⟨fun h => absurd h (by decide), fun hc => absurd hc (ht.silent hn)⟩
    | some next => exact ⟨fun _ => (ht.complete next hn).1, fun _ => rfl⟩

/-- A turn in which the callback takes the page. -/
theorem leads_syncPages {left : Nat} {tokens : List Bytes} {token : Bytes} {r : Report}
    {p : Accepted} {l : Log} (hlast : tokens.getLast?.getD [] = token)
    (hshort : ¬ 16384 < token.length) (hroom : tokens.length < 1025)
    (hr : readReport resolve tokens r = .page p) :
    Leads Log.Answers (syncPages resolve true (left + 1) tokens) l
      (if p.more then syncPages resolve true left (tokens ++ [p.token])
        else .ret ⟨.complete, some p.token⟩)
      ⟨l.reports ++ [(token, .ok r)], l.pages ++ [p.changes]⟩ := by
  have hpush : pushToken tokens p.token = .ret (tokens ++ [p.token]) := by
    unfold pushToken
    rw [if_pos hroom]
  refine leads_ask (q := Question.cancelled) (a := false) rfl ?_
  rw [if_neg Bool.false_ne_true]
  dsimp only
  rw [hlast, if_neg hshort]
  refine leads_ask (q := Question.report token) (a := Except.ok r) rfl ?_
  dsimp only
  rw [hr]
  refine leads_ask (q := Question.page p.changes) (a := Except.ok ()) rfl (leads_of_eq ?_)
  show (pushToken tokens p.token >>= fun tokens => _) = _
  rw [hpush]
  show (if p.more then _ else _) = _
  split
  · rfl
  · simp only [List.getLast?_concat]
    rfl

/-- An element of the namespace `DAV:`. -/
def davElement (name : String) (children : List Node) : Node :=
  .element (ascii name) (some davNamespace) children

def davText (name text : String) : Node := davElement name [.text (ascii text)]

/-- A collection of two members, one of them deleted: a truncated page, and the rest. -/
def truncatedReport : Report where
  statusCode := 207
  effectiveURL := ascii "https://dav/c/"
  bodyLength := 0
  document := some ⟨false, davElement "multistatus" [
    davElement "response" [davText "href" "a", davElement "propstat" [
      davElement "prop" [davText "getetag" "1"], davText "status" "HTTP/1.1 200 OK"]],
    davElement "response" [davText "href" ".", davText "status" "HTTP/1.1 507 Full"],
    davText "sync-token" "t1"]⟩

def lastReport : Report where
  statusCode := 207
  effectiveURL := ascii "https://dav/c/"
  bodyLength := 0
  document := some ⟨false, davElement "multistatus" [
    davElement "response" [davText "href" "b", davText "status" "HTTP/1.1 404 Gone"],
    davText "sync-token" "t2"]⟩

def resolveMember (base href : Bytes) : Option Bytes :=
  if href = ascii "." then some base else some (base ++ href)

/-- Both pages are handed on, and the token of the second one is the outcome. -/
theorem syncCollection_truthful_pages :
    ∃ l : Log, l.reports.length ≤ 1024 ∧ l.pages = [[⟨ascii "https://dav/c/a", some (ascii "1")⟩],
      [⟨ascii "https://dav/c/b", none⟩]] ∧ ¬ Truncated resolveMember lastReport := by
  have hfirst : readReport resolveMember [[]] truncatedReport =
      .page ⟨ascii "t1", true, [⟨ascii "https://dav/c/a", some (ascii "1")⟩]⟩ := by decide +kernel
  have hlast : readReport resolveMember [[], ascii "t1"] lastReport =
      .page ⟨ascii "t2", false, [⟨ascii "https://dav/c/b", none⟩]⟩ := by decide +kernel
  have h₁ := @leads_syncPages resolveMember 1023 [[]] _ _ _ ⟨[], []⟩ rfl (by decide) (by decide)
    hfirst
  have h₂ := @leads_syncPages resolveMember 1022 [[], ascii "t1"] _ _ _
    ⟨[([], .ok truncatedReport)], [[⟨ascii "https://dav/c/a", some (ascii "1")⟩]]⟩ rfl
    (by decide +kernel) (by decide) hlast
  have hrun : Leads Log.Answers (syncCollection resolveMember true none) ⟨[], []⟩ _ _ :=
    leads_then (leads_of_eq rfl) (h₁.trans h₂)
  obtain ⟨⟨hreports, -, -⟩, hall⟩ := syncCollection_truthful hrun
  obtain ⟨-, -, -, hnext⟩ := hall _ rfl
  obtain ⟨-, before, token, r, earlier, p, hlist, -, -, -, htruncated⟩ := hnext _ rfl
  refine ⟨_, hreports, rfl, ?_⟩
  obtain ⟨-, he⟩ := List.append_inj' hlist rfl
  cases he
  exact htruncated

end Dav
