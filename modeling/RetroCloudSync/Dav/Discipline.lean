import RetroCloudSync.Dav.Request

/-!
# What a call of the HTTP client transmits

Every round is prepared anew, so what holds of the one request that `prepare` makes holds of each
request along a chain of redirects (`rounds_prepared`); a request with a precondition has one round
(`rounds_conditional`).

The precondition, the body and the method survive every failure. The headers of a `MOVE` do not:
`RCRequest` does not look at what the appends of `Destination` and `Overwrite` return, and goes on
without the header when one of them fails.
-/

set_option autoImplicit false

namespace Dav

open Journal Resource

variable {urls : URLs} {client : Client} {w : Weather} {q : Request} {fails : Alloc → Bool}
  {headers : List Bytes} {line : Bytes} {n left : Nat} {url : Bytes}

/-- The URL passes `RCValidateDestination`: https, at a host with the suffix of the client. -/
def Allowed (urls : URLs) (client : Client) (url : Bytes) : Prop :=
  ∃ scheme host, urls.parse url = some (scheme, host) ∧
    sameLetters scheme (ascii "https") = true ∧
    hostHasSuffix host client.allowedHostSuffix = true

theorem validateDestination_ok {f : Bool} :
    validateDestination urls client.allowedHostSuffix f url = .ok () ↔
      f = false ∧ Allowed urls client url := by
  unfold validateDestination Allowed
  cases f with
  | true => simp
  | false =>
    cases urls.parse url with
    | none => simp
    | some p =>
      obtain ⟨scheme, host⟩ := p
      cases hs : sameLetters scheme (ascii "https") <;>
        cases hh : hostHasSuffix host client.allowedHostSuffix <;> simp [hs, hh]

/-! ## The headers -/

def isPrecondition (line : Bytes) : Bool :=
  (ascii "If-Match:").isPrefixOf line || (ascii "If-None-Match:").isPrefixOf line

/-- The precondition that a request asks for. -/
def preconditions (q : Request) : List Bytes :=
  match q.ifMatch with
  | some etag => [ifMatchLine etag]
  | none => if q.ifNoneMatch then [ifNoneMatchLine] else []

/-- No precondition among them. -/
def Plain (headers : List Bytes) : Prop := headers.filter isPrecondition = []

theorem isPrecondition_head {c : UInt8} (h : line.head? = some c) (hc : c ≠ 0x49) :
    isPrecondition line = false := by
  cases line with
  | nil => cases h
  | cons d line =>
    obtain rfl : d = c := Option.some.inj h
    have h₁ : ascii "If-Match:" = 0x49 :: ascii "f-Match:" := by decide
    have h₂ : ascii "If-None-Match:" = 0x49 :: ascii "f-None-Match:" := by decide
    simp [isPrecondition, h₁, h₂, List.isPrefixOf, Ne.symm hc]

theorem isPrecondition_ifMatch (etag : Bytes) : isPrecondition (ifMatchLine etag) = true := by
  have h : ascii "If-Match:" <+: ifMatchLine etag := ⟨0x20 :: etag, by
    have hsplit : ascii "If-Match: " = ascii "If-Match:" ++ [0x20] := by decide
    rw [ifMatchLine, hsplit, List.append_assoc]
    rfl⟩
  unfold isPrecondition
  rw [List.isPrefixOf_iff_prefix.2 h, Bool.true_or]

theorem Plain.append (h : Plain headers) {f : Bool} (hl : isPrecondition line = false) :
    Plain ((slistAppend f headers line).getD []) := by
  unfold slistAppend Plain
  cases f with
  | true => rfl
  | false => simp [show headers.filter isPrecondition = [] from h, hl]

theorem plain_depth : Plain (depthHeader fails q) := by
  unfold depthHeader
  split
  · rfl
  · rename_i depth hdepth
    refine (show Plain [] from rfl).append (isPrecondition_head (c := 0x44) ?_ (by decide))
    have hsplit : ascii "Depth: " = 0x44 :: ascii "epth: " := by decide
    rw [hsplit]
    rfl

theorem plain_destination {headers' : List Bytes} (h : Plain headers)
    (hd : destinationHeaders fails q headers = .ok headers') : Plain headers' := by
  unfold destinationHeaders at hd
  split at hd
  · cases hd
    exact h
  · split at hd
    · cases hd
    · cases hd
      refine (h.append (isPrecondition_head (c := 0x44) ?_ (by decide))).append (by decide)
      have hsplit : ascii "Destination: " = 0x44 :: ascii "estination: " := by decide
      rw [destinationLine, hsplit]
      rfl

theorem plain_contentType (h : Plain headers) : Plain (contentTypeHeader fails q headers) := by
  unfold contentTypeHeader
  split
  · exact h
  · refine h.append (isPrecondition_head (c := 0x43) ?_ (by decide))
    have hsplit : ascii "Content-Type: " = 0x43 :: ascii "ontent-Type: " := by decide
    rw [hsplit]
    rfl

/-- The precondition is appended, or the request is given up. -/
theorem preconditionHeader_ok {headers' : List Bytes}
    (h : preconditionHeader fails q headers = .ok headers') :
    headers' = headers ++ preconditions q ∧
      (q.ifMatch.isSome → fails .ifMatchText = false ∧ fails .ifMatch = false) := by
  unfold preconditionHeader slistAppend at h
  unfold preconditions
  cases hm : q.ifMatch with
  | some etag =>
    rw [hm] at h
    cases ht : fails .ifMatchText <;> cases ha : fails .ifMatch <;> simp [ht, ha] at h
    exact ⟨h.symm, fun _ => ⟨rfl, rfl⟩⟩
  | none =>
    rw [hm] at h
    cases hn : q.ifNoneMatch with
    | false =>
      simp [hn] at h
      simp [h]
    | true =>
      cases ha : fails .ifNoneMatch <;> simp [hn, ha] at h
      simp [← h]

/-- The parts a header list is put together from. -/
theorem buildHeaders_ok {all : List Bytes} (h : buildHeaders fails q = .ok all) :
    ∃ headers, destinationHeaders fails q (depthHeader fails q) = .ok headers ∧
      all = contentTypeHeader fails q headers ++ preconditions q ++ [acceptLine] ∧
      fails .accept = false ∧
      (q.ifMatch.isSome → fails .ifMatchText = false ∧ fails .ifMatch = false) := by
  unfold buildHeaders at h
  cases hd : destinationHeaders fails q (depthHeader fails q) with
  | error e => rw [hd] at h; cases h
  | ok headers =>
    rw [hd] at h
    cases hp : preconditionHeader fails q (contentTypeHeader fails q headers) with
    | error e =>
      change (preconditionHeader fails q (contentTypeHeader fails q headers) >>= _) = _ at h
      rw [hp] at h
      cases h
    | ok headers' =>
      change (preconditionHeader fails q (contentTypeHeader fails q headers) >>= _) = _ at h
      rw [hp] at h
      obtain ⟨rfl, hm⟩ := preconditionHeader_ok hp
      cases ha : fails .accept with
      | true =>
        simp only [ha, slistAppend, bind, Except.bind] at h
        cases h
      | false =>
        simp only [ha, slistAppend, bind, Except.bind] at h
        cases h
        exact ⟨headers, rfl, rfl, rfl, hm⟩

theorem buildHeaders_precondition {all : List Bytes} (h : buildHeaders fails q = .ok all) :
    all.filter isPrecondition = preconditions q := by
  obtain ⟨headers, hd, rfl, -, -⟩ := buildHeaders_ok h
  have hplain : Plain (contentTypeHeader fails q headers) :=
    plain_contentType (plain_destination plain_depth hd)
  have hpre : (preconditions q).filter isPrecondition = preconditions q := by
    unfold preconditions
    split
    · rw [List.filter_cons_of_pos (isPrecondition_ifMatch _)]
      rfl
    · split
      · decide
      · rfl
  have haccept : isPrecondition acceptLine = false := by decide
  unfold Plain at hplain
  rw [List.filter_append, List.filter_append, hpre, hplain,
    List.filter_cons_of_neg (by rw [haccept]; decide)]
  simp

/-- The headers of a `MOVE` are all there when both appends went through, and only then. -/
theorem buildHeaders_move {all : List Bytes} {destination : Bytes}
    (h : buildHeaders fails q = .ok all) (hd : q.destination = some destination)
    (hdepth : q.depth = none) (htype : q.contentType = none) :
    (destinationLine destination ∈ all ∧ overwriteLine ∈ all) ↔
      fails .destination = false ∧ fails .overwrite = false := by
  obtain ⟨headers, hh, rfl, -, -⟩ := buildHeaders_ok h
  have hnot : ∀ line ∈ preconditions q ++ [acceptLine], line.head? ≠ some 0x44 := by
    intro line hl
    rcases List.mem_append.1 hl with hl | hl
    · unfold preconditions at hl
      have hsplit : ascii "If-Match: " = 0x49 :: ascii "f-Match: " := by decide
      split at hl
      · obtain rfl := List.mem_singleton.1 hl
        rw [ifMatchLine, hsplit, List.cons_append, List.head?_cons]
        decide
      · split at hl
        · obtain rfl := List.mem_singleton.1 hl
          decide
        · cases hl
    · obtain rfl := List.mem_singleton.1 hl
      decide
  have hline : (destinationLine destination).head? = some 0x44 := by
    have hsplit : ascii "Destination: " = 0x44 :: ascii "estination: " := by decide
    rw [destinationLine, hsplit]
    rfl
  have hne : destinationLine destination ≠ overwriteLine := by
    intro he
    rw [he] at hline
    exact absurd hline (by decide)
  unfold destinationHeaders at hh
  rw [hd] at hh
  unfold depthHeader slistAppend at hh
  rw [hdepth] at hh
  unfold contentTypeHeader
  rw [htype, List.append_assoc]
  cases ht : fails .destinationText with
  | true => simp [ht] at hh
  | false =>
    cases ha : fails .destination <;> cases ho : fails .overwrite <;>
      simp only [ht, ha, ho, Bool.false_eq_true, if_false, if_true, List.nil_append,
        Option.getD_some, Option.getD_none, Except.ok.injEq] at hh <;> obtain rfl := hh
    · simp
    · refine iff_of_false (fun hm => ?_) (by simp)
      exact hnot _ (by simpa using hm.1) hline
    · refine iff_of_false (fun hm => ?_) (by simp)
      rcases List.mem_append.1 hm.1 with hin | hin
      · exact hne (List.mem_singleton.1 hin)
      · exact hnot _ hin hline
    · refine iff_of_false (fun hm => ?_) (by simp)
      exact hnot _ (by simpa using hm.1) hline

/-! ## One round -/

/-- The options are all set, or the first one refused ends the setup. -/
theorem configure_foldlM {refuses : Setting → Option (Int × String)} {l : List Setting}
    {h h' : Handle} :
    l.foldlM (configure refuses client q url headers) h = .ok h' ↔
      (∀ s ∈ l, refuses s = none) ∧ h' = l.foldl (Handle.set client q url headers) h := by
  induction l generalizing h with
  | nil => exact ⟨fun he => by cases he; exact ⟨nofun, rfl⟩, fun he => by rw [he.2]; rfl⟩
  | cons s l ih =>
    rw [List.foldlM_cons, List.foldl_cons, List.forall_mem_cons]
    unfold configure
    cases hs : refuses s with
    | some e => exact ⟨fun he => (nomatch he), fun he => (nomatch he.1.1)⟩
    | none =>
      refine Iff.trans ih ?_
      simp

/-- The request that a round makes. -/
def Request.sent (client : Client) (q : Request) (url : Bytes) (headers : List Bytes) : Sent where
  url := url
  method := q.method
  username := client.username
  password := client.password
  headers := headers
  body := q.body.column

theorem sent_settings :
    ((settings q).foldl (Handle.set client q url headers) Handle.fresh).sent =
      q.sent client url headers := by
  unfold settings
  by_cases hb : q.body = .null 0
  · rw [if_pos hb, List.append_nil]
    simp [commonSettings, Handle.set, Handle.fresh, Handle.sent, Request.sent, hb, Buf.column]
  · rw [if_neg hb]
    cases hq : q.body <;>
      simp [commonSettings, Handle.set, Handle.fresh, Handle.sent, Request.sent, hq, Buf.column,
        Buf.len]

/-- What a round needs to be transmitted. -/
structure Prepared (urls : URLs) (client : Client) (w : Weather) (q : Request) (n : Nat)
    (url : Bytes) (headers : List Bytes) : Prop where
  url : w.fails n .currentURL = false ∧ Allowed urls client url
  handle : w.fails n .handle = false
  headers : buildHeaders (w.fails n) q = .ok headers
  options : ∀ s ∈ settings q, w.refuses n s = none

theorem prepare_ok {h : Handle} :
    prepare urls client w q n url = .ok h ↔ ∃ headers,
      Prepared urls client w q n url headers ∧
        h = (settings q).foldl (Handle.set client q url headers) Handle.fresh := by
  unfold prepare
  cases hv : validateDestination urls client.allowedHostSuffix (w.fails n .currentURL) url with
  | error e =>
    refine ⟨fun he => (nomatch he), fun he => ?_⟩
    obtain ⟨headers, hp, -⟩ := he
    rw [validateDestination_ok.2 hp.url] at hv
    cases hv
  | ok u =>
    have hurl := validateDestination_ok.1 hv
    change (if w.fails n .handle then _ else _) = _ ↔ _
    cases hh : w.fails n .handle with
    | true =>
      rw [if_pos rfl]
      refine ⟨fun he => (nomatch he), fun he => ?_⟩
      obtain ⟨headers, hp, -⟩ := he
      rw [hp.handle] at hh
      cases hh
    | false =>
      rw [if_neg Bool.false_ne_true]
      cases hb : buildHeaders (w.fails n) q with
      | error e =>
        refine ⟨fun he => (nomatch he), fun he => ?_⟩
        obtain ⟨headers, hp, -⟩ := he
        rw [hp.headers] at hb
        cases hb
      | ok headers =>
        refine Iff.trans configure_foldlM ?_
        constructor
        · intro he
          exact ⟨headers, ⟨hurl, hh, hb, he.1⟩, he.2⟩
        · intro he
          obtain ⟨headers', hp, rfl⟩ := he
          have hsame : headers' = headers := Except.ok.inj (hp.headers.symm.trans hb)
          exact ⟨hp.options, by rw [hsame]⟩

/-! ## All rounds -/

/-- Every request was prepared by some round. -/
theorem rounds_prepared {s : Sent} (hs : s ∈ (rounds urls client w q left n url).1) :
    ∃ n url headers, Prepared urls client w q n url headers ∧ s = q.sent client url headers := by
  induction left generalizing n url with
  | zero => cases hs
  | succ left ih =>
    unfold rounds at hs
    cases hp : prepare urls client w q n url with
    | error e => rw [hp] at hs; cases hs
    | ok h =>
      obtain ⟨headers, hprepared, rfl⟩ := prepare_ok.1 hp
      have hhere : ∃ n url headers, Prepared urls client w q n url headers ∧
          ((settings q).foldl (Handle.set client q url headers) Handle.fresh).sent =
            q.sent client url headers := ⟨n, url, headers, hprepared, sent_settings⟩
      have hone (hm : s ∈ [((settings q).foldl (Handle.set client q url headers)
          Handle.fresh).sent]) : ∃ n url headers, Prepared urls client w q n url headers ∧
            s = q.sent client url headers := by
        obtain rfl := List.mem_singleton.1 hm
        exact ⟨n, url, headers, hprepared, sent_settings⟩
      rw [hp] at hs
      dsimp only at hs
      split at hs
      · cases hs
      · split at hs
        · exact hone hs
        · split at hs
          · exact hone hs
          · split at hs
            · split at hs
              · exact hone hs
              · rcases List.mem_cons.1 hs with rfl | hs
                · exact ⟨n, url, headers, hprepared, sent_settings⟩
                · exact ih hs
            · exact hone hs

/-- One request a round. -/
theorem rounds_length : (rounds urls client w q left n url).1.length ≤ left := by
  induction left generalizing n url with
  | zero => exact Nat.le_refl 0
  | succ left ih =>
    unfold rounds
    split
    · exact Nat.zero_le _
    · dsimp only
      split
      · exact Nat.zero_le _
      · split
        · exact Nat.succ_le_succ (Nat.zero_le _)
        · split
          · exact Nat.succ_le_succ (Nat.zero_le _)
          · split
            · split
              · exact Nat.succ_le_succ (Nat.zero_le _)
              · exact Nat.succ_le_succ ih
            · exact Nat.succ_le_succ (Nat.zero_le _)

/-- A request with a precondition has one round, and is transmitted when the round is prepared and
shutdown was not requested. -/
theorem rounds_conditional (hq : preconditions q ≠ []) {s : Sent} {l : List Sent}
    (hl : (rounds urls client w q (left + 1) n url).1 = l) :
    (l = [] ∨ ∃ s, l = [s]) ∧ (s ∈ l ↔ (w.stopped n).1 = false ∧ ∃ headers,
      Prepared urls client w q n url headers ∧ s = q.sent client url headers) := by
  have hone : ∀ r, redirects q r = false := by
    intro r
    unfold redirects
    unfold preconditions at hq
    cases hm : q.ifMatch with
    | some etag => rfl
    | none =>
      rw [hm] at hq
      cases hn : q.ifNoneMatch with
      | true => rfl
      | false => rw [hn] at hq; exact absurd rfl hq
  subst hl
  unfold rounds
  cases hp : prepare urls client w q n url with
  | error e =>
    refine ⟨.inl rfl, fun hs => (nomatch hs), fun hs => ?_⟩
    obtain ⟨-, headers, hprepared, -⟩ := hs
    rw [prepare_ok.2 ⟨headers, hprepared, rfl⟩] at hp
    cases hp
  | ok h =>
    obtain ⟨headers, hprepared, rfl⟩ := prepare_ok.1 hp
    dsimp only
    cases hstop : (w.stopped n).1 with
    | true => exact ⟨.inl rfl, fun hs => (nomatch hs), fun hs => by cases hs.1⟩
    | false =>
      simp only [hone, Bool.false_eq_true, if_false]
      have hlist : ∀ result : Except RCError Response,
          (([((settings q).foldl (Handle.set client q url headers) Handle.fresh).sent] = [] ∨
            ∃ s, [((settings q).foldl (Handle.set client q url headers) Handle.fresh).sent] = [s]) ∧
          (s ∈ [((settings q).foldl (Handle.set client q url headers) Handle.fresh).sent] ↔
            true = true ∧ ∃ headers,
              Prepared urls client w q n url headers ∧ s = q.sent client url headers)) := by
        intro _
        refine ⟨.inr ⟨_, rfl⟩, fun hs => ?_, fun hs => ?_⟩
        · obtain rfl := List.mem_singleton.1 hs
          exact ⟨rfl, headers, hprepared, sent_settings⟩
        · obtain ⟨-, headers', hprepared', rfl⟩ := hs
          have hsame : headers' = headers :=
            Except.ok.inj (hprepared'.headers.symm.trans hprepared.headers)
          rw [hsame, ← sent_settings]
          exact List.mem_singleton.2 rfl
      split
      · simpa using hlist (.error cancelled)
      · split
        · simpa using hlist (.error cancelled)
        · simpa using hlist (.error cancelled)

/-! ## The main theorem -/

/-- The precondition of a mutating call. -/
def preconditionLine : Option Bytes → Bytes
  | some etag => ifMatchLine etag
  | none => ifNoneMatchLine

/-- What a call may transmit: only to URLs that are allowed, at most the redirect limit and one
more. A mutating call transmits at most one request, to its own URL, with its method and body and
its one precondition, a `MOVE` with its two headers; the unconditional entry point transmits no
mutation. -/
def Disciplined (urls : URLs) (client : Client) (call : Call) (sent : List Sent) : Prop :=
  (∀ s ∈ sent, Allowed urls client s.url) ∧ sent.length ≤ redirectLimit + 1 ∧
    match call with
    | .request .. => ∀ s ∈ sent, ∀ m ∈ mutations, sameLetters s.method m = false
    | .conditional method url _ body ifMatch _ =>
      sent.length ≤ 1 ∧ ∀ s ∈ sent, some s.url = url ∧ some s.method = method ∧
        s.body = body.column ∧
        s.headers.filter isPrecondition = [preconditionLine ifMatch]
    | .move source destination etag =>
      sent.length ≤ 1 ∧ ∀ s ∈ sent, some s.url = source ∧ s.method = ascii "MOVE" ∧
        s.body = none ∧ s.headers.filter isPrecondition = [preconditionLine etag] ∧
        ∀ d, destination = some d → destinationLine d ∈ s.headers ∧ overwriteLine ∈ s.headers

/-- The request that `RCHTTPClientMove` hands to `RCRequest`. -/
def moveRequest (source destination etag : Option Bytes) : Request :=
  ⟨ascii "MOVE", source, none, none, .null 0, etag, false, destination⟩

/-- The `MOVE` goes out: its arguments are accepted, its source is allowed, shutdown was not
requested, and every step succeeds but, maybe, the appends of `Destination` and `Overwrite`. -/
def MoveGoesOut (urls : URLs) (client : Client) (w : Weather)
    (source destination etag : Option Bytes) : Prop :=
  validMove urls client (w.fails 0 .destinationURL) source destination etag = true ∧
    (∃ src, source = some src ∧ Allowed urls client src) ∧
    (∀ a, a = .copyURL ∨ a = .currentURL ∨ a = .handle ∨ a = .destinationText ∨ a = .ifMatchText ∨
      a = .ifMatch ∨ a = .accept → w.fails 0 a = false) ∧
    (∀ s ∈ commonSettings, w.refuses 0 s = none) ∧ (w.stopped 0).1 = false

theorem performRequest_allowed {s : Sent} (hs : s ∈ (performRequest urls client w q).1) :
    Allowed urls client s.url ∧ s.method = q.method := by
  unfold performRequest at hs
  split at hs
  · cases hs
  · obtain ⟨n, url, headers, hp, rfl⟩ := rounds_prepared hs
    exact ⟨hp.url.2, rfl⟩

theorem performRequest_length :
    (performRequest urls client w q).1.length ≤ redirectLimit + 1 := by
  unfold performRequest
  split
  · exact Nat.zero_le _
  · exact rounds_length

/-- A request with a precondition is transmitted once at most, as it was asked for. -/
theorem performRequest_conditional (hq : preconditions q ≠ []) {s : Sent} :
    (performRequest urls client w q).1.length ≤ 1 ∧
      (s ∈ (performRequest urls client w q).1 ↔ w.fails 0 .copyURL = false ∧
        (w.stopped 0).1 = false ∧ ∃ url headers, q.url = some url ∧
          Prepared urls client w q 0 url headers ∧ s = q.sent client url headers) := by
  unfold performRequest
  cases hc : w.fails 0 .copyURL with
  | true => exact ⟨Nat.zero_le _, fun hs => (nomatch hs), fun hs => (nomatch hs.1)⟩
  | false =>
    rw [if_neg Bool.false_ne_true]
    cases hu : q.url with
    | none =>
      refine ⟨Nat.zero_le _, fun hs => (nomatch hs), fun hs => ?_⟩
      obtain ⟨-, -, url, -, hn, -⟩ := hs
      cases hn
    | some url =>
      obtain ⟨hl, hmem⟩ := @rounds_conditional urls client w q 0 redirectLimit url hq s _ rfl
      refine ⟨?_, hmem.trans ⟨fun hs => ?_, fun hs => ?_⟩⟩
      · rcases hl with hl | ⟨t, hl⟩
        · rw [hl]
          exact Nat.zero_le _
        · rw [hl]
          exact Nat.le_refl 1
      · obtain ⟨hstop, headers, hp, hs⟩ := hs
        exact ⟨rfl, hstop, url, headers, rfl, hp, hs⟩
      · obtain ⟨-, hstop, url', headers, hu', hp, hs⟩ := hs
        cases hu'
        exact ⟨hstop, headers, hp, hs⟩

theorem validConditional_preconditions {method : Bytes} {body : Buf}
    {ifMatch url type : Option Bytes} {ifNoneMatch : Bool}
    (h : validConditional method body ifMatch ifNoneMatch = true) :
    preconditions ⟨method, url, none, type, body, ifMatch, ifNoneMatch, none⟩ =
      [preconditionLine ifMatch] := by
  unfold validConditional at h
  simp only [Bool.and_eq_true] at h
  have hpre := h.1.1.1.2
  unfold preconditions
  cases ifMatch with
  | some etag => rfl
  | none =>
    rw [if_neg (by simp)] at hpre
    dsimp only
    rw [if_pos hpre]
    rfl

theorem conditional_disciplined {method url type ifMatch : Option Bytes} {body : Buf}
    {ifNoneMatch : Bool} :
    Disciplined urls client (.conditional method url type body ifMatch ifNoneMatch)
      ((Call.conditional method url type body ifMatch ifNoneMatch).perform urls client w).1 := by
  unfold Call.perform
  cases method with
  | none => exact ⟨nofun, Nat.zero_le _, Nat.zero_le _, nofun⟩
  | some method =>
    dsimp only
    by_cases hv : validConditional method body ifMatch ifNoneMatch = true
    · rw [if_pos hv]
      have hpre := @validConditional_preconditions method body ifMatch url type ifNoneMatch hv
      have hone := fun s => @performRequest_conditional urls client w
        ⟨method, url, none, type, body, ifMatch, ifNoneMatch, none⟩
        (by rw [hpre]; exact List.cons_ne_nil _ _) s
      have hlength := (hone ⟨[], [], [], [], [], none⟩).1
      refine ⟨fun s hs => (performRequest_allowed hs).1, performRequest_length, hlength,
        fun s hs => ?_⟩
      obtain ⟨-, -, url', headers, hu, hp, rfl⟩ := (hone s).2.1 hs
      exact ⟨hu.symm, rfl, rfl, (buildHeaders_precondition hp.headers).trans hpre⟩
    · rw [if_neg hv]
      exact ⟨nofun, Nat.zero_le _, Nat.zero_le _, nofun⟩

theorem request_disciplined {method : Bytes} {url depth type : Option Bytes} {body : Buf} :
    Disciplined urls client (.request method url depth type body)
      ((Call.request method url depth type body).perform urls client w).1 := by
  unfold Call.perform
  dsimp only
  cases hm : mutations.any (sameLetters method) with
  | true => exact ⟨nofun, Nat.zero_le _, nofun⟩
  | false =>
    rw [if_neg Bool.false_ne_true]
    refine ⟨fun s hs => (performRequest_allowed hs).1, performRequest_length, fun s hs m hin => ?_⟩
    rw [(performRequest_allowed hs).2]
    exact Bool.eq_false_iff.2 (List.any_eq_false.1 hm m hin)

theorem validMove_some {f : Bool} {source destination etag : Option Bytes}
    (h : validMove urls client f source destination etag = true) :
    (∃ d, destination = some d) ∧ ∃ e, etag = some e := by
  unfold validMove at h
  split at h
  · simp only [Bool.and_eq_true] at h
    exact ⟨⟨_, rfl⟩, etagIsStrong_some h.1.1.1⟩
  · cases h

theorem settings_move {source destination etag : Option Bytes} :
    settings (moveRequest source destination etag) = commonSettings := List.append_nil _

/-- A `MOVE` is transmitted when it goes out, as `RCRequest` was asked to. -/
theorem move_sent {source destination etag : Option Bytes} {s : Sent} :
    s ∈ ((Call.move source destination etag).perform urls client w).1 ↔
      MoveGoesOut urls client w source destination etag ∧ ∃ url headers, source = some url ∧
        buildHeaders (w.fails 0) (moveRequest source destination etag) = .ok headers ∧
        s = (moveRequest source destination etag).sent client url headers := by
  unfold Call.perform
  dsimp only
  by_cases hv : validMove urls client (w.fails 0 .destinationURL) source destination etag = true
  · rw [if_pos hv]
    obtain ⟨⟨d, hd⟩, e, he⟩ := validMove_some hv
    have hpre : preconditions (moveRequest source destination etag) ≠ [] := by
      unfold preconditions moveRequest
      rw [he]
      exact List.cons_ne_nil _ _
    refine (performRequest_conditional hpre).2.trans ⟨fun hs => ?_, fun hs => ?_⟩
    · obtain ⟨hcopy, hstop, url, headers, hu, hp, hs⟩ := hs
      obtain ⟨headers', hdest, -, haccept, hmatch⟩ := buildHeaders_ok hp.headers
      obtain ⟨htext, happend⟩ := hmatch (by show etag.isSome = true; rw [he]; rfl)
      refine ⟨⟨hv, ⟨url, hu, hp.url.2⟩, fun a ha => ?_, ?_, hstop⟩, url, headers, hu, hp.headers,
        hs⟩
      · have hdtext : w.fails 0 .destinationText = false := by
          unfold destinationHeaders at hdest
          rw [show (moveRequest source destination etag).destination = some d from hd] at hdest
          cases ht : w.fails 0 .destinationText with
          | true => rw [ht] at hdest; cases hdest
          | false => rfl
        rcases ha with rfl | rfl | rfl | rfl | rfl | rfl | rfl
        · exact hcopy
        · exact hp.url.1
        · exact hp.handle
        · exact hdtext
        · exact htext
        · exact happend
        · exact haccept
      · rw [← settings_move]
        exact hp.options
    · obtain ⟨hout, url, headers, hu, hheaders, hs⟩ := hs
      obtain ⟨-, ⟨src, hsrc, hallowed⟩, hfails, hoptions, hstop⟩ := hout
      obtain rfl := Option.some.inj (hsrc.symm.trans hu)
      refine ⟨hfails _ (by simp), hstop, src, headers, hu, ⟨⟨hfails _ (by simp), hallowed⟩,
        hfails _ (by simp), hheaders, ?_⟩, hs⟩
      rw [settings_move]
      exact hoptions
  · rw [if_neg hv]
    refine ⟨fun hs => (nomatch hs), fun hs => absurd hs.1.1 hv⟩

/-- A `MOVE` that goes out has a header list. -/
theorem MoveGoesOut.builds {source destination etag : Option Bytes}
    (h : MoveGoesOut urls client w source destination etag) :
    ∃ headers, buildHeaders (w.fails 0) (moveRequest source destination etag) = .ok headers := by
  obtain ⟨hv, -, hfails, -, -⟩ := h
  obtain ⟨⟨d, rfl⟩, e, rfl⟩ := validMove_some hv
  simp [buildHeaders, destinationHeaders, preconditionHeader, contentTypeHeader, moveRequest,
    slistAppend, hfails .destinationText (by simp), hfails .ifMatchText (by simp),
    hfails .ifMatch (by simp), hfails .accept (by simp), bind, Except.bind]

/-- **Request discipline.** Every call keeps to it, whatever fails and whatever the server answers,
but for a `MOVE` that goes out although the append of its `Destination` or of its `Overwrite`
header has failed. -/
theorem call_disciplined (urls : URLs) (client : Client) (w : Weather) (call : Call) :
    Disciplined urls client call (call.perform urls client w).1 ↔
      ∀ source destination etag, call = .move source destination etag →
        MoveGoesOut urls client w source destination etag →
        w.fails 0 .destination = false ∧ w.fails 0 .overwrite = false := by
  cases call with
  | request method url depth type body => exact iff_of_true request_disciplined nofun
  | conditional method url type body ifMatch ifNoneMatch =>
    exact iff_of_true conditional_disciplined nofun
  | move source destination etag =>
    constructor
    · intro h source' destination' etag' hcall hout
      cases hcall
      obtain ⟨-, -, -, hmove⟩ := h
      obtain ⟨headers, hheaders⟩ := hout.builds
      obtain ⟨src, hsrc, -⟩ := hout.2.1
      obtain ⟨⟨d, hd⟩, -⟩ := validMove_some hout.1
      obtain ⟨-, -, -, -, hlines⟩ := hmove _ (move_sent.2 ⟨hout, src, headers, hsrc, hheaders, rfl⟩)
      exact (buildHeaders_move hheaders hd rfl rfl).1 (hlines d hd)
    · intro h
      have hmem := fun s => (@move_sent urls client w source destination etag s).1
      have hlength : ((Call.move source destination etag).perform urls client w).1.length ≤ 1 := by
        unfold Call.perform
        dsimp only
        split
        · rename_i hv
          obtain ⟨-, e, rfl⟩ := validMove_some hv
          exact (@performRequest_conditional urls client w (moveRequest source destination (some e))
            (List.cons_ne_nil _ _) ⟨[], [], [], [], [], none⟩).1
        · exact Nat.zero_le _
      refine ⟨fun s hs => ?_, Nat.le_trans hlength (by decide), hlength, fun s hs => ?_⟩
      · obtain ⟨hout, url, headers, hu, -, rfl⟩ := hmem s hs
        obtain ⟨src, hsrc, hallowed⟩ := hout.2.1
        obtain rfl := Option.some.inj (hsrc.symm.trans hu)
        exact hallowed
      · obtain ⟨hout, url, headers, hu, hheaders, rfl⟩ := hmem s hs
        obtain ⟨-, e, rfl⟩ := validMove_some hout.1
        refine ⟨hu.symm, rfl, rfl, buildHeaders_precondition hheaders, fun d hd => ?_⟩
        exact (buildHeaders_move hheaders hd rfl rfl).2 (h source destination _ rfl hout)

/-! ## A header that is dropped -/

/-- Any URL is https at its own host. -/
def plainURLs : URLs where
  parse url := some (ascii "https", url)
  resolve _ href := some href

def davClient : Client := ⟨ascii "user", ascii "password", none⟩

def moved : Response := ⟨201, none, none, none, none, none⟩

/-- All is well but that the append of `Overwrite` fails. -/
def overwriteLost : Weather where
  fails n a := n = 0 && a = .overwrite
  refuses _ _ := none
  transfer _ := ⟨none, false, moved⟩
  stopped _ := (false, false)

/-- The move of an event to another calendar. -/
def moveEvent : Call :=
  .move (some (ascii "https://dav/a/e.ics")) (some (ascii "https://dav/b/e.ics"))
    (some (ascii "\"v1\""))

/-- The `MOVE` goes out with its precondition, and without destination and overwrite protection. -/
theorem call_undisciplined :
    ((moveEvent.perform plainURLs davClient overwriteLost).1.map Sent.headers =
      [[ifMatchLine (ascii "\"v1\""), acceptLine]]) ∧
    ¬ ∀ urls client w call, Disciplined urls client call (call.perform urls client w).1 := by
  have hsent : (moveEvent.perform plainURLs davClient overwriteLost).1 =
      [⟨ascii "https://dav/a/e.ics", ascii "MOVE", ascii "user", ascii "password",
        [ifMatchLine (ascii "\"v1\""), acceptLine], none⟩] := by decide +kernel
  refine ⟨by rw [hsent]; rfl, fun hall => ?_⟩
  obtain ⟨-, -, -, hmove⟩ := hall plainURLs davClient overwriteLost moveEvent
  have hmem : (⟨ascii "https://dav/a/e.ics", ascii "MOVE", ascii "user", ascii "password",
      [ifMatchLine (ascii "\"v1\""), acceptLine], none⟩ : Sent) ∈
      (moveEvent.perform plainURLs davClient overwriteLost).1 := by
    rw [hsent]
    exact List.mem_singleton.2 rfl
  have hlost := (hmove _ hmem).2.2.2.2 _ rfl
  revert hlost
  decide +kernel

end Dav
