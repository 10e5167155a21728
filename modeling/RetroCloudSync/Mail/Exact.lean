import Mathlib.Data.List.Basic
import Mathlib.Data.List.Infix
import RetroCloudSync.Mail.Proxy

/-!
# One reply is read, and no byte more

`Reads` says what the variables of the loop stand for: the completed lines, none of which begins
with the code, and the line that is being read. A byte that ends no line goes to that line
(`receive_byte`), an LF completes it (`receive_line`).
-/

set_option autoImplicit false

namespace Mail

open Library Library.Text Journal Resource

variable {lines : List Bytes} {line rest reply : Bytes} {code : Nat}

/-! ## Lines -/

theorem ended_append (l m : List Bytes) : ended (l ++ m) = ended l ++ ended m :=
  List.flatMap_append

theorem ended_singleton (l : Bytes) : ended [l] = l ++ [LF] := by
  simp [ended]

theorem ended_cons (l : Bytes) (ls : List Bytes) : ended (l :: ls) = l ++ LF :: ended ls := by
  simp [ended]

theorem ended_prefix : ∀ {l m s t : Bytes}, LF ∉ l → LF ∉ m → l ++ LF :: s = m ++ LF :: t →
    l = m ∧ s = t
  | [], [], s, t, _, _, h => ⟨rfl, (List.cons.inj h).2⟩
  | [], c :: m, s, t, _, hm, h => by
    have hc : LF = c := (List.cons.inj h).1
    exact absurd (hc ▸ List.mem_cons_self) hm
  | c :: l, [], s, t, hl, _, h => by
    have hc : c = LF := (List.cons.inj h).1
    exact absurd (hc ▸ List.mem_cons_self) hl
  | c :: l, d :: m, s, t, hl, hm, h => by
    obtain ⟨rfl, htail⟩ := List.cons.inj h
    obtain ⟨rfl, hst⟩ := ended_prefix (fun hx => hl (List.mem_cons_of_mem c hx))
      (fun hx => hm (List.mem_cons_of_mem c hx)) htail
    exact ⟨rfl, hst⟩

theorem mem_of_ended {last : Bytes} : ∀ {ls ms : List Bytes} {s t : Bytes},
    (∀ l ∈ ls, LF ∉ l) → LF ∉ last → (∀ m ∈ ms, LF ∉ m) → LF ∉ t →
    ended (ls ++ [last]) ++ s = ended ms ++ t → last ∈ ms
  | ls, [], s, t, _, _, _, ht, h => by
    have hlf : LF ∈ t := by
      rw [show t = ended [] ++ t from rfl, ← h, ended_append, ended_singleton]
      simp
    exact absurd hlf ht
  | [], m :: ms, s, t, _, hlast, hms, _, h => by
    rw [List.nil_append, ended_singleton, ended_cons, List.append_assoc, List.append_assoc] at h
    obtain ⟨rfl, -⟩ := ended_prefix hlast (hms m List.mem_cons_self) h
    exact List.mem_cons_self
  | l :: ls, m :: ms, s, t, hls, hlast, hms, ht, h => by
    rw [List.cons_append, ended_cons, ended_cons, List.append_assoc, List.append_assoc] at h
    obtain ⟨-, h⟩ := ended_prefix (hls l List.mem_cons_self) (hms m List.mem_cons_self) h
    exact List.mem_cons_of_mem m (mem_of_ended (fun x hx => hls x (List.mem_cons_of_mem l hx)) hlast
      (fun x hx => hms x (List.mem_cons_of_mem m hx)) ht h)

/-- Where no completed line begins with the code there is no reply. -/
theorem Reply.not_completed (h : Reply code reply)
    (hlines : ∀ l ∈ lines, LF ∉ l ∧ ¬ Last code l) (hline : LF ∉ line)
    (heq : reply ++ rest = ended lines ++ line) : False := by
  obtain ⟨ls, last, rfl, hls, hlf, hlast⟩ := h
  have hmem := mem_of_ended (fun l hl => (hls l hl).1) hlf (fun l hl => (hlines l hl).1) hline heq
  exact (hlines last hmem).2 hlast

/-- **A stream begins with one reply at most.** -/
theorem Reply.unique {r r' s s' : Bytes} (h : Reply code r) (h' : Reply code r')
    (heq : r ++ s = r' ++ s') : r = r' := by
  obtain ⟨ls, last, rfl, hls, hlf, hlast⟩ := h
  obtain ⟨ms, last', rfl, hms, hlf', hlast'⟩ := h'
  induction ls generalizing ms with
  | nil =>
    cases ms with
    | nil =>
      rw [List.nil_append, List.nil_append, ended_singleton, ended_singleton, List.append_assoc,
        List.append_assoc] at heq
      obtain ⟨rfl, -⟩ := ended_prefix hlf hlf' heq
      rfl
    | cons m ms =>
      rw [List.nil_append, List.cons_append, ended_singleton, ended_cons, List.append_assoc,
        List.append_assoc] at heq
      obtain ⟨rfl, -⟩ := ended_prefix hlf (hms m List.mem_cons_self).1 heq
      exact absurd hlast (hms last List.mem_cons_self).2
  | cons l ls ih =>
    cases ms with
    | nil =>
      rw [List.nil_append, List.cons_append, ended_singleton, ended_cons, List.append_assoc,
        List.append_assoc] at heq
      obtain ⟨rfl, -⟩ := ended_prefix (hls l List.mem_cons_self).1 hlf' heq
      exact absurd hlast' (hls l List.mem_cons_self).2
    | cons m ms =>
      rw [List.cons_append, List.cons_append, ended_cons, ended_cons, List.append_assoc,
        List.append_assoc] at heq
      obtain ⟨rfl, htail⟩ := ended_prefix (hls l List.mem_cons_self).1 (hms m List.mem_cons_self).1
        heq
      have hrest := ih (fun x hx => hls x (List.mem_cons_of_mem l hx)) ms htail
        fun x hx => hms x (List.mem_cons_of_mem l hx)
      rw [List.cons_append, List.cons_append, ended_cons, ended_cons, hrest]

/-! ## Memory -/

theorem store_eq {m : Memory} {i : Nat} {v : UInt8} (h : i < m.length) :
    store m i v = some (m.set i v) := if_pos h

theorem take_set_succ {m : Memory} {i : Nat} (v : UInt8) (h : i < m.length) :
    (m.set i v).take (i + 1) = m.take i ++ [v] := by
  rw [List.take_succ_eq_append_getElem (by rwa [List.length_set]), List.getElem_set_self,
    List.take_set_of_le (Nat.le_refl i)]

/-! ## The loop -/

/-- What the variables stand for. -/
structure Reads (code : Nat) (r : Reading) (lines : List Bytes) (line : Bytes) : Prop where
  size : r.response.length = responseLimit
  room : r.used < responseLimit
  read : r.response.take r.used = ended lines ++ line
  start : r.lineStart = (ended lines).length
  others : ∀ l ∈ lines, LF ∉ l ∧ ¬ Last code l
  current : LF ∉ line

theorem Reads.used {r : Reading} (h : Reads code r lines line) :
    r.used = (ended lines ++ line).length := by
  have hlen := h.room
  rw [← h.read, List.length_take, h.size]
  omega

theorem last_iff {r : Reading} {a : Arguments} (hstart : r.lineStart = (ended lines).length)
    (hused : r.used = (ended lines ++ line ++ [LF]).length)
    (hread : r.response.take r.used = ended lines ++ line ++ [LF]) :
    isLast a r = true ↔ Last a.expectedCode line := by
  have hlen : r.used - r.lineStart = line.length + 1 := by
    rw [hused, hstart]
    simp only [List.length_append, List.length_singleton]
    omega
  have hdrop : r.response.drop r.lineStart = line ++ [LF] ++ r.response.drop r.used := by
    have h : r.response = ended lines ++ (line ++ [LF] ++ r.response.drop r.used) := by
      rw [← List.append_assoc, ← List.append_assoc, ← hread, List.take_append_drop]
    rw [hstart, h, List.drop_left, ← h]
  have hcode : (codeDigits a.expectedCode ++ [SP]).length = 4 := rfl
  rw [isLast, hlen, hdrop]
  by_cases h4 : 4 ≤ line.length + 1
  · have htake : (line ++ [LF] ++ r.response.drop r.used).take 4 = (line ++ [LF]).take 4 :=
      List.take_append_of_le_length (by simpa using h4)
    rw [htake, decide_eq_true h4, Bool.true_and, decide_eq_true_iff, Last]
    have hpre := @List.prefix_iff_eq_take _ (codeDigits a.expectedCode ++ [SP]) (line ++ [LF])
    rw [hcode, eq_comm] at hpre
    rw [← hpre, List.prefix_concat_iff]
    refine ⟨fun h => h.resolve_left fun he => ?_, Or.inr⟩
    have hsp := List.append_inj_right' he rfl
    exact absurd hsp (by decide)
  · refine ⟨fun h => ?_, fun h => ?_⟩
    · simp [h4] at h
    · have hle := h.length_le
      rw [hcode] at hle
      omega

theorem receive_byte {a : Arguments} {r : Reading} {b : UInt8}
    (h : Reads a.expectedCode r lines line) (hroom : r.used + 1 < responseLimit) (hb : b ≠ LF) :
    ∃ r', receive a r b = some (r', false) ∧ Reads a.expectedCode r' lines (line ++ [b]) := by
  have hlt : r.used < r.response.length := by
    rw [h.size]
    omega
  refine ⟨{ r with response := r.response.set r.used b, used := r.used + 1 }, ?_, ?_⟩
  · rw [receive, store_eq hlt, Option.bind_some]
    exact if_pos hb
  · refine ⟨?_, hroom, ?_, h.start, h.others, ?_⟩
    · rw [List.length_set, h.size]
    · rw [take_set_succ b hlt, h.read, List.append_assoc]
    · rw [List.mem_append, not_or]
      exact ⟨h.current, by simpa using Ne.symm hb⟩

/-- **The end of the current line.** -/
theorem receive_line {a : Arguments} {r : Reading} (h : Reads a.expectedCode r lines line)
    (hroom : r.used + 1 < responseLimit) :
    ∃ r' last, receive a r LF = some (r', last) ∧
      (last = true ↔ Last a.expectedCode line) ∧ r'.response.length = responseLimit ∧
      r'.used < responseLimit ∧ r'.response.take r'.used = ended (lines ++ [line]) ∧
      (last = false → r'.lineStart = (ended (lines ++ [line])).length) := by
  have hlt : r.used < r.response.length := by
    rw [h.size]
    omega
  have hlt' : r.used + 1 < (r.response.set r.used LF).length := by
    rw [List.length_set, h.size]
    exact hroom
  have hended : ended (lines ++ [line]) = ended lines ++ line ++ [LF] := by
    rw [ended_append, ended_singleton, List.append_assoc]
  have hread : ((r.response.set r.used LF).set (r.used + 1) 0).take (r.used + 1) =
      ended lines ++ line ++ [LF] := by
    rw [List.take_set_of_le (Nat.le_refl _), take_set_succ LF hlt, h.read]
  have hused : r.used + 1 = (ended lines ++ line ++ [LF]).length := by
    rw [List.length_append, ← h.used, List.length_singleton]
  let r₁ : Reading := ⟨(r.response.set r.used LF).set (r.used + 1) 0, r.used + 1, r.lineStart,
    r.startTLS⟩
  let r₂ : Reading := { r₁ with startTLS := r.startTLS || (a.hasStartTLS && offersStartTLS r₁) }
  have hlast : isLast a r₂ = true ↔ Last a.expectedCode line := last_iff h.start hused hread
  have hrun : receive a r LF =
      some (if isLast a r₂ then (r₂, true) else ({ r₂ with lineStart := r₂.used }, false)) := by
    rw [receive, store_eq hlt, Option.bind_some]
    dsimp only
    rw [if_neg (not_not_intro rfl), store_eq hlt', Option.map_some]
  have hsize : r₂.response.length = responseLimit := by
    show ((r.response.set r.used LF).set (r.used + 1) 0).length = responseLimit
    rw [List.length_set, List.length_set, h.size]
  cases hl : isLast a r₂ with
  | true =>
    rw [hl, if_pos rfl] at hrun
    refine ⟨_, _, hrun, by simp [← hlast, hl], hsize, hroom, hread.trans hended.symm, ?_⟩
    intro h
    cases h
  | false =>
    rw [hl, if_neg Bool.false_ne_true] at hrun
    refine ⟨_, _, hrun, by simp [← hlast, hl], hsize, hroom, hread.trans hended.symm, fun _ => ?_⟩
    rw [hended]
    exact hused

/-! ## The whole call -/

/-- What a successful call leaves: the reply was consumed, and was saved as far as there is room. -/
structure Consumed (a : Arguments) (reply : Bytes) (events : List Recv) (o : Outcome) : Prop where
  taken : ∃ taken, events = taken ++ o.unread ∧ stream taken = reply
  saved : ∀ saved, a.savedResponse = some saved → a.savedLength = true →
    o.savedLength = min reply.length a.savedCapacity ∧
    o.savedResponse = some (reply.take a.savedCapacity ++
      saved.drop (min reply.length a.savedCapacity))

/-- The caller's buffer has the capacity that it says. -/
def Arguments.Sized (a : Arguments) : Prop :=
  ∀ saved, a.savedResponse = some saved → a.savedCapacity ≤ saved.length

theorem stream_byte (b : UInt8) (events : List Recv) :
    stream (.byte b :: events) = b :: stream events := rfl

theorem stream_interrupted (events : List Recv) :
    stream (.interrupted :: events) = stream events := rfl

theorem stream_append (e f : List Recv) : stream (e ++ f) = stream e ++ stream f :=
  List.filterMap_append

/-- **The copy stays in the caller's buffer.** -/
theorem finish_spec {a : Arguments} {r : Reading} (events : List Recv) (hcap : a.Sized)
    (hsize : r.response.length = responseLimit) (hroom : r.used < responseLimit)
    (hread : r.response.take r.used = reply) :
    ∃ o, finish a r events = some o ∧ o.returned = true ∧ o.unread = events ∧
      ∀ saved, a.savedResponse = some saved → a.savedLength = true →
        o.savedLength = min reply.length a.savedCapacity ∧
        o.savedResponse = some (reply.take a.savedCapacity ++
          saved.drop (min reply.length a.savedCapacity)) := by
  have hlen : reply.length = r.used := by
    rw [← hread, List.length_take, hsize]
    omega
  cases hs : a.savedResponse with
  | none => exact ⟨_, by rw [finish, hs], rfl, rfl, fun saved h => nomatch h⟩
  | some saved =>
    by_cases hl : a.savedLength = true
    · have hmin : (if r.used < a.savedCapacity then r.used else a.savedCapacity) =
          min reply.length a.savedCapacity := by
        rw [hlen]
        split <;> omega
      have hfits : min reply.length a.savedCapacity ≤ saved.length ∧
          min reply.length a.savedCapacity ≤ r.response.length := by
        have hc := hcap saved hs
        omega
      have htake : r.response.take (min reply.length a.savedCapacity) =
          reply.take a.savedCapacity := by
        rw [← hread, List.take_take, Nat.min_comm a.savedCapacity, List.length_take, hsize]
        congr 1
        omega
      have hcopy : finish a r events = some ⟨true, some (reply.take a.savedCapacity ++
          saved.drop (min reply.length a.savedCapacity)), min reply.length a.savedCapacity,
          r.startTLS, events⟩ := by
        simp only [finish, hs, hl, if_true, hmin, copy, hfits, and_self, Option.map_some, htake]
      refine ⟨_, hcopy, rfl, rfl, fun m hm _ => ?_⟩
      cases hm
      exact ⟨rfl, rfl⟩
    · exact ⟨⟨true, some saved, 0, r.startTLS, events⟩, by rw [finish, hs]; exact if_neg hl, rfl,
        rfl, fun _ _ h => absurd h hl⟩

section
variable {a : Arguments} {r : Reading} (event : Recv) (b : UInt8) (events : List Recv)

theorem readLoop_interrupted (h : r.used + 1 < responseLimit) :
    readLoop a r (.interrupted :: events) = readLoop a r events := if_pos h

theorem readLoop_byte (h : r.used + 1 < responseLimit) :
    readLoop a r (.byte b :: events) = (receive a r b).bind fun
      | (r, true) => finish a r events
      | (r, false) => readLoop a r events := if_pos h

theorem readLoop_full (h : ¬ r.used + 1 < responseLimit) :
    readLoop a r (event :: events) = some (failed a r (event :: events)) := by
  cases event <;> exact if_neg h

end

/-- **From anywhere in the loop**: either no reply is completed in time, or one is consumed. -/
theorem readLoop_spec {a : Arguments} (hcap : a.Sized) : ∀ {events : List Recv} {r : Reading}
    {lines : List Bytes} {line : Bytes}, Reads a.expectedCode r lines line →
    ∃ o, readLoop a r events = some o ∧
      (o.returned = false ∧ (∀ reply rest, ended lines ++ line ++ stream events = reply ++ rest →
          Reply a.expectedCode reply → responseLimit ≤ reply.length) ∨
        o.returned = true ∧ ∃ reply taken, Reply a.expectedCode reply ∧
          reply.length < responseLimit ∧ events = taken ++ o.unread ∧
          reply = ended lines ++ line ++ stream taken ∧
          ∀ saved, a.savedResponse = some saved → a.savedLength = true →
            o.savedLength = min reply.length a.savedCapacity ∧
            o.savedResponse = some (reply.take a.savedCapacity ++
              saved.drop (min reply.length a.savedCapacity)))
  | [], r, lines, line, h => by
    refine ⟨_, rfl, .inl ⟨rfl, fun reply rest heq hreply => ?_⟩⟩
    rw [show stream [] = [] from rfl, List.append_nil] at heq
    exact (hreply.not_completed h.others h.current heq.symm).elim
  | event :: events, r, lines, line, h => by
    by_cases hroom : r.used + 1 < responseLimit
    · cases event with
      | interrupted =>
        rw [readLoop_interrupted events hroom]
        obtain ⟨o, hrun, hspec⟩ := @readLoop_spec a hcap events r lines line h
        refine ⟨o, hrun, hspec.imp id fun hdone => ?_⟩
        obtain ⟨hret, reply, taken, hreply, hlen, htaken, heq, hsaved⟩ := hdone
        exact ⟨hret, reply, .interrupted :: taken, hreply, hlen, by rw [htaken]; rfl, heq, hsaved⟩
      | byte b =>
        rw [readLoop_byte b events hroom]
        by_cases hb : b = LF
        · subst hb
          obtain ⟨r', last, hrun, hlast, hsize, hroom', hread, hstart⟩ := receive_line h hroom
          simp only [hrun, Option.bind_some]
          have hended : ended (lines ++ [line]) = ended lines ++ line ++ [LF] := by
            rw [ended_append, ended_singleton, List.append_assoc]
          cases last with
          | true =>
            obtain ⟨o, hfin, hret, hunread, hsaved⟩ := finish_spec events hcap hsize hroom' hread
            have hlen : (ended (lines ++ [line])).length < responseLimit := by
              rw [← hread, List.length_take]
              omega
            refine ⟨o, hfin, .inr ⟨hret, _, [.byte LF], ?_, hlen, by rw [hunread]; rfl, ?_, hsaved⟩⟩
            · exact ⟨lines, line, rfl, h.others, h.current, hlast.1 rfl⟩
            · rw [hended]
              rfl
          | false =>
            have hnot : ¬ Last a.expectedCode line := fun hl => nomatch hlast.2 hl
            have hnext : Reads a.expectedCode r' (lines ++ [line]) [] := by
              refine ⟨hsize, hroom', by rw [hread, List.append_nil], hstart rfl, ?_, by simp⟩
              intro l hl
              obtain hl | hl := List.mem_append.1 hl
              · exact h.others l hl
              · rw [List.mem_singleton.1 hl]
                exact ⟨h.current, hnot⟩
            obtain ⟨o, hrun', hspec⟩ := @readLoop_spec a hcap events r' _ _ hnext
            refine ⟨o, hrun', hspec.imp (fun hno => ⟨hno.1, fun reply rest heq => ?_⟩)
              fun hdone => ?_⟩
            · refine hno.2 reply rest ?_
              rw [← heq, hended, stream_byte]
              simp
            · obtain ⟨hret, reply, taken, hreply, hlen, htaken, heq, hsaved⟩ := hdone
              refine ⟨hret, reply, .byte LF :: taken, hreply, hlen, by rw [htaken]; rfl, ?_, hsaved⟩
              rw [heq, hended, stream_byte]
              simp
        · obtain ⟨r', hrun, hnext⟩ := receive_byte h hroom hb
          simp only [hrun, Option.bind_some]
          obtain ⟨o, hrun', hspec⟩ := @readLoop_spec a hcap events r' _ _ hnext
          refine ⟨o, hrun', hspec.imp (fun hno => ⟨hno.1, fun reply rest heq => ?_⟩)
            fun hdone => ?_⟩
          · refine hno.2 reply rest ?_
            rw [← heq, stream_byte]
            simp
          · obtain ⟨hret, reply, taken, hreply, hlen, htaken, heq, hsaved⟩ := hdone
            refine ⟨hret, reply, .byte b :: taken, hreply, hlen, by rw [htaken]; rfl, ?_, hsaved⟩
            rw [heq, stream_byte]
            simp
    · rw [readLoop_full event events hroom]
      refine ⟨_, rfl, .inl ⟨rfl, fun reply rest heq hreply => ?_⟩⟩
      have hused := h.used
      by_contra hlt
      -- a shorter reply is a part of what was read
      have hle : reply.length ≤ (ended lines ++ line).length := by omega
      obtain ⟨t, ht⟩ : ∃ t, ended lines ++ line = reply ++ t :=
        (List.prefix_of_prefix_length_le ⟨rest, heq.symm⟩ ⟨_, rfl⟩ hle).imp fun _ => Eq.symm
      exact hreply.not_completed h.others h.current ht.symm

/-- **One call**: it returns, and succeeds exactly if a reply is completed in time, which is then
consumed. -/
theorem readSMTPResponse_spec {a : Arguments} (hcap : a.Sized) {response : Memory}
    (hsize : response.length = responseLimit) (events : List Recv) :
    ∃ o, readSMTPResponse a response events = some o ∧
      (o.returned = true ↔ ∃ reply rest, stream events = reply ++ rest ∧
        Reply a.expectedCode reply ∧ reply.length < responseLimit) ∧
      ∀ reply rest, stream events = reply ++ rest → Reply a.expectedCode reply →
        reply.length < responseLimit → Consumed a reply events o := by
  have hinit : Reads a.expectedCode ⟨response, 0, 0, false⟩ [] [] :=
    ⟨hsize, show 0 < responseLimit by decide, rfl, rfl, by simp, by simp⟩
  obtain ⟨o, hrun, hspec⟩ := @readLoop_spec a hcap events _ _ _ hinit
  refine ⟨o, hrun, ?_⟩
  obtain ⟨hret, hno⟩ | ⟨hret, reply, taken, hreply, hlen, htaken, heq, hsaved⟩ := hspec
  · have hnone : ∀ reply rest, stream events = reply ++ rest → Reply a.expectedCode reply →
        ¬ reply.length < responseLimit := by
      intro reply rest h hreply
      exact Nat.not_lt.2 (hno reply rest h hreply)
    refine ⟨⟨fun h => ?_, fun h => ?_⟩, fun reply rest h hreply hlt => ?_⟩
    · rw [hret] at h
      cases h
    · obtain ⟨reply, rest, h, hreply, hlt⟩ := h
      exact absurd hlt (hnone reply rest h hreply)
    · exact absurd hlt (hnone reply rest h hreply)
  · have hreply_eq : reply = stream taken := heq
    have hstream : stream events = reply ++ stream o.unread := by
      rw [hreply_eq, ← stream_append, ← htaken]
    refine ⟨⟨fun _ => ⟨reply, _, hstream, hreply, hlen⟩, fun _ => hret⟩, ?_⟩
    intro reply' rest h hreply' _
    have hsame : reply' = reply := hreply'.unique hreply (h.symm.trans hstream)
    rw [hsame]
    exact ⟨⟨taken, htaken, hreply_eq.symm⟩, hsaved⟩

theorem readSMTPResponse_takes {a : Arguments} (hcap : a.Sized) {response : Memory}
    (hsize : response.length = responseLimit) (events : List Recv) :
    ∃ o, readSMTPResponse a response events = some o ∧ (o.returned = true →
      ∃ taken, events = taken ++ o.unread ∧ Reply a.expectedCode (stream taken)) := by
  obtain ⟨o, hrun, hiff, hconsumed⟩ := readSMTPResponse_spec hcap hsize events
  refine ⟨o, hrun, fun hret => ?_⟩
  obtain ⟨reply, rest, hstream, hreply, hlen⟩ := hiff.1 hret
  obtain ⟨taken, htaken, heq⟩ := (hconsumed reply rest hstream hreply hlen).taken
  exact ⟨taken, htaken, by rwa [heq]⟩

/-- **The reader consumes exactly one reply** and writes past no buffer, and when the server has
agreed to TLS everything behind its answer is unread. -/
theorem readSMTPResponse_exact :
    (∀ (a : Arguments) (response : Memory) (events : List Recv), a.Sized →
      response.length = responseLimit →
      ∃ o, readSMTPResponse a response events = some o ∧
        (o.returned = true ↔ ∃ reply rest, stream events = reply ++ rest ∧
          Reply a.expectedCode reply ∧ reply.length < responseLimit) ∧
        ∀ reply rest, stream events = reply ++ rest → Reply a.expectedCode reply →
          reply.length < responseLimit → Consumed a reply events o) ∧
    ∀ (w : Surroundings) (greeting : Memory) (capacity : Nat) (events : List Recv),
      capacity ≤ greeting.length → (∀ i, (w.stack i).length = responseLimit) →
      ∃ ok o, prepareSMTPStartTLS w greeting capacity events = some (ok, o) ∧ (ok = true →
        ∃ first second third, events = first ++ second ++ third ++ o.unread ∧
          Reply 220 (stream first) ∧ Reply 250 (stream second) ∧ Reply 220 (stream third)) := by
  refine ⟨fun a response events hcap hsize => readSMTPResponse_spec hcap hsize events, ?_⟩
  intro w greeting capacity events hcap hstack
  have hfirst : (Arguments.mk 220 (some greeting) capacity true false).Sized := by
    intro saved h
    cases h
    exact hcap
  have hnull : ∀ code flag, (Arguments.mk code none 0 false flag).Sized :=
    fun _ _ saved h => nomatch h
  obtain ⟨o₁, hrun₁, h₁⟩ := readSMTPResponse_takes hfirst (hstack 0) events
  rw [prepareSMTPStartTLS, hrun₁, Option.bind_some]
  split
  · rename_i hgo₁
    obtain ⟨hret₁, -⟩ := Bool.and_eq_true_iff.1 hgo₁
    obtain ⟨first, hevents₁, hreply₁⟩ := h₁ hret₁
    obtain ⟨o₂, hrun₂, h₂⟩ := readSMTPResponse_takes (hnull 250 true) (hstack 1) o₁.unread
    rw [hrun₂, Option.bind_some]
    split
    · rename_i hgo₂
      obtain ⟨hret₂, -⟩ := Bool.and_eq_true_iff.1 (Bool.and_eq_true_iff.1 hgo₂).1
      obtain ⟨second, hevents₂, hreply₂⟩ := h₂ hret₂
      obtain ⟨o₃, hrun₃, h₃⟩ := readSMTPResponse_takes (hnull 220 false) (hstack 2) o₂.unread
      rw [hrun₃, Option.map_some]
      refine ⟨_, _, rfl, fun hok => ?_⟩
      obtain ⟨third, hevents₃, hreply₃⟩ := h₃ hok
      refine ⟨first, second, third, ?_, hreply₁, hreply₂, hreply₃⟩
      rw [hevents₁, hevents₂, hevents₃]
      simp
    · exact ⟨_, _, rfl, fun h => nomatch h⟩
  · exact ⟨_, _, rfl, fun h => nomatch h⟩

/-- A greeting of two lines with an interruption, and what the server has sent behind it. -/
def greeted : List Recv :=
  .interrupted :: (ascii "220-a\n220 b\n").map .byte ++ (ascii "250 c\n").map .byte

/-- The caller of the greeting, with room for ten bytes. -/
def greeting : Arguments := ⟨220, some (List.replicate 10 0), 10, true, false⟩

/-- The greeting is consumed; its first ten bytes are saved, and what follows is unread. -/
theorem readSMTPResponse_exact_greeting : ∃ o,
    readSMTPResponse greeting (List.replicate responseLimit 0) greeted = some o ∧
      o.returned = true ∧ Consumed greeting (ascii "220-a\n220 b\n") greeted o := by
  have hsized : greeting.Sized := by
    intro saved h
    cases h
    exact Nat.le_refl 10
  have hstream : stream greeted = ascii "220-a\n220 b\n" ++ ascii "250 c\n" := by decide
  have hreply : Reply 220 (ascii "220-a\n220 b\n") := by
    refine ⟨[ascii "220-a"], ascii "220 b", by decide, ?_, by decide, ⟨ascii "b", by decide⟩⟩
    intro l hl
    rw [List.mem_singleton.1 hl]
    refine ⟨by decide, fun h => ?_⟩
    exact absurd (List.prefix_iff_eq_take.1 h) (by decide)
  obtain ⟨o, hrun, hiff, h⟩ := readSMTPResponse_exact.1 greeting (List.replicate responseLimit 0)
    greeted hsized List.length_replicate
  have hlen : (ascii "220-a\n220 b\n").length < responseLimit := by decide
  exact ⟨o, hrun, hiff.2 ⟨_, _, hstream, hreply, hlen⟩, h _ _ hstream hreply hlen⟩

end Mail
