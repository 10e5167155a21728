import RetroCloudSync.Journal.Lineage

/-!
# One unresolved write a resource

`OneUnresolved`: no two operations of an account that are neither acknowledged nor cancelled
share a resource key or an href. Only two moves insert a row. `Enqueue` looks first
(`occupied`); `ResolveConflict` puts the successor on the conflict's own resource and cancels the
conflict in the same savepoint, so whoever could clash with the successor would have clashed with
the conflict before (`Move.newcomer`).
-/

set_option autoImplicit false

namespace Journal

open Library Library.Tx

variable {account : Int} {c : Conn Tables} {t : Tables}

/-- Both operations are on one resource of one account. -/
def Operation.Clash (o o' : Operation) : Prop :=
  o.account = o'.account ∧ (o.resourceKey = o'.resourceKey ∨ o.href = o'.href)

/-- No two unresolved operations clash. -/
def OneUnresolved (t : Tables) : Prop :=
  ∀ o ∈ t.operations, ∀ o' ∈ t.operations, o.unresolved = true → o'.unresolved = true →
    o.Clash o' → o = o'

/-- A row found after a move is new, or was there with the same intent. -/
theorem Move.forebear (h : Move account c t) {x : Operation} (hx : x ∈ t.operations) :
    x.id = newRowid c.now.operations ∨
      ∃ o ∈ c.now.operations, x.intent = o.intent ∧ (x.unresolved = true → o.unresolved = true) := by
  rcases h.origin hx with hx | ⟨-, hn⟩ | ⟨o, ho, ht⟩
  · exact .inr ⟨x, hx, rfl, id⟩
  · exact .inl hn
  · exact .inr ⟨o, ho, ht.intent_eq, ht.unresolved⟩

/-- A new row clashes with no unresolved one. -/
theorem Move.newcomer (hc : OneUnresolved c.now) (h : Move account c t) {x y : Operation}
    (hx : x ∈ t.operations) (hn : x.id = newRowid c.now.operations) (hy : y ∈ t.operations)
    (hne : y ≠ x) (hu : y.unresolved = true) : ¬ x.Clash y := by
  have aged : ∀ {o : Operation}, o ∈ c.now.operations → o.id ≠ newRowid c.now.operations :=
    fun ho => Int.ne_of_lt (lt_newRowid ho)
  have turned : ∀ {ops : Table Operation.id Operation.change} {o o' : Operation},
      Table.Rewrote c.now.operations ops o o' → x ∈ ops → False := by
    intro ops o o' hr hx
    rcases (hr.mem_iff x).1 hx with rfl | ⟨hx, -⟩
    · exact aged hr.mem (hr.key_eq.symm.trans hn)
    · exact aged hx hn
  cases h with
  | rest | base | attention | mirrored => exact absurd hn (aged hx)
  | attempted _ _ rewrote => exact (turned rewrote hx).elim
  | recorded _ _ rewrote => exact (turned rewrote hx).elim
  | acknowledged _ rewrote => exact (turned rewrote hx).elim
  | cancelled _ rewrote => exact (turned rewrote hx).elim
  | enqueued h =>
    cases h with
    | replay => exact absurd hn (aged hx)
    | fresh _ free _ added =>
      rcases (added.mem_iff x).1 hx with hx | rfl
      · exact absurd hn (aged hx)
      rcases (added.mem_iff y).1 hy with hy | rfl
      · rintro ⟨ha, hs⟩
        have hf := Table.any_false.1 free y hy
        rcases hs with hs | hs <;> simp [← ha, ← hs, hu, Intent.row] at hf
      · exact absurd rfl hne
  | resolved h =>
    cases h with
    | replay => exact absurd hn (aged hx)
    | fresh found _ usable added _ cancelled =>
      obtain ⟨hold, ha, -⟩ := findOperation_some found
      rcases (cancelled.mem_iff x).1 hx with rfl | ⟨hx, -⟩
      · exact absurd (cancelled.key_eq.symm.trans hn) (aged hold)
      rcases (added.mem_iff x).1 hx with hx | rfl
      · exact absurd hn (aged hx)
      rcases (cancelled.mem_iff y).1 hy with rfl | ⟨hy, hyo⟩
      · cases hu
      rcases (added.mem_iff y).1 hy with hy | rfl
      · -- whoever clashes with the successor clashes with the conflict, hence is the conflict
        rintro ⟨ha', hs⟩
        exact hyo (hc _ hold _ hy (usable_unresolved usable) hu ⟨ha.trans ha', hs⟩).symm
      · exact absurd rfl hne

theorem OneUnresolved.move (hc : Everywhere OneUnresolved c) (h : Move account c t) :
    OneUnresolved t := by
  intro x hx y hy hux huy hclash
  by_contra hne
  rcases h.forebear hx with hn | ⟨ox, hox, hix, hu⟩
  · exact h.newcomer hc.now hx hn hy (Ne.symm hne) huy hclash
  rcases h.forebear hy with hn | ⟨oy, hoy, hiy, hv⟩
  · exact h.newcomer hc.now hy hn hx hne hux ⟨hclash.1.symm, hclash.2.imp Eq.symm Eq.symm⟩
  -- both were there before, unresolved and clashing, so they were one row
  have sx := Operation.same_of_intent hix
  have sy := Operation.same_of_intent hiy
  have ho : ox = oy := hc.now ox hox oy hoy (hu hux) (hv huy)
    ⟨sx.account.symm.trans (hclash.1.trans sy.account),
      hclash.2.imp (fun hk => sx.resourceKey.symm.trans (hk.trans sy.resourceKey))
        fun hh => sx.href.symm.trans (hh.trans sy.href)⟩
  exact hne (Table.eq_of_key hx hy (sx.id.trans (ho ▸ sy.id.symm)))

/-- **At most one unresolved write per resource**, in every reachable journal and after every
`ResolveConflict`, which moves the resource from the conflict to its successor. -/
theorem one_unresolved {past : List (Conn Tables)} (h : Reached c past) :
    OneUnresolved c.now ∧
    ∀ account id kind body receipt faults n s,
      resolveConflict account id kind body receipt ⟨c, faults⟩ = .ok n s →
        OneUnresolved s.conn.now ∧
        ∃ old ∈ c.now.operations, old.id = id ∧ old.account = account ∧
          old.closed .cancelled ∈ s.conn.now.operations ∧
          ∃ next ∈ s.conn.now.operations, next.id = n ∧ next.account = account ∧
            next.resourceKey = old.resourceKey ∧ next.href = old.href := by
  have hc : Everywhere OneUnresolved c :=
    h.images (fun _ ho => absurd ho (Table.not_mem_empty _)) fun _ _ _ => OneUnresolved.move
  refine ⟨hc.now, fun account id kind body receipt faults n s hr => ?_⟩
  obtain ⟨hu, d, -, hres⟩ := wp_ok resolve_spec hr
  obtain ⟨old, hold, hi, ha, hclosed, next, hnext, hn, hsucc⟩ := hres.lineage h.linked
  exact ⟨OneUnresolved.move hc (.resolved hres), old, hold, hi, ha, hclosed, next, hnext, hn,
    hsucc.account.trans ha, hsucc.resourceKey, hsucc.href⟩

/-- Two edits of one event: the second has to wait. -/
def competingCalls : List Call :=
  [.enqueue (some (ascii "c1")) (some (ascii "k")) (some (ascii "https://dav/k"))
      (some (ascii "create")) 0 (.data (ascii "one")),
    .enqueue (some (ascii "c2")) (some (ascii "l")) (some (ascii "https://dav/k"))
      (some (ascii "create")) 0 (.data (ascii "two"))]

theorem one_unresolved_competing :
    OneUnresolved (perform 7 competingCalls ⟨Tables.empty, []⟩).now ∧
      (perform 7 competingCalls ⟨Tables.empty, []⟩).now.operations.rows.map Operation.id = [1] := by
  obtain ⟨past, h⟩ := reached_empty.perform 7 competingCalls
  exact ⟨(one_unresolved h).1, by decide +kernel⟩

end Journal
