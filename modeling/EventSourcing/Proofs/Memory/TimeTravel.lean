import EventSourcing.Proofs.Memory.Matching

/-!
# The store in memory — time travel

A query as of a position sees the log as it was when that was its last position.  Whatever is appended
later has later positions, and so it never comes into sight again.

* `matching_asOfPosition`: a ledger that has grown matches as of an old position what it matched before.
* `query_repeatable`: **a read as of a position that has been reached can be repeated for ever**, in any
  columns, in either order, and on any page.
-/

namespace EventSourcing

/-- Nothing beyond the position is selected. -/
theorem Query.position_le_of_selects {q : Query} {p : Nat} (hq : q.asOfPosition = some p) {e : Event}
    (he : q.selects e = true) : e.position ≤ p := by
  simp only [selects, acceptsEnvelope, hq, Option.all_some, Bool.and_eq_true,
    decide_eq_true_eq] at he
  exact he.1.2

/-- As of a position that has been reached, nothing that is appended is matched. -/
theorem Ledger.matching_asOfPosition {l l' : Ledger} (h : l.Consistent) (h' : l'.Consistent)
    (hg : l.Grows l') {q : Query} {p : Nat} (hq : q.asOfPosition = some p)
    (hp : p ≤ l.lastPosition) : l'.matching q = l.matching q := by
  obtain ⟨later, hlog⟩ := hg
  have hlater : later.filter q.selects = [] := by
    refine List.filter_eq_nil_iff.mpr fun e he hs => ?_
    have hlt := h.lt_position h' hlog he
    have hle := Query.position_le_of_selects hq hs
    omega
  rw [matching, ← hlog, List.filter_append, hlater, List.append_nil]
  rfl

namespace Memory

/-- **Time-travel reads are repeatable.**  As of a position that the store has reached, a query gives
now what it gives after any further run, whatever its columns, its order, its filters and its page. -/
theorem query_repeatable {m : Memory} (hm : m.Reachable) {q : Query} {p : Nat}
    (hq : q.asOfPosition = some p) (hp : p ≤ m.lastPosition) {ctx : Context}
    (hctx : ctx.interruption? = none) (actions : List Action) :
    ∃ output, m.query ctx q = (.ok output, m) ∧
      (m.acts actions).query ctx q = (.ok output, m.acts actions) := by
  refine ⟨_, query_ok hctx q m, ?_⟩
  have hresolved : (q.resolve ctx).asOfPosition = some p := by
    obtain ⟨instanceId, h⟩ := q.exists_resolve ctx
    rw [h]
    exact hq
  have hmatching := Ledger.matching_asOfPosition hm.consistent (hm.acts actions).consistent
    (grows_acts m actions) hresolved hp
  rw [query_ok hctx, Ledger.select_eq_of_matching hmatching]

/-- A store with three events of two counters. -/
def counted : Memory :=
  let command (id : String) : Command :=
    { aggregate := { type := "counter", id }, type := "counter.set" }
  ({ clock := default } : Memory).acts [.push {} ⟨command "a", [command "b", command "a"]⟩]

/-- All but the last of what was there at position 2, the last first. -/
def backwards : Query := { desc := true, offset := 1, allowTimeTravel := true, asOfPosition := some 2 }

/-- Two more events change nothing about the past, read backwards. -/
theorem query_repeatable_backwards :
    counted.Reachable ∧ 2 ≤ counted.lastPosition ∧
      ∃ later, (counted.acts later).lastPosition = 4 ∧
        (counted.query {} backwards).1 = .ok (.events (counted.ledger.log.take 1)) ∧
        ((counted.acts later).query {} backwards).1 = .ok (.events (counted.ledger.log.take 1)) := by
  have hcounted : counted.Reachable := ⟨default, _, rfl⟩
  have hnow : (counted.query {} backwards).1 = .ok (.events (counted.ledger.log.take 1)) := rfl
  let later : List Action :=
    [.push {} ⟨{ aggregate := { type := "counter", id := "a" }, type := "counter.set" }, []⟩]
  have hctx : ({} : Context).interruption? = none := rfl
  obtain ⟨output, h, h'⟩ := query_repeatable hcounted (q := backwards) rfl (by decide) hctx later
  have houtput : Except.ok output = (counted.query {} backwards).1 := (congrArg Prod.fst h).symm
  exact ⟨hcounted, by decide, later, rfl, hnow, by rw [h', ← hnow, ← houtput]⟩

end Memory

end EventSourcing
