import EventSourcing.Proofs.Memory.Pages

/-!
# The store in memory — bounds on creation dates

A bound on the creation date lets through the events on its own side of an instant, unless the instant is
taken for "not set" and passed over.  That happens to the first instant of the year 1, and to every instant
of the first second of 1970, not to the first of them alone.

* `selects_creationDateAfter`, `selects_creationDateBefore`: a bound is one condition more.
* `Memory.filter_narrowed`: a read under one condition more, and its page.
* `boundsDates`: what holds of either bound, from what it does to a query.
* `date_bounds`: **which instants are passed over, and what every other one lets through.**
* `date_bounds_lost`: half a second into 1970, a bound is lost.
-/

namespace EventSourcing

/-! ### One condition more -/

namespace Query

/-- A lower bound is one condition more. -/
theorem selects_creationDateAfter (q : Query) (t : Instant) (e : Event) :
    ({ q with creationDateAfter := some t } : Query).selects e =
      (({ q with creationDateAfter := none } : Query).selects e && decide (t < e.creationDate)) := by
  have haccepts (bound : Option Instant) :
      ({ q with creationDateAfter := bound } : Query).accepts e.candidate = q.accepts e.candidate := rfl
  have heditor (bound : Option Instant) :
      ({ q with creationDateAfter := bound } : Query).editorUser? = q.editorUser? := rfl
  simp only [selects, acceptsEnvelope, haccepts, heditor, Option.all_some, Option.all_none, Bool.and_true]
  ac_rfl

/-- So is an upper bound. -/
theorem selects_creationDateBefore (q : Query) (t : Instant) (e : Event) :
    ({ q with creationDateBefore := some t } : Query).selects e =
      (({ q with creationDateBefore := none } : Query).selects e && decide (e.creationDate < t)) := by
  have haccepts (bound : Option Instant) :
      ({ q with creationDateBefore := bound } : Query).accepts e.candidate = q.accepts e.candidate := rfl
  have heditor (bound : Option Instant) :
      ({ q with creationDateBefore := bound } : Query).editorUser? = q.editorUser? := rfl
  simp only [selects, acceptsEnvelope, haccepts, heditor, Option.all_some, Option.all_none, Bool.and_true]
  ac_rfl

end Query

/-- Under one condition more, a query gives what the condition leaves of all its events, cut to its page. -/
theorem Ledger.events_narrowed (l : Ledger) {q q' : Query} {p : Event → Bool} (hdesc : q'.desc = q.desc)
    (h : ∀ e, q'.selects e = (q.selects e && p e)) :
    l.events q' = q'.page ((l.events q.unpaged).filter p) := by
  have hmatching : l.log.filter q'.selects = (l.log.filter q.selects).filter p := by
    rw [List.filter_filter]
    exact List.filter_congr fun e _ => (h e).trans (Bool.and_comm _ _)
  rw [events, hmatching, hdesc]
  show _ = q'.page (List.filter p (if q.desc then (l.log.filter q.selects).reverse else l.log.filter q.selects))
  cases q.desc with
  | false => rfl
  | true => exact congrArg q'.page List.filter_reverse.symm

/-- Reads under one condition more: whatever refuses the one refuses the other. -/
theorem Memory.filter_narrowed {m : Memory} {ctx : Context} {q q' : Query} {p : Event → Bool}
    (hcolumns : q'.columns = q.columns) (hdesc : q'.desc = q.desc)
    (h : ∀ e, (q'.resolve ctx).selects e = ((q.resolve ctx).selects e && p e)) :
    (EventStore.filter ctx q' m).1 =
      (EventStore.filter ctx q.unpaged m).1.map fun es => q'.page (es.filter p) := by
  have hevents : m.ledger.events (q'.resolve ctx) =
      q'.page ((m.ledger.events (q.unpaged.resolve ctx)).filter p) := by
    obtain ⟨tenant, hq⟩ := q.exists_resolve ctx
    obtain ⟨tenant', hq'⟩ := q'.exists_resolve ctx
    rw [Query.resolve_comm Query.unpaged fun _ _ => rfl, m.ledger.events_narrowed (q := q.resolve ctx) _ h,
      hq']
    · rfl
    · rw [hq, hq']
      exact hdesc
  cases hread : (EventStore.filter ctx q.unpaged m).1 with
  | ok es =>
      obtain ⟨hevent, hi, rfl⟩ := filter_ok_iff.mp hread
      exact filter_ok_iff.mpr ⟨hcolumns.trans hevent, hi, hevents.symm⟩
  | error e =>
      have herror : (q'.columns ≠ .event ∧ _) ∨ _ := hcolumns ▸ filter_error_iff.mp hread
      exact filter_error_iff.mpr herror

/-! ### Bounds -/

/-- What a call that gives an instant as a bound does to queries and to reads: `bound` is where a query keeps
it, `without` takes it off, and `meets` tells the events on its side. -/
structure BoundsDates (t : Instant) (call : Query → Query) (bound : Query → Option Instant)
    (without : Query → Query) (meets : Event → Bool) : Prop where
  /-- The call changes nothing where the instant is passed over, and where it is the bound already. -/
  unchanged_iff : ∀ q, call q = q ↔ (t.second = 0 ∨ t = .zero) ∨ bound q = some t
  /-- Just the two instants that stand for "not set" are passed over, but for the first second of 1970. -/
  passed_over_iff : ((∀ q, call q = q) ↔ t = .unixEpoch ∨ t = .zero) ↔ (t.second = 0 → t.nano = 0)
  /-- A bound that is not passed over leaves the events on its side, before the page is cut. -/
  reads : ¬ (t.second = 0 ∨ t = .zero) → ∀ (m : Memory) (ctx : Context) (q : Query),
    (EventStore.filter ctx (call q) m).1 =
      (EventStore.filter ctx (without q.unpaged) m).1.map fun es => q.page (es.filter meets)

section

variable {t : Instant} {call put without : Query → Query} {bound : Query → Option Instant}
  {meets : Event → Bool}

/-- The two readings of "not set" differ within the first second of 1970 alone. -/
theorem Instant.passed_over_iff : ((t.second = 0 ∨ t = .zero) ↔ t = .unixEpoch ∨ t = .zero) ↔
    (t.second = 0 → t.nano = 0) := by
  have hepoch : t = .unixEpoch ↔ t.second = 0 ∧ t.nano = 0 :=
    ⟨by rintro rfl; exact ⟨rfl, rfl⟩, fun h => Instant.ext h.1 h.2⟩
  have hzero : t = .zero → t.second ≠ 0 := by
    rintro rfl
    decide
  rw [hepoch]
  constructor
  · intro h hsecond
    exact ((h.mp (.inl hsecond)).resolve_right fun hz => hzero hz hsecond).2
  · intro h
    exact or_congr_left ⟨fun hsecond => ⟨hsecond, h hsecond⟩, fun hs => hs.1⟩

/-- **One bound**, by what the call does where the instant is not passed over. -/
theorem boundsDates (hcall : ∀ q, call q = if t.isUnset then q else put q)
    (hput : ∀ q, put q = q ↔ bound q = some t) (hfresh : bound {} = none)
    (hreads : ∀ (m : Memory) (ctx : Context) (q : Query), (EventStore.filter ctx (put q) m).1 =
      (EventStore.filter ctx (without q.unpaged) m).1.map fun es => q.page (es.filter meets)) :
    BoundsDates t call bound without meets := by
  have hunchanged (q : Query) : call q = q ↔ (t.second = 0 ∨ t = .zero) ∨ bound q = some t := by
    rw [hcall, ← Instant.isUnset_eq_true_iff]
    cases t.isUnset with
    | true => exact iff_of_true rfl (.inl rfl)
    | false => exact (hput q).trans (or_iff_right Bool.false_ne_true).symm
  refine ⟨hunchanged, ?_, fun ht m ctx q => ?_⟩
  · -- a query that has no bound yet shows what is passed over
    have hpassed : (∀ q, call q = q) ↔ t.second = 0 ∨ t = .zero := by
      refine ⟨fun h => ?_, fun ht q => (hunchanged q).mpr (.inl ht)⟩
      exact ((hunchanged {}).mp (h {})).resolve_right fun hb => by rw [hfresh] at hb; cases hb
    rw [hpassed]
    exact Instant.passed_over_iff
  · rw [hcall, if_neg (mt Instant.isUnset_eq_true_iff.mp ht)]
    exact hreads m ctx q

end

/-- **Bounds on creation dates.**  A call with a bound leaves every query as it is exactly for the first
instant of the year 1 and for the instants of the first second of 1970.  Any other bound leaves, of all that
the query would give without it, the events that were created strictly after it, or strictly before it. -/
theorem date_bounds (t : Instant) :
    BoundsDates t (·.set (.creationDateAfter t)) (·.creationDateAfter)
      (fun q => { q with creationDateAfter := none }) (fun e => t < e.creationDate) ∧
    BoundsDates t (·.set (.creationDateBefore t)) (·.creationDateBefore)
      (fun q => { q with creationDateBefore := none }) (fun e => e.creationDate < t) := by
  constructor
  · refine boundsDates (fun _ => rfl) (fun q => ?_) rfl fun m ctx q => ?_
    · exact ⟨fun h => (congrArg (fun r : Query => r.creationDateAfter) h).symm, fun h => by rw [← h]⟩
    · refine Memory.filter_narrowed (q := { q with creationDateAfter := none }) rfl rfl fun e => ?_
      rw [Query.resolve_comm ({ · with creationDateAfter := some t }) fun _ _ => rfl,
        Query.resolve_comm ({ · with creationDateAfter := none }) fun _ _ => rfl]
      exact Query.selects_creationDateAfter _ t e
  · refine boundsDates (fun _ => rfl) (fun q => ?_) rfl fun m ctx q => ?_
    · exact ⟨fun h => (congrArg (fun r : Query => r.creationDateBefore) h).symm, fun h => by rw [← h]⟩
    · refine Memory.filter_narrowed (q := { q with creationDateBefore := none }) rfl rfl fun e => ?_
      rw [Query.resolve_comm ({ · with creationDateBefore := some t }) fun _ _ => rfl,
        Query.resolve_comm ({ · with creationDateBefore := none }) fun _ _ => rfl]
      exact Query.selects_creationDateBefore _ t e

/-! ### The first seconds of 1970 -/

/-- Half a second into 1970. -/
def halfSecond : Instant := (Instant.ofUnix? 0 500000000).get rfl

/-- The second that follows the first of 1970. -/
def nextSecond : Instant := (Instant.ofUnix? 1 0).get rfl

/-- A store with an event of the first instant of 1970, and one of two seconds later. -/
def dawn : Memory :=
  let added (id : String) : Batch := ⟨{ aggregate := { type := "counter", id }, type := "counter.added" }, []⟩
  ({ clock := ⟨.unixEpoch, [(Instant.ofUnix? 2 0).get rfl]⟩ } : Memory).acts
    [.push {} (added "a"), .push {} (added "b")]

/-- The first bound after the first second lies between the two events. -/
theorem date_bounds_nextSecond :
    (EventStore.filter {} (({} : Query).set (.creationDateAfter nextSecond)) dawn).1 =
      .ok (dawn.ledger.log.drop 1) ∧
    (EventStore.filter {} (({} : Query).set (.creationDateBefore nextSecond)) dawn).1 =
      .ok (dawn.ledger.log.take 1) := by
  obtain ⟨hafter, hbefore⟩ := date_bounds nextSecond
  have ht : ¬ (nextSecond.second = 0 ∨ nextSecond = .zero) := by decide
  exact ⟨(hafter.reads ht dawn {} {}).trans rfl, (hbefore.reads ht dawn {} {}).trans rfl⟩

/-- Half a second into 1970 is neither of the two instants that stand for "not set", and yet it is passed
over: a read from there on gives an event that was created before. -/
theorem date_bounds_lost :
    ¬ ((∀ q : Query, q.set (.creationDateAfter halfSecond) = q) ↔
      halfSecond = .unixEpoch ∨ halfSecond = .zero) ∧
    ∃ es, (EventStore.filter {} (({} : Query).set (.creationDateAfter halfSecond)) dawn).1 = .ok es ∧
      ∃ e ∈ es, e.creationDate < halfSecond := by
  have hpassed (q : Query) : q.set (.creationDateAfter halfSecond) = q := rfl
  refine ⟨fun h => absurd (h.mp hpassed) (by decide), dawn.ledger.log, rfl, ?_⟩
  exact ⟨_, List.mem_cons_self, by decide⟩

end EventSourcing
