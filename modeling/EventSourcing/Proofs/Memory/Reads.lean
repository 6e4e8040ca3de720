import EventSourcing.Proofs.Memory.Runs

/-!
# The store in memory — reads

A read leaves a store in memory as it is.  What it gives depends only on the log, on the query with its
tenant resolved, and on whether the call was interrupted.

* `filter_ok_iff`, `filter_error_iff`: a read of events succeeds exactly for a query for events in a context
  that is not interrupted, and then gives `Ledger.events`.
* `events_eq_of_eventsOf`: a query that selects only events of one stream sees nothing but that stream.
-/

namespace EventSourcing

/-! ### The events of a query -/

theorem Query.columns_resolve (q : Query) (ctx : Context) :
    (q.resolve ctx).columns = q.columns := by
  rw [Query.resolve]
  split <;> rfl

/-- A page holds nothing new. -/
theorem Query.mem_of_mem_page {α : Type} {q : Query} {l : List α} {a : α} (h : a ∈ q.page l) :
    a ∈ l := by
  rw [page] at h
  split at h
  · exact List.mem_of_mem_drop h
  · exact List.mem_of_mem_drop (List.mem_of_mem_take h)

/-- The tenant filter lets through the tenant's events and those without a tenant. -/
theorem Query.instanceId_of_selects {q : Query} {t : String} (ht : t ≠ "")
    (hq : q.instanceId = some t) {e : Event} (he : q.selects e = true) :
    e.aggregate.instanceId = "" ∨ e.aggregate.instanceId = t := by
  simp only [selects, accepts, acceptsInstance, hq, Option.bind_some, nonEmpty?, if_neg ht,
    Option.all_some, Bool.and_eq_true, Bool.or_eq_true, decide_eq_true_eq] at he
  exact he.2.1.1.2

namespace Ledger

/-- The events that a query selects, in its order and cut to its page. -/
def events (l : Ledger) (q : Query) : List Event :=
  q.page (if q.desc then (l.log.filter q.selects).reverse else l.log.filter q.selects)

/-- A read of events gives the events. -/
theorem select_event (l : Ledger) {q : Query} (h : q.columns = .event) :
    l.select q = .events (l.events q) := by
  simp only [select, h, events]

/-- Offset, limit and order only leave out and rearrange. -/
theorem selects_of_mem_events {l : Ledger} {q : Query} {e : Event} (he : e ∈ l.events q) :
    e ∈ l.log ∧ q.selects e = true := by
  have hmem := Query.mem_of_mem_page he
  split at hmem
  · exact List.mem_filter.mp (List.mem_reverse.mp hmem)
  · exact List.mem_filter.mp hmem

/-- Every event of the log that the query selects belongs to the stream. -/
def Confines (l : Ledger) (q : Query) (s : Stream) : Prop :=
  ∀ e ∈ l.log, q.selects e = true → e.stream = s

/-- What confines a query later has confined it before. -/
theorem Confines.of_grows {l l' : Ledger} {q : Query} {s : Stream} (h : l'.Confines q s)
    (hg : l.Grows l') : l.Confines q s :=
  fun e he => h e (hg.mem he)

/-- A query that is confined to a stream selects from the stream what it selects from the log. -/
theorem filter_eventsOf {l : Ledger} {q : Query} {s : Stream} (h : l.Confines q s) :
    (l.eventsOf s).filter q.selects = l.log.filter q.selects := by
  rw [eventsOf]
  rw [List.filter_filter]
  refine List.filter_congr fun e he => ?_
  cases hs : q.selects e with
  | false => rfl
  | true => simp [h e he hs]

/-- Two ledgers that agree on a stream agree on every query that selects nothing else. -/
theorem events_eq_of_eventsOf {l l' : Ledger} {q : Query} {s : Stream} (h : l.Confines q s)
    (h' : l'.Confines q s) (heq : l'.eventsOf s = l.eventsOf s) : l'.events q = l.events q := by
  simp only [events]
  rw [← filter_eventsOf h, ← filter_eventsOf h', heq]

/-- Ascending and without a page, a query that selects the whole stream gives the whole stream. -/
theorem events_eq_eventsOf {l : Ledger} {q : Query} {s : Stream} (h : l.Confines q s)
    (hall : ∀ e ∈ l.eventsOf s, q.selects e = true) (hd : q.desc = false) (hl : q.limit = 0)
    (ho : q.offset = 0) : l.events q = l.eventsOf s := by
  rw [events, Query.page]
  rw [if_pos hl, ho, List.drop_zero, hd, ← filter_eventsOf h]
  exact List.filter_eq_self.mpr hall

end Ledger

/-! ### Reads of a store -/

namespace Memory

/-- A query that is not interrupted is answered from the ledger. -/
theorem query_ok {ctx : Context} (h : ctx.interruption? = none) (q : Query) (m : Memory) :
    m.query ctx q = (.ok (m.ledger.select (q.resolve ctx)), m) := by
  simp only [query, Context.check, h]
  rfl

/-- Reads leave the store as it is. -/
theorem read_snd {α : Type} (expected : Columns) (take : Output → Option α) (ctx : Context)
    (q : Query) (m : Memory) : (EventStore.read expected take ctx q m).2 = m := by
  rw [EventStore.read]
  split
  · rfl
  · split
    · rename_i hq; exact congrArg Prod.snd hq.symm
    · rename_i hq
      split
      · exact congrArg Prod.snd hq.symm
      · exact congrArg Prod.snd hq.symm

/-- **A read of events succeeds** exactly if the query is one for events and the call is not interrupted.
-/
theorem filter_ok_iff {ctx : Context} {q : Query} {m : Memory} {events : List Event} :
    (EventStore.filter ctx q m).1 = .ok events ↔
      q.columns = .event ∧ ctx.interruption? = none ∧ events = m.ledger.events (q.resolve ctx) := by
  by_cases hc : q.columns = .event
  · have hr : (q.resolve ctx).columns = .event := (q.columns_resolve ctx).trans hc
    cases hi : ctx.interruption? with
    | some i =>
        simp [EventStore.filter, EventStore.read, Query.expectColumns, hc, EventStore.query, query,
          Context.check, hi, Except.map]
    | none =>
        simp [EventStore.filter, EventStore.read, Query.expectColumns, hc, EventStore.query, query,
          Context.check, hi, Except.map, Ledger.select_event _ hr, eq_comm]
  · simp [EventStore.filter, EventStore.read, Query.expectColumns, hc]

/-- A read of events fails exactly for a query for other columns, or where it is interrupted. -/
theorem filter_error_iff {ctx : Context} {q : Query} {m : Memory} {e : StoreError Empty} :
    (EventStore.filter ctx q m).1 = .error e ↔
      (q.columns ≠ .event ∧ e = .invalidArgument (.columnsMismatch .event q.columns)) ∨
      (q.columns = .event ∧ ∃ i, ctx.interruption? = some i ∧ e = .ofInterruption i) := by
  by_cases hc : q.columns = .event
  · cases hi : ctx.interruption? with
    | some i =>
        simp [EventStore.filter, EventStore.read, Query.expectColumns, hc, EventStore.query, query,
          Context.check, hi, Except.map, eq_comm]
    | none =>
        have hok : (EventStore.filter ctx q m).1 = .ok (m.ledger.events (q.resolve ctx)) :=
          filter_ok_iff.mpr ⟨hc, hi, rfl⟩
        simp [hok, hc]
  · simp [EventStore.filter, EventStore.read, Query.expectColumns, hc, eq_comm]

theorem filter_snd (ctx : Context) (q : Query) (m : Memory) :
    (EventStore.filter ctx q m).2 = m :=
  read_snd _ _ ctx q m

end Memory

end EventSourcing
