import EventSourcing.Proofs.Memory.Matching

/-!
# The store in memory — cursors

A client reads a query page by page.  Each read goes on after the position of the last event that was
delivered; between the reads, anyone may do anything with the store.

* `matching_after`: what a query matches after some first events that it matches is all the others.
* `next_eq`: a read gives the next events, as many as there are up to the limit.
* `delivered_run`: what has been delivered is the beginning of what the query matches.
* `read_exactly_once`: **the pages put together are the first events that the query matches**, none
  lost and none repeated, and a page that is not full ends where the log ends.
-/

namespace EventSourcing

/-- The query for what comes after the last of these events. -/
def Query.after (q : Query) (delivered : List Event) : Query :=
  match delivered.getLast? with
  | some e => q.set (.positionAfter e.position)
  | none => q

/-- An ascending query for events that can be read page by page from the first to the last. -/
structure Query.Pageable (q : Query) : Prop where
  columns : q.columns = .event
  ascending : q.desc = false
  fromStart : q.offset = 0
  unbounded : q.positionAfter = none
  limited : 0 < q.limit

namespace Query

/-- Reading on is the same before and after the tenant is resolved. -/
theorem resolve_after (q : Query) (delivered : List Event) (ctx : Context) :
    (q.after delivered).resolve ctx = (q.resolve ctx).after delivered := by
  simp only [after]
  split
  · exact q.resolve_positionAfter _ ctx
  · rfl

theorem Pageable.resolve {q : Query} (hq : q.Pageable) (ctx : Context) :
    (q.resolve ctx).Pageable := by
  obtain ⟨instanceId, h⟩ := q.exists_resolve ctx
  rw [h]
  exact ⟨hq.columns, hq.ascending, hq.fromStart, hq.unbounded, hq.limited⟩

/-- Reading on selects what comes after the last event delivered. -/
theorem selects_after {q : Query} (h : q.positionAfter = none) (delivered : List Event) (e : Event) :
    (q.after delivered).selects e =
      (q.selects e && delivered.getLast?.all (·.position < e.position)) := by
  rw [after]
  cases delivered.getLast? with
  | none => exact (Bool.and_true _).symm
  | some d => exact selects_positionAfter h d.position e

/-- Where a query goes on changes nothing about its columns, its order and its page. -/
theorem exists_after (q : Query) (delivered : List Event) :
    ∃ positionAfter, q.after delivered = { q with positionAfter } := by
  rw [after]
  split
  · exact ⟨_, rfl⟩
  · exact ⟨_, rfl⟩

end Query

/-- After some first events that a query matches, it matches all the others. -/
theorem Ledger.matching_after {l : Ledger} (h : l.Consistent) {q : Query}
    (hq : q.positionAfter = none) {delivered rest : List Event}
    (hrest : delivered ++ rest = l.matching q) : l.matching (q.after delivered) = rest :=
  matching_of_bound hrest (h.positions_ascend.filter _) fun e _ => Query.selects_after hq delivered e

/-- A client that reads a query page by page from a store. -/
structure Cursor where
  store : Memory
  /-- All that the reads have given so far. -/
  delivered : List Event := []

namespace Cursor

/-- What may come next: anyone does something with the store, or the client reads on. -/
inductive Step where
  | act (a : Memory.Action)
  | read

/-- What the next read gives, and the store that it leaves. -/
def next (ctx : Context) (q : Query) (c : Cursor) :
    Except (StoreError Empty) (List Event) × Memory :=
  EventStore.filter ctx (q.after c.delivered) c.store

/-- The cursor after a read. -/
def read (ctx : Context) (q : Query) (c : Cursor) : Cursor :=
  match c.next ctx q with
  | (.ok page, store) => { store, delivered := c.delivered ++ page }
  | (.error _, store) => { c with store }

/-- Lets something happen to the store, or reads on. -/
def step (ctx : Context) (q : Query) (c : Cursor) : Step → Cursor
  | .act a => { c with store := c.store.act a }
  | .read => c.read ctx q

/-- Reads on and on, while things happen to the store. -/
def run (ctx : Context) (q : Query) (c : Cursor) (steps : List Step) : Cursor :=
  steps.foldl (step ctx q) c

/-- The cursor has been given the beginning of what its query matches, of a store that began empty. -/
structure OnTrack (c : Cursor) (q : Query) : Prop where
  reachable : c.store.Reachable
  delivered : c.delivered <+: c.store.ledger.matching q

variable {ctx : Context} {q : Query} {c : Cursor}

/-- **A read gives the next events**, as many as there are up to the limit. -/
theorem next_eq (hctx : ctx.interruption? = none) (hq : q.Pageable) (hc : c.store.Reachable)
    {rest : List Event} (hrest : c.delivered ++ rest = c.store.ledger.matching (q.resolve ctx)) :
    c.next ctx q = (.ok (rest.take q.limit), c.store) := by
  have hresolved := hq.resolve ctx
  have hlimit : (q.resolve ctx).limit = q.limit := by
    obtain ⟨instanceId, h⟩ := q.exists_resolve ctx
    rw [h]
  obtain ⟨positionAfter, hafter⟩ := q.exists_after c.delivered
  obtain ⟨positionAfter', hafter'⟩ := (q.resolve ctx).exists_after c.delivered
  have hevents : c.store.ledger.events ((q.after c.delivered).resolve ctx) = rest.take q.limit := by
    rw [q.resolve_after, Ledger.events_ascending _ (by rw [hafter']; exact hresolved.ascending),
      Ledger.matching_after hc.consistent hresolved.unbounded hrest, hafter', ← hlimit]
    exact Query.page_eq_take hresolved.fromStart hresolved.limited rest
  refine Prod.ext ?_ (Memory.filter_snd ctx _ c.store)
  exact Memory.filter_ok_iff.mpr ⟨by rw [hafter]; exact hq.columns, hctx, hevents.symm⟩

/-- A read keeps a cursor on its track. -/
theorem OnTrack.read (hctx : ctx.interruption? = none) (hq : q.Pageable)
    (hc : c.OnTrack (q.resolve ctx)) : (c.read ctx q).OnTrack (q.resolve ctx) := by
  obtain ⟨rest, hrest⟩ := hc.delivered
  rw [Cursor.read, next_eq hctx hq hc.reachable hrest]
  refine ⟨hc.reachable, ?_⟩
  show c.delivered ++ rest.take q.limit <+: c.store.ledger.matching (q.resolve ctx)
  rw [← hrest]
  exact (List.prefix_append_right_inj _).mpr (List.take_prefix _ _)

/-- So does whatever happens to the store. -/
theorem OnTrack.act {q : Query} (hc : c.OnTrack q) (a : Memory.Action) :
    ({ c with store := c.store.act a } : Cursor).OnTrack q where
  reachable := hc.reachable.acts [a]
  delivered := hc.delivered.trans ((Memory.grows_acts c.store [a]).matching q)

/-- **A cursor stays on track**, whatever happens to the store between its reads. -/
theorem OnTrack.run (hctx : ctx.interruption? = none) (hq : q.Pageable) (steps : List Step) :
    ∀ {c : Cursor}, c.OnTrack (q.resolve ctx) → (c.run ctx q steps).OnTrack (q.resolve ctx) := by
  induction steps with
  | nil => intro c hc; exact hc
  | cons s steps ih =>
      intro c hc
      cases s with
      | act a => exact ih (hc.act a)
      | read => exact ih (hc.read hctx hq)

/-- A cursor that has come here, by some steps, from a store that began empty. -/
def Reachable (ctx : Context) (q : Query) (c : Cursor) : Prop :=
  ∃ (m : Memory) (steps : List Step), m.Reachable ∧ c = ({ store := m } : Cursor).run ctx q steps

/-- **Cursor reads deliver exactly once.**  Whatever has happened between the reads of a cursor, its next
read does not fail, and then the pages put together are the first `k` events that the query matches in
the log.  If the page is not full, they are all of them. -/
theorem read_exactly_once (hctx : ctx.interruption? = none) (hq : q.Pageable)
    (hc : c.Reachable ctx q) :
    ∃ page k, c.next ctx q = (.ok page, c.store) ∧
      (c.read ctx q).delivered = c.delivered ++ page ∧
      (c.read ctx q).delivered = (c.store.ledger.matching (q.resolve ctx)).take k ∧
      k ≤ (c.store.ledger.matching (q.resolve ctx)).length ∧
      (page.length < q.limit → k = (c.store.ledger.matching (q.resolve ctx)).length) := by
  obtain ⟨m, steps, hm, rfl⟩ := hc
  have hc := OnTrack.run hctx hq steps (c := { store := m }) ⟨hm, List.nil_prefix⟩
  generalize ({ store := m } : Cursor).run ctx q steps = c at hc ⊢
  obtain ⟨rest, hrest⟩ := hc.delivered
  have hnext := next_eq hctx hq hc.reachable hrest
  have hread : c.read ctx q = { c with delivered := c.delivered ++ rest.take q.limit } := by
    rw [read, hnext]
  have hpre := (hc.read hctx hq).delivered
  rw [hread] at hpre ⊢
  refine ⟨rest.take q.limit, _, hnext, rfl, List.prefix_iff_eq_take.mp hpre, hpre.length_le,
    fun hlt => ?_⟩
  · -- fewer than the limit were left, so all that were left have been delivered
    rw [List.length_take] at hlt
    rw [List.take_of_length_le (by omega), hrest]

/-- The events of the counters with id `a`, two at a time. -/
def counterQuery : Query := { limit := 2, branches := [{ aggregateIds := ["a"] }] }

/-- A cursor that has read once, between two pushes. -/
def tailing : Cursor :=
  let command (id : String) : Command :=
    { aggregate := { type := "counter", id }, type := "counter.set" }
  ({ store := { clock := default } } : Cursor).run {} counterQuery
    [.act (.push {} ⟨command "a", [command "b"]⟩), .read, .act (.push {} ⟨command "b", [command "a"]⟩)]

/-- It has delivered one event, the next page has the other. -/
theorem read_exactly_once_tailing :
    counterQuery.Pageable ∧ tailing.Reachable {} counterQuery ∧ tailing.delivered.length = 1 ∧
      (tailing.read {} counterQuery).delivered = tailing.store.ledger.matching counterQuery ∧
      (tailing.store.ledger.matching counterQuery).map Event.position = [1, 4] := by
  have hq : counterQuery.Pageable := ⟨rfl, rfl, rfl, rfl, by decide⟩
  have hc : tailing.Reachable {} counterQuery := ⟨_, _, ⟨default, [], rfl⟩, rfl⟩
  have hctx : ({} : Context).interruption? = none := rfl
  obtain ⟨page, k, hnext, -, hdelivered, -, hfull⟩ := read_exactly_once hctx hq hc
  have hpage : page = (tailing.store.ledger.matching counterQuery).drop 1 :=
    Except.ok.inj ((congrArg Prod.fst hnext).symm.trans rfl)
  have hk := hfull (by rw [hpage]; decide)
  refine ⟨hq, hc, by decide, ?_, by decide⟩
  rw [hdelivered, hk]
  exact List.take_length

end Cursor

end EventSourcing
