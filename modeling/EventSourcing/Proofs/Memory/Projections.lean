import Mathlib.Order.Bounds.Defs
import EventSourcing.Proofs.Memory.Decisions
import EventSourcing.Proofs.Memory.Pages

/-!
# The store in memory — projections

A query can ask for events, for the highest of their sequences, or for their instances.  All three are taken
from the events that it matches, whatever its columns.  Order and page apply to events and to instances, each
after its own kind, and not to the highest sequence.

* `Ledger.select_maxSequence`: the highest sequence is taken from what the query matches.
* `Ledger.Consistent.isGreatest_iff`: the head of a stream is the highest of its sequences.
* `Memory.projections_agree`: **the three projections of a query agree**, in every reachable store, and the
  highest sequence of a whole stream is the head that pushes are checked against.
-/

namespace EventSourcing

namespace Ledger

/-- Order and page do not apply to the highest sequence. -/
theorem select_maxSequence (l : Ledger) {q : Query} (h : q.columns = .maxSequence) :
    l.select q = .maxSequence ((l.matching q).map Event.sequence).max? := by
  simp only [select, h]
  rfl

/-- The head of a stream is the highest of its sequences. -/
theorem Consistent.isGreatest_iff {l : Ledger} (h : l.Consistent) {s : Stream} {n : Nat} :
    IsGreatest {k | ∃ e ∈ l.eventsOf s, e.sequence = k} n ↔ l.heads s = some n := by
  have hmem (k : Nat) : (∃ e ∈ l.eventsOf s, e.sequence = k) ↔ 0 < k ∧ k ≤ (l.eventsOf s).length := by
    rw [← List.mem_map, h.sequences, List.mem_range'_1]
    omega
  rw [h.heads]
  constructor
  · rintro ⟨hn, hgreatest⟩
    obtain ⟨hpos, hle⟩ := (hmem n).mp hn
    have hlast := hgreatest ((hmem _).mpr ⟨Nat.lt_of_lt_of_le hpos hle, Nat.le_refl _⟩)
    exact ⟨Nat.le_antisymm hle hlast, hpos⟩
  · rintro ⟨rfl, hpos⟩
    exact ⟨(hmem _).mpr ⟨hpos, Nat.le_refl _⟩, fun k hk => ((hmem k).mp hk).2⟩

end Ledger

/-- The maximum of the sequences is their greatest. -/
theorem max?_sequences_eq_some_iff {es : List Event} {n : Nat} :
    (es.map Event.sequence).max? = some n ↔ IsGreatest {k | ∃ e ∈ es, e.sequence = k} n := by
  rw [List.max?_eq_some_iff, List.mem_map]
  refine and_congr_right fun _ => ?_
  rw [List.forall_mem_map]
  exact ⟨fun h k ⟨e, he, hk⟩ => hk ▸ h e he, fun h e he => h ⟨e, he, rfl⟩⟩

namespace Memory

/-- The three projections of a query: all that it gives as events, the highest of their sequences and their
instances. -/
structure Projects (m : Memory) (ctx : Context) (q : Query) (es : List Event) (highest : Option Nat)
    (ids : List String) : Prop where
  events : m.query ctx { q.unpaged with columns := .event } = (.ok (.events es), m)
  maxSequence : ∀ limit offset desc, m.query ctx { q with columns := .maxSequence, limit, offset, desc } =
    (.ok (.maxSequence highest), m)
  /-- Order and page apply to the instances themselves. -/
  instanceIds : m.query ctx { q with columns := .instanceIds } =
    (.ok (.instanceIds (q.page (if q.desc then ids.reverse else ids))), m)
  none_iff : highest = none ↔ es = []
  some_iff : ∀ n, highest = some n ↔ IsGreatest {k | ∃ e ∈ es, e.sequence = k} n
  ascending : ids.Pairwise (· < ·)
  mem_iff : ∀ i, i ∈ ids ↔ ∃ e ∈ es, e.aggregate.instanceId = i
  /-- Of a whole stream, the highest sequence is the head, and a stream without events has none. -/
  head : ∀ s, (∀ e, e ∈ es ↔ e ∈ m.ledger.eventsOf s) → highest = m.ledger.heads s
  /-- That head is what expectations on the stream are checked against. -/
  checked : ∀ s, (∀ e, e ∈ es ↔ e ∈ m.ledger.eventsOf s) → ∀ (caller : Context) (b : Batch),
    caller.interruption? = none →
    (∀ c ∈ (b.scoped caller).toList, c.sequence ≠ none → c.stream = s) →
    ((∃ conflict, (m.push caller b).1 = .error (.conflict conflict)) ↔
      ∃ c ∈ (b.scoped caller).toList, ∃ n, c.sequence = some n ∧ n ≠ highest.getD 0)

/-- A batch with expectations on one stream alone is in conflict if one of them is not the head. -/
theorem conflict_iff_of_stream {m : Memory} {caller : Context} (hi : caller.interruption? = none)
    {b : Batch} {s : Stream}
    (hs : ∀ c ∈ (b.scoped caller).toList, c.sequence ≠ none → c.stream = s) :
    (∃ conflict, (m.push caller b).1 = .error (.conflict conflict)) ↔
      ∃ c ∈ (b.scoped caller).toList, ∃ n, c.sequence = some n ∧ n ≠ m.ledger.heads.head s := by
  calc (∃ conflict, (m.push caller b).1 = .error (.conflict conflict))
      ↔ m.ledger.heads.conflict? (b.scoped caller).toList ≠ none :=
        (exists_congr (push_conflict_iff hi b m)).trans Option.ne_none_iff_exists'.symm
    _ ↔ ∃ c ∈ (b.scoped caller).toList, ∃ n, c.sequence = some n ∧ n ≠ m.ledger.heads.head c.stream := by
        rw [Ne, Heads.conflict?_eq_none_iff]
        simp only [not_forall, exists_prop, Ne]
    _ ↔ ∃ c ∈ (b.scoped caller).toList, ∃ n, c.sequence = some n ∧ n ≠ m.ledger.heads.head s := by
        refine exists_congr fun c => and_congr_right fun hc => exists_congr fun n => ?_
        refine and_congr_right fun hn => ?_
        rw [hs c hc (by rw [hn]; exact Option.some_ne_none n)]

/-- **The three projections of a query agree.**  In a reachable store and a context that is not interrupted,
let a query give some events without a page.  Under any page and order, the highest sequence is that of these
events; the instances are those of these events, each once, in the order of the query and cut to its page.  If
the events are those of a whole stream, the highest sequence is its head. -/
theorem projections_agree {m : Memory} (hm : m.Reachable) {ctx : Context}
    (hctx : ctx.interruption? = none) (q : Query) :
    ∃ es highest ids, m.Projects ctx q es highest ids := by
  have hquery (columns : Columns) (limit offset : Nat) (desc : Bool) :
      m.query ctx { q with columns, limit, offset, desc } =
        (.ok (m.ledger.select { q.resolve ctx with columns, limit, offset, desc }), m) := by
    rw [query_ok hctx, Query.resolve_comm ({ · with columns, limit, offset, desc }) fun _ _ => rfl]
  let unpaged : Query := { q.resolve ctx with columns := .event, limit := 0, offset := 0, desc := q.desc }
  have hmem (e : Event) : e ∈ m.ledger.events unpaged ↔ e ∈ m.ledger.matching (q.resolve ctx) :=
    Ledger.mem_events_of_unpaged rfl rfl
  have hsome (n : Nat) : ((m.ledger.matching (q.resolve ctx)).map Event.sequence).max? = some n ↔
      IsGreatest {k | ∃ e ∈ m.ledger.events unpaged, e.sequence = k} n := by
    simp only [hmem]
    exact max?_sequences_eq_some_iff
  have hhead (s : Stream) (hs : ∀ e, e ∈ m.ledger.events unpaged ↔ e ∈ m.ledger.eventsOf s) :
      ((m.ledger.matching (q.resolve ctx)).map Event.sequence).max? = m.ledger.heads s := by
    refine Option.ext fun n => (hsome n).trans ?_
    simp only [hs]
    exact hm.consistent.isGreatest_iff
  refine ⟨m.ledger.events unpaged, ((m.ledger.matching (q.resolve ctx)).map Event.sequence).max?,
    sortedDistinct ((m.ledger.matching (q.resolve ctx)).map (·.aggregate.instanceId)), ?_⟩
  exact {
    events := (hquery .event 0 0 q.desc).trans (by rw [Ledger.select_event _ rfl])
    maxSequence := fun limit offset desc =>
      (hquery .maxSequence limit offset desc).trans (by rw [Ledger.select_maxSequence _ rfl]; rfl)
    instanceIds := (hquery .instanceIds q.limit q.offset q.desc).trans
      (by rw [m.ledger.lists_instanceIds (q := { q.resolve ctx with columns := .instanceIds }) rfl]; rfl)
    none_iff := by
      rw [List.max?_eq_none_iff, List.map_eq_nil_iff, List.eq_nil_iff_forall_not_mem,
        List.eq_nil_iff_forall_not_mem]
      exact forall_congr' fun e => not_congr (hmem e).symm
    some_iff := hsome
    ascending := sorted_sortedDistinct _
    mem_iff := fun i => by
      rw [mem_sortedDistinct, List.mem_map]
      exact exists_congr fun e => and_congr_left fun _ => (hmem e).symm
    head := hhead
    checked := fun s hs caller b hi hb => by
      rw [hhead s hs]
      exact conflict_iff_of_stream hi hb }

/-- The last but one of the instances in which counter `a` is, and the events of that counter. -/
def countersA : Query :=
  { desc := true, limit := 1, offset := 1, branches := [{ aggregateIds := ["a"] }] }

/-- On behalf of one of the two tenants, the query gives a whole stream; on behalf of none, two of them. -/
theorem projections_agree_twoTenanted :
    twoTenanted.Reachable ∧ (Context.forInstance "t1").interruption? = none ∧
    (∃ es ids, twoTenanted.Projects (.forInstance "t1") countersA es (some 2) ids ∧
      (∀ e, e ∈ es ↔ e ∈ twoTenanted.ledger.eventsOf ⟨"t1", "counter", "a"⟩) ∧
      twoTenanted.ledger.heads ⟨"t1", "counter", "a"⟩ = some 2) ∧
    ∃ es ids, twoTenanted.Projects {} countersA es (some 2) ids ∧ es.length = 3 ∧
      (twoTenanted.query {} { countersA with columns := .instanceIds }).1 = .ok (.instanceIds ["t1"]) := by
  have hm : twoTenanted.Reachable := ⟨default, _, rfl⟩
  have htenant : (Context.forInstance "t1").interruption? = none := rfl
  have hnone : ({} : Context).interruption? = none := rfl
  refine ⟨hm, htenant, ?_, ?_⟩
  · obtain ⟨es, highest, ids, h⟩ := projections_agree hm htenant countersA
    have hes : es = (twoTenanted.ledger.eventsOf ⟨"t1", "counter", "a"⟩).reverse := by
      cases congrArg Prod.fst h.events
      rfl
    have hhighest : highest = some 2 := by
      cases congrArg Prod.fst (h.maxSequence 0 0 false)
      rfl
    rw [hhighest] at h
    have hstream : ∀ e, e ∈ es ↔ e ∈ twoTenanted.ledger.eventsOf ⟨"t1", "counter", "a"⟩ := fun e => by
      rw [hes, List.mem_reverse]
    exact ⟨es, ids, h, hstream, (h.head _ hstream).symm⟩
  · obtain ⟨es, highest, ids, h⟩ := projections_agree hm hnone countersA
    have hes : es.length = 3 := by
      cases congrArg Prod.fst h.events
      rfl
    have hhighest : highest = some 2 := by
      cases congrArg Prod.fst (h.maxSequence 0 0 false)
      rfl
    rw [hhighest] at h
    exact ⟨es, ids, h, hes, rfl⟩

end Memory

end EventSourcing
