import EventSourcing.Proofs.Dictionary
import EventSourcing.Proofs.Memory.Matching

/-!
# The store in memory — pages

A client may read a query page by page with growing offsets, and in either order.  Each page is a part of
one list, which is the same whatever the limit, the offset and the order.

* `PagesOf`: full pages and one that is not full, which together are the whole.
* `Query.pagesOf_page`: the pages that a query cuts any list into.
* `Ledger.Lists`: a ledger answers a query, under any limit, offset and order, from one list.
* `Event.Before`: in the log, positions ascend, and so do the sequences of each stream.
* `Memory.reads_in_pages`: **pages partition a read, and both orders are mirror images**, in every reachable
  store; and so for what a query picks from any list.
-/

namespace EventSourcing

/-! ### Pages of a list -/

section

variable {α : Type}

/-- The pages of a list, each of at most `size` members. -/
structure PagesOf (size : Nat) (page : Nat → List α) (whole : List α) : Prop where
  length_le : ∀ k, (page k).length ≤ size
  /-- The full pages and the first that is not full are the whole. -/
  complete : ∃ last, (∀ k < last, (page k).length = size) ∧ (page last).length < size ∧
    (List.range (last + 1)).flatMap page = whole

/-- Pages, one after the other, are a beginning of the list. -/
theorem flatMap_pages (size : Nat) (xs : List α) (count : Nat) :
    (List.range count).flatMap (fun k => (xs.drop (k * size)).take size) = xs.take (count * size) := by
  induction count with
  | zero => rw [Nat.zero_mul]; rfl
  | succ count ih =>
      rw [List.range_succ, List.flatMap_append, ih, List.flatMap_singleton, Nat.succ_mul, List.take_add]

/-- Cutting a list gives its pages. -/
theorem pagesOf_take {size : Nat} (hsize : 0 < size) (xs : List α) :
    PagesOf size (fun k => (xs.drop (k * size)).take size) xs where
  length_le k := List.length_take_le _ _
  complete := by
    have hlast : xs.length / size * size ≤ xs.length := Nat.div_mul_le_self _ _
    have hbeyond : xs.length < (xs.length / size + 1) * size :=
      Nat.lt_mul_of_div_lt (Nat.lt_succ_self _) hsize
    refine ⟨xs.length / size, fun k hk => ?_, ?_, ?_⟩
    · have hk : (k + 1) * size ≤ xs.length :=
        Nat.le_trans (Nat.mul_le_mul_right size hk) hlast
      rw [Nat.succ_mul] at hk
      rw [List.length_take, List.length_drop]
      omega
    · rw [Nat.succ_mul] at hbeyond
      rw [List.length_take, List.length_drop]
      omega
    · rw [flatMap_pages]
      exact List.take_of_length_le (Nat.le_of_lt hbeyond)

/-- Descending order mirrors ascending order. -/
theorem pairwise_mirrored {before : α → α → Prop} {xs : List α} (h : xs.Pairwise before) (desc : Bool) :
    (if desc then xs.reverse else xs).Pairwise fun a b => if desc then before b a else before a b := by
  cases desc with
  | false => exact h
  | true => exact List.pairwise_reverse.mpr h

end

namespace Query

variable {α : Type}

/-- A page of a query, counted from zero. -/
def paged (q : Query) (size k : Nat) : Query :=
  { q with limit := size, offset := k * size }

/-- The query without limit and offset. -/
def unpaged (q : Query) : Query :=
  { q with limit := 0, offset := 0 }

/-- The pages of a query are those of the list that it cuts. -/
theorem pagesOf_page (q : Query) {size : Nat} (hsize : 0 < size) (xs : List α) :
    PagesOf size (fun k => (q.paged size k).page xs) xs := by
  have hpage (k : Nat) : (q.paged size k).page xs = (xs.drop (k * size)).take size :=
    if_neg (Nat.ne_of_gt hsize)
  rw [funext hpage]
  exact pagesOf_take hsize xs

/-- A page leaves out, and changes no order. -/
theorem page_sublist (q : Query) (xs : List α) : (q.page xs).Sublist xs := by
  rw [page]
  split
  · exact List.drop_sublist _ _
  · exact (List.take_sublist _ _).trans (List.drop_sublist _ _)

/-- What a query picks from a list comes in the order of the list, and in pages. -/
theorem pagesOf_pick (q : Query) (candidate : α → Candidate) (xs : List α) :
    (q.pick candidate xs).Sublist xs ∧ ∀ size, 0 < size →
      PagesOf size (fun k => (q.paged size k).pick candidate xs) (q.unpaged.pick candidate xs) := by
  refine ⟨(q.page_sublist _).trans List.filter_sublist, fun size hsize => ?_⟩
  exact q.pagesOf_page hsize (xs.filter fun a => q.accepts (candidate a))

end Query

/-! ### The order of the log -/

/-- The one event stands before the other in the log, and if they belong to one stream, in the stream. -/
def Event.Before (a b : Event) : Prop :=
  a.position < b.position ∧ (a.stream = b.stream → a.sequence < b.sequence)

namespace Ledger

/-- A consistent log is in the order of its events. -/
theorem Consistent.pairwise_before {l : Ledger} (h : l.Consistent) : l.log.Pairwise Event.Before := by
  refine h.positions_ascend.and (List.pairwise_iff_forall_sublist.mpr fun {a b} hab hs => ?_)
  -- the two of them are a part of their stream
  have hstream : [a, b].Sublist (l.eventsOf b.stream) := by
    have hfilter := hab.filter (fun e => decide (e.stream = b.stream))
    rwa [List.filter_eq_self.mpr (by simp [hs])] at hfilter
  exact List.pairwise_iff_forall_sublist.mp (h.sequences_ascend b.stream) hstream

/-- What a query gives comes in the order of the log, or in the opposite order. -/
theorem Consistent.pairwise_events {l : Ledger} (h : l.Consistent) (q : Query) :
    (l.events q).Pairwise fun a b => if q.desc then b.Before a else a.Before b :=
  (pairwise_mirrored (h.pairwise_before.filter _) q.desc).sublist (q.page_sublist _)

/-- All that a query gives as events is all that it matches. -/
theorem mem_events_of_unpaged {l : Ledger} {q : Query} (hl : q.limit = 0) (ho : q.offset = 0)
    {e : Event} : e ∈ l.events q ↔ e ∈ l.matching q := by
  rw [events, Query.page, if_pos hl, ho, List.drop_zero]
  cases q.desc with
  | false => exact Iff.rfl
  | true => exact List.mem_reverse

/-- A ledger answers a query under any limit, offset and order from one list. -/
def Lists {α : Type} (l : Ledger) (q : Query) (output : List α → Output) (all : List α) : Prop :=
  ∀ limit offset desc, l.select { q with limit, offset, desc } =
    output (({ q with limit, offset } : Query).page (if desc then all.reverse else all))

/-- Reads of events list what matches. -/
theorem lists_event (l : Ledger) {q : Query} (h : q.columns = .event) :
    l.Lists q .events (l.matching q) := by
  intro limit offset desc
  simp only [select, h]
  rfl

/-- Reads of tenants list theirs in ascending order, each once. -/
theorem lists_instanceIds (l : Ledger) {q : Query} (h : q.columns = .instanceIds) :
    l.Lists q .instanceIds (sortedDistinct ((l.matching q).map (·.aggregate.instanceId))) := by
  intro limit offset desc
  simp only [select, h]
  rfl

end Ledger

/-! ### Reads -/

namespace Memory

/-- How the reads of a query under other limits, offsets and orders belong together. -/
structure ReadsInPages {α : Type} (m : Memory) (ctx : Context) (q : Query) (output : List α → Output)
    (before : α → α → Prop) : Prop where
  pages : ∀ size, 0 < size → ∃ (page : Nat → List α) (whole : List α),
    (∀ k, m.query ctx (q.paged size k) = (.ok (output (page k)), m)) ∧
    m.query ctx q.unpaged = (.ok (output whole), m) ∧ PagesOf size page whole
  mirrored : ∃ xs, m.query ctx { q.unpaged with desc := false } = (.ok (output xs), m) ∧
    m.query ctx { q.unpaged with desc := true } = (.ok (output xs.reverse), m)
  /-- What is read, under the limit and the offset of the query, ascends or descends. -/
  ordered : ∃ xs, m.query ctx q = (.ok (output xs), m) ∧
    xs.Pairwise fun a b => if q.desc then before b a else before a b

/-- What is listed is read in pages. -/
theorem readsInPages {α : Type} {m : Memory} {ctx : Context} {q : Query} {output : List α → Output}
    {all : List α} {before : α → α → Prop} (hctx : ctx.interruption? = none)
    (hlists : m.ledger.Lists (q.resolve ctx) output all) (hall : all.Pairwise before) :
    m.ReadsInPages ctx q output before := by
  have hquery (limit offset : Nat) (desc : Bool) : m.query ctx { q with limit, offset, desc } =
      (.ok (output (({ q with limit, offset } : Query).page (if desc then all.reverse else all))), m) := by
    rw [query_ok hctx, Query.resolve_comm ({ · with limit, offset, desc }) (fun _ _ => rfl), hlists]
    rfl
  exact {
    pages := fun size hsize =>
      ⟨_, _, fun k => hquery size (k * size) q.desc, hquery 0 0 q.desc, q.pagesOf_page hsize _⟩
    mirrored := ⟨all, hquery 0 0 false, hquery 0 0 true⟩
    ordered := ⟨_, hquery q.limit q.offset q.desc,
      (pairwise_mirrored hall q.desc).sublist (q.page_sublist _)⟩ }

/-- **Pages partition a read, and both orders are mirror images.**  In a reachable store and a context that
is not interrupted, this holds of events, ordered by their positions and within a stream by their sequences,
and of instances, ordered by code points.  What a query picks from a list of any candidates comes in the
order of the list, and in pages too. -/
theorem reads_in_pages {m : Memory} (hm : m.Reachable) {ctx : Context} (hctx : ctx.interruption? = none)
    (q : Query) :
    (q.columns = .event → m.ReadsInPages ctx q .events Event.Before) ∧
    (q.columns = .instanceIds → m.ReadsInPages ctx q .instanceIds (· < ·)) ∧
    ∀ {α : Type} (candidate : α → Candidate) (xs : List α),
      (q.pick candidate xs).Sublist xs ∧ ∀ size, 0 < size →
        PagesOf size (fun k => (q.paged size k).pick candidate xs) (q.unpaged.pick candidate xs) := by
  refine ⟨fun h => ?_, fun h => ?_, q.pagesOf_pick⟩
  · have hlists := m.ledger.lists_event ((q.columns_resolve ctx).trans h)
    exact readsInPages hctx hlists (hm.consistent.pairwise_before.filter _)
  · have hlists := m.ledger.lists_instanceIds ((q.columns_resolve ctx).trans h)
    exact readsInPages hctx hlists (sorted_sortedDistinct _)

/-- A store with three events of two tenants. -/
def twoTenanted : Memory :=
  let command (instanceId : String) : Command :=
    { aggregate := { type := "counter", id := "a", instanceId }, type := "counter.set" }
  ({ clock := default } : Memory).acts [.push {} ⟨command "t1", [command "t2", command "t1"]⟩]

/-- Its events and its instances, the last first. -/
theorem reads_in_pages_twoTenanted :
    twoTenanted.Reachable ∧ ({} : Context).interruption? = none ∧
    twoTenanted.ReadsInPages {} { desc := true } .events Event.Before ∧
    twoTenanted.ReadsInPages {} { desc := true, columns := .instanceIds } .instanceIds (· < ·) := by
  have hm : twoTenanted.Reachable := ⟨default, _, rfl⟩
  exact ⟨hm, rfl, (reads_in_pages hm rfl _).1 rfl, (reads_in_pages hm rfl _).2.1 rfl⟩

end Memory

end EventSourcing
