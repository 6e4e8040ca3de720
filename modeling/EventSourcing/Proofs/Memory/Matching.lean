import Mathlib.Data.List.Basic
import Mathlib.Data.List.Nodup
import EventSourcing.Proofs.Memory.Reads
import EventSourcing.Query.Builder

/-!
# The store in memory — what a query matches

Whatever its columns, order and page, a read depends on the log only through the events that the query
matches.  They are a part of the log in its order, and so they only grow.

* `select_eq_of_matching`: ledgers in which a query matches the same answer it alike.
* `Grows.matching`: what is appended is matched after all that was matched before.
* `Consistent.lt_position`: what is appended comes at later positions.
* `filter_after_getLast`: of a list in ascending order, a bound at the last of some first members lets
  through just the others.  A reader that remembers where it stands reads on by such a bound, on the
  position or, within one stream, on the sequence.
-/

namespace EventSourcing

/-! ### Bounds -/

/-- In a list that ascends, what comes after its first part is what exceeds the last of that part. -/
theorem filter_after_getLast {α : Type} {f : α → Nat} {done rest : List α}
    (h : (done ++ rest).Pairwise fun a b => f a < f b) :
    (done ++ rest).filter (fun x => done.getLast?.all (f · < f x)) = rest := by
  obtain ⟨hdone, -, hacross⟩ := List.pairwise_append.mp h
  rw [List.filter_append, List.filter_eq_nil_iff.mpr, List.filter_eq_self.mpr, List.nil_append]
  · intro x hx
    cases hl : done.getLast? with
    | none => rfl
    | some d => exact decide_eq_true (hacross d (List.mem_of_getLast? hl) x hx)
  · intro x hx
    obtain ⟨init, d, rfl⟩ := (List.eq_nil_or_concat' done).resolve_left (List.ne_nil_of_mem hx)
    -- `x` is the last member, or comes before it
    have hle : f x ≤ f d := by
      rcases List.mem_append.mp hx with hx | hx
      · exact Nat.le_of_lt ((List.pairwise_append.mp hdone).2.2 x hx d (List.mem_singleton_self d))
      · exact Nat.le_of_eq (congrArg f (List.mem_singleton.mp hx))
    simpa using hle

namespace Query

/-- Resolving a query fills in its tenant and touches nothing else. -/
theorem exists_resolve (q : Query) (ctx : Context) :
    ∃ instanceId, q.resolve ctx = { q with instanceId } := by
  rw [resolve]
  split
  · exact ⟨_, rfl⟩
  · exact ⟨_, rfl⟩

/-- What leaves the tenant alone can be done to a query before or after it is resolved. -/
theorem resolve_comm (f : Query → Query)
    (hf : ∀ (q : Query) (instanceId : Option String), f { q with instanceId } = { f q with instanceId })
    (q : Query) (ctx : Context) : (f q).resolve ctx = f (q.resolve ctx) := by
  have hself : f q = { f q with instanceId := q.instanceId } := hf q q.instanceId
  have hinstance : (f q).instanceId = q.instanceId := by rw [hself]
  rw [resolve, resolve, hinstance]
  split
  · exact (hf q _).symm
  · rfl

theorem resolve_positionAfter (q : Query) (n : Nat) (ctx : Context) :
    (q.set (.positionAfter n)).resolve ctx = (q.resolve ctx).set (.positionAfter n) :=
  resolve_comm (·.set (.positionAfter n)) (fun _ _ => rfl) q ctx

theorem resolve_sequenceGreater (q : Query) (n : Nat) (ctx : Context) :
    (q.set (.sequenceGreater n)).resolve ctx = (q.resolve ctx).set (.sequenceGreater n) :=
  resolve_comm (·.set (.sequenceGreater n)) (fun _ _ => rfl) q ctx

/-- A bound on the position lets through the events beyond it, and changes nothing else. -/
theorem selects_positionAfter {q : Query} (h : q.positionAfter = none) (n : Nat) (e : Event) :
    (q.set (.positionAfter n)).selects e = (q.selects e && decide (n < e.position)) := by
  have henvelope : (q.set (.positionAfter n)).acceptsEnvelope e =
      (q.acceptsEnvelope e && decide (n < e.position)) := by
    simp only [acceptsEnvelope, editorUser?, set, h, Option.all_some, Option.all_none, Bool.and_true]
    ac_rfl
  rw [selects, henvelope, selects]
  show (q.acceptsEnvelope e && _ && q.accepts e.candidate) = _
  ac_rfl

/-- A bound on the sequence lets through the events beyond it, and changes nothing else. -/
theorem selects_sequenceGreater {q : Query} (h : q.sequenceGreater = 0) (n : Nat) (e : Event) :
    (q.set (.sequenceGreater n)).selects e =
      (q.selects e && (decide (n = 0) || decide (n < e.sequence))) := by
  have hnone : q.acceptsSequence e.candidate = true := by
    rw [acceptsSequence, h]
    rfl
  rw [selects, accepts, selects, accepts, hnone, Bool.and_true]
  show (q.acceptsEnvelope e && (q.acceptsOwner e.candidate && q.acceptsInstance e.candidate &&
    (decide (n = 0) || decide (n < e.sequence)) && q.acceptsBranch e.candidate)) = _
  ac_rfl

/-- The query asks nothing about positions and dates. -/
structure Timeless (q : Query) : Prop where
  creationDateAfter : q.creationDateAfter = none
  creationDateBefore : q.creationDateBefore = none
  positionAfter : q.positionAfter = none
  asOfPosition : q.asOfPosition = none

theorem Timeless.resolve {q : Query} (h : q.Timeless) (ctx : Context) : (q.resolve ctx).Timeless := by
  obtain ⟨instanceId, hq⟩ := q.exists_resolve ctx
  rw [hq]
  exact ⟨h.creationDateAfter, h.creationDateBefore, h.positionAfter, h.asOfPosition⟩

/-- All that such a query asks about an event beyond what it asks about commands is the editor. -/
theorem Timeless.selects_eq {q : Query} (h : q.Timeless) (e : Event) :
    q.selects e = (q.editorUser?.all (e.editorUser = ·) && q.accepts e.candidate) := by
  simp only [selects, acceptsEnvelope, h.creationDateAfter, h.creationDateBefore, h.positionAfter,
    h.asOfPosition, Option.all_none, Bool.and_true]

theorem page_map {α β : Type} (q : Query) (f : α → β) (xs : List α) :
    q.page (xs.map f) = (q.page xs).map f := by
  rw [page, page]
  split
  · rw [List.map_drop]
  · rw [List.map_take, List.map_drop]

/-- A page from the beginning is a number of first elements. -/
theorem page_eq_take {α : Type} {q : Query} (ho : q.offset = 0) (hl : 0 < q.limit) (xs : List α) :
    q.page xs = xs.take q.limit := by
  rw [page, if_neg (Nat.ne_of_gt hl), ho, List.drop_zero]

/-- A page from the beginning grows with its list. -/
theorem page_prefix {α : Type} {q : Query} (ho : q.offset = 0) {xs ys : List α} (h : xs <+: ys) :
    q.page xs <+: q.page ys := by
  rw [page, page, ho, List.drop_zero, List.drop_zero]
  split
  · exact h
  · obtain ⟨later, rfl⟩ := h
    rw [List.take_append]
    exact List.prefix_append _ _

end Query

namespace Ledger

/-- The events of the log that a query matches, in the order of the log. -/
def matching (l : Ledger) (q : Query) : List Event :=
  l.log.filter q.selects

/-- What matches is stored and selected. -/
theorem mem_matching {l : Ledger} {q : Query} {e : Event} :
    e ∈ l.matching q ↔ e ∈ l.log ∧ q.selects e = true :=
  List.mem_filter

/-- **A read depends only on what its query matches.** -/
theorem select_eq_of_matching {l l' : Ledger} {q : Query} (h : l'.matching q = l.matching q) :
    l'.select q = l.select q := by
  simp only [select]
  rw [show l'.log.filter q.selects = l.log.filter q.selects from h]

theorem events_ascending (l : Ledger) {q : Query} (h : q.desc = false) :
    l.events q = q.page (l.matching q) := by
  rw [events, h]
  rfl

/-- What matches only grows with the ledger. -/
theorem Grows.matching {l l' : Ledger} (h : l.Grows l') (q : Query) :
    l.matching q <+: l'.matching q :=
  List.IsPrefix.filter _ h

/-- In ascending order and from the start, what a query gives later begins with what it gives now. -/
theorem Grows.events {l l' : Ledger} (h : l.Grows l') {q : Query} (hd : q.desc = false)
    (ho : q.offset = 0) : l.events q <+: l'.events q := by
  rw [events_ascending l hd, events_ascending l' hd]
  exact Query.page_prefix ho (h.matching q)

/-- A bound at the last of some first events that a query matches leaves all the others. -/
theorem matching_of_bound {l : Ledger} {q q' : Query} {f : Event → Nat} {done rest : List Event}
    (hrest : done ++ rest = l.matching q) (hascend : (l.matching q).Pairwise fun a b => f a < f b)
    (hbound : ∀ e ∈ l.log, q'.selects e = (q.selects e && done.getLast?.all (f · < f e))) :
    l.matching q' = rest :=
  calc l.matching q'
      = l.log.filter fun e => done.getLast?.all (f · < f e) && q.selects e :=
        List.filter_congr fun e he => (hbound e he).trans (Bool.and_comm _ _)
    _ = (l.matching q).filter fun e => done.getLast?.all (f · < f e) := (List.filter_filter ..).symm
    _ = rest := by rw [← hrest] at hascend ⊢; exact filter_after_getLast hascend

/-! ### Positions and sequences -/

namespace Consistent

variable {l : Ledger}

/-- Positions ascend through the log. -/
theorem positions_ascend (h : l.Consistent) : l.log.Pairwise fun a b => a.position < b.position := by
  rw [← List.pairwise_map, h.positions]
  exact List.pairwise_lt_range'

/-- No two events of the log have one position. -/
theorem eq_of_position (h : l.Consistent) {e e' : Event} (he : e ∈ l.log) (he' : e' ∈ l.log)
    (hposition : e.position = e'.position) : e = e' := by
  have hnodup : (l.log.map Event.position).Nodup := by
    rw [h.positions]
    exact List.nodup_range'
  exact List.inj_on_of_nodup_map hnodup he he' hposition

/-- Sequences ascend through each stream. -/
theorem sequences_ascend (h : l.Consistent) (s : Stream) :
    (l.eventsOf s).Pairwise fun a b => a.sequence < b.sequence := by
  rw [← List.pairwise_map, h.sequences]
  exact List.pairwise_lt_range'

/-- Sequences count from one. -/
theorem sequence_pos (h : l.Consistent) {e : Event} (he : e ∈ l.log) : 0 < e.sequence := by
  have hs : e.sequence ∈ (l.eventsOf e.stream).map Event.sequence :=
    List.mem_map_of_mem (mem_eventsOf.mpr ⟨he, rfl⟩)
  rw [h.sequences, List.mem_range'_1] at hs
  exact hs.1

/-- What is appended comes at later positions. -/
theorem lt_position {l' : Ledger} {later : List Event} (h : l.Consistent) (h' : l'.Consistent)
    (hlog : l.log ++ later = l'.log) {e : Event} (he : e ∈ later) : l.lastPosition < e.position := by
  -- the positions of the old events are the first numbers, so those of the new events come next
  have hp := h'.positions
  rw [← hlog, List.map_append, h.positions, List.length_append, ← List.range'_append_1] at hp
  have hmem : e.position ∈ later.map Event.position := List.mem_map_of_mem he
  rw [List.append_cancel_left hp, List.mem_range'_1] at hmem
  rw [h.lastPosition]
  omega

end Consistent

/-- Within one stream, what a query matches ascends in its sequences. -/
theorem matching_sequences_ascend {l : Ledger} (h : l.Consistent) {q : Query} {s : Stream}
    (hs : l.Confines q s) : (l.matching q).Pairwise fun a b => a.sequence < b.sequence := by
  rw [matching, ← filter_eventsOf hs]
  exact (h.sequences_ascend s).filter _

end Ledger

end EventSourcing
