import EventSourcing.Proofs.Memory.Matching
import EventSourcing.Proofs.View.Replay

/-!
# Views — polling

A view is kept current by polling a store: each poll reads a query from the view's watermark on, and hands
what it gives to the view.  In between, anyone may do anything with the store, and a poll may be
interrupted.  The view applies a batch up to the first event that it cannot read, and the next poll goes
on behind that event.

* `answer_eq`: a poll gives the next events that the query matches behind those that were handled.
* `Follows.step`: a view that has come here by polling is a replay of what was handled, and that is the
  beginning of what the query matches.
* `handled_run`: polls that are not interrupted handle everything in the end.
* `polling_replays`: **a view that catches up by polling equals a full replay**, and what cannot be read is
  reported once.
-/

namespace EventSourcing

/-- An ascending query for events without an offset and without a bound on the sequence. -/
structure Query.Followable (q : Query) : Prop where
  columns : q.columns = .event
  ascending : q.desc = false
  fromStart : q.offset = 0
  unbounded : q.sequenceGreater = 0

namespace Query

theorem Followable.resolve {q : Query} (hq : q.Followable) (ctx : Context) :
    (q.resolve ctx).Followable := by
  obtain ⟨instanceId, h⟩ := q.exists_resolve ctx
  rw [h]
  exact ⟨hq.columns, hq.ascending, hq.fromStart, hq.unbounded⟩

theorem page_isPrefix {α : Type} {q : Query} (ho : q.offset = 0) (xs : List α) : q.page xs <+: xs := by
  rw [page, ho, List.drop_zero]
  split
  · exact List.prefix_rfl
  · exact List.take_prefix _ _

/-- Without an offset, a page is empty only where nothing is left. -/
theorem page_eq_nil_iff {α : Type} {q : Query} (ho : q.offset = 0) {xs : List α} :
    q.page xs = [] ↔ xs = [] := by
  rw [page, ho, List.drop_zero]
  split
  · exact Iff.rfl
  · rename_i hl
    rw [List.take_eq_nil_iff]
    exact or_iff_right hl

end Query

/-- A view that follows a store by polling it. -/
structure Follower (ω : Type) where
  store : Memory
  view : ω
  /-- The events that have been applied to the view one by one. -/
  handled : List Event := []
  /-- The errors that polls have ended with. -/
  reports : List ViewError := []

namespace Follower

open View

variable {ω π : Type} [View ω π]

/-- What a poll reads: the events of the query beyond the view's watermark. -/
def answer (ctx : Context) (q : Query) (f : Follower ω) :
    Except (StoreError Empty) (List Event) × Memory :=
  EventStore.filter ctx (q.set (.sequenceGreater (watermark f.view).sequence)) f.store

/-- No poll touches the store. -/
theorem answer_snd (ctx : Context) (q : Query) (f : Follower ω) : (f.answer ctx q).2 = f.store :=
  Memory.filter_snd ctx _ f.store

variable [OfPayload π]

/-- The follower after a poll.  Of a poll that is answered, the view is given the events. -/
def poll (ctx : Context) (q : Query) (f : Follower ω) : Follower ω :=
  match f.answer ctx q with
  | (.error _, store) => { f with store }
  | (.ok events, store) =>
    { store
      view := (applyAll events f.view).2
      handled := f.handled ++ applied f.view events
      reports := f.reports ++ reported (applyAll events f.view).1 }

/-- What may come next: anyone does something with the store, or the view polls it.  A poll may find
itself cancelled, or past its deadline. -/
inductive Step where
  | act (a : Memory.Action)
  | poll (cancelled : Bool := false) (deadline : Option Deadline := none)

/-- The follower after a step.  All polls are made on behalf of one tenant. -/
def step (tenant : Option String) (q : Query) (f : Follower ω) : Step → Follower ω
  | .act a => { f with store := f.store.act a }
  | .poll cancelled deadline => f.poll { instanceId := tenant, cancelled, deadline } q

/-- Follows the store through a series of steps. -/
def run (tenant : Option String) (q : Query) (f : Follower ω) (steps : List Step) : Follower ω :=
  steps.foldl (step tenant q) f

/-- The view is a replay, from where it began, of what was handled; that is the beginning of what the
query matches; and the reports are the faults of the replay. -/
structure Follows (f : Follower ω) (q : Query) (v : ω) : Prop where
  reachable : f.store.Reachable
  handled : f.handled <+: f.store.ledger.matching q
  view : f.view = replay v f.handled
  reports : f.reports = (faults v f.handled).map fun x => .decode x.2

variable {f : Follower ω} {q : Query} {v : ω} {s : Stream} {rest : List Event}

/-! ### One poll -/

/-- The watermark is the sequence of the last event that was handled, `0` before the first. -/
theorem Follows.sequence [Lawful ω] (hf : f.Follows q v) (hv : watermark v = {}) :
    (watermark f.view).sequence = (f.handled.getLast?.map Event.sequence).getD 0 := by
  rw [hf.view, sequence_replay, hv]

/-- What is left to handle lies beyond the watermark. -/
theorem Follows.lt_sequence [Lawful ω] (hf : f.Follows q v) (hv : watermark v = {})
    (hs : f.store.ledger.Confines q s) (hrest : f.handled ++ rest = f.store.ledger.matching q)
    {e : Event} (he : e ∈ rest) : (watermark f.view).sequence < e.sequence := by
  have hconsistent := hf.reachable.consistent
  rw [hf.sequence hv]
  cases hl : f.handled.getLast? with
  | none =>
      have hlog := (Ledger.mem_matching.mp (hrest ▸ List.mem_append_right _ he)).1
      exact hconsistent.sequence_pos hlog
  | some d =>
      have hascend := Ledger.matching_sequences_ascend hconsistent hs
      rw [← hrest] at hascend
      exact (List.pairwise_append.mp hascend).2.2 d (List.mem_of_getLast? hl) e he

/-- The query of a poll matches what is left to handle. -/
theorem Follows.matching_rest [Lawful ω] (hf : f.Follows q v) (hv : watermark v = {})
    (hq : q.sequenceGreater = 0) (hs : f.store.ledger.Confines q s)
    (hrest : f.handled ++ rest = f.store.ledger.matching q) :
    f.store.ledger.matching (q.set (.sequenceGreater (watermark f.view).sequence)) = rest := by
  have hconsistent := hf.reachable.consistent
  refine Ledger.matching_of_bound hrest (Ledger.matching_sequences_ascend hconsistent hs)
    fun e _ => ?_
  rw [Query.selects_sequenceGreater hq, hf.sequence hv]
  cases hl : f.handled.getLast? with
  | none => rfl
  | some d =>
      -- the sequence of an event is never `0`, which would stand for no bound
      have hd : d ∈ f.store.ledger.matching q := hrest ▸ List.mem_append_left _ (List.mem_of_getLast? hl)
      have hpos := hconsistent.sequence_pos (Ledger.mem_matching.mp hd).1
      simp [Nat.ne_of_gt hpos]

/-- **A poll gives the next events** that the query matches, as many as its limit allows. -/
theorem answer_eq [Lawful ω] {ctx : Context} (hctx : ctx.interruption? = none) (hq : q.Followable)
    (hf : f.Follows (q.resolve ctx) v) (hv : watermark v = {})
    (hs : f.store.ledger.Confines (q.resolve ctx) s)
    (hrest : f.handled ++ rest = f.store.ledger.matching (q.resolve ctx)) :
    f.answer ctx q = (.ok (q.page rest), f.store) := by
  have hresolved := hq.resolve ctx
  have hpage : ((q.resolve ctx).set (.sequenceGreater (watermark f.view).sequence)).page rest =
      q.page rest := by
    obtain ⟨instanceId, h⟩ := q.exists_resolve ctx
    rw [h]
    rfl
  have hdesc : ((q.resolve ctx).set (.sequenceGreater (watermark f.view).sequence)).desc = false :=
    hresolved.ascending
  have hevents : f.store.ledger.events
      ((q.set (.sequenceGreater (watermark f.view).sequence)).resolve ctx) = q.page rest := by
    rw [q.resolve_sequenceGreater, Ledger.events_ascending _ hdesc,
      hf.matching_rest hv hresolved.unbounded hs hrest, hpage]
  refine Prod.ext ?_ (answer_snd ctx q f)
  exact Memory.filter_ok_iff.mpr ⟨hq.columns, hctx, hevents.symm⟩

/-- What a poll gives is never out of order. -/
theorem Follows.inOrder [Lawful ω] (hf : f.Follows q v) (hv : watermark v = {})
    (hs : f.store.ledger.Confines q s) (hrest : f.handled ++ rest = f.store.ledger.matching q)
    {events : List Event} (hpre : events <+: rest) :
    outOfOrder? (lastSequences f.view events) events = none := by
  have hmem {e : Event} (he : e ∈ events) : e ∈ rest := hpre.subset he
  have hascend := Ledger.matching_sequences_ascend hf.reachable.consistent hs
  rw [← hrest] at hascend
  refine outOfOrder?_of_stream (s := s) (fun e he => ?_) (fun e he => hf.lt_sequence hv hs hrest (hmem he))
    ((List.pairwise_append.mp hascend).2.1.sublist hpre.sublist)
  have hmatching : e ∈ f.store.ledger.matching q := hrest ▸ List.mem_append_right _ (hmem he)
  obtain ⟨hlog, hselects⟩ := Ledger.mem_matching.mp hmatching
  exact hs e hlog hselects

/-- What a poll leaves, if nothing interrupts it. -/
theorem poll_eq [Lawful ω] {ctx : Context} (hctx : ctx.interruption? = none) (hq : q.Followable)
    (hf : f.Follows (q.resolve ctx) v) (hv : watermark v = {})
    (hs : f.store.ledger.Confines (q.resolve ctx) s)
    (hrest : f.handled ++ rest = f.store.ledger.matching (q.resolve ctx)) :
    f.poll ctx q =
      { store := f.store
        view := replay f.view (reached f.view (q.page rest))
        handled := f.handled ++ reached f.view (q.page rest)
        reports := f.reports ++
          (faults f.view (reached f.view (q.page rest))).map fun x => .decode x.2 } := by
  have horder := hf.inOrder hv hs hrest (Query.page_isPrefix hq.fromStart rest)
  have happlied : applied f.view (q.page rest) = reached f.view (q.page rest) := by
    rw [applied, horder]
  rw [poll, answer_eq hctx hq hf hv hs hrest, ← happlied, ← applyAll_snd, ← reported_applyAll horder]

/-- An interrupted poll changes nothing. -/
theorem poll_interrupted {ctx : Context} {i : Interruption} (hctx : ctx.interruption? = some i) :
    f.poll ctx q = f := by
  have hstore := answer_snd ctx q f
  rw [poll]
  split
  · rename_i e store h
    rw [h] at hstore
    cases hstore
    rfl
  · rename_i events store h
    -- a poll that is answered has not been interrupted
    have hnone := (Memory.filter_ok_iff.mp (congrArg Prod.fst h)).2.1
    rw [hctx] at hnone
    cases hnone

/-! ### Whole runs -/

/-- A poll keeps a follower behind its store. -/
theorem Follows.poll [Lawful ω] {ctx : Context} (hq : q.Followable)
    (hf : f.Follows (q.resolve ctx) v) (hv : watermark v = {})
    (hs : f.store.ledger.Confines (q.resolve ctx) s) :
    (f.poll ctx q).Follows (q.resolve ctx) v := by
  cases hctx : ctx.interruption? with
  | some i => rw [poll_interrupted hctx]; exact hf
  | none =>
      obtain ⟨rest, hrest⟩ := hf.handled
      rw [poll_eq hctx hq hf hv hs hrest]
      have hpre := (reached_isPrefix f.view _).trans (Query.page_isPrefix hq.fromStart rest)
      refine ⟨hf.reachable, ?_, ?_, ?_⟩
      · show _ <+: f.store.ledger.matching (q.resolve ctx)
        rw [← hrest]
        exact (List.prefix_append_right_inj _).mpr hpre
      · show _ = replay v (f.handled ++ _)
        rw [replay_append, ← hf.view]
      · show f.reports ++ _ = (faults v (f.handled ++ _)).map _
        rw [faults_append, List.map_append, ← hf.view, ← hf.reports]

/-- Whatever happens to the store, a follower stays behind it. -/
theorem Follows.act (hf : f.Follows q v) (a : Memory.Action) :
    ({ f with store := f.store.act a } : Follower ω).Follows q v where
  reachable := hf.reachable.acts [a]
  handled := hf.handled.trans ((Memory.grows_acts f.store [a]).matching q)
  view := hf.view
  reports := hf.reports

/-- Polls leave the store as it is. -/
theorem store_poll (ctx : Context) (q : Query) (f : Follower ω) : (f.poll ctx q).store = f.store := by
  have hstore := answer_snd ctx q f
  rw [Follower.poll]
  split
  · rename_i h
    rwa [h] at hstore
  · rename_i h
    rwa [h] at hstore

theorem grows_step (tenant : Option String) (q : Query) (f : Follower ω) (step : Step) :
    f.store.ledger.Grows (f.step tenant q step).store.ledger := by
  cases step with
  | act a => exact Memory.grows_acts f.store [a]
  | poll cancelled deadline =>
      rw [Follower.step, store_poll]
      exact Ledger.Grows.refl _

/-- The store only grows. -/
theorem grows_run (tenant : Option String) (q : Query) (steps : List Step) :
    ∀ f : Follower ω, f.store.ledger.Grows (f.run tenant q steps).store.ledger := by
  induction steps with
  | nil => intro f; exact Ledger.Grows.refl _
  | cons step steps ih => intro f; exact (grows_step tenant q f step).trans (ih _)

/-- What the polls of a tenant read. -/
abbrev reading (tenant : Option String) (q : Query) : Query :=
  q.resolve { instanceId := tenant }

variable {tenant : Option String}

/-- Every step keeps the view a replay of the beginning of what the query matches. -/
theorem Follows.step [Lawful ω] (hq : q.Followable) (hf : f.Follows (reading tenant q) v)
    (hv : watermark v = {}) (hs : f.store.ledger.Confines (reading tenant q) s) (step : Step) :
    (f.step tenant q step).Follows (reading tenant q) v := by
  cases step with
  | act a => exact hf.act a
  | poll cancelled deadline =>
      show (f.poll ⟨tenant, cancelled, deadline⟩ q).Follows _ v
      exact Follows.poll hq hf hv hs

/-- **A follower stays behind its store** through any series of steps. -/
theorem Follows.run [Lawful ω] (hq : q.Followable) (hv : watermark v = {}) (steps : List Step) :
    ∀ {f : Follower ω}, f.Follows (reading tenant q) v →
      (f.run tenant q steps).store.ledger.Confines (reading tenant q) s →
      (f.run tenant q steps).Follows (reading tenant q) v := by
  induction steps with
  | nil => intro f hf _; exact hf
  | cons step steps ih =>
      intro f hf hs
      exact ih (hf.step hq hv (hs.of_grows (grows_run tenant q (step :: steps) f)) step) hs

/-! ### Catching up -/

/-- The step is a poll that nothing interrupts. -/
def Step.isPoll : Step → Bool
  | .act _ => false
  | .poll cancelled deadline => ({ cancelled, deadline } : Context).interruption?.isNone

/-- A poll that nothing interrupts handles at least one event, if there is any left. -/
theorem Follows.length_poll [Lawful ω] {ctx : Context} (hctx : ctx.interruption? = none)
    (hq : q.Followable) (hf : f.Follows (q.resolve ctx) v) (hv : watermark v = {})
    (hs : f.store.ledger.Confines (q.resolve ctx) s)
    (hlt : f.handled.length < (f.store.ledger.matching (q.resolve ctx)).length) :
    f.handled.length < (f.poll ctx q).handled.length := by
  obtain ⟨rest, hrest⟩ := hf.handled
  have hne : rest ≠ [] := by
    rintro rfl
    rw [← hrest, List.append_nil] at hlt
    exact Nat.lt_irrefl _ hlt
  have hreached : reached f.view (q.page rest) ≠ [] :=
    reached_ne_nil _ (mt (Query.page_eq_nil_iff hq.fromStart).mp hne)
  rw [poll_eq hctx hq hf hv hs hrest, List.length_append]
  exact Nat.lt_add_of_pos_right (List.length_pos_iff.mpr hreached)

/-- What has been handled stays handled. -/
theorem handled_step (tenant : Option String) (q : Query) (f : Follower ω) (step : Step) :
    f.handled <+: (f.step tenant q step).handled := by
  cases step with
  | act a => exact List.prefix_rfl
  | poll cancelled deadline =>
      rw [Follower.step, Follower.poll]
      split
      · exact List.prefix_rfl
      · exact List.prefix_append _ _

/-- **Everything is handled in the end.**  As many polls that nothing interrupts as there are events left
handle them all, whatever else happens in between. -/
theorem handled_run [Lawful ω] (hq : q.Followable) (hv : watermark v = {}) (steps : List Step)
    {due : List Event} :
    ∀ {f : Follower ω}, f.Follows (reading tenant q) v →
      (f.run tenant q steps).store.ledger.Confines (reading tenant q) s →
      due <+: f.store.ledger.matching (reading tenant q) →
      due.length ≤ f.handled.length + steps.countP Step.isPoll →
      due <+: (f.run tenant q steps).handled := by
  induction steps with
  | nil =>
      intro f hf _ hdue hle
      exact List.prefix_of_prefix_length_le hdue hf.handled hle
  | cons step steps ih =>
      intro f hf hs hdue hle
      have hsf := hs.of_grows (grows_run tenant q (step :: steps) f)
      have hgrows := (grows_step tenant q f step).matching (reading tenant q)
      refine ih (hf.step hq hv hsf step) hs (hdue.trans hgrows) ?_
      have hmono := (handled_step tenant q f step).length_le
      rw [List.countP_cons] at hle
      by_cases hpoll : step.isPoll = true
      · rw [if_pos hpoll] at hle
        by_cases hdone : due.length ≤ f.handled.length
        · omega
        · -- something is left, so the poll handles some of it
          cases step with
          | act a => cases hpoll
          | poll cancelled deadline =>
              have hctx : (⟨tenant, cancelled, deadline⟩ : Context).interruption? = none :=
                Option.isNone_iff_eq_none.mp hpoll
              have hlt : f.handled.length < (f.step tenant q (.poll cancelled deadline)).handled.length :=
                hf.length_poll hctx hq hv hsf
                  (Nat.lt_of_lt_of_le (Nat.lt_of_not_le hdone) hdue.length_le)
              omega
      · rw [if_neg hpoll] at hle
        omega

/-- A follower that has come here, by some steps, from view `v` and a store that began empty. -/
def Reachable (tenant : Option String) (q : Query) (v : ω) (f : Follower ω) : Prop :=
  ∃ (m : Memory) (steps : List Step), m.Reachable ∧
    f = ({ store := m, view := v } : Follower ω).run tenant q steps

/-- What polling makes of view `v` is what a replay makes of it. -/
structure Faithful (f : Follower ω) (tenant : Option String) (q : Query) (v : ω) : Prop where
  /-- No event is handled twice, or before one that precedes it. -/
  handled : f.handled <+: f.store.ledger.matching (reading tenant q)
  ascending : (f.store.ledger.matching (reading tenant q)).Pairwise fun a b => a.sequence < b.sequence
  view : f.view = replay v f.handled
  /-- The polls have reported each event that could not be read, once, and nothing else. -/
  reports : f.reports = (faults v f.handled).map fun x => .decode x.2
  /-- The next poll is answered, unless it is interrupted, and sees nothing that has been handled. -/
  answered : ∀ ctx : Context, ctx.instanceId = tenant → ctx.interruption? = none →
    ∃ events, f.answer ctx q = (.ok events, f.store) ∧
      f.handled ++ events <+: f.store.ledger.matching (reading tenant q)
  /-- If it comes back empty, everything has been handled. -/
  caughtUp : ∀ ctx : Context, ctx.instanceId = tenant → (f.answer ctx q).1 = .ok [] →
    f.handled = f.store.ledger.matching (reading tenant q) ∧
      f.view = replay v (f.store.ledger.matching (reading tenant q))

/-- A follower that has stayed behind is faithful. -/
theorem Follows.faithful [Lawful ω] (hq : q.Followable) (hf : f.Follows (reading tenant q) v)
    (hv : watermark v = {}) (hs : f.store.ledger.Confines (reading tenant q) s) :
    f.Faithful tenant q v := by
  obtain ⟨rest, hrest⟩ := hf.handled
  refine ⟨hf.handled, Ledger.matching_sequences_ascend hf.reachable.consistent hs, hf.view, hf.reports,
    ?_, ?_⟩
  · rintro ctx rfl hctx
    refine ⟨_, answer_eq hctx hq hf hv hs hrest, ?_⟩
    rw [← hrest]
    exact (List.prefix_append_right_inj _).mpr (Query.page_isPrefix hq.fromStart rest)
  · rintro ctx rfl hempty
    have hctx := (Memory.filter_ok_iff.mp hempty).2.1
    rw [answer_eq hctx hq hf hv hs hrest] at hempty
    obtain rfl := (Query.page_eq_nil_iff hq.fromStart).mp (Except.ok.inj hempty)
    rw [List.append_nil] at hrest
    exact ⟨hrest, by rw [← hrest]; exact hf.view⟩

/-- **A view that catches up by polling equals a full replay.**  Let the query of the polls match only
events of one stream, up to the end of any further steps.  Then, whatever has happened so far, the view
and the reports are those of a replay of the first events that the query matches; and after as many
further polls as there are events left, all of them have been handled. -/
theorem polling_replays [Lawful ω] (hq : q.Followable) (hv : watermark v = {})
    (hf : f.Reachable tenant q v) (more : List Step)
    (hs : (f.run tenant q more).store.ledger.Confines (reading tenant q) s) :
    f.Faithful tenant q v ∧
      ((f.store.ledger.matching (reading tenant q)).length ≤
          f.handled.length + more.countP Step.isPoll →
        f.store.ledger.matching (reading tenant q) <+: (f.run tenant q more).handled) := by
  obtain ⟨m, steps, hm, rfl⟩ := hf
  have hsf := hs.of_grows (grows_run tenant q more _)
  have hf := Follows.run (f := { store := m, view := v }) hq hv steps
    ⟨hm, List.nil_prefix, rfl, rfl⟩ hsf
  exact ⟨hf.faithful hq hv hsf, handled_run hq hv more hf hs List.prefix_rfl⟩

/-- The events of the counters with id `a`, two at a time. -/
def counterEvents : Query := { limit := 2, branches := [{ aggregateIds := ["a"] }] }

/-- A view of a counter that has polled once.  The second of its events cannot be read. -/
def counting : Follower CounterView :=
  let command (type : EventType) (count : Json) : Command :=
    { aggregate := { type := "counter", id := "a" }, type, payload := .obj [("count", count)] }
  ({ store := { clock := default }, view := {} } : Follower CounterView).run none counterEvents
    [.act (.push {} ⟨command "counter.added" (.int 2),
        [command "counter.set" (.str "many"), command "counter.set" (.int 7)]⟩),
      .poll, .act (.push {} ⟨command "counter.set" (.int 8), []⟩)]

/-- Two events are handled, of which one is reported. -/
theorem polling_replays_counting :
    (counterEvents.Followable ∧ watermark ({} : CounterView) = {} ∧
      counting.Reachable none counterEvents {}) ∧
    (counting.handled.map Event.sequence = [1, 2] ∧ counting.reports.length = 1 ∧
      counting.view = replay {} counting.handled) ∧
    ∃ more, (counting.run none counterEvents more).store.ledger.Confines counterEvents
        ⟨"", "counter", "a"⟩ ∧
      counting.store.ledger.matching counterEvents <+: (counting.run none counterEvents more).handled ∧
      (counting.run none counterEvents more).view.count = 8 := by
  have hq : counterEvents.Followable := ⟨rfl, rfl, rfl, rfl⟩
  have hf : counting.Reachable none counterEvents {} := ⟨_, _, ⟨default, [], rfl⟩, rfl⟩
  -- one of the polls is cancelled
  have hs : (counting.run none counterEvents [.poll, .poll true, .poll]).store.ledger.Confines
      counterEvents ⟨"", "counter", "a"⟩ := by
    rw [Ledger.Confines]
    decide
  obtain ⟨hfaithful, hdone⟩ := polling_replays hq rfl hf _ hs
  exact ⟨⟨hq, rfl, hf⟩, ⟨by decide, by decide, hfaithful.view⟩, _, hs, hdone (by decide), by decide⟩

end Follower

end EventSourcing
