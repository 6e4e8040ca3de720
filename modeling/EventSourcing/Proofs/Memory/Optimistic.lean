import EventSourcing.Proofs.WriteModel.Bookkeeping

/-!
# The store in memory — optimistic concurrency

A client loads a write model, decides on commands, and pushes them with the expectation that the stream
still stands where the model has come.  Between the load and the push any clients may do anything.

* `eventsOf_eq_of_ok`: an accepted expectation that is not above the head at the time of the load means
  that the stream has not changed since.  The heads never fall, so this needs no more than an upper
  bound: a model that has seen only part of its stream is covered.
* `expectation_le`, `expectation_eq`: what a loaded model expects is at most the head, and is the head
  if its query selects the whole stream.
* `acceptsAt_unique`: in a whole run, no expectation of a stream is met twice.
* `optimistic_concurrency`: **an accepted push means that nobody else has written**, and a push is
  refused only if somebody has.

A query confines a ledger to a stream if it selects none of the other events that the ledger holds.  For
the stream of a tenant that asks for no more than that events under its type and id have a tenant
(`confines_of_tenant`).
-/

namespace EventSourcing

/-! ### Expectations -/

/-- The batch holds a command on the stream that expects it to stand at `n`. -/
def Batch.Expects (b : Batch) (ctx : Context) (s : Stream) (n : Nat) : Prop :=
  ∃ c ∈ (b.scoped ctx).toList, c.stream = s ∧ c.sequence = some n

/-- The batch expects nothing but that the stream stands at `n`. -/
def Batch.ExpectsOnly (b : Batch) (ctx : Context) (s : Stream) (n : Nat) : Prop :=
  ∀ c ∈ (b.scoped ctx).toList, ∀ k, c.sequence = some k → c.stream = s ∧ k = n

/-- Ascending and without a page, the query selects every event of the stream. -/
structure Query.Whole (q : Query) (l : Ledger) (s : Stream) : Prop where
  ascending : q.desc = false
  unlimited : q.limit = 0
  fromStart : q.offset = 0
  all : ∀ e ∈ l.eventsOf s, q.selects e = true

/-- Every branch of the query names the type and the id of the stream. -/
structure Query.Names (q : Query) (s : Stream) : Prop where
  nonempty : q.branches ≠ []
  types : ∀ b ∈ q.branches, b.aggregateTypes = [s.aggregateType]
  ids : ∀ b ∈ q.branches, b.aggregateIds = [s.aggregateId]

/-- A query that names a stream selects its aggregate only. -/
theorem Query.Names.of_selects {q : Query} {s : Stream} (hq : q.Names s) {e : Event}
    (he : q.selects e = true) :
    e.aggregate.type = s.aggregateType ∧ e.aggregate.id = s.aggregateId := by
  simp only [selects, accepts, acceptsBranch, Bool.and_eq_true, Bool.or_eq_true,
    List.isEmpty_iff, List.any_eq_true] at he
  obtain ⟨b, hb, hacc⟩ := he.2.2.resolve_left hq.nonempty
  simp only [Branch.accepts, listed, hq.types b hb, hq.ids b hb, Bool.and_eq_true] at hacc
  obtain ⟨⟨⟨htype, hid⟩, -⟩, -⟩ := hacc
  exact ⟨by simpa [Event.candidate] using htype, by simpa [Event.candidate] using hid⟩

/-- A query for type and id of a tenant's stream selects only that stream, provided that no event under
this type and id lacks a tenant. -/
theorem Ledger.confines_of_tenant {l : Ledger} {q : Query} {s : Stream} (ht : s.instanceId ≠ "")
    (hq : q.instanceId = some s.instanceId) (hnames : q.Names s)
    (hl : ∀ e ∈ l.log, e.stream ≠ { s with instanceId := "" }) : l.Confines q s := by
  intro e he hs
  obtain ⟨htype, hid⟩ := hnames.of_selects hs
  rcases Query.instanceId_of_selects ht hq hs with hi | hi
  · exact absurd (by rw [← htype, ← hid, ← hi]; rfl) (hl e he)
  · obtain ⟨_, _, _⟩ := s
    cases htype; cases hid; cases hi
    rfl

/-! ### Accepted expectations -/

namespace Memory

/-- An accepted expectation is the head of its stream. -/
theorem head_eq_of_ok {ctx : Context} {b : Batch} {m : Memory} {events : List Event} {s : Stream}
    {n : Nat} (h : (m.push ctx b).1 = .ok events) (hb : b.Expects ctx s n) :
    m.ledger.heads.head s = n := by
  obtain ⟨-, hc, -, -⟩ := push_ok h
  obtain ⟨c, hmem, rfl, hn⟩ := hb
  exact (Heads.conflict?_eq_none_iff.mp hc c hmem n hn).symm

/-- **An accepted expectation that was reached already.**  If the stream stood at `n` or beyond and a
push that expects `n` is accepted later, the stream has not changed in between. -/
theorem eventsOf_eq_of_ok {m m' : Memory} (hm : m'.ledger.Consistent)
    (hg : m.ledger.Grows m'.ledger) {ctx : Context} {b : Batch} {events : List Event} {s : Stream}
    {n : Nat} (hn : n ≤ (m.ledger.eventsOf s).length) (h : (m'.push ctx b).1 = .ok events)
    (hb : b.Expects ctx s n) : m'.ledger.eventsOf s = m.ledger.eventsOf s := by
  have hhead : (m'.ledger.eventsOf s).length = n := by
    rw [← hm.head_eq, head_eq_of_ok h hb]
  -- the stream has grown from `n` events or more to just `n`
  have hpre := hg.eventsOf s
  have hle := hpre.length_le
  exact (hpre.eq_of_length (by omega)).symm

/-- An accepted push that writes to a stream makes it longer. -/
theorem length_eventsOf_push {ctx : Context} {b : Batch} {m : Memory} {events : List Event}
    {s : Stream} {n : Nat} (h : (m.push ctx b).1 = .ok events) (hb : b.Expects ctx s n) :
    (m.ledger.eventsOf s).length < ((m.push ctx b).2.ledger.eventsOf s).length := by
  obtain ⟨-, -, -, hm⟩ := push_ok h
  obtain ⟨c, hmem, rfl, -⟩ := hb
  obtain ⟨e, he, hs⟩ := Ledger.exists_mem_nextEvents m.now hmem m.ledger
  rw [hm]
  show _ < ((m.ledger.appendAll m.now _).eventsOf c.stream).length
  rw [Ledger.eventsOf_appendAll, List.length_append]
  have hmem : e ∈ (m.ledger.nextEvents m.now (b.scoped ctx).toList).filter
      fun e => e.stream = c.stream := List.mem_filter.mpr ⟨he, decide_eq_true hs⟩
  have hpos := List.length_pos_of_mem hmem
  omega

/-! ### Whole runs -/

/-- The action is an accepted push that expects the stream to stand at `n`. -/
def Accepts (m : Memory) (s : Stream) (n : Nat) : Action → Prop
  | .push ctx b => (∃ events, (m.push ctx b).1 = .ok events) ∧ b.Expects ctx s n
  | .read _ _ => False

/-- Action `i` of the run is an accepted push that expects the stream to stand at `n`. -/
def AcceptsAt (m : Memory) (actions : List Action) (s : Stream) (n i : Nat) : Prop :=
  ∃ a, actions[i]? = some a ∧ (m.acts (actions.take i)).Accepts s n a

/-- A batch that expects a sequence is accepted at this sequence, and moves the stream on. -/
theorem length_of_accepts {m : Memory} (hm : m.ledger.Consistent) {s : Stream} {n : Nat}
    {a : Action} (ha : m.Accepts s n a) :
    (m.ledger.eventsOf s).length = n ∧ n < ((m.act a).ledger.eventsOf s).length := by
  cases a with
  | read => exact ha.elim
  | push ctx b =>
      obtain ⟨⟨events, h⟩, hb⟩ := ha
      have hn : (m.ledger.eventsOf s).length = n := by rw [← hm.head_eq, head_eq_of_ok h hb]
      have hlt := length_eventsOf_push h hb
      rw [hn] at hlt
      exact ⟨hn, hlt⟩

/-- So the same sequence is never accepted again. -/
theorem not_acceptsAt_of_lt {m : Memory} (hm : m.Reachable) {actions : List Action} {s : Stream}
    {n i j : Nat} (hi : m.AcceptsAt actions s n i) (hij : i < j) :
    ¬ m.AcceptsAt actions s n j := by
  rintro ⟨y, hy, hay⟩
  obtain ⟨x, hx, hax⟩ := hi
  obtain ⟨-, hlt⟩ := length_of_accepts (hm.acts _).consistent hax
  obtain ⟨heq, -⟩ := length_of_accepts (hm.acts _).consistent hay
  -- action `i` made the stream longer than `n`, and it has not become shorter since
  have hle := ((grows_acts_take m actions (Nat.succ_le_of_lt hij)).eventsOf s).length_le
  rw [acts_take_succ m hx] at hle
  omega

/-- In a whole run, no expectation of a stream is met twice. -/
theorem acceptsAt_unique {m : Memory} (hm : m.Reachable) {actions : List Action} {s : Stream}
    {n i j : Nat} (hi : m.AcceptsAt actions s n i) (hj : m.AcceptsAt actions s n j) : i = j := by
  rcases Nat.lt_trichotomy i j with h | h | h
  · exact absurd hj (not_acceptsAt_of_lt hm hi h)
  · exact h
  · exact absurd hi (not_acceptsAt_of_lt hm hj h)

end Memory

/-! ### Loading, deciding, pushing -/

/-- A load of a fresh write model, and what any clients do with the store after it.  The model reads
one stream: of all events up to then, its query selects no others. -/
structure Attempt (μ : Type) [QueryReducer μ] [Bookkept μ] where
  store : Memory
  reachable : store.Reachable
  ctx : Context
  model : μ
  fresh : (Bookkept.base model).Fresh
  loads : (Reducer.load ctx model store).1 = .ok ()
  between : List Memory.Action
  stream : Stream
  confined : (store.acts between).ledger.Confines ((QueryReducer.query model).resolve ctx) stream

namespace Attempt

variable {μ : Type} [QueryReducer μ] [Bookkept μ]

/-- The query of the model in its context. -/
def query (a : Attempt μ) : Query :=
  (QueryReducer.query a.model).resolve a.ctx

/-- The store right before the push. -/
def before (a : Attempt μ) : Memory :=
  a.store.acts a.between

/-- Where the loaded model takes its stream to stand. -/
def expectation (a : Attempt μ) : Nat :=
  (Bookkept.base (Reducer.load a.ctx a.model a.store).2.1).processedSequence

/-- Between the load and the attempt, the store only grows. -/
theorem grows (a : Attempt μ) : a.store.ledger.Grows a.before.ledger :=
  Memory.grows_acts _ _

theorem confines_store (a : Attempt μ) : a.store.ledger.Confines a.query a.stream :=
  a.confined.of_grows a.grows

/-- What a loaded model expects is the sequence of the last event that its query selected. -/
theorem expectation_eq_getLast [LawfulBookkept μ] (a : Attempt μ) :
    a.expectation = ((a.store.ledger.events a.query).getLast?.map Event.sequence).getD 0 := by
  obtain ⟨events, hf, hp⟩ := Memory.processedSequence_load a.fresh a.loads
  obtain ⟨-, -, rfl⟩ := Memory.filter_ok_iff.mp hf
  exact hp

/-- Filtered, paged or reversed, a model never expects more than the head. -/
theorem expectation_le [LawfulBookkept μ] (a : Attempt μ) :
    a.expectation ≤ (a.store.ledger.eventsOf a.stream).length := by
  rw [expectation_eq_getLast]
  cases hl : (a.store.ledger.events a.query).getLast? with
  | none => exact Nat.zero_le _
  | some e =>
      -- the last event selected is one of the stream, whichever it is
      obtain ⟨hlog, hs⟩ := Ledger.selects_of_mem_events (List.mem_of_getLast? hl)
      have hstream : e.stream = a.stream := a.confines_store e hlog hs
      exact hstream ▸ a.reachable.consistent.sequence_le_stream hlog

/-- A model that reads its whole stream expects the head. -/
theorem expectation_eq [LawfulBookkept μ] (a : Attempt μ)
    (hw : a.query.Whole a.store.ledger a.stream) :
    a.expectation = (a.store.ledger.eventsOf a.stream).length := by
  rw [expectation_eq_getLast, Ledger.events_eq_eventsOf a.confines_store hw.all hw.ascending
    hw.unlimited hw.fromStart]
  exact a.reachable.consistent.sequence_getLast a.stream

/-- As long as the stream is the same, the model's query gives the same. -/
theorem filter_before (a : Attempt μ)
    (heq : a.before.ledger.eventsOf a.stream = a.store.ledger.eventsOf a.stream) :
    (EventStore.filter a.ctx (QueryReducer.query a.model) a.before).1 =
      (EventStore.filter a.ctx (QueryReducer.query a.model) a.store).1 := by
  have hev : a.before.ledger.events a.query = a.store.ledger.events a.query :=
    Ledger.events_eq_of_eventsOf a.confines_store a.confined heq
  have hload : ∃ events, (EventStore.filter a.ctx (QueryReducer.query a.model) a.store).1 =
      .ok events := by
    obtain ⟨events, hf, -⟩ := Memory.load_ok a.loads
    exact ⟨events, hf⟩
  obtain ⟨events, hf⟩ := hload
  obtain ⟨hc, hi, he⟩ := Memory.filter_ok_iff.mp hf
  rw [hf]
  exact Memory.filter_ok_iff.mpr ⟨hc, hi, he.trans hev.symm⟩

/-- **Optimistic concurrency.**  Let a push expect what the loaded model stands at.

If it is accepted, nothing was appended to the stream since the load, and the model's query would give
right before the push what the model was built from.  Conversely, where the query selects the whole
stream, nothing was appended to it since the load and nothing else is expected, only an interruption
keeps the push from being accepted.  In a whole run, finally, at most one push that expects a stream to
stand at some `n` is accepted. -/
theorem optimistic_concurrency [LawfulBookkept μ] (a : Attempt μ) {ctx : Context} {b : Batch}
    (hb : b.Expects ctx a.stream a.expectation) :
    (∀ events, (a.before.push ctx b).1 = .ok events →
      a.before.ledger.eventsOf a.stream = a.store.ledger.eventsOf a.stream ∧
      (EventStore.filter a.ctx (QueryReducer.query a.model) a.before).1 =
        (EventStore.filter a.ctx (QueryReducer.query a.model) a.store).1) ∧
    (a.query.Whole a.store.ledger a.stream → b.ExpectsOnly ctx a.stream a.expectation →
      a.before.ledger.eventsOf a.stream = a.store.ledger.eventsOf a.stream →
      ∃ events, (a.before.push ctx b).1 = ctx.check.map fun () => events) ∧
    (∀ m : Memory, m.Reachable → ∀ (actions : List Memory.Action) (s : Stream) (n i j : Nat),
      m.AcceptsAt actions s n i → m.AcceptsAt actions s n j → i = j) := by
  have hbefore : a.before.ledger.Consistent := (a.reachable.acts a.between).consistent
  refine ⟨fun events h => ?_, fun hw honly heq => ?_,
    fun m hm actions s n i j hi hj => Memory.acceptsAt_unique hm hi hj⟩
  · have heq := Memory.eventsOf_eq_of_ok hbefore a.grows a.expectation_le h hb
    exact ⟨heq, a.filter_before heq⟩
  · -- all that the batch expects is the head, which the model has reached
    have hnone : a.before.ledger.heads.conflict? (b.scoped ctx).toList = none := by
      refine Heads.conflict?_eq_none_iff.mpr fun c hc k hk => ?_
      obtain ⟨hs, rfl⟩ := honly c hc k hk
      rw [hs, hbefore.head_eq, heq, a.expectation_eq hw]
    cases hi : ctx.interruption? with
    | some i => exact ⟨[], by rw [Memory.push_interrupted hi]; simp [Context.check, hi]; rfl⟩
    | none => exact ⟨_, by rw [Memory.push_accepted hi hnone]; simp [Context.check, hi]; rfl⟩

/-! ### A rename -/

/-- A command on organisation `id` of its own ownership. -/
def orgCommand (id : String) (type : EventType) (name : String) : Command where
  aggregate := { type := "org", id, resourceOwner := id }
  type
  payload := .obj [("name", .str name)]

/-- The stream of an organisation. -/
def acme : Stream := ⟨"t1", "org", "org-1"⟩

/-- The model of an organisation is loaded, and then another organisation is added. -/
def acmeRename : Attempt Org where
  store := ({ clock := default } : Memory).acts
    [.push (.forInstance "t1") ⟨orgCommand "org-1" "org.added" "ACME", []⟩]
  reachable := ⟨default, _, rfl⟩
  ctx := .forInstance "t1"
  model := { base := { aggregateId := "org-1" } }
  fresh := ⟨rfl, rfl, rfl⟩
  loads := rfl
  between := [.push (.forInstance "t1") ⟨orgCommand "org-2" "org.added" "Other", []⟩]
  stream := acme
  confined := Ledger.confines_of_tenant (by decide) rfl ⟨by decide, by decide, by decide⟩ (by decide)

/-- The loaded model decides on a new name. -/
def acmeRenameBatch : Batch :=
  ⟨(orgCommand "org-1" "org.changed" "ACME Corp").expecting 1, []⟩

/-- Two clients that both mean to create the organisation. -/
def acmeTwice : List Memory.Action :=
  [.push (.forInstance "t1") ⟨(orgCommand "org-1" "org.added" "ACME").expecting 0, []⟩,
    .push (.forInstance "t1") ⟨(orgCommand "org-1" "org.added" "ACME").expecting 0, []⟩]

/-- The organisation is renamed by the model that was loaded last, and its stream had not changed. -/
theorem optimistic_concurrency_acme :
    (acmeRenameBatch.Expects (.forInstance "t1") acme acmeRename.expectation ∧
      acmeRename.query.Whole acmeRename.store.ledger acme ∧
      acmeRename.before.ledger.eventsOf acme = acmeRename.store.ledger.eventsOf acme ∧
      ∃ events, (acmeRename.before.push (.forInstance "t1") acmeRenameBatch).1 = .ok events) ∧
    ({ clock := default } : Memory).AcceptsAt acmeTwice acme 0 0 ∧
    ¬ ({ clock := default } : Memory).AcceptsAt acmeTwice acme 0 1 := by
  have hb : acmeRenameBatch.Expects (.forInstance "t1") acme acmeRename.expectation :=
    ⟨_, List.mem_singleton_self _, rfl, rfl⟩
  have hw : acmeRename.query.Whole acmeRename.store.ledger acme := ⟨rfl, rfl, rfl, by decide⟩
  have honly : acmeRenameBatch.ExpectsOnly (.forInstance "t1") acme acmeRename.expectation := by
    intro c hc k hk
    obtain rfl := List.mem_singleton.mp hc
    exact ⟨rfl, (Option.some.inj hk).symm⟩
  have hfirst : ({ clock := default } : Memory).AcceptsAt acmeTwice acme 0 0 :=
    ⟨_, rfl, ⟨_, rfl⟩, _, List.mem_singleton_self _, rfl, rfl⟩
  obtain ⟨hsound, hconverse, hunique⟩ := optimistic_concurrency acmeRename hb
  obtain ⟨events, he⟩ := hconverse hw honly (by decide)
  refine ⟨⟨hb, hw, (hsound events he).1, events, he⟩, hfirst, fun hsecond => ?_⟩
  exact absurd (hunique _ ⟨default, [], rfl⟩ acmeTwice acme 0 0 1 hfirst hsecond) (by decide)

end Attempt

end EventSourcing
