import EventSourcing.Proofs.Ledger.Consistent
import EventSourcing.Store.Memory

/-!
# The store in memory — runs

A run of a store in memory is a series of actions: pushes and reads, by any clients in any contexts.
Pushes may be interrupted, in conflict, or accepted.

* `push_cases`: the three ways a push can end, and what each of them leaves.
* `acts_preserve`: what every commit preserves, every run preserves.
* `consistent_acts`: **every store that began empty holds a consistent ledger**, whatever its clock
  says and whatever its clients do.
* `grows_acts`: no run takes anything back from the log.
-/

namespace EventSourcing.Memory

/-! ### One push -/

/-- The store after its clock has been read. -/
def tick (m : Memory) : Memory :=
  { m with clock := m.clock.advance, ticks := m.ticks + 1 }

/-- The date of a batch that is pushed now. -/
def now (m : Memory) : Instant :=
  m.ledger.dateAt m.clock.next

/-- The store after it has accepted these commands. -/
def accept (m : Memory) (commands : List Command) : Memory :=
  { m.tick with ledger := m.ledger.appendAll m.now commands }

/-- An interrupted push does not even read the clock. -/
theorem push_interrupted {ctx : Context} {i : Interruption} (h : ctx.interruption? = some i)
    (b : Batch) (m : Memory) : m.push ctx b = (.error (.ofInterruption i), m) := by
  simp only [push, Context.check, h]

/-- A push that is refused only reads the clock. -/
theorem push_refused {ctx : Context} {b : Batch} {m : Memory} {conflict : Conflict}
    (h : ctx.interruption? = none)
    (hc : m.ledger.heads.conflict? (b.scoped ctx).toList = some conflict) :
    m.push ctx b = (.error (.conflict conflict), m.tick) := by
  simp only [push, Context.check, h, Ledger.commit, hc]
  rfl

/-- A push that is accepted appends its batch whole. -/
theorem push_accepted {ctx : Context} {b : Batch} {m : Memory} (h : ctx.interruption? = none)
    (hc : m.ledger.heads.conflict? (b.scoped ctx).toList = none) :
    m.push ctx b =
      (.ok (m.ledger.nextEvents m.now (b.scoped ctx).toList), m.accept (b.scoped ctx).toList) := by
  simp only [push, Context.check, h, Ledger.commit, hc]
  rfl

/-- **The ends of a push.**  It is interrupted and does nothing, it is in conflict and has read the
clock, or it is accepted as a whole. -/
theorem push_cases (ctx : Context) (b : Batch) (m : Memory) :
    (∃ i, ctx.interruption? = some i ∧ m.push ctx b = (.error (.ofInterruption i), m)) ∨
    (∃ conflict, ctx.interruption? = none ∧
      m.ledger.heads.conflict? (b.scoped ctx).toList = some conflict ∧
      m.push ctx b = (.error (.conflict conflict), m.tick)) ∨
    (ctx.interruption? = none ∧ m.ledger.heads.conflict? (b.scoped ctx).toList = none ∧
      m.push ctx b =
        (.ok (m.ledger.nextEvents m.now (b.scoped ctx).toList), m.accept (b.scoped ctx).toList)) := by
  cases hi : ctx.interruption? with
  | some i => exact .inl ⟨i, rfl, push_interrupted hi b m⟩
  | none =>
      cases hc : m.ledger.heads.conflict? (b.scoped ctx).toList with
      | some conflict => exact .inr (.inl ⟨conflict, rfl, rfl, push_refused hi hc⟩)
      | none => exact .inr (.inr ⟨rfl, rfl, push_accepted hi hc⟩)

/-- An accepted push was neither interrupted nor in conflict. -/
theorem push_ok {ctx : Context} {b : Batch} {m : Memory} {events : List Event}
    (h : (m.push ctx b).1 = .ok events) :
    ctx.interruption? = none ∧ m.ledger.heads.conflict? (b.scoped ctx).toList = none ∧
      events = m.ledger.nextEvents m.now (b.scoped ctx).toList ∧
      (m.push ctx b).2 = m.accept (b.scoped ctx).toList := by
  obtain ⟨i, -, hp⟩ | ⟨conflict, -, -, hp⟩ | ⟨hi, hc, hp⟩ := push_cases ctx b m
  · rw [hp] at h; cases h
  · rw [hp] at h; cases h
  · rw [hp] at h ⊢; cases h; exact ⟨hi, hc, rfl, rfl⟩

/-- A push that fails leaves all that the store holds. -/
theorem push_error {ctx : Context} {b : Batch} {m : Memory} {e : StoreError Empty}
    (h : (m.push ctx b).1 = .error e) :
    (m.push ctx b).2.ledger = m.ledger ∧ ((m.push ctx b).2 = m ∨ (m.push ctx b).2 = m.tick) := by
  obtain ⟨i, -, hp⟩ | ⟨conflict, -, -, hp⟩ | ⟨-, -, hp⟩ := push_cases ctx b m
  · rw [hp]; exact ⟨rfl, .inl rfl⟩
  · rw [hp]; exact ⟨rfl, .inr rfl⟩
  · rw [hp] at h; cases h

/-- A push leaves the ledger as it was or as the commit of its batch does. -/
theorem ledger_push (ctx : Context) (b : Batch) (m : Memory) :
    (m.push ctx b).2.ledger = m.ledger ∨
      (m.push ctx b).2.ledger = (m.ledger.commit ctx b m.clock.next).2 := by
  rw [push]
  split
  · exact .inl rfl
  · exact .inr rfl

/-- A push that reads `t` off the clock. -/
def pushAt (t : Instant) (ctx : Context) (b : Batch) (m : Memory) :
    Except (StoreError Empty) (List Event) × Memory :=
  push ctx b { m with clock := ⟨t, []⟩ }

theorem pushAt_interrupted {ctx : Context} {i : Interruption} (h : ctx.interruption? = some i)
    (t : Instant) (b : Batch) (m : Memory) :
    (m.pushAt t ctx b).1 = .error (.ofInterruption i) ∧
      (m.pushAt t ctx b).2.ledger = m.ledger := by
  rw [pushAt, push_interrupted h]
  exact ⟨rfl, rfl⟩

/-- Without an interruption a push is a commit. -/
theorem pushAt_commit {ctx : Context} (h : ctx.interruption? = none) (t : Instant) (b : Batch)
    (m : Memory) :
    (m.pushAt t ctx b).1 = (m.ledger.commit ctx b t).1.mapError .conflict ∧
      (m.pushAt t ctx b).2.ledger = (m.ledger.commit ctx b t).2 := by
  refine ⟨?_, ?_⟩ <;> simp only [pushAt, push, Context.check, h]

/-! ### Runs -/

/-- What a client does with a store. -/
inductive Action where
  | push (ctx : Context) (b : Batch)
  | read (ctx : Context) (q : Query)

/-- The store after an action. -/
def act (m : Memory) : Action → Memory
  | .push ctx b => (m.push ctx b).2
  | .read ctx q => (m.query ctx q).2

/-- The store after a series of actions. -/
def acts (m : Memory) (actions : List Action) : Memory :=
  actions.foldl act m

/-- A store that began empty, under some clock, and has come here by some run. -/
def Reachable (m : Memory) : Prop :=
  ∃ clock actions, m = ({ clock } : Memory).acts actions

theorem acts_append (m : Memory) (as as' : List Action) :
    m.acts (as ++ as') = (m.acts as).acts as' :=
  List.foldl_append

/-- What is reached from a reachable store is reachable. -/
theorem Reachable.acts {m : Memory} (h : m.Reachable) (actions : List Action) :
    (m.acts actions).Reachable := by
  obtain ⟨clock, before, rfl⟩ := h
  exact ⟨clock, before ++ actions, (acts_append _ _ _).symm⟩

/-- What every commit preserves, every action preserves. -/
theorem act_preserve {P : Ledger → Prop}
    (commit : ∀ l ctx b now, P l → P (l.commit ctx b now).2) {m : Memory} (h : P m.ledger) :
    ∀ a : Action, P (m.act a).ledger
  | .read _ _ => h
  | .push ctx b => by
      show P (m.push ctx b).2.ledger
      -- an interrupted push leaves the ledger; any other commits, be it in conflict or not
      rcases ledger_push ctx b m with hl | hl
      · rw [hl]; exact h
      · rw [hl]; exact commit _ _ _ _ h

/-- What every commit preserves, every run preserves. -/
theorem acts_preserve {P : Ledger → Prop}
    (commit : ∀ l ctx b now, P l → P (l.commit ctx b now).2) (actions : List Action) :
    ∀ {m : Memory}, P m.ledger → P (m.acts actions).ledger := by
  induction actions with
  | nil => intro m h; exact h
  | cons a as ih => intro m h; exact ih (act_preserve commit h a)

/-- No run takes anything back from the log. -/
theorem grows_acts (m : Memory) (actions : List Action) :
    m.ledger.Grows (m.acts actions).ledger :=
  acts_preserve (P := m.ledger.Grows) (fun l ctx b now h => h.trans (l.grows_commit ctx b now))
    actions (Ledger.Grows.refl _)

theorem acts_take_succ (m : Memory) {actions : List Action} {i : Nat} {a : Action}
    (h : actions[i]? = some a) :
    m.acts (actions.take (i + 1)) = (m.acts (actions.take i)).act a := by
  rw [List.take_add_one, h, acts_append]
  rfl

/-- A longer part of a run has at least the log of a shorter part. -/
theorem grows_acts_take (m : Memory) (actions : List Action) {i j : Nat} (h : i ≤ j) :
    (m.acts (actions.take i)).ledger.Grows (m.acts (actions.take j)).ledger := by
  -- the longer part is the shorter one, and some actions after it
  have hsplit : actions.take j = actions.take i ++ (actions.take j).drop i := by
    conv => lhs; rw [← List.take_append_drop i (actions.take j)]
    rw [List.take_take, Nat.min_eq_left h]
  rw [hsplit, acts_append]
  exact grows_acts _ _

/-- **Every reachable store is consistent.** -/
theorem Reachable.consistent {m : Memory} (h : m.Reachable) : m.ledger.Consistent := by
  obtain ⟨clock, actions, rfl⟩ := h
  exact acts_preserve (fun _ ctx b now h => h.commit ctx b now) actions Ledger.consistent_empty

/-- **Log, heads, last position and last date stay in step.**  After any run from an empty store, under
any clock, the ledger is consistent, and none of its numbers exceeds the number of its events: below
`2 ^ 64` events, 64-bit counters hold them all. -/
theorem consistent_acts (clock : Clock) (actions : List Action) :
    (({ clock } : Memory).acts actions).ledger.Consistent ∧
      ∀ e ∈ (({ clock } : Memory).acts actions).ledger.log,
        e.position ≤ (({ clock } : Memory).acts actions).ledger.log.length ∧
        e.sequence ≤ (({ clock } : Memory).acts actions).ledger.log.length := by
  have h := Reachable.consistent ⟨clock, actions, rfl⟩
  exact ⟨h, fun e he => ⟨h.position_le he, h.sequence_le he⟩⟩

end EventSourcing.Memory
