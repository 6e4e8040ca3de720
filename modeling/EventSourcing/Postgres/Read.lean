import EventSourcing.Postgres.Procedure

/-!
# Reading

How the store answers a query.  A read that awaits open transactions first notes which transactions are
in progress, and then looks again until none of them is; transactions that start later are not waited
for.  A time-travel read without a position of its own then fixes the end of the log.  Last comes the
selection itself.
-/

namespace EventSourcing

/-- Where a read stands. -/
inductive ReadPhase where
  /-- Notes the transactions in progress. -/
  | noting
  /-- Waits for these transactions. -/
  | awaiting (ids : List String)
  /-- Fixes the end of the log. -/
  | locating
  | selecting (snapshot : Option Int)
  | ended (result : Except (StoreError PostgresError) Output)

/-- A read of the events of a query, whose bounds have been found to fit. -/
structure ReadCall where
  query : Query
  bounds : Bounds
  phase : ReadPhase

/-- The output that the rows of a selection make. -/
def Output.ofRows (columns : Columns) (rows : List Row) : Except PostgresError Output :=
  match columns with
  | .event =>
    (rows.mapM fun row => Event.ofRow (TableRow.ofValues Column.ofEvent row)).map .events
  | .maxSequence => do
    match ← firstValue rows with
    | .null => return .maxSequence none
    | value => return .maxSequence (some (← sequenceOf (← value.toInteger)))
  | .instanceIds => (textColumn rows).map .instanceIds

namespace ReadCall

/-- The phase that follows the wait. -/
def afterWait (q : Query) (b : Bounds) : ReadPhase :=
  if q.allowTimeTravel && b.asOfPosition.isNone then .locating else .selecting none

/-- A read that is about to begin. -/
def start (q : Query) (b : Bounds) : ReadCall where
  query := q
  bounds := b
  phase := if q.awaitOpenTransactions then .noting else afterWait q b

/-- Goes on with what the rows of a response say, unless the response ends the read. -/
def resume {α : Type} (c : ReadCall) (use : List Row → Except PostgresError α)
    (next : α → ReadPhase) (r : Response) : ReadCall :=
  match r.read use with
  | .error e => { c with phase := .ended (.error e) }
  | .ok a => { c with phase := next a }

/-- Notes the transactions under way and asks until none of them is left, if the query waits for them;
then finds the last position below all that are open, if the query travels in time; and selects. -/
def step (c : ReadCall) : Step ReadCall (Except (StoreError PostgresError) Output) :=
  match c.phase with
  | .noting =>
    .sent .openTransactions (c.resume textColumn fun ids =>
      if ids.isEmpty then afterWait c.query c.bounds else .awaiting ids)
  | .awaiting ids =>
    .sent (.stillOpen ids) (c.resume firstInteger fun count =>
      if count = 0 then afterWait c.query c.bounds else .awaiting ids)
  | .locating => .sent .latestPosition (c.resume firstInteger fun n => .selecting (some n))
  | .selecting snapshot =>
    .sent (.select (c.query.selection c.bounds snapshot))
      (c.resume (Output.ofRows c.query.columns) fun output => .ended (.ok output))
  | .ended result => .ended result

end ReadCall

namespace ReadPhase

/-- How far the phase is from the end. -/
def rank : ReadPhase → Nat
  | noting => 4
  | awaiting _ => 3
  | locating => 2
  | selecting _ => 1
  | ended _ => 0

end ReadPhase

namespace ReadCall

/-- After the wait, a read has two statements left at most. -/
theorem rank_afterWait (q : Query) (b : Bounds) : (afterWait q b).rank < 3 := by
  unfold afterWait; split <;> simp [ReadPhase.rank]

/-- After a response a read has ended, or goes on with what it made of the rows. -/
theorem phase_resume {α : Type} {motive : ReadPhase → Prop} (c : ReadCall)
    {use : List Row → Except PostgresError α} {next : α → ReadPhase} {r : Response}
    (ended : ∀ result, motive (.ended result))
    (goesOn : ∀ rows a, r.answer = .ok rows → use rows = .ok a → motive (next a)) :
    motive (c.resume use next r).phase := by
  unfold resume
  split
  · exact ended _
  · rename_i a h
    obtain ⟨rows, hr, hu⟩ := Response.read_eq_ok h
    exact goesOn rows a hr hu

/-- Only a row gives an integer, so each further poll takes a reply. -/
theorem hasRow_of_firstInteger {r : Response} {rows : List Row} {n : Int}
    (h : r.answer = .ok rows) (hn : firstInteger rows = .ok n) : r.hasRow = true := by
  cases rows with
  | nil => simp [firstInteger, firstValue, bind, Except.bind] at hn
  | cons row rows => simp [Response.hasRow, h]

instance : Procedure ReadCall (Except (StoreError PostgresError) Output) where
  step := step
  rank c := c.phase.rank
  rank_resume := by
    intro c s resume h r
    have wait := rank_afterWait c.query c.bounds
    unfold step at h
    split at h
    · rename_i hp
      cases h
      rw [hp]
      refine .inl (phase_resume (motive := fun p => p.rank < 4) c (fun _ => by simp [ReadPhase.rank]) ?_)
      intro rows ids _ _
      split
      · omega
      · simp [ReadPhase.rank]
    · rename_i ids hp
      cases h
      rw [hp]
      refine phase_resume (motive := fun p => p.rank < 3 ∨ (p.rank ≤ 3 ∧ r.hasRow)) c
        (fun _ => .inl (by simp [ReadPhase.rank])) ?_
      intro rows n ha hn
      refine .inr ⟨?_, hasRow_of_firstInteger ha hn⟩
      split
      · omega
      · simp [ReadPhase.rank]
    · rename_i hp
      cases h
      rw [hp]
      exact .inl (phase_resume (motive := fun p => p.rank < 2) c (fun _ => by simp [ReadPhase.rank])
        (fun _ _ _ _ => by simp [ReadPhase.rank]))
    · rename_i snapshot hp
      cases h
      rw [hp]
      exact .inl (phase_resume (motive := fun p => p.rank < 1) c (fun _ => by simp [ReadPhase.rank])
        (fun _ _ _ _ => by simp [ReadPhase.rank]))
    · cases h

end ReadCall

end EventSourcing
