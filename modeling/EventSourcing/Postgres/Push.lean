import EventSourcing.Postgres.Procedure
import EventSourcing.Store.Heads

/-!
# Pushing

How the store appends a batch.  It opens a transaction, takes the lock that all pushes queue for, reads
the head of every stream of the batch, compares them with what the commands expect, inserts all rows at
once, and commits.  Every push holds the lock until its transaction ends, so positions become visible in
the order in which they are drawn.

An interruption is noticed between any two statements up to the commit.  Once the commit is sent it is
awaited: a push that was interrupted has persisted nothing.  A push that ends after its transaction was
opened and before it was committed leaves it open, to be rolled back.
-/

namespace EventSourcing

/-- How a push ended. -/
structure PushEnd where
  result : Except (StoreError PostgresError) (List Event)
  /-- Whether the transaction is still open. -/
  isOpen : Bool := false

/-- Where a push of these commands stands. -/
inductive PushPhase where
  /-- Opens the transaction. -/
  | opening
  /-- Takes the lock. -/
  | locking
  /-- Reads the head of `next`, and then those of `later`. -/
  | reading (heads : Heads) (next : Stream) (later : List Stream)
  | inserting (staged : List Staged)
  | committing (events : List Event)
  | ended (e : PushEnd)

/-- A push of scoped commands. -/
structure PushCall where
  commands : List Command
  /-- Whether the transaction is one inside another. -/
  nested : Bool := false
  phase : PushPhase := .opening

/-! ### Between the statements -/

/-- The streams of some commands, each once, in the order in which they first occur. -/
def streamsOf (commands : List Command) : List Stream :=
  (commands.map Command.stream).eraseDups

/-- The commands with the sequences that follow the heads. -/
def stage (heads : Heads) : List Command → List Staged
  | [] => []
  | c :: cs =>
    let sequence := heads.head c.stream + 1
    ⟨c, sequence⟩ :: stage (heads.set c.stream sequence) cs

/-- The commands staged on the heads, provided they expect these heads and no sequence is too large. -/
def stageChecked (heads : Heads) (commands : List Command) :
    Except (StoreError PostgresError) (List Staged) :=
  match heads.conflict? commands with
  | some conflict => .error (.conflict conflict)
  | none =>
    let staged := stage heads commands
    match staged.findSome? fun s => if s.sequence < Nat.pow 2 63 then none else some s.sequence with
    | some n => .error (.backend (.outOfRange .sequence n))
    | none => .ok staged

/-- A row that an insertion gives back. -/
def generatedOf (row : Row) : Except PostgresError (Int × Instant) := do
  let values := TableRow.ofValues Column.generated row
  let position ← (values .position).toInteger
  let creationDate ← (values .creationDate).toInstant
  return (position, creationDate)

/-- The event that a staged command became. -/
def Staged.event (s : Staged) (position : Nat) (creationDate : Instant) : Event where
  aggregate := s.command.aggregate
  type := s.command.type
  sequence := s.sequence
  position := position
  creationDate := creationDate
  editorUser := s.command.editorUser
  data := s.command.payload

/-- The events that staged commands became.  Positions are drawn in the order of the commands, so the
rows are brought into the order of their positions. -/
def insertedEvents (staged : List Staged) (rows : List Row) : Except PostgresError (List Event) := do
  let generated ← rows.mapM generatedOf
  if generated.length ≠ staged.length then
    .error .missingReturnedPosition
  else
    let sorted := generated.mergeSort fun a b => a.1 ≤ b.1
    (staged.zip sorted).mapM fun (s, position, date) => do
      return s.event (← positionOf position) date

/-! ### The statements -/

namespace PushCall

/-- Gives up with the transaction open. -/
def abandon (c : PushCall) (e : StoreError PostgresError) : PushCall :=
  { c with phase := .ended { result := .error e, isOpen := true } }

/-- Goes to the next phase, unless it cannot be reached. -/
def proceed (c : PushCall) : Except (StoreError PostgresError) PushPhase → PushCall
  | .error e => c.abandon e
  | .ok phase => { c with phase }

/-- The head that a statement gives. -/
def headOf (rows : List Row) : Except PostgresError Nat := do
  sequenceOf (← firstInteger rows)

/-- The phase in which the head of the first of these streams is read, or the rows are inserted where
every head is known. -/
def toRead (c : PushCall) (heads : Heads) :
    List Stream → Except (StoreError PostgresError) PushPhase
  | next :: later => .ok (.reading heads next later)
  | [] => (stageChecked heads c.commands).map .inserting

/-- Opens the transaction, takes the lock, reads the head of each stream, inserts the rows and commits.
The first answer that lets the push down ends it, and so does an interruption until the commit is sent. -/
def step (c : PushCall) : Step PushCall PushEnd :=
  match c.phase with
  | .opening =>
    .sent (.control .start c.nested) fun r =>
      match r.answer with
      | .error fault => { c with phase := .ended { result := .error (.backend (.database fault)) } }
      | .ok _ =>
        match r.interruption with
        | some i => c.abandon (.ofInterruption i)
        | none => { c with phase := .locking }
  | .locking =>
    .sent .lock fun r => c.proceed do
      let _ ← r.rows
      c.toRead (fun _ => none) (streamsOf c.commands)
  | .reading heads next later =>
    .sent (.head next) fun r => c.proceed do
      let head ← r.read headOf
      c.toRead (heads.set next head) later
  | .inserting staged =>
    .sent (.insert staged) fun r => c.proceed do
      return .committing (← r.read (insertedEvents staged))
  | .committing events =>
    .sent (.control .commit c.nested) fun r =>
      match r.answer with
      | .error fault => c.abandon (.backend (.database fault))
      | .ok _ => { c with phase := .ended { result := .ok events } }
  | .ended e => .ended e

/-- How many statements can still follow. -/
def rank (c : PushCall) : Nat :=
  match c.phase with
  | .opening => (streamsOf c.commands).length + 4
  | .locking => (streamsOf c.commands).length + 3
  | .reading _ _ later => later.length + 3
  | .inserting _ => 2
  | .committing _ => 1
  | .ended _ => 0

theorem rank_abandon (c : PushCall) (e : StoreError PostgresError) : (c.abandon e).rank = 0 := rfl

/-- A push that proceeds is as far as its next phase; any other has ended. -/
theorem rank_proceed {c : PushCall} {n : Nat} {next : Except (StoreError PostgresError) PushPhase}
    (hn : 0 < n) (h : ∀ phase, next = .ok phase → ({ c with phase } : PushCall).rank < n) :
    (c.proceed next).rank < n := by
  unfold proceed
  split
  · exact hn
  · exact h _ rfl

/-- A push that has still to read some heads is that far from its end. -/
theorem rank_toRead {c : PushCall} {heads : Heads} {streams : List Stream} {phase : PushPhase}
    (h : c.toRead heads streams = .ok phase) :
    ({ c with phase } : PushCall).rank < streams.length + 3 := by
  cases streams with
  | cons next later => cases h; simp [rank]
  | nil =>
    unfold toRead at h
    cases hs : stageChecked heads c.commands <;> rw [hs] at h <;> cases h
    simp [rank]

instance : Procedure PushCall PushEnd where
  step := step
  rank := rank
  rank_resume := by
    intro c s resume h r
    left
    unfold step at h
    split at h
    · rename_i hp
      cases h
      have hr : c.rank = (streamsOf c.commands).length + 4 := by simp [rank, hp]
      rw [hr]
      dsimp only
      split
      · simp [rank]
      · split
        · simp [rank_abandon]
        · simp [rank]
    · rename_i hp
      cases h
      have hr : c.rank = (streamsOf c.commands).length + 3 := by simp [rank, hp]
      rw [hr]
      refine rank_proceed (by omega) fun phase h => ?_
      cases hrows : r.rows with
      | error e => rw [hrows] at h; cases h
      | ok rows => rw [hrows] at h; exact rank_toRead h
    · rename_i heads next later hp
      cases h
      have hr : c.rank = later.length + 3 := by simp [rank, hp]
      rw [hr]
      refine rank_proceed (by omega) fun phase h => ?_
      cases hrows : r.read headOf with
      | error e => rw [hrows] at h; cases h
      | ok head => rw [hrows] at h; exact rank_toRead h
    · rename_i staged hp
      cases h
      have hr : c.rank = 2 := by simp [rank, hp]
      rw [hr]
      refine rank_proceed (by omega) fun phase h => ?_
      cases hrows : r.read (insertedEvents staged) with
      | error e => rw [hrows] at h; cases h
      | ok events => rw [hrows] at h; cases h; simp [rank]
    · rename_i events hp
      cases h
      have hr : c.rank = 1 := by simp [rank, hp]
      rw [hr]
      dsimp only
      split
      · simp [rank_abandon]
      · simp [rank]
    · cases h

end PushCall

end EventSourcing
