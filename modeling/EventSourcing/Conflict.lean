import EventSourcing.Aggregate

/-!
# Conflicts

Concurrency is enforced when commands are pushed, and nowhere else: a command that expects another
head than its stream has is a conflict, and nothing of its batch is appended.
-/

namespace EventSourcing

/-- A stream that does not stand where the caller of a push expected it. -/
structure Conflict where
  aggregateType : AggregateType
  aggregateId : String
  /-- The expected sequence, `0` for a new stream. -/
  expected : Nat
  /-- The sequence found, `0` for an empty stream. -/
  actual : Nat
deriving DecidableEq, Repr

namespace Conflict

/-- Whether the caller meant to create the aggregate. -/
def expectedNewStream (c : Conflict) : Bool :=
  c.expected = 0

/-- What a user is told: both sequences, and what to do about it.  Expecting sequence 0 means expecting a
new stream. -/
def message (c : Conflict) : String :=
  let subject := "concurrency conflict on " ++ c.aggregateType ++ " `" ++ c.aggregateId ++ "`: "
  if c.expected = 0 then
    subject ++ "expected new stream, found sequence " ++ toString c.actual ++
      " (hint: another process created this aggregate; reload and retry)"
  else
    subject ++ "expected sequence " ++ toString c.expected ++ ", found " ++ toString c.actual ++
      " (hint: stream was modified; reload and retry)"

end Conflict

end EventSourcing
