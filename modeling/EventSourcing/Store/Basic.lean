import EventSourcing.Query.Matching
import EventSourcing.Store.Error

/-!
# Stores

A store answers queries and appends batches.  Both are functions of the store's state, and both give
back the state they leave.  The typed reads `filter`, `latestSequence` and `instanceIds` are the same
for every store: they refuse a query for other columns before the store is asked, and an answer in
another shape after it.
-/

namespace EventSourcing

/-- The answer to a query, in the shape of its columns. -/
inductive Output where
  | events (l : List Event)
  /-- The highest sequence, `none` when nothing matched. -/
  | maxSequence (n : Option Nat)
  | instanceIds (l : List String)
deriving DecidableEq

/-- The columns that an answer has the shape of. -/
def Output.columns : Output → Columns
  | events _ => .event
  | maxSequence _ => .maxSequence
  | instanceIds _ => .instanceIds

/-- States of a store whose storage fails with faults of type `ε`. -/
class EventStore (σ : Type) (ε : outParam Type) where
  /-- Answers a query in the shape that its columns ask for. -/
  query : Context → Query → σ → Except (StoreError ε) Output × σ
  /-- Appends a batch as a whole, or nothing of it, and gives the events in the order of the
  commands. -/
  push : Context → Batch → σ → Except (StoreError ε) (List Event) × σ

namespace EventStore

variable {σ ε α : Type} [EventStore σ ε]

/-- Asks a query that has to be for `expected` columns, and takes its answer apart. -/
def read (expected : Columns) (take : Output → Option α) (ctx : Context) (q : Query) (s : σ) :
    Except (StoreError ε) α × σ :=
  match q.expectColumns expected with
  | .error e => (.error (.invalidArgument e), s)
  | .ok () =>
    match query ctx q s with
    | (.error e, s) => (.error e, s)
    | (.ok output, s) =>
      match take output with
      | some a => (.ok a, s)
      | none => (.error (.invalidArgument (.columnsMismatch expected output.columns)), s)

/-- The events that a query for events selects. -/
def filter (ctx : Context) (q : Query) (s : σ) : Except (StoreError ε) (List Event) × σ :=
  read .event (fun | .events l => some l | _ => none) ctx q s

/-- The highest sequence that a query for it selects. -/
def latestSequence (ctx : Context) (q : Query) (s : σ) : Except (StoreError ε) (Option Nat) × σ :=
  read .maxSequence (fun | .maxSequence n => some n | _ => none) ctx q s

/-- The instances that a query for them selects. -/
def instanceIds (ctx : Context) (q : Query) (s : σ) : Except (StoreError ε) (List String) × σ :=
  read .instanceIds (fun | .instanceIds l => some l | _ => none) ctx q s

end EventStore

/-- A store that gives one answer to every query and takes no events. -/
structure FixedAnswer where
  output : Output
deriving DecidableEq

instance : EventStore FixedAnswer Empty where
  query _ _ s := (.ok s.output, s)
  push _ _ s := (.ok [], s)

end EventSourcing
