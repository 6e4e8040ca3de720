import EventSourcing.Context
import EventSourcing.Query.Columns
import EventSourcing.Query.DataFilter

/-!
# Queries

A query joins its top-level filters by "and".  Its branches are joined by "or", and the fields of one
branch again by "and".  A filter that is not set does not constrain: an empty string, an empty list, a
zero limit, offset or sequence bound, no branches at all.
-/

namespace EventSourcing

/-- One alternative of a query.  Empty fields do not constrain. -/
structure Branch where
  aggregateTypes : List AggregateType := []
  aggregateIds : List String := []
  eventTypes : List EventType := []
  data : Option DataFilter := none
deriving DecidableEq, Inhabited

/-- A query over the log of events. -/
structure Query where
  columns : Columns := .event
  /-- The greatest number of results, `0` for any number. -/
  limit : Nat := 0
  /-- How many matching results to skip. -/
  offset : Nat := 0
  /-- Whether the results come in descending order. -/
  desc : Bool := false
  resourceOwner : String := ""
  /-- The tenant filter.  Neither `none` nor the empty string constrains. -/
  instanceId : Option String := none
  editorUser : String := ""
  /-- Whether to read a consistent snapshot. -/
  allowTimeTravel : Bool := false
  /-- The last position that a time-travel read sees. -/
  asOfPosition : Option Nat := none
  /-- Only events at later positions. -/
  positionAfter : Option Nat := none
  /-- Whether to wait for the transactions open at the time of the read. -/
  awaitOpenTransactions : Bool := false
  /-- Only events with a greater sequence, unless `0`. -/
  sequenceGreater : Nat := 0
  creationDateAfter : Option Instant := none
  creationDateBefore : Option Instant := none
  branches : List Branch := []
deriving DecidableEq, Inhabited

namespace Query

/-- A text that constrains. -/
def nonEmpty? (s : String) : Option String :=
  if s = "" then none else some s

/-- The owner that events have to have, if the query names one. -/
def resourceOwner? (q : Query) : Option String :=
  nonEmpty? q.resourceOwner

/-- The editor that events have to have, if the query names one. -/
def editorUser? (q : Query) : Option String :=
  nonEmpty? q.editorUser

/-- The query with a missing tenant filter filled in from the context.  A tenant that the query
names, even the empty one, stays. -/
def resolve (q : Query) (ctx : Context) : Query :=
  match q.instanceId, ctx.instanceId.bind nonEmpty? with
  | none, some instanceId => { q with instanceId := some instanceId }
  | _, _ => q

/-- Refuses a query that asks for other columns than `expected`. -/
def expectColumns (q : Query) (expected : Columns) : Except QueryError Unit :=
  if q.columns = expected then .ok () else .error (.columnsMismatch expected q.columns)

/-- The part of a result list that the query's offset and limit let through. -/
def page {α : Type} (q : Query) (l : List α) : List α :=
  if q.limit = 0 then l.drop q.offset else (l.drop q.offset).take q.limit

end Query

end EventSourcing
