import EventSourcing.Command
import EventSourcing.Query.Basic

/-!
# Matching

One rule decides what a query selects, for commands that are about to be pushed and for events in the
log alike.  `Query.accepts` looks at what both have, a `Candidate`; `Query.selects` adds the filters on
editor, creation date and position, which only an event has.

A candidate without an instance passes every tenant filter, and the sequence bound applies only to
candidates that know their sequence.
-/

namespace EventSourcing

/-- What a query is evaluated against. -/
structure Candidate where
  aggregate : Aggregate
  type : EventType
  /-- The sequence, as far as it is known. -/
  sequence : Option Nat
  payload : Json
deriving DecidableEq

/-- A command as a candidate.  It need not have a sequence. -/
def Command.candidate (c : Command) : Candidate where
  aggregate := c.aggregate
  type := c.type
  sequence := c.sequence
  payload := c.payload

/-- An event as a candidate. -/
def Event.candidate (e : Event) : Candidate where
  aggregate := e.aggregate
  type := e.type
  sequence := some e.sequence
  payload := e.data

/-- Whether a value is listed; an empty list does not constrain. -/
def listed (l : List String) (s : String) : Bool :=
  l.isEmpty || l.contains s

/-- Whether every field of the branch that constrains accepts the candidate. -/
def Branch.accepts (b : Branch) (c : Candidate) : Bool :=
  listed b.aggregateTypes c.aggregate.type && listed b.aggregateIds c.aggregate.id &&
    listed b.eventTypes c.type && b.data.all (·.accepts c.payload)

namespace Query

/-- Whether a candidate has the owner that the query names, if it names one. -/
def acceptsOwner (q : Query) (c : Candidate) : Bool :=
  q.resourceOwner?.all (c.aggregate.resourceOwner = ·)

/-- Events without a tenant are visible to every tenant. -/
def acceptsInstance (q : Query) (c : Candidate) : Bool :=
  (q.instanceId.bind nonEmpty?).all fun instanceId =>
    c.aggregate.instanceId = "" || c.aggregate.instanceId = instanceId

/-- Whether a candidate comes after the sequence that the query gives.  Without a sequence of its own it
does. -/
def acceptsSequence (q : Query) (c : Candidate) : Bool :=
  q.sequenceGreater = 0 || c.sequence.all (q.sequenceGreater < ·)

/-- Whether one of the branches accepts a candidate, or there are none. -/
def acceptsBranch (q : Query) (c : Candidate) : Bool :=
  q.branches.isEmpty || q.branches.any (·.accepts c)

/-- Whether a candidate passes the top-level filters and at least one branch. -/
def accepts (q : Query) (c : Candidate) : Bool :=
  q.acceptsOwner c && q.acceptsInstance c && q.acceptsSequence c && q.acceptsBranch c

/-- Whether an event passes the filters that only events have. -/
def acceptsEnvelope (q : Query) (e : Event) : Bool :=
  q.editorUser?.all (e.editorUser = ·) && q.creationDateAfter.all (· < e.creationDate) &&
    q.creationDateBefore.all (e.creationDate < ·) && q.positionAfter.all (· < e.position) &&
    q.asOfPosition.all (e.position ≤ ·)

/-- Whether an event of the log is selected. -/
def selects (q : Query) (e : Event) : Bool :=
  q.acceptsEnvelope e && q.accepts e.candidate

/-- The members of a list that the query accepts, in their order, cut to offset and limit. -/
def pick {α : Type} (q : Query) (candidate : α → Candidate) (l : List α) : List α :=
  q.page (l.filter fun a => q.accepts (candidate a))

end Query

end EventSourcing
