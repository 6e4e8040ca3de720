import EventSourcing.Store.Basic
import EventSourcing.Store.Heads

/-!
# Ledgers

A ledger is the whole state of an event log: the events in the order of their positions, the head of
every stream that has events, the last position and the last creation date.  It only grows.

`Ledger.commit` scopes a batch to the caller's tenant, compares every expected sequence with the heads
before the batch, and then appends one event per command.  All events of a batch have one creation
date, which never lies before that of an earlier batch.
-/

namespace EventSourcing

/-- An append-only log of events with what is known about its end. -/
structure Ledger where
  /-- Every event, in the order of positions. -/
  log : List Event := []
  heads : Heads := fun _ => none
  lastPosition : Nat := 0
  lastDate : Option Instant := none

instance : Inhabited Ledger := ⟨{}⟩

namespace Ledger

/-- The answer to a query.  Order, offset and limit apply to events and to instances; the highest
sequence is taken over all that is selected. -/
def select (l : Ledger) (q : Query) : Output :=
  let selected := l.log.filter q.selects
  let ordered {α : Type} (xs : List α) := if q.desc then xs.reverse else xs
  match q.columns with
  | .event => .events (q.page (ordered selected))
  | .maxSequence => .maxSequence (selected.map Event.sequence).max?
  | .instanceIds =>
    .instanceIds (q.page (ordered (sortedDistinct (selected.map (·.aggregate.instanceId)))))

/-- The event that a command becomes at the end of the log. -/
def nextEvent (l : Ledger) (date : Instant) (c : Command) : Event where
  aggregate := c.aggregate
  type := c.type
  sequence := l.heads.head c.stream + 1
  position := l.lastPosition + 1
  creationDate := date
  editorUser := c.editorUser
  data := c.payload

/-- The ledger with the event of a command at its end. -/
def append (l : Ledger) (date : Instant) (c : Command) : Ledger where
  log := l.log ++ [l.nextEvent date c]
  heads := l.heads.set c.stream (l.heads.head c.stream + 1)
  lastPosition := l.lastPosition + 1
  lastDate := some date

/-- The events of a series of commands. -/
def nextEvents (l : Ledger) (date : Instant) : List Command → List Event
  | [] => []
  | c :: cs => l.nextEvent date c :: (l.append date c).nextEvents date cs

/-- The ledger with the events of a series of commands at its end. -/
def appendAll (l : Ledger) (date : Instant) (commands : List Command) : Ledger :=
  commands.foldl (fun l c => l.append date c) l

/-- The creation date of a batch pushed at `now`. -/
def dateAt (l : Ledger) (now : Instant) : Instant :=
  match l.lastDate with
  | some last => max last now
  | none => now

/-- Appends a batch, unless one of its commands is in conflict. -/
def commit (l : Ledger) (ctx : Context) (b : Batch) (now : Instant) :
    Except Conflict (List Event) × Ledger :=
  let commands := (b.scoped ctx).toList
  match l.heads.conflict? commands with
  | some conflict => (.error conflict, l)
  | none =>
    let date := l.dateAt now
    (.ok (l.nextEvents date commands), l.appendAll date commands)

end Ledger

end EventSourcing
