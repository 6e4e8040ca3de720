import EventSourcing.Store.Ledger

/-!
# The store in memory

A store in memory is a ledger with a clock.  A call that has been interrupted does nothing, and does
not read the clock.  A push that is in conflict has read it.
-/

namespace EventSourcing

/-- The readings of a clock: the next one, and those after it.  The last one repeats for ever. -/
structure Clock where
  next : Instant
  later : List Instant := []
deriving DecidableEq, Inhabited

namespace Clock

/-- The clock that shows a list of instants in turn, unless the list is empty. -/
def ofList? : List Instant → Option Clock
  | [] => none
  | t :: ts => some ⟨t, ts⟩

/-- The clock after a reading. -/
def advance (c : Clock) : Clock :=
  match c.later with
  | [] => c
  | t :: ts => ⟨t, ts⟩

end Clock

/-- An event store in memory. -/
structure Memory where
  ledger : Ledger := {}
  clock : Clock
  /-- How often the clock has been read. -/
  ticks : Nat := 0

instance : Inhabited Memory := ⟨{ clock := default }⟩

namespace Memory

/-- The number of events. -/
def size (m : Memory) : Nat :=
  m.ledger.log.length

/-- Whether no event has been stored. -/
def isEmpty (m : Memory) : Bool :=
  m.ledger.log.isEmpty

/-- The position of the last event stored, `0` if there is none. -/
def lastPosition (m : Memory) : Nat :=
  m.ledger.lastPosition

/-- A text that shows how many events there are. -/
def summary (m : Memory) : String :=
  "Store \x7b events: " ++ toString m.size ++ ", .. \x7d"

/-- Reads what a query selects, and leaves the store as it is. -/
def query (ctx : Context) (q : Query) (m : Memory) : Except (StoreError Empty) Output × Memory :=
  (ctx.check.map fun () => m.ledger.select (q.resolve ctx), m)

/-- Appends a batch whole, under the next reading of the clock, or refuses it. -/
def push (ctx : Context) (b : Batch) (m : Memory) :
    Except (StoreError Empty) (List Event) × Memory :=
  match ctx.check with
  | .error e => (.error e, m)
  | .ok () =>
    let (result, ledger) := m.ledger.commit ctx b m.clock.next
    (result.mapError .conflict, { ledger, clock := m.clock.advance, ticks := m.ticks + 1 })

instance : EventStore Memory Empty where
  query := query
  push := push

end Memory

end EventSourcing
