import EventSourcing.Payload
import EventSourcing.Query.Basic

/-!
# Write models

A write model is state rebuilt from events in order to decide on commands.  Events are first buffered
and then folded into the state.  `WriteModel` is the bookkeeping that every model shares: whose events
these are, which of them are still buffered, and how far the model has come.

`foldEvents` is how a model folds its own fields: it stops at the first event that cannot be applied
and keeps what the events before it changed.
-/

namespace EventSourcing

/-- Why a model cannot fold an event. -/
inductive ReduceError where
  /-- The payload cannot be interpreted. -/
  | decode (e : DecodeError)
  /-- The model refuses the event. -/
  | other (text : String)
deriving DecidableEq

namespace ReduceError

/-- What a user is told. -/
def message : ReduceError → String
  | decode e => e.message
  | other text => "reduce failed: " ++ text

/-- The text of the error behind this one. -/
def cause? : ReduceError → Option String
  | decode e => e.cause?.map ShapeError.message
  | other text => some text

end ReduceError

/-- Models that buffer events and fold them. -/
class Reducer (μ : Type) where
  /-- Buffers events for the next fold. -/
  append : List Event → μ → μ
  /-- Folds every buffered event. -/
  reduce : μ → Except ReduceError Unit × μ

/-- Models that know which events they are built from. -/
class QueryReducer (μ : Type) extends Reducer μ where
  query : μ → Query

/-- Models that can tell whether their subject exists. -/
class ExistenceCheck (μ : Type) extends QueryReducer μ where
  subjectExists : μ → Bool

/-- Applies events one after another, up to the first that cannot be applied. -/
def foldEvents {μ : Type} (step : μ → Event → Except ReduceError μ) (m : μ) :
    List Event → Except ReduceError Unit × μ
  | [] => (.ok (), m)
  | e :: es =>
    match step m e with
    | .ok m => foldEvents step m es
    | .error error => (.error error, m)

/-- Where a write model stands in its replay. -/
inductive ReplayState where
  /-- No event has been buffered yet. -/
  | uninitialized
  /-- Events are buffered. -/
  | replaying
  /-- Every event has been folded. -/
  | current
deriving DecidableEq, Repr

/-- The bookkeeping shared by all write models. -/
structure WriteModel where
  aggregateId : String := ""
  resourceOwner : String := ""
  instanceId : String := ""
  /-- Events that have been buffered and not yet folded. -/
  events : List Event := []
  /-- The sequence of the last event folded, `0` before any. -/
  processedSequence : Nat := 0
  changeDate : Option Instant := none
deriving DecidableEq, Inhabited

namespace WriteModel

/-- The model in the hands of an owner. -/
def ownedBy (m : WriteModel) (resourceOwner : String) : WriteModel :=
  { m with resourceOwner }

/-- The model as one of a tenant. -/
def inInstance (m : WriteModel) (instanceId : String) : WriteModel :=
  { m with instanceId }

/-- Where the model stands, judged by its buffer and by whether it has folded anything. -/
def state (m : WriteModel) : ReplayState :=
  if !m.events.isEmpty then .replaying
  else if m.processedSequence = 0 && m.changeDate.isNone then .uninitialized
  else .current

/-- Buffers events for the next reduction. -/
def append (events : List Event) (m : WriteModel) : WriteModel :=
  { m with events := m.events ++ events }

/-- What is already known stays; what is not is taken from an event. -/
def orElse (known found : String) : String :=
  if known = "" then found else known

/-- Empties the buffer: what is not known yet of the identity comes from its first event, sequence and
date from its last. -/
def reduce (m : WriteModel) : WriteModel :=
  match m.events.head?, m.events.getLast? with
  | some first, some last =>
    { aggregateId := orElse m.aggregateId first.aggregate.id
      resourceOwner := orElse m.resourceOwner first.aggregate.resourceOwner
      instanceId := orElse m.instanceId first.aggregate.instanceId
      events := []
      processedSequence := last.sequence
      changeDate := some last.creationDate }
  | _, _ => m

instance : Reducer WriteModel where
  append := append
  reduce m := (.ok (), m.reduce)

end WriteModel

/-- Models that embed the shared bookkeeping. -/
class Bookkept (μ : Type) where
  base : μ → WriteModel

end EventSourcing
