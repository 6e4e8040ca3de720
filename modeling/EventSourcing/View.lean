import EventSourcing.Payload

/-!
# Views

A view is a read model kept current by applying events one at a time.  Every event applied moves the
view's watermark, one with an unreadable payload too: it is reported once and never met again.

A batch is checked as a whole before anything of it is applied.  Sequences can only be compared within
one stream, so the check keeps the last sequence per stream; the view's own watermark counts for the
stream of the first event.
-/

namespace EventSourcing

/-- How far a view has come. -/
structure Watermark where
  /-- The sequence of the last event applied. -/
  sequence : Nat := 0
  creationDate : Option Instant := none
  changeDate : Option Instant := none
deriving DecidableEq, Inhabited

/-- How a view reacts to an event type. -/
inductive ViewAction where
  /-- Binds the root and the creation date, then applies the payload. -/
  | create
  /-- Applies the payload. -/
  | change
  /-- Only moves the watermark. -/
  | ignore
deriving DecidableEq, Repr

/-- Why events could not be applied to a view. -/
inductive ViewError where
  | decode (e : DecodeError)
  /-- An event does not come after the last one of its stream. -/
  | outOfOrder (current sequence : Nat)
deriving DecidableEq

namespace ViewError

/-- What a user is told. -/
def message : ViewError → String
  | decode e => "could not apply event to view: " ++ e.message
  | outOfOrder current sequence =>
    "event sequence " ++ toString sequence ++ " is not after view sequence " ++ toString current

end ViewError

/-- Read models that events overwrite with patches of type `π`. -/
class View (ω : Type) (π : outParam Type) where
  watermark : ω → Watermark
  setWatermark : Watermark → ω → ω
  action : ω → EventType → ViewAction
  /-- Takes the identity of the root from a creating event. -/
  bindRoot : Event → ω → ω
  applyPatch : π → ω → ω

namespace View

variable {ω π : Type} [View ω π] [OfPayload π]

/-- Applies the payload of an event, if it can be read. -/
def setData (e : Event) (v : ω) : Except ViewError Unit × ω :=
  match e.decode π with
  | .ok patch => (.ok (), applyPatch patch v)
  | .error error => (.error (.decode error), v)

/-- The watermark moved to an event. -/
def advance (e : Event) (v : ω) : ω :=
  setWatermark { watermark v with sequence := e.sequence, changeDate := some e.creationDate } v

/-- The root and the creation date taken from a creating event. -/
def bind (e : Event) (v : ω) : ω :=
  let v := bindRoot e v
  setWatermark { watermark v with creationDate := some e.creationDate } v

/-- Applies one event. -/
def apply (e : Event) (v : ω) : Except ViewError Unit × ω :=
  let v := advance e v
  match action v e.type with
  | .create => setData e (bind e v)
  | .change => setData e v
  | .ignore => (.ok (), v)

/-- The first event that does not come after the last one of its stream, where `last` gives the last
sequence of each stream. -/
def outOfOrder? (last : Stream → Nat) : List Event → Option ViewError
  | [] => none
  | e :: es =>
    if e.sequence ≤ last e.stream then some (.outOfOrder (last e.stream) e.sequence)
    else outOfOrder? (fun s => if s = e.stream then e.sequence else last s) es

/-- The last sequence of each stream before a batch: the watermark for the stream of the first event,
`0` for all others. -/
def lastSequences (v : ω) (events : List Event) (s : Stream) : Nat :=
  match events with
  | first :: _ => if s = first.stream then (watermark v).sequence else 0
  | [] => 0

/-- Applies events in their order, up to the first that cannot be read. -/
def applyEach (v : ω) : List Event → Except ViewError Unit × ω
  | [] => (.ok (), v)
  | e :: es =>
    match apply e v with
    | (.ok (), v) => applyEach v es
    | (.error error, v) => (.error error, v)

/-- Applies a batch, unless one of its events is out of order. -/
def applyAll (events : List Event) (v : ω) : Except ViewError Unit × ω :=
  match outOfOrder? (lastSequences v events) events with
  | some error => (.error error, v)
  | none => applyEach v events

end View

end EventSourcing
