import EventSourcing.Event

/-!
# Typed payloads

A payload type can be written to JSON, read from it, and may name the event type that it is recorded
under.  `Event.decode` reads the payload of any event; `Event.decodeAs` first makes sure that the
event was recorded under the payload's own type.
-/

namespace EventSourcing

/-- Payloads that can be written; writing may fail for a stated reason. -/
class ToPayload (α : Type) where
  toPayload : α → Except String Json

/-- Payloads that can be read. -/
class OfPayload (α : Type) where
  ofPayload : Json → Except ShapeError α

/-- Payloads recorded under an event type of their own. -/
class Recorded (α : Type) where
  eventType : EventType

instance : ToPayload Json where
  toPayload v := .ok v

instance : OfPayload Json where
  ofPayload v := .ok v

/-- A payload that cannot be written. -/
structure Unwritable where
  reason : String
deriving DecidableEq, Repr

instance : ToPayload Unwritable where
  toPayload p := .error p.reason

instance : Recorded Unwritable where
  eventType := "org.broken"

/-- Why the payload of an event cannot be interpreted. -/
inductive DecodeError where
  /-- The event was recorded under another type. -/
  | unexpectedType (expected actual : EventType)
  /-- The payload does not have the expected shape. -/
  | payload (eventType : EventType) (sequence : Nat) (cause : ShapeError)
deriving DecidableEq

namespace DecodeError

/-- What a user is told: the two types, or the event whose payload does not read. -/
def message : DecodeError → String
  | unexpectedType expected actual =>
    "unexpected event type `" ++ actual ++ "`, expected `" ++ expected ++ "`"
  | payload eventType sequence cause =>
    "could not decode payload of `" ++ eventType ++ "` event at sequence " ++ toString sequence ++
      ": " ++ cause.message

/-- The fault of the payload itself. -/
def cause? : DecodeError → Option ShapeError
  | unexpectedType .. => none
  | payload _ _ cause => some cause

end DecodeError

namespace Event

/-- Reads the payload. -/
def decode (α : Type) [OfPayload α] (e : Event) : Except DecodeError α :=
  (OfPayload.ofPayload e.data).mapError (.payload e.type e.sequence)

/-- Reads the payload of an event recorded under the payload's own type. -/
def decodeAs (α : Type) [OfPayload α] [Recorded α] (e : Event) : Except DecodeError α :=
  if e.type = Recorded.eventType α then e.decode α
  else .error (.unexpectedType (Recorded.eventType α) e.type)

end Event

end EventSourcing
