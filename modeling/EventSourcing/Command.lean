import EventSourcing.Payload
import EventSourcing.Text.Located

/-!
# Commands

A command asks for one event to be appended to a stream.  It may carry the sequence that its producer
saw at the head of the stream: the push is then refused unless the stream still stands there.
Commands are pushed in a `Batch`, which holds at least one.
-/

namespace EventSourcing

/-- The intent to append one event. -/
structure Command where
  aggregate : Aggregate
  type : EventType
  editorUser : String := ""
  payload : Json := .null
  /-- The head of the stream that the push has to meet, `some 0` for an empty stream. -/
  sequence : Option Nat := none
deriving DecidableEq

/-- A payload that could not be written into a command. -/
structure EncodeError where
  eventType : EventType
  cause : Text.Located
deriving DecidableEq, Repr

/-- What a user is told: the type of the command, and why its payload cannot be written. -/
def EncodeError.message (e : EncodeError) : String :=
  "could not encode payload of `" ++ e.eventType ++ "` command: " ++ e.cause.toText

namespace Command

/-- The command with another payload. -/
def withPayload {α : Type} [ToPayload α] (c : Command) (payload : α) : Except EncodeError Command :=
  match ToPayload.toPayload payload with
  | .ok v => .ok { c with payload := v }
  | .error reason => .error ⟨c.type, .ofText reason⟩

/-- The command that records a payload under the payload's own type. -/
def ofPayload {α : Type} [ToPayload α] [Recorded α] (aggregate : Aggregate) (payload : α) :
    Except EncodeError Command :=
  ({ aggregate, type := Recorded.eventType α } : Command).withPayload payload

/-- The command in the name of an editor. -/
def editedBy (c : Command) (editorUser : String) : Command :=
  { c with editorUser }

/-- The command that is only pushed if its stream stands at `sequence`. -/
def expecting (c : Command) (sequence : Nat) : Command :=
  { c with sequence := some sequence }

/-- The stream that the command writes to. -/
def stream (c : Command) : Stream :=
  c.aggregate.stream

end Command

/-- The commands of one push, at least one. -/
structure Batch where
  first : Command
  rest : List Command := []
deriving DecidableEq

namespace Batch

/-- The commands in their order. -/
def toList (b : Batch) : List Command :=
  b.first :: b.rest

/-- The batch of a list, unless the list is empty. -/
def ofList? : List Command → Option Batch
  | [] => none
  | c :: cs => some ⟨c, cs⟩

/-- The batch with each of its commands changed in the same way. -/
def map (f : Command → Command) (b : Batch) : Batch :=
  ⟨f b.first, b.rest.map f⟩

instance : Append Batch where
  append a b := ⟨a.first, a.rest ++ b.toList⟩

@[simp] theorem toList_map (f : Command → Command) (b : Batch) :
    (b.map f).toList = b.toList.map f := rfl

@[simp] theorem toList_append (a b : Batch) : (a ++ b).toList = a.toList ++ b.toList := rfl

/-- No batch is empty. -/
theorem toList_ne_nil (b : Batch) : b.toList ≠ [] := by
  simp [toList]

end Batch

end EventSourcing
