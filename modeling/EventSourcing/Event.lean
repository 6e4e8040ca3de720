import EventSourcing.Aggregate

/-!
# Events

An event is a fact recorded in the stream of one aggregate.  The store assigns its sequence within
the stream, its position in the whole log and its creation date; its payload stays opaque JSON until
a reader asks for it.
-/

namespace EventSourcing

/-- A persisted event. -/
structure Event where
  aggregate : Aggregate
  type : EventType
  /-- Place within the stream, counted from one. -/
  sequence : Nat
  /-- Place in the order of commits over all streams, counted from one. -/
  position : Nat
  creationDate : Instant
  editorUser : String
  /-- The payload, `null` where the event carries none. -/
  data : Json
deriving DecidableEq

namespace Event

/-- The stream that the event belongs to. -/
def stream (e : Event) : Stream :=
  e.aggregate.stream

/-! ### JSON form -/

/-- The fields of an event in their order.  Its payload may be anything. -/
def record : Json.Record where
  name := "Event"
  fields := [.of "aggregate" Aggregate.ofJson, .of "event_type" Json.text,
    .of "sequence" Json.word64, .of "position" Json.word64,
    .of "creation_date" Json.instant, .of "editor_user" Json.text,
    .of "data" (fun v => .ok v)]

/-- The JSON form of an event, with all its fields. -/
def toJson (e : Event) : Json :=
  .obj [("aggregate", e.aggregate.toJson), ("creation_date", .str e.creationDate.render),
    ("data", e.data), ("editor_user", .str e.editorUser), ("event_type", .str e.type),
    ("position", .int e.position), ("sequence", .int e.sequence)]

/-- The event that a JSON value stands for. -/
def ofJson (v : Json) : Except ShapeError Event := do
  let ms ← record.members v
  let aggregate ← Json.required Aggregate.ofJson ms "aggregate"
  let type ← Json.required Json.text ms "event_type"
  let sequence ← Json.required Json.word64 ms "sequence"
  let position ← Json.required Json.word64 ms "position"
  let creationDate ← Json.required Json.instant ms "creation_date"
  let editorUser ← Json.required Json.text ms "editor_user"
  let data ← Json.required (fun v => .ok v) ms "data"
  return { aggregate, type, sequence, position, creationDate, editorUser, data }

end Event

end EventSourcing
