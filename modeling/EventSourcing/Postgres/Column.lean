import EventSourcing.Event
import EventSourcing.Postgres.Error

/-!
# The table of events

PostgreSQL keeps one row per event.  A row gives every column a value of the column's type; read back,
it is an event again, unless its sequence or position is negative.
-/

namespace EventSourcing

/-- A value that a statement binds or that a row holds. -/
inductive SqlValue where
  | null
  /-- A signed 64-bit integer. -/
  | integer (n : Int)
  | text (s : String)
  /-- An array of texts. -/
  | texts (l : List String)
  | timestamp (t : Instant)
  | json (v : Json)
deriving DecidableEq

/-- A column of the table of events. -/
inductive Column where
  | instanceId
  | aggregateType
  | aggregateId
  | resourceOwner
  | eventType
  | sequence
  | position
  | creationDate
  | editorUser
  | data
deriving DecidableEq, Repr

namespace Column

/-- The name of a column in statements. -/
def name : Column → String
  | instanceId => "instance_id"
  | aggregateType => "aggregate_type"
  | aggregateId => "aggregate_id"
  | resourceOwner => "resource_owner"
  | eventType => "event_type"
  | sequence => "sequence"
  | position => "position"
  | creationDate => "creation_date"
  | editorUser => "editor_user"
  | data => "data"

/-- The columns of a whole event, in the order in which they are selected. -/
def ofEvent : List Column :=
  [instanceId, aggregateType, aggregateId, resourceOwner, eventType, sequence, position,
    creationDate, editorUser, data]

/-- The columns that an insertion gives values to. -/
def inserted : List Column :=
  [instanceId, aggregateType, aggregateId, sequence, resourceOwner, eventType, editorUser, data]

/-- The columns that the database fills in. -/
def generated : List Column :=
  [position, creationDate]

/-- The names of some columns, separated by commas. -/
def list (columns : List Column) : String :=
  ", ".intercalate (columns.map name)

end Column

/-- A row as the database gives it: values in the order of the columns that were asked for. -/
abbrev Row := List SqlValue

/-- A row of the table of events. -/
abbrev TableRow := Column → SqlValue

/-- The row that holds these values in these columns. -/
def TableRow.ofValues (columns : List Column) (values : Row) : TableRow :=
  fun column => ((columns.zip values).lookup column).getD .null

/-- The row of an event. -/
def Event.row (e : Event) : TableRow
  | .instanceId => .text e.aggregate.instanceId
  | .aggregateType => .text e.aggregate.type
  | .aggregateId => .text e.aggregate.id
  | .resourceOwner => .text e.aggregate.resourceOwner
  | .eventType => .text e.type
  | .sequence => .integer e.sequence
  | .position => .integer e.position
  | .creationDate => .timestamp e.creationDate
  | .editorUser => .text e.editorUser
  | .data => .json e.data

namespace SqlValue

/-! ### Values of a type -/

/-- The integer in a field that has to hold one. -/
def toInteger : SqlValue → Except PostgresError Int
  | integer n => .ok n
  | _ => .error (.database .malformedRow)

/-- The text in a field that has to hold one. -/
def toText : SqlValue → Except PostgresError String
  | text s => .ok s
  | _ => .error (.database .malformedRow)

/-- The instant in a field that has to hold one. -/
def toInstant : SqlValue → Except PostgresError Instant
  | timestamp t => .ok t
  | _ => .error (.database .malformedRow)

/-- The JSON value in a field that has to hold one. -/
def toJson : SqlValue → Except PostgresError Json
  | json v => .ok v
  | _ => .error (.database .malformedRow)

end SqlValue

/-! ### Rows read back -/

/-- A sequence, which is never negative. -/
def sequenceOf (n : Int) : Except PostgresError Nat :=
  if 0 ≤ n then .ok n.toNat else .error (.invalidSequence n)

/-- A position, which is never negative. -/
def positionOf (n : Int) : Except PostgresError Nat :=
  if 0 ≤ n then .ok n.toNat else .error (.invalidPosition n)

/-- The event that a row holds. -/
def Event.ofRow (row : TableRow) : Except PostgresError Event := do
  let instanceId ← (row .instanceId).toText
  let type ← (row .aggregateType).toText
  let id ← (row .aggregateId).toText
  let resourceOwner ← (row .resourceOwner).toText
  let eventType ← (row .eventType).toText
  let sequence ← (row .sequence).toInteger
  let position ← (row .position).toInteger
  let creationDate ← (row .creationDate).toInstant
  let editorUser ← (row .editorUser).toText
  let data ← (row .data).toJson
  let sequence ← sequenceOf sequence
  let position ← positionOf position
  return {
    aggregate := { type, id, instanceId, resourceOwner }
    type := eventType
    sequence, position, creationDate, editorUser, data }

end EventSourcing
