import EventSourcing.Json.Record

/-!
# Aggregates and their streams

An aggregate is named by its type and id within an instance, the tenant it lives in, and belongs to
an owner.  Its events form one stream.  The owner is no part of the stream's identity.
-/

namespace EventSourcing

/-- The name of a kind of aggregate. -/
abbrev AggregateType := String

/-- The name of a kind of state transition. -/
abbrev EventType := String

/-- The identity of one stream of events. -/
structure Stream where
  instanceId : String
  aggregateType : AggregateType
  aggregateId : String
deriving DecidableEq, Repr

/-- Identity and tenancy of the stream that an event or a command belongs to. -/
structure Aggregate where
  type : AggregateType
  id : String
  /-- The tenant.  Empty on commands that leave it to the caller's context. -/
  instanceId : String := ""
  /-- The organisation that owns the aggregate. -/
  resourceOwner : String := ""
deriving DecidableEq, Repr, Inhabited

namespace Aggregate

/-- The aggregate as one of a tenant. -/
def inInstance (a : Aggregate) (instanceId : String) : Aggregate :=
  { a with instanceId }

/-- The aggregate in the hands of an owner. -/
def ownedBy (a : Aggregate) (resourceOwner : String) : Aggregate :=
  { a with resourceOwner }

/-- The stream that the aggregate's events go to. -/
def stream (a : Aggregate) : Stream where
  instanceId := a.instanceId
  aggregateType := a.type
  aggregateId := a.id

/-! ### JSON form -/

/-- The fields of an aggregate, all of them texts. -/
def record : Json.Record where
  name := "Aggregate"
  fields := [.of "aggregate_type" Json.text, .of "id" Json.text,
    .of "instance_id" Json.text, .of "resource_owner" Json.text]

/-- The JSON form of an aggregate, with all its fields. -/
def toJson (a : Aggregate) : Json :=
  .obj [("aggregate_type", .str a.type), ("id", .str a.id), ("instance_id", .str a.instanceId),
    ("resource_owner", .str a.resourceOwner)]

/-- The aggregate that a JSON value stands for. -/
def ofJson (v : Json) : Except ShapeError Aggregate := do
  let ms ← record.members v
  let type ← Json.required Json.text ms "aggregate_type"
  let id ← Json.required Json.text ms "id"
  let instanceId ← Json.required Json.text ms "instance_id"
  let resourceOwner ← Json.required Json.text ms "resource_owner"
  return { type, id, instanceId, resourceOwner }

end Aggregate

end EventSourcing
