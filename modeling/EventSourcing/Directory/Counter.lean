import EventSourcing.View

/-!
# Counters

A view of one counter.
-/

namespace EventSourcing

/-- The count that an event sets. -/
structure CounterPatch where
  count : Nat
deriving DecidableEq, Repr

namespace CounterPatch

/-- The one field of a counter patch, which has to be there. -/
def record : Json.Record where
  name := "CounterPatch"
  fields := [.of "count" Json.word64]

/-- The patch that a payload stands for. -/
def ofJson (v : Json) : Except ShapeError CounterPatch := do
  let ms ← record.members v
  return ⟨← Json.required Json.word64 ms "count"⟩

/-- The payload of a patch. -/
def toJson (p : CounterPatch) : Json :=
  .obj [("count", .int p.count)]

instance : OfPayload CounterPatch := ⟨ofJson⟩

end CounterPatch

/-- A view of one counter. -/
structure CounterView where
  watermark : Watermark := {}
  /-- The id of the aggregate that the counter belongs to. -/
  root : String := ""
  count : Nat := 0
deriving DecidableEq, Inhabited

namespace CounterView

/-- How a counter reacts: it is created once and set any number of times. -/
def action : EventType → ViewAction
  | "counter.added" => .create
  | "counter.set" => .change
  | _ => .ignore

instance : View CounterView CounterPatch where
  watermark := watermark
  setWatermark w v := { v with watermark := w }
  action _ := action
  bindRoot e v := { v with root := e.aggregate.id }
  applyPatch p v := { v with count := p.count }

end CounterView

end EventSourcing
