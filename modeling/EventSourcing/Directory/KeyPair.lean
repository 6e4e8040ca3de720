import EventSourcing.WriteModel.Basic

/-!
# Key pairs

The payload that records a key pair, and the write model that knows its usage and algorithm.
-/

namespace EventSourcing

/-- A key pair has been added. -/
structure KeyPairAdded where
  usage : UInt8
  algorithm : String
deriving DecidableEq, Repr

namespace KeyPairAdded

/-- The fields of an added key pair, in their order. -/
def record : Json.Record where
  name := "KeyPairAdded"
  fields := [.of "usage" Json.word8, .of "algorithm" Json.text]

/-- The added key pair that a payload stands for. -/
def ofJson (v : Json) : Except ShapeError KeyPairAdded := do
  let ms ← record.members v
  let usage ← Json.required Json.word8 ms "usage"
  let algorithm ← Json.required Json.text ms "algorithm"
  return ⟨usage.toUInt8, algorithm⟩

/-- The payload of an added key pair. -/
def toJson (p : KeyPairAdded) : Json :=
  .obj [("algorithm", .str p.algorithm), ("usage", .int p.usage.toNat)]

instance : ToPayload KeyPairAdded := ⟨fun p => .ok p.toJson⟩

instance : OfPayload KeyPairAdded := ⟨ofJson⟩

instance : Recorded KeyPairAdded := ⟨"key_pair.added"⟩

end KeyPairAdded

/-- The write model of one key pair. -/
structure KeyPair where
  base : WriteModel := {}
  usage : Option UInt8 := none
  algorithm : String := ""
deriving DecidableEq, Inhabited

namespace KeyPair

/-- The events that add the key pair. -/
def query (k : KeyPair) : Query where
  branches := [{
    aggregateTypes := ["key_pair"]
    aggregateIds := [k.base.aggregateId]
    eventTypes := ["key_pair.added"] }]

/-- Applies one event; events of other types change nothing. -/
def applyEvent (k : KeyPair) (e : Event) : Except ReduceError KeyPair :=
  match e.type with
  | "key_pair.added" =>
    (e.decode KeyPairAdded).map (fun p => { k with usage := some p.usage, algorithm := p.algorithm })
      |>.mapError .decode
  | _ => .ok k

/-- Folds the buffer into the key pair's own fields, and only then closes the books. -/
def reduce (k : KeyPair) : Except ReduceError Unit × KeyPair :=
  match foldEvents applyEvent k k.base.events with
  | (.ok (), k) => (.ok (), { k with base := k.base.reduce })
  | failed => failed

instance : ExistenceCheck KeyPair where
  append events k := { k with base := k.base.append events }
  reduce := reduce
  query := query
  subjectExists k := k.usage.isSome

instance : Bookkept KeyPair := ⟨base⟩

end KeyPair

end EventSourcing
