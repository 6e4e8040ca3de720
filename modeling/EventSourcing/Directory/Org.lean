import EventSourcing.WriteModel.Loading

/-!
# Organisations

The payloads of organisation events and the write model that decides on adding and renaming an
organisation.
-/

namespace EventSourcing

/-- An organisation has been added. -/
structure OrgAdded where
  name : String
deriving DecidableEq, Repr

/-- An organisation has been renamed. -/
structure OrgChanged where
  name : String
deriving DecidableEq, Repr

namespace OrgAdded

/-- The one field of an added organisation. -/
def record : Json.Record where
  name := "OrgAdded"
  fields := [.of "name" Json.text]

/-- The added organisation that a payload stands for. -/
def ofJson (v : Json) : Except ShapeError OrgAdded := do
  let ms ← record.members v
  return ⟨← Json.required Json.text ms "name"⟩

/-- The payload of an added organisation. -/
def toJson (p : OrgAdded) : Json :=
  .obj [("name", .str p.name)]

instance : ToPayload OrgAdded := ⟨fun p => .ok p.toJson⟩

instance : OfPayload OrgAdded := ⟨ofJson⟩

instance : Recorded OrgAdded := ⟨"org.added"⟩

end OrgAdded

namespace OrgChanged

/-- The one field of a changed organisation. -/
def record : Json.Record where
  name := "OrgChanged"
  fields := [.of "name" Json.text]

/-- The changed organisation that a payload stands for. -/
def ofJson (v : Json) : Except ShapeError OrgChanged := do
  let ms ← record.members v
  return ⟨← Json.required Json.text ms "name"⟩

/-- The payload of a changed organisation. -/
def toJson (p : OrgChanged) : Json :=
  .obj [("name", .str p.name)]

instance : ToPayload OrgChanged := ⟨fun p => .ok p.toJson⟩

instance : OfPayload OrgChanged := ⟨ofJson⟩

instance : Recorded OrgChanged := ⟨"org.changed"⟩

end OrgChanged

/-- What is known of an organisation's life. -/
inductive OrgState where
  | unspecified
  | active
  | removed
deriving DecidableEq, Repr, Inhabited

/-- The write model of one organisation. -/
structure Org where
  base : WriteModel := {}
  name : String := ""
  state : OrgState := .unspecified
deriving DecidableEq, Inhabited

/-- How an attempt to change an organisation ended. -/
inductive OrgOutcome where
  | done
  | alreadyExists
  | notFound
  /-- The change could have been made, but the request names no organisation. -/
  | nameless
deriving DecidableEq, Repr

namespace Org

/-- The events of the organisation, within its own ownership. -/
def query (o : Org) : Query where
  resourceOwner := o.base.aggregateId
  branches := [{
    aggregateTypes := ["org"]
    aggregateIds := [o.base.aggregateId]
    eventTypes := ["org.added", "org.changed", "org.removed"] }]

/-- Applies one event; events of other types change nothing. -/
def applyEvent (o : Org) (e : Event) : Except ReduceError Org :=
  match e.type with
  | "org.added" => (e.decode OrgAdded).map (fun p => { o with name := p.name, state := .active })
      |>.mapError .decode
  | "org.changed" => (e.decode OrgChanged).map (fun p => { o with name := p.name })
      |>.mapError .decode
  | "org.removed" => .ok { o with state := .removed }
  | _ => .ok o

/-- Folds the buffer into the organisation's own fields, and only then closes the books. -/
def reduce (o : Org) : Except ReduceError Unit × Org :=
  match foldEvents applyEvent o o.base.events with
  | (.ok (), o) => (.ok (), { o with base := o.base.reduce })
  | failed => failed

/-- Whether the organisation exists. -/
def isActive (o : Org) : Bool :=
  o.state = .active

instance : ExistenceCheck Org where
  append events o := { o with base := o.base.append events }
  reduce := reduce
  query := query
  subjectExists := isActive

instance : Bookkept Org := ⟨base⟩

end Org

/-! ### Adding and renaming

Both work for every write model whose aggregate is an organisation. -/

namespace Organisation

variable {μ σ ε : Type} [ExistenceCheck μ] [Bookkept μ] [EventStore σ ε]

/-- The organisation of a model as an aggregate: it owns itself. -/
def aggregate (m : μ) : Aggregate where
  type := "org"
  id := (Bookkept.base m).aggregateId
  resourceOwner := (Bookkept.base m).aggregateId

/-- Records a payload of the organisation, provided nobody else has written since the model was
loaded.  A payload that cannot be written counts as refused by the model. -/
def record {α : Type} [ToPayload α] [Recorded α] (payload : α) (ctx : Context) (m : μ) (s : σ) :
    Except (ModelError ε) OrgOutcome × μ × σ :=
  match Command.ofPayload (aggregate m) payload with
  | .error e => (.error (.reduce (.other e.message)), m, s)
  | .ok c =>
    let batch : Batch := ⟨c.expecting (Bookkept.base m).processedSequence, []⟩
    let (result, m, s) := Reducer.save ctx batch m s
    (result.map fun () => .done, m, s)

/-- Records the payload that a name makes, where there is a name. -/
def recordNamed {α : Type} [ToPayload α] [Recorded α] (payload : String → α) (name : Option String)
    (ctx : Context) (m : μ) (s : σ) : Except (ModelError ε) OrgOutcome × μ × σ :=
  match name with
  | some name => record (payload name) ctx m s
  | none => (.ok .nameless, m, s)

/-- Adds the organisation unless it turns out to exist.  The name is looked at last: a request without
one still loads the model, and still learns that the organisation exists. -/
def add (name : Option String) (ctx : Context) (m : μ) (s : σ) :
    Except (ModelError ε) OrgOutcome × μ × σ :=
  match Reducer.loadExists ctx m s with
  | (.error e, m, s) => (.error e, m, s)
  | (.ok true, m, s) => (.ok .alreadyExists, m, s)
  | (.ok false, m, s) => recordNamed OrgAdded.mk name ctx m s

/-- Renames the organisation, provided it exists as far as the model knows. -/
def rename (name : Option String) (ctx : Context) (m : μ) (s : σ) :
    Except (ModelError ε) OrgOutcome × μ × σ :=
  if ExistenceCheck.subjectExists m then recordNamed OrgChanged.mk name ctx m s
  else (.ok .notFound, m, s)

end Organisation

end EventSourcing
