import EventSourcing.WriteModel.Basic

/-!
# Journals

A write model for any query: it notes the events it has seen, and refuses those of type `fail`.
-/

namespace EventSourcing

/-- A write model that notes what it has seen. -/
structure Journal where
  base : WriteModel := {}
  /-- The events that the journal is built from. -/
  source : Query := {}
  /-- One line for every event folded. -/
  seen : List String := []
deriving DecidableEq, Inhabited

namespace Journal

/-- The reason that a refused event states. -/
def refusal (e : Event) : String :=
  match e.data with
  | .str s => s
  | _ => "refused"

/-- Writes an event down by its type and sequence.  An event that tells to fail is refused in its own
words. -/
def applyEvent (j : Journal) (e : Event) : Except ReduceError Journal :=
  if e.type = "fail" then .error (.other (refusal e))
  else .ok { j with seen := j.seen ++ [e.type ++ "@" ++ toString e.sequence] }

/-- Folds the buffer into the journal, and only then closes the books. -/
def reduce (j : Journal) : Except ReduceError Unit × Journal :=
  match foldEvents applyEvent j j.base.events with
  | (.ok (), j) => (.ok (), { j with base := j.base.reduce })
  | failed => failed

instance : ExistenceCheck Journal where
  append events j := { j with base := j.base.append events }
  reduce := reduce
  query j := j.source
  subjectExists j := 0 < j.base.processedSequence

instance : Bookkept Journal := ⟨base⟩

end Journal

end EventSourcing
