import EventSourcing.Store.Basic
import EventSourcing.WriteModel.Basic

/-!
# Loading and saving write models

How a write model and a store work together.  `load` reads the events that a model asks for and folds
them; `save` pushes commands and folds the events they became, so that the model shows its own writes
without being loaded again.  A store error leaves the model as it was, and nothing is retried.
-/

namespace EventSourcing

/-- Why a model could not be loaded or saved. -/
inductive ModelError (ε : Type) where
  | store (e : StoreError ε)
  | reduce (e : ReduceError)
deriving DecidableEq

namespace Reducer

variable {μ σ ε : Type}

/-- Buffers events and folds the buffer. -/
def replay [Reducer μ] (events : List Event) (m : μ) : Except ReduceError Unit × μ :=
  Reducer.reduce (Reducer.append events m)

/-- Folds the events that the model asks for.  Where there are none, the model stays as it is. -/
def load [EventStore σ ε] [QueryReducer μ] (ctx : Context) (m : μ) (s : σ) :
    Except (ModelError ε) Unit × μ × σ :=
  match EventStore.filter ctx (QueryReducer.query m) s with
  | (.error e, s) => (.error (.store e), m, s)
  | (.ok [], s) => (.ok (), m, s)
  | (.ok events, s) =>
    let (result, m) := replay events m
    (result.mapError .reduce, m, s)

/-- Loads the model and asks it whether its subject exists. -/
def loadExists [EventStore σ ε] [ExistenceCheck μ] (ctx : Context) (m : μ) (s : σ) :
    Except (ModelError ε) Bool × μ × σ :=
  let (result, m, s) := load ctx m s
  (result.map fun () => ExistenceCheck.subjectExists m, m, s)

/-- Pushes a batch and folds the events it became. -/
def save [EventStore σ ε] [Reducer μ] (ctx : Context) (b : Batch) (m : μ) (s : σ) :
    Except (ModelError ε) Unit × μ × σ :=
  match EventStore.push ctx b s with
  | (.error e, s) => (.error (.store e), m, s)
  | (.ok events, s) =>
    let (result, m) := replay events m
    (result.mapError .reduce, m, s)

end Reducer

end EventSourcing
