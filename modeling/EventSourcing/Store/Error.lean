import EventSourcing.Conflict
import EventSourcing.Context
import EventSourcing.Query.Columns

/-!
# Store errors

What a store call can fail with.  The type of faults of the storage behind a store is a parameter;
a store that has none takes `Empty`.

Only interruptions can be retried as they are: an interrupted push has persisted nothing, while after
a conflict the caller has to reload first.
-/

namespace EventSourcing

/-- Faults with a text, and the texts of what lies behind them. -/
class Fault (ε : Type) where
  message : ε → String
  causes : ε → List String := fun _ => []

instance : Fault Empty where
  message e := nomatch e

/-- A fault of which nothing but its text is known. -/
instance : Fault String where
  message := id

/-- Why a store call failed. -/
inductive StoreError (ε : Type) where
  /-- The request can never succeed as stated. -/
  | invalidArgument (e : QueryError)
  /-- Another writer modified a stream that the push expected unchanged. -/
  | conflict (c : Conflict)
  | cancelled
  | deadlineExceeded
  /-- The storage failed. -/
  | backend (e : ε)
deriving DecidableEq

namespace StoreError

variable {ε : Type}

/-- The error that an interruption ends a call with. -/
def ofInterruption : Interruption → StoreError ε
  | .cancelled => cancelled
  | .deadlineExceeded => deadlineExceeded

/-- What a user is told. -/
def message [Fault ε] : StoreError ε → String
  | invalidArgument e => "invalid argument: " ++ e.message
  | conflict c => c.message
  | cancelled => "store operation cancelled"
  | deadlineExceeded => "store operation deadline exceeded"
  | backend e => "store backend error: " ++ Fault.message e

/-- The texts of the errors behind this one, the nearest first.  A conflict stands for itself. -/
def causes [Fault ε] : StoreError ε → List String
  | invalidArgument e => [e.message]
  | backend e => Fault.message e :: Fault.causes e
  | _ => []

/-- Whether the same call may succeed later without the caller changing anything. -/
def isRetryable : StoreError ε → Bool
  | cancelled | deadlineExceeded => true
  | _ => false

end StoreError

namespace Context

variable {ε α : Type}

/-- Fails if the call has been cancelled or is past its deadline. -/
def check (ctx : Context) : Except (StoreError ε) Unit :=
  match ctx.interruption? with
  | some i => .error (.ofInterruption i)
  | none => .ok ()

/-- Runs a computation unless the call is interrupted first.  A computation that never ends is `none`,
and so is a run that nothing ends. -/
def run (ctx : Context) (computation : Option (Except (StoreError ε) α)) :
    Option (Except (StoreError ε) α) :=
  match ctx.interruption? with
  | some i => some (.error (.ofInterruption i))
  | none => computation

end Context

end EventSourcing
