/-!
# Columns

What a query asks for: whole events, the highest sequence among them, or the instances they belong
to.  Each choice has a number, and a query that is read as another kind than it asks for is refused.
-/

namespace EventSourcing

/-- The shape of the result that a query asks for. -/
inductive Columns where
  /-- Full events. -/
  | event
  /-- The highest sequence among the matching events. -/
  | maxSequence
  /-- The distinct instances of the matching events. -/
  | instanceIds
deriving DecidableEq, Repr, Inhabited

/-- Why a query can never be answered. -/
inductive QueryError where
  /-- The number stands for no columns. -/
  | columnsOutOfRange (raw : Int)
  /-- The query asks for other columns than those it is read as. -/
  | columnsMismatch (expected actual : Columns)
deriving DecidableEq, Repr

namespace Columns

/-- The name of the columns in texts. -/
def name : Columns → String
  | event => "event"
  | maxSequence => "max sequence"
  | instanceIds => "instance ids"

/-- The number that stands for the columns. -/
def toNat : Columns → Nat
  | event => 1
  | maxSequence => 2
  | instanceIds => 3

/-- The columns that a number stands for. -/
def ofInt (raw : Int) : Except QueryError Columns :=
  match raw with
  | 1 => .ok event
  | 2 => .ok maxSequence
  | 3 => .ok instanceIds
  | _ => .error (.columnsOutOfRange raw)

end Columns

/-- What a user is told. -/
def QueryError.message : QueryError → String
  | .columnsOutOfRange raw => "column selector " ++ toString raw ++ " out of range"
  | .columnsMismatch expected actual =>
    "query selects " ++ actual.name ++ " columns, expected " ++ expected.name

end EventSourcing
