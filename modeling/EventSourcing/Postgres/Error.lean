import EventSourcing.Store.Error

/-!
# Faults of the PostgreSQL store

What can go wrong between the store and its database: the database itself fails, a number it holds
cannot be a sequence or a position, or a number given to it does not fit its signed 64-bit columns.
-/

namespace EventSourcing

/-- What a database connection reports. -/
inductive DatabaseFault where
  /-- A statement failed. -/
  | statement (text : String)
  /-- A statement that gives one row gave none. -/
  | noRow
  /-- A row does not hold what the statement gives. -/
  | malformedRow
  /-- The database cannot be reached. -/
  | communication (text : String)
deriving DecidableEq, Repr

/-- What a user is told of a fault. -/
def DatabaseFault.message : DatabaseFault → String
  | statement text => "error returned from database: " ++ text
  | noRow => "no rows returned by a query that expected to return at least one row"
  | malformedRow => "error occurred while decoding a column"
  | communication text => "error communicating with database: " ++ text

/-- A number that has to fit a signed column. -/
inductive Quantity where
  | limit
  | offset
  | sequenceGreater
  | positionAfter
  | asOfPosition
  | sequence
deriving DecidableEq, Repr

/-- The name of a number in messages. -/
def Quantity.name : Quantity → String
  | limit => "limit"
  | offset => "offset"
  | sequenceGreater => "sequence_greater"
  | positionAfter => "position_after"
  | asOfPosition => "as_of_position"
  | sequence => "sequence"

/-- Why the database could not serve the store. -/
inductive PostgresError where
  | database (f : DatabaseFault)
  /-- A stored position is negative. -/
  | invalidPosition (n : Int)
  /-- A stored sequence is negative. -/
  | invalidSequence (n : Int)
  /-- A number is too large for the database. -/
  | outOfRange (q : Quantity) (n : Nat)
  /-- The insertion did not return one row per event. -/
  | missingReturnedPosition
deriving DecidableEq, Repr

/-- What a user is told. -/
def PostgresError.message : PostgresError → String
  | database f => "database error: " ++ f.message
  | invalidPosition n => "invalid position value from database: " ++ toString n
  | invalidSequence n => "invalid sequence value from database: " ++ toString n
  | outOfRange q n => q.name ++ " value " ++ toString n ++ " exceeds the database range"
  | missingReturnedPosition => "database did not return an inserted position"

instance : Fault PostgresError where
  message := PostgresError.message
  causes
    | .database f => [f.message]
    | _ => []

end EventSourcing
