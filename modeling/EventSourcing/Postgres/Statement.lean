import EventSourcing.Command
import EventSourcing.Postgres.Select

/-!
# Statements

Everything that the store says to its database.  A statement is known by what it is for; `fragments`
puts it together, and its text and its bound values follow from them.
-/

namespace EventSourcing

/-- A command with the sequence that its event gets. -/
structure Staged where
  command : Command
  sequence : Nat
deriving DecidableEq

/-- The values that an insertion gives to the row of a staged command, in the order of
`Column.inserted`. -/
def Staged.values (s : Staged) : Row :=
  [.text s.command.aggregate.instanceId, .text s.command.aggregate.type,
    .text s.command.aggregate.id, .integer s.sequence, .text s.command.aggregate.resourceOwner,
    .text s.command.type, .text s.command.editorUser, .json s.command.payload]

/-- How a transaction is opened and closed. -/
inductive Control where
  | start
  | commit
  | rollback
deriving DecidableEq, Repr

namespace Control

/-- A transaction inside another one is a savepoint of it. -/
def text (nested : Bool) : Control → String
  | start => if nested then "SAVEPOINT _sqlx_savepoint_1" else "BEGIN"
  | commit => if nested then "RELEASE SAVEPOINT _sqlx_savepoint_1" else "COMMIT"
  | rollback => if nested then "ROLLBACK TO SAVEPOINT _sqlx_savepoint_1" else "ROLLBACK"

end Control

/-- What has to exist before events can be stored. -/
inductive Definition where
  | events
  | indexByType
  | indexByOwner
deriving DecidableEq, Repr

namespace Definition

/-- The text of a definition, which leaves alone what exists. -/
def text : Definition → String
  | events =>
    "CREATE TABLE IF NOT EXISTS strata_events ( instance_id TEXT NOT NULL, " ++
      "aggregate_type TEXT NOT NULL, aggregate_id TEXT NOT NULL, sequence BIGINT NOT NULL, " ++
      "position BIGSERIAL NOT NULL UNIQUE, resource_owner TEXT NOT NULL, event_type TEXT NOT NULL, " ++
      "editor_user TEXT NOT NULL, creation_date TIMESTAMPTZ NOT NULL DEFAULT clock_timestamp(), " ++
      "data JSONB NOT NULL DEFAULT 'null'::jsonb, " ++
      "PRIMARY KEY (instance_id, aggregate_type, aggregate_id, sequence) )"
  | indexByType =>
    "CREATE INDEX IF NOT EXISTS strata_events_by_type_and_position " ++
      "ON strata_events(aggregate_type, position)"
  | indexByOwner =>
    "CREATE INDEX IF NOT EXISTS strata_events_by_owner ON strata_events(resource_owner, position)"

end Definition

/-- A statement that the store sends. -/
inductive Statement where
  | control (c : Control) (nested : Bool)
  /-- Takes the lock that pushes queue for, until the transaction ends. -/
  | lock
  /-- Reads the head of a stream. -/
  | head (s : Stream)
  /-- Inserts one row per staged command, and gives positions and dates. -/
  | insert (staged : List Staged)
  /-- Lists the transactions in progress. -/
  | openTransactions
  /-- Counts those of some transactions that are still in progress. -/
  | stillOpen (ids : List String)
  /-- Reads the highest position. -/
  | latestPosition
  | select (s : Selection)
  | define (d : Definition)
deriving DecidableEq

namespace Statement

/-- The number of the lock that pushes queue for. -/
def lockKey : Int := 0x737472617461

/-- One parenthesised row of an insertion. -/
def tuple (s : Staged) : List Fragment :=
  [.fixed "("] ++ Fragment.separated ", " (s.values.map fun v => [.bound v]) ++ [.fixed ")"]

/-- The text of a statement, with its values bound. -/
def fragments : Statement → List Fragment
  | control c nested => [.fixed (c.text nested)]
  | lock => [.fixed "SELECT pg_advisory_xact_lock(", .bound (.integer lockKey), .fixed ")"]
  | head s =>
    [.fixed "SELECT COALESCE(MAX(sequence), 0)::BIGINT FROM strata_events WHERE instance_id = ",
      .bound (.text s.instanceId), .fixed " AND aggregate_type = ", .bound (.text s.aggregateType),
      .fixed " AND aggregate_id = ", .bound (.text s.aggregateId)]
  | insert staged =>
    [.fixed ("INSERT INTO strata_events (" ++ Column.list Column.inserted ++ ") VALUES ")] ++
      Fragment.separated ", " (staged.map tuple) ++
      [.fixed (" RETURNING " ++ Column.list Column.generated)]
  | openTransactions =>
    [.fixed "SELECT xip::text FROM pg_snapshot_xip(pg_current_snapshot()) AS xip"]
  | stillOpen ids =>
    [.fixed "SELECT COUNT(*) FROM unnest(", .bound (.texts ids),
      .fixed "::text[]) AS xid WHERE pg_xact_status(xid::xid8) = 'in progress'"]
  | latestPosition =>
    [.fixed "SELECT COALESCE(MAX(position), 0)::BIGINT FROM strata_events"]
  | select s => s.fragments
  | define d => [.fixed d.text]

/-- The text, with placeholders for the bound values. -/
def text (s : Statement) : String :=
  Fragment.text s.fragments

/-- The bound values. -/
def values (s : Statement) : List SqlValue :=
  Fragment.values s.fragments

end Statement

end EventSourcing
