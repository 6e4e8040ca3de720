import EventSourcing.Postgres.Connection
import EventSourcing.Postgres.Migration
import EventSourcing.Postgres.Push
import EventSourcing.Postgres.Read
import EventSourcing.Postgres.Settings

/-!
# The store in PostgreSQL

Two stores over a connection.  `PooledStore` takes a connection for each call, and each push is a
transaction of its own.  `TransactionStore` works inside a transaction that its caller has opened, and
each push is a savepoint there, so that a rejected push leaves the caller's transaction usable.

Before the database is asked anything, a call looks for an interruption, and a read makes sure that its
numbers fit.
-/

namespace EventSourcing

/-- What a query is read as: the query with its tenant resolved, and its bounds. -/
def Query.admitted (q : Query) (ctx : Context) : Except (StoreError PostgresError) (Query × Bounds) := do
  ctx.check
  let q := q.resolve ctx
  let bounds ← (Bounds.ofQuery q).mapError .backend
  return (q, bounds)

/-! ### Pooled -/

/-- A store that takes connections from a pool of one. -/
structure PooledStore where
  network : Network := .up
  connection : Connection := {}
deriving DecidableEq

namespace PooledStore

/-- A store whose pool has opened its connection. -/
def connect (network : Network) : Except PostgresError PooledStore :=
  (network.check.mapError .database).map fun () => { network }

/-- A store whose pool opens its connection when it is first needed. -/
def connectLazy (network : Network) : PooledStore where
  network := network

/-- Takes a connection. -/
def acquire (p : PooledStore) : Except (StoreError PostgresError) Unit :=
  p.network.check.mapError fun fault => .backend (.database fault)

/-- Reads what a query selects, on a connection that is given back.  A call that is interrupted or does
not fit asks nothing. -/
def query (ctx : Context) (q : Query) (p : PooledStore) :
    Except (StoreError PostgresError) Output × PooledStore :=
  match (do let admitted ← q.admitted ctx; p.acquire; return admitted) with
  | .error e => (.error e, p)
  | .ok (q, bounds) =>
    let (result, connection) := p.connection.run ctx (ReadCall.start q bounds)
    (result, { p with connection })

/-- Pushes a batch in a transaction of its own.  A transaction left open is rolled back at once. -/
def push (ctx : Context) (b : Batch) (p : PooledStore) :
    Except (StoreError PostgresError) (List Event) × PooledStore :=
  match (do ctx.check; p.acquire) with
  | .error e => (.error e, p)
  | .ok () =>
    let (pushed, connection) := p.connection.run ctx ({ commands := (b.scoped ctx).toList } : PushCall)
    let connection :=
      if pushed.isOpen then (connection.receive (.control .rollback false)).2 else connection
    (pushed.result, { p with connection })

instance : EventStore PooledStore PostgresError where
  query := query
  push := push

/-- Makes sure that the table of events exists. -/
def migrate (p : PooledStore) : Except DatabaseFault Unit × PooledStore :=
  match p.network.check with
  | .error fault => (.error fault, p)
  | .ok () =>
    let (result, connection) := p.connection.run {} Migration.start
    (result, { p with connection })

end PooledStore

/-! ### In a transaction of the caller -/

/-- A store inside a transaction that its caller has opened. -/
structure TransactionStore where
  connection : Connection := {}
deriving DecidableEq

namespace TransactionStore

/-- Opens the transaction. -/
def begin (c : Connection) : TransactionStore where
  connection := (c.receive (.control .start false)).2

/-- Opens the transaction on a connection of a pool. -/
def ofPool (p : PooledStore) : Except PostgresError TransactionStore :=
  (p.network.check.mapError .database).map fun () => begin p.connection

/-- Ends the transaction. -/
def finish (t : TransactionStore) (commit : Bool) : Connection :=
  (t.connection.settle.receive (.control (if commit then .commit else .rollback) false)).2

/-- Reads what a query selects, inside the transaction. -/
def query (ctx : Context) (q : Query) (t : TransactionStore) :
    Except (StoreError PostgresError) Output × TransactionStore :=
  match q.admitted ctx with
  | .error e => (.error e, t)
  | .ok (q, bounds) =>
    let (result, connection) := t.connection.run ctx (ReadCall.start q bounds)
    (result, { connection })

/-- Pushes a batch in a savepoint.  A savepoint left open is rolled back before the next statement. -/
def push (ctx : Context) (b : Batch) (t : TransactionStore) :
    Except (StoreError PostgresError) (List Event) × TransactionStore :=
  match (ctx.check : Except (StoreError PostgresError) Unit) with
  | .error e => (.error e, t)
  | .ok () =>
    let (pushed, connection) :=
      t.connection.run ctx ({ commands := (b.scoped ctx).toList, nested := true } : PushCall)
    let owed := if pushed.isOpen then some (.control .rollback true) else none
    (pushed.result, { connection := { connection with owed } })

instance : EventStore TransactionStore PostgresError where
  query := query
  push := push

end TransactionStore

end EventSourcing
