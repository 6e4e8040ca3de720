import EventSourcing.Postgres.Error

/-!
# Reaching a database

A store reaches its database with settings that are given one after the other, each in place of the one
before, and over a network that may be down.  Durations are in milliseconds.
-/

namespace EventSourcing

/-! ### Settings -/

/-- How to connect to a database. -/
structure PostgresSettings where
  url : String
  maxConnections : UInt32 := 10
  acquireTimeout : Nat := 5000
  /-- How often a read that waits for open transactions looks again. -/
  pollInterval : Nat := 10
deriving DecidableEq, Repr

/-- A setting that does not have to be left at its default. -/
inductive PostgresSetting where
  | maxConnections (n : UInt32)
  | acquireTimeout (milliseconds : Nat)
  | pollInterval (milliseconds : Nat)
deriving DecidableEq, Repr

/-- The settings with one of them given anew. -/
def PostgresSettings.set (s : PostgresSettings) : PostgresSetting → PostgresSettings
  | .maxConnections n => { s with maxConnections := n }
  | .acquireTimeout ms => { s with acquireTimeout := ms }
  | .pollInterval ms => { s with pollInterval := ms }

example : ({ url := "u" } : PostgresSettings).set (.maxConnections 2) = { url := "u", maxConnections := 2 } := by
  decide

/-! ### Network -/

/-- Whether connections to the database can be opened. -/
inductive Network where
  | up
  | down (reason : String)
deriving DecidableEq, Repr

/-- Looks for what keeps the database from being reached. -/
def Network.check : Network → Except DatabaseFault Unit
  | up => .ok ()
  | down reason => .error (.communication reason)

end EventSourcing
