import EventSourcing.Postgres.Statement
import EventSourcing.Store.Error

/-!
# Procedures

A call on the store, as its database sees it: one statement after another, each sent when the one
before it has been answered, until the call ends.  A `Procedure` is a state of such a call, and
`Procedure.step` what it does next.  What the database answers, and whether the call is interrupted in
the meantime, is not up to it: that is the `Response`.

The only loop without a bound is one in which every answer holds a row.  Each procedure has a rank that
falls with every other response, so that a database with finitely many rows to give lets every call
end.
-/

namespace EventSourcing

/-- The rows that answer a statement, or the fault that the database reports. -/
abbrev Answer := Except DatabaseFault (List Row)

/-- What a call finds when it goes on after a statement. -/
structure Response where
  answer : Answer
  /-- What has interrupted the call by then. -/
  interruption : Option Interruption := none

namespace Response

/-- The rows, unless the call was interrupted or the statement failed.  The interruption comes first. -/
def rows (r : Response) : Except (StoreError PostgresError) (List Row) :=
  match r.interruption with
  | some i => .error (.ofInterruption i)
  | none => r.answer.mapError fun fault => .backend (.database fault)

/-- What a call makes of the rows, if there are any to use. -/
def read {α : Type} (r : Response) (use : List Row → Except PostgresError α) :
    Except (StoreError PostgresError) α := do
  (use (← r.rows)).mapError .backend

/-- Whether the answer holds a row. -/
def hasRow (r : Response) : Bool :=
  match r.answer with
  | .ok (_ :: _) => true
  | _ => false

/-- Rows are taken from the answer. -/
theorem rows_eq_ok {r : Response} {rows : List Row} (h : r.rows = .ok rows) :
    r.answer = .ok rows := by
  unfold Response.rows at h
  split at h
  · simp at h
  · cases ha : r.answer with
    | ok l => rw [ha] at h; cases h; rfl
    | error e => rw [ha] at h; cases h

/-- What a response is read as comes from the rows of its answer. -/
theorem read_eq_ok {α : Type} {r : Response} {use : List Row → Except PostgresError α} {a : α}
    (h : r.read use = .ok a) : ∃ rows, r.answer = .ok rows ∧ use rows = .ok a := by
  unfold Response.read at h
  cases hr : r.rows with
  | error e => rw [hr] at h; cases h
  | ok rows =>
    rw [hr] at h
    replace h : (use rows).mapError StoreError.backend = .ok a := h
    cases hu : use rows with
    | error e => rw [hu] at h; cases h
    | ok b => rw [hu] at h; cases h; exact ⟨rows, rows_eq_ok hr, hu⟩

end Response

/-- What a call does next. -/
inductive Step (π ρ : Type) where
  /-- It ends with a result. -/
  | ended (result : ρ)
  /-- It sends a statement and goes on with the response. -/
  | sent (s : Statement) (resume : Response → π)

/-- States of calls that end with a result of type `ρ`. -/
class Procedure (π : Type) (ρ : outParam Type) where
  step : π → Step π ρ
  /-- How many statements are still to come, a loop over answers with rows left aside. -/
  rank : π → Nat
  rank_resume {p : π} {s : Statement} {resume : Response → π} (h : step p = .sent s resume)
    (r : Response) : rank (resume r) < rank p ∨ (rank (resume r) ≤ rank p ∧ r.hasRow)

/-- The only row that a statement gives is wanted: its first value. -/
def firstValue : List Row → Except PostgresError SqlValue
  | [] => .error (.database .noRow)
  | row :: _ => .ok (row.headD .null)

/-- The integer that a statement gives. -/
def firstInteger (rows : List Row) : Except PostgresError Int := do
  (← firstValue rows).toInteger

/-- The texts that a statement gives, one per row. -/
def textColumn (rows : List Row) : Except PostgresError (List String) :=
  rows.mapM fun row => (row.headD .null).toText

end EventSourcing
