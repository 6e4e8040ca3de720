import EventSourcing.Postgres.Procedure

/-!
# Migrations

Makes sure that the table of events and its indexes exist.  What exists already stays, so this can be
done on every start.
-/

namespace EventSourcing

/-- A migration: what is still to be defined, or the fault that ended it. -/
inductive Migration where
  | defining (rest : List Definition)
  | failed (fault : DatabaseFault)

namespace Migration

/-- A migration that is about to begin. -/
def start : Migration :=
  defining [.events, .indexByType, .indexByOwner]

/-- Defines one thing after the other, up to the first fault. -/
def step : Migration → Step Migration (Except DatabaseFault Unit)
  | defining [] => .ended (.ok ())
  | defining (d :: rest) =>
    .sent (.define d) fun r =>
      match r.answer with
      | .ok _ => defining rest
      | .error fault => failed fault
  | failed fault => .ended (.error fault)

/-- How many definitions are still to come. -/
def rank : Migration → Nat
  | defining rest => rest.length
  | failed _ => 0

instance : Procedure Migration (Except DatabaseFault Unit) where
  step := step
  rank := rank
  rank_resume := by
    intro m s resume h r
    cases m with
    | failed fault => cases h
    | defining rest =>
      cases rest with
      | nil => cases h
      | cons d rest => cases h; left; dsimp only; split <;> simp [rank]

end Migration

end EventSourcing
