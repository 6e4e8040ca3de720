import EventSourcing.Postgres.Select
import EventSourcing.Proofs.Results

/-!
# The PostgreSQL store — numbers that fit

The bounds of a query are its numbers, unless one of them is too large for a signed column.

* `Bounds.ofQuery_eq`: the bounds of a query are `Bounds.exact`, number for number, unless one of its numbers
  is too large; and then the first of them is named.
-/

namespace EventSourcing

/-- The numbers that a query gives, in the order in which they are looked at. -/
def Query.quantities (q : Query) : List (Quantity × Nat) :=
  [(.limit, q.limit), (.offset, q.offset), (.sequenceGreater, q.sequenceGreater)] ++
    (q.positionAfter.map (Quantity.positionAfter, ·)).toList ++
    (q.asOfPosition.map (Quantity.asOfPosition, ·)).toList

namespace Bounds

/-- The numbers of a query that constrain, whatever their size. -/
def exact (q : Query) : Bounds where
  limit := if q.limit = 0 then none else some q.limit
  offset := if q.offset = 0 then none else some q.offset
  sequenceGreater := if q.sequenceGreater = 0 then none else some q.sequenceGreater
  positionAfter := q.positionAfter.map fun n => (n : Int)
  asOfPosition := q.asOfPosition.map fun n => (n : Int)

/-- Number by number. -/
theorem exact_eq (q : Query) : exact q =
    { limit := if q.limit = 0 then none else some (q.limit : Int)
      offset := if q.offset = 0 then none else some (q.offset : Int)
      sequenceGreater := if q.sequenceGreater = 0 then none else some (q.sequenceGreater : Int)
      positionAfter := q.positionAfter.map fun n : Nat => (n : Int)
      asOfPosition := q.asOfPosition.map fun n : Nat => (n : Int) } := by
  rw [exact]
  cases q.positionAfter <;> cases q.asOfPosition <;> rfl

variable {α : Type} {a : α} {numbers : List (Quantity × Nat)}

/-- A value, unless one of these numbers is too large: then an error that names the first that is. -/
def unlessTooLarge (numbers : List (Quantity × Nat)) (a : α) : Except PostgresError α :=
  match numbers.find? fun x => Nat.pow 2 63 ≤ x.2 with
  | some (quantity, n) => .error (.outOfRange quantity n)
  | none => .ok a

/-- One number after another is converted: the first of them, and then the others. -/
theorem signed_bind {quantity : Quantity} {n : Nat} {f : Int → Except PostgresError α}
    (h : f n = unlessTooLarge numbers a) :
    signed quantity n >>= f = unlessTooLarge ((quantity, n) :: numbers) a := by
  rw [signed, unlessTooLarge]
  by_cases hn : n < Nat.pow 2 63
  · rw [if_pos hn, List.find?_cons_of_neg (by simpa using hn)]
    exact h
  · rw [if_neg hn, List.find?_cons_of_pos (by simpa using hn)]
    rfl

/-- A number that is `0` is never too large. -/
theorem positive_bind {quantity : Quantity} {n : Nat} {f : Option Int → Except PostgresError α}
    (h : f (if n = 0 then none else some (n : Int)) = unlessTooLarge numbers a) :
    positive quantity n >>= f = unlessTooLarge ((quantity, n) :: numbers) a := by
  rw [positive]
  by_cases hn : n = 0
  · rw [if_pos hn] at h ⊢
    rw [unlessTooLarge, List.find?_cons_of_neg (by simp [hn])]
    exact h
  · rw [if_neg hn] at h ⊢
    rw [← signed_bind (f := fun m => f (some m)) h]
    cases signed quantity n <;> rfl

/-- Neither is one that is not given. -/
theorem given_bind {quantity : Quantity} {o : Option Nat} {f : Option Int → Except PostgresError α}
    (h : f (o.map fun n : Nat => (n : Int)) = unlessTooLarge numbers a) :
    given quantity o >>= f = unlessTooLarge ((o.map (quantity, ·)).toList ++ numbers) a := by
  cases o with
  | none => exact h
  | some n =>
      rw [Option.map_some, Option.toList_some, List.singleton_append,
        ← signed_bind (f := fun m => f (some m)) h, given]
      cases signed quantity n <;> rfl

/-- **The bounds of a query are its numbers**, unless one of them is too large. -/
theorem ofQuery_eq (q : Query) : ofQuery q = unlessTooLarge q.quantities (exact q) := by
  have hasOf : (q.asOfPosition.map (Quantity.asOfPosition, ·)).toList =
      (q.asOfPosition.map (Quantity.asOfPosition, ·)).toList ++ [] := (List.append_nil _).symm
  rw [Query.quantities, List.append_assoc, hasOf]
  refine positive_bind (positive_bind (positive_bind (given_bind (given_bind ?_))))
  rw [exact_eq]
  rfl

/-- **Bounds that were accepted are the numbers of the query.** -/
theorem ofQuery_eq_ok {q : Query} {b : Bounds} (h : ofQuery q = .ok b) : b = exact q := by
  rw [ofQuery_eq, unlessTooLarge] at h
  split at h
  · cases h
  · exact (Except.ok.inj h).symm

end Bounds

end EventSourcing
