import EventSourcing.Postgres.Condition

/-!
# SQL — what a selection gives

The part of SQL in which the store asks for events: one `SELECT` from one table.  The meaning is the
ordinary one and knows nothing of queries.  A table is a list of rows in no particular order, so a
statement without `ORDER BY` may give its rows in any order, and `Select.Gives` is a relation.

* `Condition.holds`: whether a row meets a condition.
* `Select.Gives`: which rows can answer a selection.
-/

namespace EventSourcing.Sql

/-! ### Conditions -/

/-- An expression that has a value in each row. -/
inductive Scalar where
  | column (c : Column)
  | value (v : SqlValue)
  /-- The member of a JSON value, as in `data -> key`. -/
  | member (s : Scalar) (key : SqlValue)
deriving DecidableEq

/-- What can stand after `WHERE`. -/
inductive Condition where
  /-- `TRUE` -/
  | always
  | compare (op : Comparison) (a b : Scalar)
  /-- `a = ANY(b)` -/
  | oneOf (a b : Scalar)
  | and (c d : Condition)
  | or (c d : Condition)
deriving DecidableEq

/-- A missing member is `NULL`, and so is a member of anything that is no object. -/
def Scalar.eval (row : TableRow) : Scalar → SqlValue
  | column c => row c
  | value v => v
  | member s key =>
    match s.eval row, key with
    | .json payload, .text k => (payload.get? k).elim .null .json
    | _, _ => .null

/-- Whether a comparison holds.  JSON values are compared for equality only. -/
def compares (op : Comparison) : SqlValue → SqlValue → Bool
  | .json a, .json b => op = .equal && a.same b
  | v, w => op.holds v w

namespace Condition

/-- Whether a condition holds of a row.  A comparison with nothing, or of values of two kinds, does
not. -/
def holds (row : TableRow) : Condition → Bool
  | always => true
  | compare op a b => compares op (a.eval row) (b.eval row)
  | oneOf a b =>
    match b.eval row with
    | .texts l => l.any fun s => compares .equal (a.eval row) (.text s)
    | _ => false
  | and c d => c.holds row && d.holds row
  | or c d => c.holds row || d.holds row

end Condition

/-! ### Selections -/

/-- What is selected from the rows that meet the condition. -/
inductive Target where
  | columns (l : List Column)
  /-- `MAX(c)` -/
  | highest (c : Column)
  /-- `DISTINCT c` -/
  | distinct (c : Column)
deriving DecidableEq

/-- `ORDER BY`. -/
structure Order where
  column : Column
  desc : Bool
deriving DecidableEq

/-- A `SELECT` from the table of events. -/
structure Select where
  target : Target
  condition : Condition
  order : Option Order := none
  limit : Option Int := none
  offset : Option Int := none
deriving DecidableEq

/-- Values that stand in ascending or descending order. -/
def Sorted (desc : Bool) (values : List SqlValue) : Prop :=
  values.Pairwise fun v w => if desc then compares .atMost w v else compares .atMost v w

/-- The highest of some values, `NULL` when there is none. -/
def IsHighest (v : SqlValue) (values : List SqlValue) : Prop :=
  (values = [] ∧ v = .null) ∨ (v ∈ values ∧ ∀ w ∈ values, compares .atMost w v)

namespace Select

/-- What `OFFSET` and `LIMIT` leave: the offset is skipped first. -/
def slice {α : Type} (s : Select) (l : List α) : List α :=
  let rest := l.drop (s.offset.elim 0 Int.toNat)
  s.limit.elim rest fun n => rest.take n.toNat

/-- The rows of the table that meet the condition. -/
def matching (s : Select) (table : List TableRow) : List TableRow :=
  table.filter fun row => s.condition.holds row

/-- Rows that can answer the selection from a table. -/
def Gives (s : Select) (table : List TableRow) (rows : List Row) : Prop :=
  match s.target with
  | .columns cs => ∃ l : List TableRow, l.Perm (s.matching table) ∧
      (∀ o ∈ s.order, Sorted o.desc (l.map (· o.column))) ∧
      rows = s.slice (l.map fun row => cs.map row)
  | .highest c => s.order = none ∧
      ∃ v, IsHighest v ((s.matching table).map (· c)) ∧ rows = s.slice [[v]]
  | .distinct c => ∃ l : List SqlValue, l.Nodup ∧
      (∀ v, v ∈ l ↔ v ∈ (s.matching table).map (· c)) ∧
      (∀ o ∈ s.order, o.column = c ∧ Sorted o.desc l) ∧
      rows = s.slice (l.map ([·]))

end Select

end EventSourcing.Sql
