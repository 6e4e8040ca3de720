import EventSourcing.Postgres.Fragment

/-!
# Conditions on rows

What can stand after `WHERE`.  An `Atom` tests one column.  A `Clause` is an atom, a choice between two
atoms, or a choice between branches, each of which joins atoms by "and".  Both have two readings that
belong together: the fragments they add to a statement, and `holds`, what the database makes of them.
-/

namespace EventSourcing

/-- How a column is compared with a value. -/
inductive Comparison where
  | equal
  | greater
  | less
  | atMost
deriving DecidableEq, Repr

namespace Comparison

/-- The symbol of a comparison in statements. -/
def symbol : Comparison → String
  | equal => "="
  | greater => ">"
  | less => "<"
  | atMost => "<="

/-- The outcome on ordered values. -/
def ofOrder {α : Type} [DecidableEq α] [LT α] [DecidableLT α] (op : Comparison) (a b : α) : Bool :=
  match op with
  | equal => a = b
  | greater => b < a
  | less => a < b
  | atMost => a = b || a < b

/-- Whether the comparison holds between two values.  Nothing compares with `NULL`, nor with a value of
another type. -/
def holds (op : Comparison) : SqlValue → SqlValue → Bool
  | .integer m, .integer n => op.ofOrder m n
  | .text s, .text t => op.ofOrder s t
  | .timestamp s, .timestamp t => op.ofOrder s t
  | _, _ => false

end Comparison

/-- A test of one column. -/
inductive Atom where
  /-- Compares a column with a bound value. -/
  | compare (column : Column) (op : Comparison) (value : SqlValue)
  /-- The column holds the empty text. -/
  | blank (column : Column)
  /-- The column holds one of the bound texts. -/
  | oneOf (column : Column) (texts : List String)
  /-- The payload holds an equal value under a key. -/
  | member (key : String) (value : Json)
deriving DecidableEq

namespace Atom

/-- The text of an atom, with its value bound. -/
def fragments : Atom → List Fragment
  | compare column op value => [.fixed (column.name ++ " " ++ op.symbol ++ " "), .bound value]
  | blank column => [.fixed (column.name ++ " = ''")]
  | oneOf column texts =>
    [.fixed (column.name ++ " = ANY("), .bound (.texts texts), .fixed ")"]
  | member key value =>
    [.fixed (Column.data.name ++ " -> "), .bound (.text key), .fixed " = ", .bound (.json value)]

/-- Whether a row satisfies an atom. -/
def holds (row : TableRow) : Atom → Bool
  | compare column op value => op.holds (row column) value
  | blank column => row column = .text ""
  | oneOf column texts =>
    match row column with
    | .text s => texts.contains s
    | _ => false
  | member key value =>
    match row .data with
    | .json payload => (payload.get? key).any (·.same value)
    | _ => false

end Atom

/-- A condition that a row has to meet together with others. -/
inductive Clause where
  | atom (a : Atom)
  | either (a b : Atom)
  | anyOf (branches : List (List Atom))
deriving DecidableEq

namespace Clause

/-- Atoms joined by "and", in parentheses. -/
def conjunction (atoms : List Atom) : List Fragment :=
  [.fixed "(TRUE"] ++ atoms.flatMap (fun a => .fixed " AND " :: a.fragments) ++ [.fixed ")"]

/-- The text of a clause.  Alternatives stand in parentheses. -/
def fragments : Clause → List Fragment
  | atom a => a.fragments
  | either a b => [.fixed "("] ++ a.fragments ++ [.fixed " OR "] ++ b.fragments ++ [.fixed ")"]
  | anyOf branches =>
    [.fixed "("] ++ Fragment.separated " OR " (branches.map conjunction) ++ [.fixed ")"]

/-- Whether a row satisfies a clause. -/
def holds (row : TableRow) : Clause → Bool
  | atom a => a.holds row
  | either a b => a.holds row || b.holds row
  | anyOf branches => branches.any fun atoms => atoms.all (·.holds row)

end Clause

end EventSourcing
