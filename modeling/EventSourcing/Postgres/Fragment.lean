import EventSourcing.Postgres.Column

/-!
# Statements in parts

The text of a statement never contains a value.  A statement is put together from fragments, each a
piece of fixed text or a value that is bound; in the text a bound value is a placeholder, `$1` for the
first and so on.
-/

namespace EventSourcing

/-- A part of a statement. -/
inductive Fragment where
  /-- Text that stands in the statement as it is. -/
  | fixed (s : String)
  /-- A value that is bound. -/
  | bound (v : SqlValue)
deriving DecidableEq

namespace Fragment

/-- The text of the fragments, with placeholders counted from `n`. -/
def textFrom (n : Nat) : List Fragment → String
  | [] => ""
  | fixed s :: fs => s ++ textFrom n fs
  | bound _ :: fs => "$" ++ toString n ++ textFrom (n + 1) fs

/-- The text of a statement. -/
def text (fs : List Fragment) : String :=
  textFrom 1 fs

/-- The bound values in the order of their placeholders. -/
def values (fs : List Fragment) : List SqlValue :=
  fs.filterMap fun
    | bound v => some v
    | fixed _ => none

/-- Lists of fragments one after another, with fixed text between them. -/
def separated (separator : String) (l : List (List Fragment)) : List Fragment :=
  [fixed separator].intercalate l

end Fragment

end EventSourcing
