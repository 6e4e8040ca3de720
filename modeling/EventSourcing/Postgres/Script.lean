import EventSourcing.Postgres.Procedure

/-!
# Scripted databases

A database that follows a script stands in for a real one.  Its script says, in advance, which rows
the statements that give rows are answered with, which statements fail, and upon which one the call is
cancelled.  The rows are given as JSON; each value is read in the type of its column.
-/

namespace EventSourcing

/-- The type of a column. -/
inductive ColumnType where
  | integer
  | text
  | timestamp
  | json
deriving DecidableEq, Repr

/-- The value of a column of this type, `NULL` for anything of another kind.  Timestamps are kept to the
microsecond. -/
def ColumnType.read : ColumnType → Json → SqlValue
  | integer, .int n => .integer n
  | text, .str s => .text s
  | timestamp, .str s =>
    match Instant.parse s with
    | .ok t => .timestamp t.truncated
    | .error _ => .null
  | json, v => .json v
  | _, _ => .null

/-- The type of the values in a column. -/
def Column.type : Column → ColumnType
  | sequence | position => .integer
  | creationDate => .timestamp
  | data => .json
  | _ => .text

/-- The types of the columns that a statement gives; none for a statement that gives no rows. -/
def Statement.columnTypes : Statement → List ColumnType
  | control .. | lock | define _ => []
  | head _ | stillOpen _ | latestPosition => [.integer]
  | insert _ => Column.generated.map Column.type
  | openTransactions => [.text]
  | select s =>
    match s.columns with
    | .event => Column.ofEvent.map Column.type
    | .maxSequence => [.integer]
    | .instanceIds => [.text]

/-- Whether the text of a statement begins so. -/
def Statement.begins (beginning : String) (s : Statement) : Bool :=
  beginning.toList.isPrefixOf s.text.toList

/-- A statement that fails. -/
structure Failure where
  /-- How the text of the statement begins. -/
  beginning : String
  message : String
deriving DecidableEq, Repr

/-- What a database does with the statements it receives. -/
structure Script where
  /-- The rows for each statement that gives rows, in the order of the statements. -/
  replies : List (List (List Json)) := []
  failures : List Failure := []
  /-- How the statement begins upon whose arrival the call is cancelled. -/
  cancelOn : Option String := none
deriving DecidableEq

namespace Script

/-- The message that a statement fails with. -/
def failure? (script : Script) (s : Statement) : Option String :=
  (script.failures.find? fun f => s.begins f.beginning).map Failure.message

/-- Whether a statement cancels the call. -/
def cancels (script : Script) (s : Statement) : Bool :=
  script.cancelOn.any fun beginning => s.begins beginning

/-- Answers a statement.  A statement that fails or gives no rows takes no reply; one that finds no
reply left is answered without rows. -/
def answer (script : Script) (s : Statement) : Answer × Script :=
  match script.failure? s with
  | some message => (.error (.statement message), script)
  | none =>
    if s.columnTypes.isEmpty then (.ok [], script)
    else
      match script.replies with
      | [] => (.ok [], script)
      | reply :: replies =>
        (.ok (reply.map fun row => (s.columnTypes.zip row).map fun (type, v) => type.read v),
          { script with replies })

/-- A script is never given more replies. -/
theorem length_replies_answer (script : Script) (s : Statement) :
    (script.answer s).2.replies.length ≤ script.replies.length := by
  unfold answer
  split
  · exact Nat.le_refl _
  · split
    · exact Nat.le_refl _
    · split
      · exact Nat.le_refl _
      · simp [*]

/-- An answer with a row takes a reply. -/
theorem length_replies_answer_lt {script : Script} {s : Statement} {row : Row} {rows : List Row}
    (h : (script.answer s).1 = .ok (row :: rows)) :
    (script.answer s).2.replies.length < script.replies.length := by
  unfold answer at h ⊢
  split at h
  · simp at h
  · split at h
    · simp at h
    · split at h
      · simp at h
      · simp [*]

end Script

end EventSourcing
