import EventSourcing.Postgres.Statement
import EventSourcing.Proofs.Sql.Text

/-!
# SQL — reading an insertion

What an `INSERT` says: the columns that it gives values to, one row of values per tuple, and the columns
that it asks for in return.

* `value`, `afterValue`: tuples are read value by value.
* `Insert.read?`: the insertion that a whole statement says, if it says one.
* `read_insert`: **an insertion is read as the columns and the rows it was made of.**
-/

namespace EventSourcing.Sql

/-- An `INSERT` into the table of events. -/
structure Insert where
  columns : List Column
  rows : List Row
  returning : List Column
deriving DecidableEq

/-! ### Reading -/

mutual

/-- Reads on where a value has to come.  `row` holds the values of the tuple so far. -/
def value (row : Row) : List Token → Option (List Row × List Token)
  | .bound v :: ts => afterValue (row ++ [v]) ts
  | _ => none

/-- Reads on after a value: the tuple goes on, or another one follows it, or it was the last. -/
def afterValue (row : Row) : List Token → Option (List Row × List Token)
  | .word "," :: ts => value row ts
  | .word ")" :: .word "," :: .word "(" :: ts =>
    (value [] ts).map fun (rows, ts) => (row :: rows, ts)
  | .word ")" :: ts => some ([row], ts)
  | _ => none

end

/-- Reads what follows the columns. -/
def Insert.readFrom? (columns : List Column) : List Token → Option Insert
  | .word ")" :: .word "VALUES" :: .word "(" :: ts =>
    match value [] ts with
    | some (rows, .word "RETURNING" :: ts) =>
      let (returning, ts) := columnsOf ts
      if ts.isEmpty then some { columns, rows, returning } else none
    | _ => none
  | _ => none

/-- The insertion that a statement says. -/
def Insert.read? : List Token → Option Insert
  | .word "INSERT" :: .word "INTO" :: .word "strata_events" :: .word "(" :: ts =>
    readFrom? (columnsOf ts).1 (columnsOf ts).2
  | _ => none

/-! ### Tuples read back -/

/-- Values that follow a value by commas belong to the same tuple. -/
theorem afterValue_values (row values : Row) (ts : List Token) :
    afterValue row (tokens (values.flatMap fun v => [.fixed ", ", .bound v]) ++ ts) =
      afterValue (row ++ values) ts := by
  induction values generalizing row with
  | nil => rw [List.append_nil]; rfl
  | cons v values ih =>
      have hcomma : wordsOf ", " = [.word ","] := rfl
      rw [List.flatMap_cons, tokens_append, tokens_fixed, hcomma, tokens_bound, tokens_nil,
        List.append_assoc, List.singleton_append, List.cons_append, afterValue, List.singleton_append,
        value, ih, List.append_assoc, List.singleton_append]

/-- The values of a tuple are read one after another. -/
theorem value_values (v : SqlValue) (values : Row) (ts : List Token) :
    value [] (tokens (Fragment.separated ", " ((v :: values).map fun v => [.bound v])) ++ ts) =
      afterValue (v :: values) ts := by
  rw [List.map_cons, separated_cons, List.flatMap_map, List.singleton_append, tokens_bound,
    List.cons_append, value, List.nil_append]
  exact afterValue_values [v] values ts

theorem tokens_tuple (s : Staged) :
    tokens (Statement.tuple s) = .word "(" ::
      (tokens (Fragment.separated ", " (s.values.map fun v => [.bound v])) ++ [.word ")"]) := by
  have hopen : wordsOf "(" = [.word "("] := rfl
  have hclose : tokens [.fixed ")"] = [.word ")"] := rfl
  rw [Statement.tuple, tokens_append, tokens_append, hclose, tokens_fixed, hopen, tokens_nil]
  rfl

/-- A tuple is read as its values. -/
theorem value_tuple (s : Staged) (ts : List Token) :
    value [] (tokens (Fragment.separated ", " (s.values.map fun v => [.bound v])) ++
      .word ")" :: ts) = afterValue s.values (.word ")" :: ts) :=
  value_values _ _ _

/-- Tuples that follow a tuple by commas are further rows. -/
theorem afterValue_tuples (row : Row) (staged : List Staged) (ts : List Token) :
    afterValue row (.word ")" ::
        (tokens (staged.flatMap fun s => .fixed ", " :: Statement.tuple s) ++
          .word "RETURNING" :: ts)) =
      some (row :: staged.map Staged.values, .word "RETURNING" :: ts) := by
  induction staged generalizing row with
  | nil => rfl
  | cons s staged ih =>
      have hcomma : wordsOf ", " = [.word ","] := rfl
      rw [List.flatMap_cons, tokens_append, tokens_fixed, hcomma, tokens_tuple]
      simp only [List.cons_append, List.append_assoc, List.nil_append]
      rw [afterValue, value_tuple, ih]
      rfl

/-! ### Insertions read back -/

/-- The words of an insertion up to its first tuple. -/
def insertion : List Token :=
  [.word "INSERT", .word "INTO", .word "strata_events", .word "("] ++
    (Column.inserted.map Token.column).intersperse (.word ",") ++ [.word ")", .word "VALUES"]

/-- The opening of an insertion, as words. -/
theorem wordsOf_columns :
    wordsOf ("INSERT INTO strata_events (" ++ Column.list Column.inserted ++ ") VALUES ") =
      insertion := by
  rw [wordsOf_append (.inr (by rintro c ⟨⟩; rfl)), wordsOf_append (.inl (by rfl)), wordsOf_list]
  rfl

theorem wordsOf_returning : wordsOf (" RETURNING " ++ Column.list Column.generated) =
    .word "RETURNING" :: (Column.generated.map Token.column).intersperse (.word ",") := by
  rw [wordsOf_append (.inl (by rfl)), wordsOf_list]
  rfl

/-- After the opening, the rows of values are read. -/
theorem read_insertion (ts : List Token) : Insert.read? (insertion ++ ts) =
    Insert.readFrom? Column.inserted (.word ")" :: .word "VALUES" :: ts) := rfl

/-- **An insertion is read as what it was made of.** -/
theorem read_insert {staged : List Staged} (h : staged ≠ []) :
    Insert.read? (tokens (Statement.insert staged).fragments) = some {
      columns := Column.inserted
      rows := staged.map Staged.values
      returning := Column.generated } := by
  obtain ⟨s, staged, rfl⟩ := List.exists_cons_of_ne_nil h
  rw [Statement.fragments, tokens_append, tokens_append, tokens_fixed, tokens_fixed,
    wordsOf_columns, wordsOf_returning, List.map_cons, separated_cons, List.flatMap_map, tokens_append,
    tokens_tuple]
  simp only [tokens_nil, List.append_nil, List.append_assoc, List.cons_append, List.nil_append]
  rw [read_insertion, Insert.readFrom?, value_tuple, afterValue_tuples]
  rfl

end EventSourcing.Sql
