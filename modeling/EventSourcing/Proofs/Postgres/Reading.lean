import EventSourcing.Proofs.Sql.Text

/-!
# The PostgreSQL store — selections read back

The text that a selection becomes says what the selection means.  `Selection.reading` is the selection
in terms of SQL; the reader finds it in the fragments, word by word, and it accepts the rows that the
selection accepts.

* `operator_clause`: a clause is read as one more condition that every row has to meet.
* `read_fragments`: a selection is read as its `reading`.
* `holds_condition`: the condition that was read accepts a row exactly if every clause does.
-/

namespace EventSourcing

open Sql

/-! ### What is to be read -/

/-- The condition that an atom is read as. -/
def Atom.reading : Atom → Condition
  | compare column op value => .compare op (.column column) (.value value)
  | blank column => .compare .equal (.column column) (.value (.text ""))
  | oneOf column texts => .oneOf (.column column) (.value (.texts texts))
  | member key value => .compare .equal (.member (.column .data) (.text key)) (.value (.json value))

namespace Clause

/-- The atoms of a branch, joined by "and". -/
def readingOfBranch (atoms : List Atom) : Condition :=
  atoms.foldl (fun c a => c.and a.reading) .always

/-- The condition that a clause is read as. -/
def reading : Clause → Condition
  | atom a => a.reading
  | either a b => .or a.reading b.reading
  | anyOf [] => .always
  | anyOf (b :: bs) => bs.foldl (fun c b => c.or (readingOfBranch b)) (readingOfBranch b)

end Clause

/-- Whether the atom compares with a value that has an order.  JSON values have none. -/
def Atom.Proper : Atom → Prop
  | compare _ _ (.json _) => False
  | _ => True

/-- Whether a clause is one that can be sent: a choice has at least one branch. -/
def Clause.Proper : Clause → Prop
  | atom a => a.Proper
  | either a b => a.Proper ∧ b.Proper
  | anyOf branches => branches ≠ [] ∧ ∀ atoms ∈ branches, ∀ a ∈ atoms, a.Proper

namespace Selection

/-- Whether every clause of the selection can be sent. -/
def Proper (s : Selection) : Prop :=
  ∀ c ∈ s.clauses, c.Proper

/-- The condition that the clauses of a selection are read as, joined by "and". -/
def condition (s : Selection) : Condition :=
  s.clauses.foldl (fun c clause => c.and clause.reading) .always

/-- The target that a kind of columns is read as. -/
def readTarget : Columns → Target
  | .event => .columns Column.ofEvent
  | .maxSequence => .highest .sequence
  | .instanceIds => .distinct .instanceId

/-- The selection in terms of SQL.  Without a key there is no page. -/
def reading (s : Selection) : Select :=
  match key? s.columns with
  | some key => {
      target := readTarget s.columns
      condition := s.condition
      order := some ⟨key, s.page.desc⟩
      limit := s.page.limit
      offset := s.page.offset }
  | none => { target := readTarget s.columns, condition := s.condition }

theorem condition_reading (s : Selection) : s.reading.condition = s.condition := by
  rw [reading]
  split <;> rfl

end Selection

/-! ### Words -/

namespace Sql

/-- The name of a column is read as the column, whatever comes after it. -/
theorem wordsOf_name_append (column : Column) {s : String} (hs : Starts s) :
    wordsOf (column.name ++ s) = .column column :: wordsOf s := by
  rw [wordsOf_append (.inr hs), wordsOf_name]
  rfl

theorem wordsOf_compare (column : Column) (op : Comparison) :
    wordsOf (column.name ++ " " ++ op.symbol ++ " ") = [.column column, .comparison op] := by
  have hop : wordsOf (" " ++ (op.symbol ++ " ")) = [.comparison op] := by
    cases op <;> rfl
  have hstarts : Starts (" " ++ (op.symbol ++ " ")) := by
    cases op <;> rintro c ⟨⟩ <;> rfl
  rw [String.append_assoc, String.append_assoc, wordsOf_name_append column hstarts, hop]

theorem wordsOf_blank (column : Column) :
    wordsOf (column.name ++ " = ''") = [.column column, .comparison .equal, .word "''"] :=
  wordsOf_name_append column (by rintro c ⟨⟩; rfl)

theorem wordsOf_oneOf (column : Column) :
    wordsOf (column.name ++ " = ANY(") =
      [.column column, .comparison .equal, .word "ANY", .word "("] :=
  wordsOf_name_append column (by rintro c ⟨⟩; rfl)

theorem wordsOf_order (column : Column) (desc : Bool) :
    wordsOf (" ORDER BY " ++ column.name ++ (if desc then " DESC" else " ASC")) =
      [.word "ORDER", .word "BY", .column column, .word (if desc then "DESC" else "ASC")] := by
  rw [String.append_assoc, wordsOf_append (.inl (by rfl))]
  cases desc
  · exact congrArg (_ ++ ·) (wordsOf_name_append column (by rintro c ⟨⟩; rfl))
  · exact congrArg (_ ++ ·) (wordsOf_name_append column (by rintro c ⟨⟩; rfl))

/-- The words of a selection up to its first clause. -/
def opening : Columns → List Token
  | .event => .word "SELECT" ::
      (Column.ofEvent.map Token.column).intersperse (.word ",") ++
        [.word "FROM", .word "strata_events", .word "WHERE", .word "TRUE"]
  | .maxSequence => [.word "SELECT", .word "MAX", .word "(", .column .sequence, .word ")",
      .word "FROM", .word "strata_events", .word "WHERE", .word "TRUE"]
  | .instanceIds => [.word "SELECT", .word "DISTINCT", .column .instanceId,
      .word "FROM", .word "strata_events", .word "WHERE", .word "TRUE"]

/-- The opening of a selection, as words. -/
theorem wordsOf_target (columns : Columns) :
    wordsOf ("SELECT " ++ Selection.target columns ++ " FROM strata_events WHERE TRUE") =
      opening columns := by
  have hfrom : Starts " FROM strata_events WHERE TRUE" := by rintro c ⟨⟩; rfl
  rw [wordsOf_append (.inr hfrom), wordsOf_append (.inl (by rfl))]
  cases columns with
  | event => rw [Selection.target, wordsOf_list]; rfl
  | maxSequence | instanceIds => rfl

/-! ### Conditions read back -/

variable {outer : List Pending} {p : Pending} {before : Option Condition} {c : Condition}
  {ts : List Token}

/-- An atom is read as its condition. -/
theorem operand_atom (a : Atom) :
    operand outer p (tokens a.fragments ++ ts) =
      operator outer p.before (join .and p.since a.reading) ts := by
  cases a with
  | compare column op value =>
      rw [Atom.fragments, tokens_fixed, wordsOf_compare]
      simp only [tokens_bound, tokens_nil, List.cons_append, List.nil_append, operand, Atom.reading]
  | blank column =>
      rw [Atom.fragments, tokens_fixed, wordsOf_blank]
      simp only [tokens_nil, List.cons_append, List.nil_append, operand, Atom.reading]
  | oneOf column texts =>
      have hclose : wordsOf ")" = [.word ")"] := rfl
      rw [Atom.fragments, tokens_fixed, wordsOf_oneOf]
      simp only [tokens_fixed, hclose, tokens_bound, tokens_nil, List.cons_append, List.nil_append,
        operand, Atom.reading]
  | member key value =>
      have harrow : wordsOf (Column.data.name ++ " -> ") = [.column .data, .word "->"] := rfl
      have hequal : wordsOf " = " = [.comparison .equal] := rfl
      rw [Atom.fragments, tokens_fixed, harrow]
      simp only [tokens_fixed, hequal, tokens_bound, tokens_nil, List.cons_append, List.nil_append,
        operand, Atom.reading]

/-- Atoms that follow an operand by "and" are further conditions on the same alternative. -/
theorem operator_atoms (atoms : List Atom) :
    operator outer before c (tokens (atoms.flatMap fun a => .fixed " AND " :: a.fragments) ++ ts) =
      operator outer before (atoms.foldl (fun c a => c.and a.reading) c) ts := by
  induction atoms generalizing c with
  | nil => rfl
  | cons a atoms ih =>
      have hand : wordsOf " AND " = [.word "AND"] := rfl
      rw [List.flatMap_cons, tokens_append, tokens_fixed, hand, List.append_assoc,
        List.append_assoc, List.singleton_append, operator, operand_atom]
      exact ih

/-- A branch is read as the conjunction of its atoms. -/
theorem operand_branch (atoms : List Atom) :
    operand outer p (tokens (Clause.conjunction atoms) ++ ts) =
      operator outer p.before (join .and p.since (Clause.readingOfBranch atoms)) ts := by
  have hopen : wordsOf "(TRUE" = [.word "(", .word "TRUE"] := rfl
  have hclose : tokens [.fixed ")"] = [.word ")"] := rfl
  -- inside the parentheses the atoms join `TRUE`, and the closing one makes them an operand
  rw [Clause.conjunction, tokens_append, tokens_append, tokens_fixed, hopen, hclose, tokens_nil]
  simp only [List.append_assoc, List.append_nil, List.cons_append, List.nil_append, operand]
  rw [operator_atoms, operator]
  rfl

/-- Branches that follow a branch by "or" up to the closing parenthesis are further alternatives. -/
theorem operator_branches (branches : List (List Atom)) :
    operator (p :: outer) before c
        (tokens (branches.flatMap fun b => .fixed " OR " :: Clause.conjunction b) ++
          .word ")" :: ts) =
      operator outer p.before (join .and p.since
        (branches.foldl (fun c b => c.or (Clause.readingOfBranch b)) (join .or before c))) ts := by
  induction branches generalizing before c with
  | nil => rw [List.flatMap_nil, tokens_nil, List.nil_append, operator]; rfl
  | cons b branches ih =>
      have hor : wordsOf " OR " = [.word "OR"] := rfl
      rw [List.flatMap_cons, tokens_append, tokens_fixed, hor, List.append_assoc,
        List.append_assoc, List.singleton_append, operator, operand_branch]
      exact ih

/-- A clause is read as its condition, whatever follows. -/
theorem operand_clause {clause : Clause} (h : clause.Proper) :
    operand outer p (tokens clause.fragments ++ ts) =
      operator outer p.before (join .and p.since clause.reading) ts := by
  have hopen : wordsOf "(" = [.word "("] := rfl
  have hclose : wordsOf ")" = [.word ")"] := rfl
  cases clause with
  | atom a => exact operand_atom a
  | either a b =>
      have hor : wordsOf " OR " = [.word "OR"] := rfl
      simp only [Clause.fragments, tokens_append, tokens_fixed, hopen, hclose, hor, tokens_nil,
        List.append_assoc, List.cons_append, List.nil_append]
      rw [operand, operand_atom, operator, operand_atom, operator]
      rfl
  | anyOf branches =>
      cases branches with
      | nil => exact absurd rfl h.1
      | cons b branches =>
          simp only [Clause.fragments, List.map_cons, separated_cons, List.flatMap_map,
            tokens_append, tokens_fixed, hopen, hclose, tokens_nil, List.append_assoc,
            List.cons_append, List.nil_append]
          rw [operand, operand_branch, operator_branches]
          rfl

/-- A clause is read as one more condition that every row has to meet. -/
theorem operator_clause {clause : Clause} (h : clause.Proper) :
    operator outer before c (tokens (.fixed " AND " :: clause.fragments) ++ ts) =
      operator outer before (c.and clause.reading) ts := by
  have hand : wordsOf " AND " = [.word "AND"] := rfl
  rw [tokens_fixed, hand, List.append_assoc, List.singleton_append, operator, operand_clause h]
  rfl

/-- Clauses are read one after the other, joined by "and". -/
theorem operator_clauses {clauses : List Clause} (h : ∀ clause ∈ clauses, clause.Proper) :
    operator outer before c
        (tokens (clauses.flatMap fun clause => .fixed " AND " :: clause.fragments) ++ ts) =
      operator outer before (clauses.foldl (fun c clause => c.and clause.reading) c) ts := by
  induction clauses generalizing c with
  | nil => rfl
  | cons clause clauses ih =>
      obtain ⟨hclause, hclauses⟩ := List.forall_mem_cons.mp h
      rw [List.flatMap_cons, tokens_append, List.append_assoc, operator_clause hclause, ih hclauses]
      rfl

/-! ### Selections read back -/

theorem read_opening (columns : Columns) (ts : List Token) :
    Select.read? (opening columns ++ ts) =
      Select.readFrom? (Selection.readTarget columns)
        (.word "FROM" :: .word "strata_events" :: .word "WHERE" :: .word "TRUE" :: ts) := by
  cases columns <;> rfl

/-- A number that is not given is left out, and the next words are no such number. -/
theorem bound?_elim (keyword text : String) (o : Option Int) (ts : List Token)
    (htext : wordsOf text = [.word keyword]) (hts : bound? keyword ts = (none, ts)) :
    bound? keyword (tokens (o.elim [] fun n => [.fixed text, .bound (.integer n)]) ++ ts) =
      (o, ts) := by
  cases o with
  | none => exact hts
  | some n =>
      rw [Option.elim_some, tokens_fixed, htext]
      simp only [tokens_bound, tokens_nil, List.cons_append, List.nil_append, bound?, if_pos]

theorem order_read (column : Column) (desc : Bool) (ts : List Token) :
    Order.read? (.word "ORDER" :: .word "BY" :: .column column ::
      .word (if desc then "DESC" else "ASC") :: ts) = (some ⟨column, desc⟩, ts) := by
  cases desc <;> rfl

/-- A condition ends where the order is given. -/
theorem operator_order (ts : List Token) :
    operator [] before c (.word "ORDER" :: ts) = some (join .or before c, .word "ORDER" :: ts) := rfl

theorem tokens_page (p : Page) (key : Column) :
    tokens (p.fragments key) =
      .word "ORDER" :: .word "BY" :: .column key :: .word (if p.desc then "DESC" else "ASC") ::
        (tokens (p.limit.elim [] fun n => [.fixed " LIMIT ", .bound (.integer n)]) ++
          (tokens (p.offset.elim [] fun n => [.fixed " OFFSET ", .bound (.integer n)]) ++ [])) := by
  rw [Page.fragments, tokens_append, tokens_append, tokens_fixed, wordsOf_order, List.append_nil]
  rfl

end Sql

namespace Selection

/-- **A selection is read as what it means.**  Whatever the clauses are joined from, the reader finds
the condition, the order and the page in the words and the bound values that are sent. -/
theorem read_fragments {s : Selection} (h : s.Proper) :
    Select.read? (tokens s.fragments) = some s.reading := by
  rw [fragments]
  rw [List.append_assoc, tokens_append, tokens_fixed, wordsOf_target, tokens_nil, List.append_nil,
    read_opening, tokens_append, Select.readFrom?, operand, operator_clauses h]
  cases hkey : key? s.columns with
  | none =>
      simp only [Option.elim_none, tokens_nil, operator, reading, hkey]
      rfl
  | some key =>
      -- from the end: the offset ends the text, and the limit stands before it
      have hoffset := bound?_elim "OFFSET" " OFFSET " s.page.offset [] rfl rfl
      have hlimit := bound?_elim "LIMIT" " LIMIT " s.page.limit
        (tokens (s.page.offset.elim [] fun n => [.fixed " OFFSET ", .bound (.integer n)]) ++ []) rfl
        (by cases s.page.offset <;> rfl)
      simp only [Option.elim_some, tokens_page, operator_order, order_read, hlimit, hoffset, reading,
        hkey]
      rfl

end Selection

/-! ### What is read, and what is accepted -/

namespace Sql.Condition

variable {α : Type} {f : α → Condition} {g : α → Bool} {row : TableRow} {l : List α}

/-- A chain of "and" holds if all its links do. -/
theorem holds_foldl_and (h : ∀ a ∈ l, (f a).holds row = g a) (c : Condition) :
    (l.foldl (fun c a => c.and (f a)) c).holds row = (c.holds row && l.all g) := by
  induction l generalizing c with
  | nil => rw [List.foldl_nil, List.all_nil, Bool.and_true]
  | cons a l ih =>
      obtain ⟨ha, hl⟩ := List.forall_mem_cons.mp h
      rw [List.foldl_cons, ih hl, List.all_cons, holds, ha, Bool.and_assoc]

/-- A chain of "or" holds if one of its links does. -/
theorem holds_foldl_or (h : ∀ a ∈ l, (f a).holds row = g a) (c : Condition) :
    (l.foldl (fun c a => c.or (f a)) c).holds row = (c.holds row || l.any g) := by
  induction l generalizing c with
  | nil => rw [List.foldl_nil, List.any_nil, Bool.or_false]
  | cons a l ih =>
      obtain ⟨ha, hl⟩ := List.forall_mem_cons.mp h
      rw [List.foldl_cons, ih hl, List.any_cons, holds, ha, Bool.or_assoc]

end Sql.Condition

/-- The reading of an atom says of rows what the atom says. -/
theorem Atom.holds_reading {a : Atom} (h : a.Proper) (row : TableRow) :
    a.reading.holds row = a.holds row := by
  cases a with
  | compare column op value =>
      cases value with
      -- texts of JSON have no order, and no clause compares them
      | json v => exact h.elim
      | _ =>
          simp only [reading, Condition.holds, Scalar.eval, Atom.holds]
          cases row column <;> rfl
  | blank column =>
      simp only [reading, Condition.holds, Scalar.eval, Atom.holds]
      cases row column <;> simp [compares, Comparison.holds, Comparison.ofOrder]
  | oneOf column texts =>
      simp only [reading, Condition.holds, Scalar.eval, Atom.holds]
      cases row column with
      | text s =>
          simp [compares, Comparison.holds, Comparison.ofOrder, List.any_eq]
      | _ => simp [compares, Comparison.holds]
  | member key value =>
      simp only [reading, Condition.holds, Scalar.eval, Atom.holds]
      cases row .data with
      | json payload =>
          cases hget : payload.get? key with
          | none => simp [hget, compares, Comparison.holds]
          | some found => simp [hget, compares]
      | _ => simp [compares, Comparison.holds]

theorem Clause.holds_readingOfBranch {atoms : List Atom} (h : ∀ a ∈ atoms, a.Proper)
    (row : TableRow) : (readingOfBranch atoms).holds row = atoms.all (·.holds row) :=
  Condition.holds_foldl_and (fun a ha => Atom.holds_reading (h a ha) row) .always

/-- **The reading of a clause says of rows what the clause says.** -/
theorem Clause.holds_reading {c : Clause} (h : c.Proper) (row : TableRow) :
    c.reading.holds row = c.holds row := by
  cases c with
  | atom a => exact Atom.holds_reading h row
  | either a b =>
      rw [reading, Condition.holds, Atom.holds_reading h.1, Atom.holds_reading h.2]
      rfl
  | anyOf branches =>
      obtain ⟨hne, hproper⟩ := h
      cases branches with
      | nil => exact absurd rfl hne
      | cons b branches =>
          obtain ⟨hb, hbs⟩ := List.forall_mem_cons.mp hproper
          rw [reading, Condition.holds_foldl_or fun atoms ha => holds_readingOfBranch (hbs atoms ha) row,
            holds_readingOfBranch hb]
          rfl

/-- **The condition that is sent accepts the rows that the selection accepts.** -/
theorem Selection.holds_condition {s : Selection} (h : s.Proper) (row : TableRow) :
    s.condition.holds row = s.clauses.all (·.holds row) :=
  Condition.holds_foldl_and (fun c hc => Clause.holds_reading (h c hc) row) .always

end EventSourcing
