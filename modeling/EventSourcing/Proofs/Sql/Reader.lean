import EventSourcing.Postgres.Select
import EventSourcing.Proofs.Sql.Select

/-!
# SQL — reading a selection

What a statement says is read off what is sent: the fixed text, word by word, and the values that are
bound between the words.  How the statement was put together plays no part in it.

* `tokens`: the words and the bound values of a statement.
* `operand`, `operator`: a condition is read from left to right.  `AND` binds closer than `OR`, and a
  parenthesis closes before what stands around it goes on.
* `Select.read?`: the selection that a whole statement says, if it says one.
-/

namespace EventSourcing.Sql

/-! ### Words -/

/-- A word of a statement, or a value bound there. -/
inductive Token where
  | column (c : Column)
  | comparison (op : Comparison)
  | bound (v : SqlValue)
  /-- Any other word. -/
  | word (s : String)
deriving DecidableEq

/-- A word that is complete, unless there is none. -/
def finish (word : List Char) : List String :=
  if word.isEmpty then [] else [String.ofList word]

/-- The words of a text of which `word` has been begun.  Parentheses and commas are words of their
own. -/
def wordsFrom (word : List Char) : List Char → List String
  | [] => finish word
  | c :: cs =>
    if c = ' ' then finish word ++ wordsFrom [] cs
    else if c ∈ ['(', ')', ','] then finish word ++ c.toString :: wordsFrom [] cs
    else wordsFrom (word ++ [c]) cs

/-- The token that a word is. -/
def Token.ofWord (w : String) : Token :=
  match Column.ofEvent.find? (·.name = w),
    [Comparison.equal, .greater, .less, .atMost].find? (·.symbol = w) with
  | some c, _ => .column c
  | none, some op => .comparison op
  | none, none => .word w

/-- The tokens of a text. -/
def wordsOf (s : String) : List Token :=
  (wordsFrom [] s.toList).map Token.ofWord

/-- The tokens of a statement. -/
def tokens (fs : List Fragment) : List Token :=
  fs.flatMap fun
    | .fixed s => wordsOf s
    | .bound v => [.bound v]

/-! ### Conditions -/

/-- What stands before the operand that is read next, back to the last open parenthesis. -/
structure Pending where
  /-- The alternatives that an `OR` has closed. -/
  before : Option Condition := none
  /-- What the operand is joined to by `AND`. -/
  since : Option Condition := none

/-- A condition joined to an earlier one, if there is one. -/
def join (op : Condition → Condition → Condition) (earlier : Option Condition) (c : Condition) :
    Condition :=
  earlier.elim c (op · c)

mutual

/-- Reads on where an operand has to come.  `open_` holds what is pending at each open parenthesis. -/
def operand (outer : List Pending) (p : Pending) : List Token → Option (Condition × List Token)
  | .word "(" :: ts => operand (p :: outer) {} ts
  | .word "TRUE" :: ts => operator outer p.before (join .and p.since .always) ts
  | .column c :: .comparison op :: .bound v :: ts =>
    operator outer p.before (join .and p.since (.compare op (.column c) (.value v))) ts
  | .column c :: .comparison op :: .word "''" :: ts =>
    operator outer p.before (join .and p.since (.compare op (.column c) (.value (.text "")))) ts
  | .column c :: .comparison .equal :: .word "ANY" :: .word "(" :: .bound v :: .word ")" :: ts =>
    operator outer p.before (join .and p.since (.oneOf (.column c) (.value v))) ts
  | .column c :: .word "->" :: .bound key :: .comparison op :: .bound v :: ts =>
    operator outer p.before
      (join .and p.since (.compare op (.member (.column c) key) (.value v))) ts
  | _ => none

/-- Reads on after an operand: `c` is what has been read since the last `OR`. -/
def operator (outer : List Pending) (before : Option Condition) (c : Condition) :
    List Token → Option (Condition × List Token)
  | .word "AND" :: ts => operand outer { before, since := some c } ts
  | .word "OR" :: ts => operand outer { before := some (join .or before c) } ts
  | .word ")" :: ts =>
    match outer with
    | p :: outer => operator outer p.before (join .and p.since (join .or before c)) ts
    | [] => none
  | ts => if outer.isEmpty then some (join .or before c, ts) else none

end

/-! ### Selections -/

/-- The columns of a list with commas, and what follows it. -/
def columnsOf : List Token → List Column × List Token
  | .column c :: .word "," :: ts => ((columnsOf ts).1.cons c, (columnsOf ts).2)
  | .column c :: ts => ([c], ts)
  | ts => ([], ts)

/-- Reads the target of a selection: a maximum, the distinct values of a column, or columns. -/
def Target.read? : List Token → Option (Target × List Token)
  | .word "MAX" :: .word "(" :: .column c :: .word ")" :: ts => some (.highest c, ts)
  | .word "DISTINCT" :: .column c :: ts => some (.distinct c, ts)
  | ts => if (columnsOf ts).1.isEmpty then none else some (.columns (columnsOf ts).1, (columnsOf ts).2)

/-- Reads the order of a selection, if one is given. -/
def Order.read? : List Token → Option Order × List Token
  | .word "ORDER" :: .word "BY" :: .column c :: .word "ASC" :: ts => (some ⟨c, false⟩, ts)
  | .word "ORDER" :: .word "BY" :: .column c :: .word "DESC" :: ts => (some ⟨c, true⟩, ts)
  | ts => (none, ts)

/-- The number bound after a keyword, if the keyword comes next. -/
def bound? (keyword : String) : List Token → Option Int × List Token
  | .word w :: .bound (.integer n) :: ts =>
    if w = keyword then (some n, ts) else (none, .word w :: .bound (.integer n) :: ts)
  | ts => (none, ts)

/-- Reads what follows the target. -/
def Select.readFrom? (target : Target) : List Token → Option Select
  | .word "FROM" :: .word "strata_events" :: .word "WHERE" :: ts =>
    match operand [] {} ts with
    | some (condition, ts) =>
      let (order, ts) := Order.read? ts
      let (limit, ts) := bound? "LIMIT" ts
      let (offset, ts) := bound? "OFFSET" ts
      if ts.isEmpty then some { target, condition, order, limit, offset } else none
    | none => none
  | _ => none

/-- The selection that a statement says. -/
def Select.read? : List Token → Option Select
  | .word "SELECT" :: ts => (Target.read? ts).bind fun (target, ts) => readFrom? target ts
  | _ => none

end EventSourcing.Sql
