import EventSourcing.Postgres.Condition
import EventSourcing.Store.Basic

/-!
# Selections

How a query becomes a statement.  Its numbers have to fit the signed columns of the database: `Bounds`
holds them once they are known to.  `Query.selection` gives the statement, `Selection.fragments` its
text, and `Selection.answer` what the statement selects from the rows of the table.
-/

namespace EventSourcing

/-- A number that fits a signed column. -/
def signed (q : Quantity) (n : Nat) : Except PostgresError Int :=
  if n < Nat.pow 2 63 then .ok n else .error (.outOfRange q n)

/-- The numbers of a query that constrain, each fit for a signed column. -/
structure Bounds where
  limit : Option Int := none
  offset : Option Int := none
  sequenceGreater : Option Int := none
  positionAfter : Option Int := none
  asOfPosition : Option Int := none
deriving DecidableEq, Repr

namespace Bounds

/-- A number that only constrains unless it is `0`. -/
def positive (q : Quantity) (n : Nat) : Except PostgresError (Option Int) :=
  if n = 0 then .ok none else (signed q n).map some

/-- A number that constrains where it is given. -/
def given (q : Quantity) : Option Nat → Except PostgresError (Option Int)
  | some n => (signed q n).map some
  | none => .ok none

/-- The bounds of a query, or the first of its numbers that is too large. -/
def ofQuery (q : Query) : Except PostgresError Bounds := do
  let limit ← positive .limit q.limit
  let offset ← positive .offset q.offset
  let sequenceGreater ← positive .sequenceGreater q.sequenceGreater
  let positionAfter ← given .positionAfter q.positionAfter
  let asOfPosition ← given .asOfPosition q.asOfPosition
  return { limit, offset, sequenceGreater, positionAfter, asOfPosition }

end Bounds

/-- The part of a selection that its order, limit and offset cut out. -/
structure Page where
  desc : Bool := false
  limit : Option Int := none
  offset : Option Int := none
deriving DecidableEq, Repr

/-- A statement that reads the table of events. -/
structure Selection where
  columns : Columns
  /-- The conditions that every row has to meet. -/
  clauses : List Clause
  /-- Order and page, which do not apply to the highest sequence. -/
  page : Page := {}
deriving DecidableEq

/-! ### From queries -/

/-- A list that constrains unless it is empty. -/
def Atom.ofList (column : Column) (l : List String) : List Atom :=
  if l.isEmpty then [] else [.oneOf column l]

/-- The tests of a branch. -/
def Branch.atoms (b : Branch) : List Atom :=
  Atom.ofList .aggregateType b.aggregateTypes ++ Atom.ofList .aggregateId b.aggregateIds ++
    Atom.ofList .eventType b.eventTypes ++
    (b.data.elim [] DataFilter.toList).map fun (key, value) => .member key value

namespace Query

/-- The conditions of a query.  A time-travel read without a position of its own sees the log up to
`snapshot`. -/
def clauses (q : Query) (b : Bounds) (snapshot : Option Int) : List Clause :=
  let whenGiven {α : Type} (o : Option α) (clause : α → Clause) : List Clause :=
    (o.map clause).toList
  let compare (column : Column) (op : Comparison) (value : SqlValue) : Clause :=
    .atom (.compare column op value)
  whenGiven (q.instanceId.bind nonEmpty?)
      (fun s => .either (.compare .instanceId .equal (.text s)) (.blank .instanceId)) ++
    whenGiven q.resourceOwner? (fun s => compare .resourceOwner .equal (.text s)) ++
    whenGiven q.editorUser? (fun s => compare .editorUser .equal (.text s)) ++
    whenGiven q.creationDateAfter (fun t => compare .creationDate .greater (.timestamp t)) ++
    whenGiven q.creationDateBefore (fun t => compare .creationDate .less (.timestamp t)) ++
    whenGiven b.positionAfter (fun n => compare .position .greater (.integer n)) ++
    whenGiven (b.asOfPosition.or snapshot) (fun n => compare .position .atMost (.integer n)) ++
    whenGiven b.sequenceGreater (fun n => compare .sequence .greater (.integer n)) ++
    (if q.branches.isEmpty then [] else [.anyOf (q.branches.map Branch.atoms)])

/-- The statement that answers a query. -/
def selection (q : Query) (b : Bounds) (snapshot : Option Int) : Selection where
  columns := q.columns
  clauses := q.clauses b snapshot
  page := { desc := q.desc, limit := b.limit, offset := b.offset }

end Query

/-! ### As text -/

namespace Page

/-- The text of a page: the order by its key, and the limit and the offset that are given. -/
def fragments (p : Page) (key : Column) : List Fragment :=
  [.fixed (" ORDER BY " ++ key.name ++ (if p.desc then " DESC" else " ASC"))] ++
    p.limit.elim [] (fun n => [.fixed " LIMIT ", .bound (.integer n)]) ++
    p.offset.elim [] (fun n => [.fixed " OFFSET ", .bound (.integer n)])

end Page

namespace Selection

/-- What a selection reads. -/
def target : Columns → String
  | .event => Column.list Column.ofEvent
  | .maxSequence => "MAX(" ++ Column.sequence.name ++ ")"
  | .instanceIds => "DISTINCT " ++ Column.instanceId.name

/-- The column that a selection is ordered by. -/
def key? : Columns → Option Column
  | .event => some .position
  | .maxSequence => none
  | .instanceIds => some .instanceId

/-- The text of a selection.  The clauses are joined by "and", and only what has a key is put in
order. -/
def fragments (s : Selection) : List Fragment :=
  [.fixed ("SELECT " ++ target s.columns ++ " FROM strata_events WHERE TRUE")] ++
    s.clauses.flatMap (fun c => .fixed " AND " :: c.fragments) ++
    (key? s.columns).elim [] s.page.fragments

end Selection

/-! ### As an answer -/

namespace Page

/-- The part of a list in ascending order. -/
def cut {α : Type} (p : Page) (l : List α) : List α :=
  let ordered := if p.desc then l.reverse else l
  let rest := ordered.drop (p.offset.elim 0 Int.toNat)
  p.limit.elim rest fun n => rest.take n.toNat

end Page

namespace Selection

/-- Whether a row meets every condition. -/
def accepts (s : Selection) (e : Event) : Bool :=
  s.clauses.all (·.holds e.row)

/-- What the statement selects from a table that holds the rows of these events, in the order of their
positions. -/
def answer (s : Selection) (log : List Event) : Output :=
  let selected := log.filter s.accepts
  match s.columns with
  | .event => .events (s.page.cut selected)
  | .maxSequence => .maxSequence (selected.map Event.sequence).max?
  | .instanceIds => .instanceIds (s.page.cut (sortedDistinct (selected.map (·.aggregate.instanceId))))

end Selection

end EventSourcing
