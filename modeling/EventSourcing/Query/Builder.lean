import EventSourcing.Query.Basic

/-!
# Building queries

A query is built by a series of calls.  A setting of the query is made while no branch is open, a
setting of a branch while one is; opening, moving on to the next branch and closing lead from one to
the other.  `Draft.call` answers `none` for a call that has no meaning where it stands.  A branch joins
the query when it is closed, at the latest by `Draft.build`.

The first instants of 1970 and of the year 1 stand for "not set": a creation date bound given by one
of them is passed over.
-/

namespace EventSourcing

/-- A setting of the query itself. -/
inductive Setting where
  | columns (c : Columns)
  | limit (n : Nat)
  | offset (n : Nat)
  | order (desc : Bool)
  | resourceOwner (s : String)
  | instanceId (s : String)
  | editorUser (s : String)
  | allowTimeTravel
  | asOfPosition (n : Nat)
  | positionAfter (n : Nat)
  | awaitOpenTransactions
  | sequenceGreater (n : Nat)
  | creationDateAfter (t : Instant)
  | creationDateBefore (t : Instant)
deriving DecidableEq

/-- A setting of the open branch. -/
inductive BranchSetting where
  | aggregateTypes (l : List AggregateType)
  | aggregateIds (l : List String)
  | eventTypes (l : List EventType)
  | data (f : DataFilter)
deriving DecidableEq

/-- Whether an instant stands for "not set": any instant of the first second of 1970, and the first
instant of the year 1. -/
def Instant.isUnset (t : Instant) : Bool :=
  t.second = 0 || (t.second = Instant.zero.second && t.nano = 0)

/-- All instants of the first second of 1970 count as "not set", and the first of the year 1. -/
theorem Instant.isUnset_eq_true_iff {t : Instant} : t.isUnset = true ↔ t.second = 0 ∨ t = .zero := by
  simp only [isUnset, Bool.or_eq_true, Bool.and_eq_true, decide_eq_true_eq]
  refine or_congr_right ⟨fun h => Instant.ext h.1 h.2, ?_⟩
  rintro rfl
  exact ⟨rfl, rfl⟩

/-- The query with one setting made. -/
def Query.set (q : Query) : Setting → Query
  | .columns c => { q with columns := c }
  | .limit n => { q with limit := n }
  | .offset n => { q with offset := n }
  | .order desc => { q with desc := desc }
  | .resourceOwner s => { q with resourceOwner := s }
  | .instanceId s => { q with instanceId := some s }
  | .editorUser s => { q with editorUser := s }
  | .allowTimeTravel => { q with allowTimeTravel := true }
  | .asOfPosition n => { q with allowTimeTravel := true, asOfPosition := some n }
  | .positionAfter n => { q with positionAfter := some n }
  | .awaitOpenTransactions => { q with awaitOpenTransactions := true }
  | .sequenceGreater n => { q with sequenceGreater := n }
  | .creationDateAfter t => if t.isUnset then q else { q with creationDateAfter := some t }
  | .creationDateBefore t => if t.isUnset then q else { q with creationDateBefore := some t }

namespace Query

/-! A bound on creation dates overwrites the one before it, unless it is passed over. -/

theorem set_creationDateAfter (q : Query) (t : Instant) : q.set (.creationDateAfter t) =
    { q with creationDateAfter := if t.isUnset then q.creationDateAfter else some t } := by
  rw [set]
  split <;> rfl

theorem set_creationDateBefore (q : Query) (t : Instant) : q.set (.creationDateBefore t) =
    { q with creationDateBefore := if t.isUnset then q.creationDateBefore else some t } := by
  rw [set]
  split <;> rfl

end Query

/-- The branch with one setting made. -/
def Branch.set (b : Branch) : BranchSetting → Branch
  | .aggregateTypes l => { b with aggregateTypes := l }
  | .aggregateIds l => { b with aggregateIds := l }
  | .eventTypes l => { b with eventTypes := l }
  | .data f => { b with data := some f }

/-- One step in building a query. -/
inductive Call where
  /-- Makes a setting of the query. -/
  | set (s : Setting)
  /-- Opens a branch. -/
  | addBranch
  /-- Makes a setting of the open branch. -/
  | restrict (s : BranchSetting)
  /-- Closes the open branch and opens the next. -/
  | or
  /-- Closes the open branch. -/
  | close
deriving DecidableEq

/-- A query that is being built, with the branch that is open. -/
structure Draft where
  query : Query := {}
  branch : Option Branch := none
deriving DecidableEq, Inhabited

namespace Draft

/-- The draft with its open branch joined to the query. -/
def close (d : Draft) : Draft :=
  match d.branch with
  | some b => { query := { d.query with branches := d.query.branches ++ [b] }, branch := none }
  | none => d

/-- The draft after a call, or `none` where the call has no meaning. -/
def call (d : Draft) (c : Call) : Option Draft :=
  match d.branch, c with
  | none, .set s => some { d with query := d.query.set s }
  | none, .addBranch => some { d with branch := some {} }
  | some b, .restrict s => some { d with branch := some (b.set s) }
  | some _, .or => some { d.close with branch := some {} }
  | some _, .close => some d.close
  | _, _ => none

/-- The draft after a series of calls. -/
def run (d : Draft) (calls : List Call) : Option Draft :=
  calls.foldlM call d

/-- The finished query. -/
def build (d : Draft) : Query :=
  d.close.query

/-- A draft of a query for these columns. -/
def ofColumns (c : Columns) : Draft where
  query := { columns := c }

end Draft

end EventSourcing
