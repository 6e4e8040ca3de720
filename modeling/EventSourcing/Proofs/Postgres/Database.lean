import Mathlib.Data.List.Basic
import Mathlib.Logic.Function.Basic
import Mathlib.Logic.Relation
import EventSourcing.Postgres.Store

/-!
# The PostgreSQL store — many pushes on one database

Any number of pooled pushes, each over a connection of its own, reach one database.  Their statements
come in any order; any statement may fail, any answer may be lost, and any push may be given up.

All that is taken from PostgreSQL is said here.  The lock that pushes queue for belongs to one
transaction until that transaction ends.  A statement sees what was committed before it, and what its own
transaction has inserted.  Positions come from a counter that never goes back, and an insertion draws
them in the order of its values.  A commit publishes all rows of its transaction at once.

* `Database.Performs`: what a statement does to the database, and what it answers.
* `World.Step`: what may happen next.
* `Database.Performs.spares`: a statement of one transaction leaves the others as they are, and publishes
  nothing while another has the lock.
-/

namespace EventSourcing

/-! ### Rows -/

/-- The rows of one stream. -/
def rowsOf (rows : List Event) (s : Stream) : List Event :=
  rows.filter fun e => e.stream = s

/-- The highest sequence in a stream, `0` where it has no rows. -/
def headIn (rows : List Event) (s : Stream) : Nat :=
  ((rowsOf rows s).map Event.sequence).max?.getD 0

/-- The row has the values that an insertion gives it. -/
def Staged.Fills (s : Staged) (e : Event) : Prop :=
  Column.inserted.map e.row = s.values

/-! ### The database -/

/-- The table of events, in the sight of transactions that write to it. -/
structure Database (ι : Type) where
  /-- The rows that everyone sees, in the order in which they were published. -/
  committed : List Event := []
  /-- The last position drawn. -/
  drawn : Nat := 0
  /-- Whose transaction holds the lock that pushes queue for. -/
  holder : Option ι := none
  /-- The rows that each open transaction has inserted. -/
  transactions : ι → Option (List Event) := fun _ => none

namespace Database

variable {ι : Type}

/-- The heads of the streams, as everyone sees them. -/
def heads (d : Database ι) : Heads :=
  fun s => some (headIn d.committed s)

theorem head_heads (d : Database ι) (s : Stream) : d.heads.head s = headIn d.committed s := rfl

/-- What is committed determines the heads. -/
theorem heads_congr {d d' : Database ι} (h : d'.committed = d.committed) : d'.heads = d.heads :=
  funext fun s => congrArg (fun rows => some (headIn rows s)) h

variable [DecidableEq ι]

/-- The database with these rows in the transaction of `i`, or without that transaction. -/
def setTransaction (d : Database ι) (i : ι) (own : Option (List Event)) : Database ι :=
  { d with transactions := Function.update d.transactions i own }

theorem transactions_setTransaction_self (d : Database ι) (i : ι) (own : Option (List Event)) :
    (d.setTransaction i own).transactions i = own := by
  simp [setTransaction]

theorem transactions_setTransaction_other {i j : ι} (d : Database ι) (hne : j ≠ i)
    (own : Option (List Event)) : (d.setTransaction i own).transactions j = d.transactions j := by
  simp [setTransaction, hne]

/-- The transaction is over: its rows are gone, and its lock is free. -/
def close (d : Database ι) (i : ι) : Database ι :=
  { d.setTransaction i none with holder := d.holder.filter (· ≠ i) }

/-- In the session of `i`, the statement gives these rows and leaves that database.  A statement that
cannot be performed, such as taking a lock that another transaction has, is performed later or fails. -/
inductive Performs (i : ι) : Statement → List Row → Database ι → Database ι → Prop where
  | start {d : Database ι} {rows : List Row} (hclosed : d.transactions i = none) :
      Performs i (.control .start false) rows d (d.setTransaction i (some []))
  | lock {d : Database ι} {rows : List Row} {own : List Event} (hopen : d.transactions i = some own)
      (hfree : d.holder = none ∨ d.holder = some i) :
      Performs i .lock rows d { d with holder := some i }
  | head {d : Database ι} {own : List Event} (hopen : d.transactions i = some own) (s : Stream) :
      Performs i (.head s) [[.integer (headIn (d.committed ++ own) s)]] d d
  /-- The new rows are given back in any order. -/
  | insert {d : Database ι} {rows : List Row} {own new : List Event} {staged : List Staged}
      {drawn : Nat} (hopen : d.transactions i = some own) (hfills : List.Forall₂ Staged.Fills staged new)
      (hascend : new.Pairwise fun e f => e.position < f.position)
      (hdrawn : ∀ e ∈ new, d.drawn < e.position ∧ e.position ≤ drawn) (hle : d.drawn ≤ drawn)
      (hrows : rows.Perm (new.map fun e => Column.generated.map e.row)) :
      Performs i (.insert staged) rows d
        { d.setTransaction i (some (own ++ new)) with drawn }
  | commit {d : Database ι} {rows : List Row} {own : List Event}
      (hopen : d.transactions i = some own) :
      Performs i (.control .commit false) rows d
        { d.close i with committed := d.committed ++ own }
  | rollback (d : Database ι) (rows : List Row) :
      Performs i (.control .rollback false) rows d (d.close i)

/-! ### What a statement leaves as it is -/

/-- The transaction of `i` is as it was.  While it has the lock, it keeps the lock, and nothing is
published. -/
structure Spares (i : ι) (d d' : Database ι) : Prop where
  transaction : d'.transactions i = d.transactions i
  holder : d.holder = some i → d'.holder = some i
  committed : d.holder = some i → d'.committed = d.committed

variable {d d' : Database ι} {i j : ι} {s : Statement} {rows : List Row}

/-- Closing a transaction leaves all others alone. -/
theorem spares_close (hne : j ≠ i) : Spares j d (d.close i) where
  transaction := d.transactions_setTransaction_other hne none
  holder h := by
    show d.holder.filter (· ≠ i) = some j
    rw [h]
    exact Option.filter_some_pos (decide_eq_true hne)
  committed _ := rfl

/-- Only the transaction that has the lock may be committed; then the others are as they were. -/
theorem Performs.spares (h : d.Performs i s rows d') (hne : j ≠ i)
    (hcommit : s = .control .commit false → d.holder = some i) : Spares j d d' := by
  cases h with
  | start hclosed => exact ⟨d.transactions_setTransaction_other hne _, id, fun _ => rfl⟩
  | lock hopen hfree =>
      refine ⟨rfl, fun hj => ?_, fun _ => rfl⟩
      rw [hj] at hfree
      rcases hfree with h | h
      · cases h
      · exact h.symm
  | head hopen s => exact ⟨rfl, id, fun _ => rfl⟩
  | insert hopen hfills hascend hdrawn hle hrows =>
      exact ⟨d.transactions_setTransaction_other hne _, id, fun _ => rfl⟩
  | commit hopen =>
      obtain ⟨htransaction, hholder, -⟩ := spares_close (d := d) hne
      refine ⟨htransaction, hholder, fun hj => ?_⟩
      rw [hcommit rfl] at hj
      exact absurd (Option.some.inj hj).symm hne
  | rollback => exact spares_close hne

/-- Positions are drawn and never given back. -/
theorem Performs.drawn_le (h : d.Performs i s rows d') : d.drawn ≤ d'.drawn := by
  cases h with
  | insert hopen hfills hascend hdrawn hle hrows => exact hle
  | _ => exact Nat.le_refl _

/-- Nothing but a commit publishes rows, and it publishes all of its transaction. -/
theorem Performs.committed (h : d.Performs i s rows d') :
    d'.committed = d.committed ∨ s = .control .commit false ∧
      ∃ own, d.transactions i = some own ∧ d'.committed = d.committed ++ own := by
  cases h with
  | commit hopen => exact .inr ⟨rfl, _, hopen, rfl⟩
  | _ => exact .inl rfl

end Database

/-! ### Pushes on the database -/

/-- A database and the pushes that use it. -/
structure World (ι : Type) where
  database : Database ι := {}
  pushes : ι → PushCall

namespace World

variable {ι : Type} [DecidableEq ι]

/-- The commands of a request, as a pooled push sends them. -/
def commandsOf (request : Context × Batch) : List Command :=
  (request.2.scoped request.1).toList

/-- The table is empty, and no push has said anything. -/
def start (requests : ι → Context × Batch) : World ι where
  pushes i := { commands := commandsOf (requests i) }

/-- The world with another database, in which one push goes on as another. -/
def resume (w : World ι) (d : Database ι) (i : ι) (c : PushCall) : World ι where
  database := d
  pushes := Function.update w.pushes i c

/-- What may happen next. -/
inductive Step : World ι → World ι → Prop where
  /-- A statement is performed.  The push finds its rows, or a fault where they are lost on the way, and
  it may have been interrupted. -/
  | performed {w : World ι} {i : ι} {s : Statement} {next : Response → PushCall} {rows : List Row}
      {d : Database ι} {r : Response} (hsent : Procedure.step (w.pushes i) = .sent s next)
      (hperforms : w.database.Performs i s rows d) (hanswer : ∀ l, r.answer = .ok l → l = rows) :
      Step w (w.resume d i (next r))
  /-- A statement fails.  It has no effect, but a position that it drew is drawn. -/
  | failed {w : World ι} {i : ι} {s : Statement} {next : Response → PushCall} {fault : DatabaseFault}
      {r : Response} {drawn : Nat} (hsent : Procedure.step (w.pushes i) = .sent s next)
      (hanswer : r.answer = .error fault) (hle : w.database.drawn ≤ drawn) :
      Step w (w.resume { w.database with drawn } i (next r))
  /-- A push is given up between two statements. -/
  | dropped {w : World ι} {i : ι} {s : Statement} {next : Response → PushCall}
      (e : StoreError PostgresError) (hsent : Procedure.step (w.pushes i) = .sent s next) :
      Step w (w.resume w.database i ((w.pushes i).abandon e))
  /-- A push that ended with its transaction open has it rolled back. -/
  | closed {w : World ι} {i : ι} {e : PushEnd} {rows : List Row} {d : Database ι}
      (hended : Procedure.step (w.pushes i) = .ended e) (hopen : e.isOpen = true)
      (hperforms : w.database.Performs i (.control .rollback false) rows d) :
      Step w { w with database := d }
  /-- The database ends a transaction on its own. -/
  | aborted {w : World ι} (i : ι) : Step w { w with database := w.database.close i }

/-- The world can come about when these requests are pushed at once. -/
def Reachable (requests : ι → Context × Batch) (w : World ι) : Prop :=
  Relation.ReflTransGen Step (start requests) w

end World

end EventSourcing
