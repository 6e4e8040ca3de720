import EventSourcing.Proofs.Memory.Matching
import EventSourcing.Proofs.Postgres.Bounds
import EventSourcing.Proofs.Postgres.Committing
import EventSourcing.Proofs.Precedence

/-!
# The PostgreSQL store — what a read asks for

A read hands the numbers of its query to the database as signed columns.  Before it says anything, it makes
sure that they fit, one after another.  What it makes of the rows never blames them.

* `ReadCall.not_refuses_of_dialogue`: a read that has begun does not end for a number of its query.
* `Query.asking`: what a read says to a database that gives these responses; `PooledStore.query_asking` and
  `TransactionStore.query_asking`: a read on a connection says just that.
* `Query.asksInRange`: **a read is refused exactly for the first number that is too large**, and otherwise
  asks for exactly the numbers of the query.
-/

namespace EventSourcing

/-! ### Numbers of a query -/

/-- The first number of a query that is too large for a signed column. -/
def Query.tooLarge? (q : Query) : Option (Quantity × Nat) :=
  q.quantities.find? fun x => Nat.pow 2 63 ≤ x.2

namespace Bounds

/-- The tenant has no number. -/
theorem ofQuery_resolve (q : Query) (ctx : Context) :
    ofQuery (q.resolve ctx) = unlessTooLarge q.quantities (exact q) := by
  obtain ⟨instanceId, h⟩ := q.exists_resolve ctx
  rw [h, ofQuery_eq]
  rfl

end Bounds

/-! ### Rows -/

theorem blameless_toText (v : SqlValue) : Blameless v.toText := by
  cases v <;> rintro e ⟨⟩ <;> exact id

theorem blameless_toJson (v : SqlValue) : Blameless v.toJson := by
  cases v <;> rintro e ⟨⟩ <;> exact id

theorem blameless_sequenceOf (n : Int) : Blameless (sequenceOf n) := by
  rw [sequenceOf]
  split <;> rintro e ⟨⟩
  exact id

theorem blameless_firstValue (rows : List Row) : Blameless (firstValue rows) := by
  cases rows <;> rintro e ⟨⟩
  exact id

theorem blameless_firstInteger (rows : List Row) : Blameless (firstInteger rows) :=
  (blameless_firstValue rows).bind blameless_toInteger

theorem blameless_textColumn (rows : List Row) : Blameless (textColumn rows) :=
  .mapM (fun _ => blameless_toText _) rows

/-- Whatever is wrong with a row, the fault is that of the database. -/
theorem blameless_ofRow (row : TableRow) : Blameless (Event.ofRow row) := by
  rw [Event.ofRow]
  iterate 5 refine (blameless_toText _).bind fun _ => ?_
  iterate 2 refine (blameless_toInteger _).bind fun _ => ?_
  refine (blameless_toInstant _).bind fun _ => (blameless_toText _).bind fun _ => ?_
  refine (blameless_toJson _).bind fun _ => (blameless_sequenceOf _).bind fun _ => ?_
  exact (blameless_positionOf _).bind fun _ => blameless_ok _

/-- The output that the rows of a selection make. -/
theorem blameless_ofRows (columns : Columns) (rows : List Row) : Blameless (Output.ofRows columns rows) := by
  cases columns with
  | event => exact (Blameless.mapM (fun _ => blameless_ofRow _) rows).map _
  | instanceIds => exact (blameless_textColumn rows).map _
  | maxSequence =>
      refine (blameless_firstValue rows).bind fun value => ?_
      split
      · exact blameless_ok _
      · exact (blameless_toInteger _).bind fun n => (blameless_sequenceOf n).bind fun _ => blameless_ok _

/-! ### Reads that have begun -/

namespace ReadCall

/-- A read that has not ended for what it has asked. -/
def Unrefused (c : ReadCall) : Prop :=
  ∀ e, c.phase = .ended (.error e) → ¬ Refuses e

/-- No response makes a read refuse. -/
theorem unrefused_resume {α : Type} (c : ReadCall) {use : List Row → Except PostgresError α}
    (huse : ∀ rows, Blameless (use rows)) {next : α → ReadPhase}
    (hnext : ∀ a e, next a ≠ .ended (.error e)) (r : Response) : (c.resume use next r).Unrefused := by
  rw [resume]
  split
  · rename_i e he
    rintro _ ⟨⟩
    rcases Response.read_eq_error_iff.mp he with hrows | ⟨rows, fault, -, hfault, rfl⟩
    · exact PushCall.not_refuses_of_rows hrows
    · exact huse rows fault hfault
  · exact fun e he => absurd he (hnext _ e)

/-- From one statement to the next a read stays unrefused. -/
theorem unrefused_next (c : ReadCall) (s : Statement) (resume : Response → ReadCall)
    (hs : Procedure.step c = .sent s resume) (r : Response) : (resume r).Unrefused := by
  replace hs : c.step = .sent s resume := hs
  rw [step] at hs
  split at hs
  · cases hs
    refine unrefused_resume c blameless_textColumn (fun ids e => ?_) r
    split
    · exact afterWait_ne_ended _ _ _
    · rintro ⟨⟩
  · cases hs
    refine unrefused_resume c blameless_firstInteger (fun n e => ?_) r
    split
    · exact afterWait_ne_ended _ _ _
    · rintro ⟨⟩
  · cases hs
    exact unrefused_resume c blameless_firstInteger (fun n e => by rintro ⟨⟩) r
  · cases hs
    exact unrefused_resume c (blameless_ofRows _) (fun output e => by rintro ⟨⟩) r
  · cases hs

/-- A read that is about to begin has not refused. -/
theorem unrefused_start (q : Query) (b : Bounds) : (start q b).Unrefused := by
  intro e he
  rw [start] at he
  dsimp only at he
  split at he
  · cases he
  · exact absurd he (afterWait_ne_ended _ _ _)

/-- **A read that has begun does not end for a number of its query**, whatever the database responds. -/
theorem not_refuses_of_dialogue {q : Query} {b : Bounds} {rs : List Response} {e : StoreError PostgresError}
    (h : (Procedure.dialogue (start q b) rs).outcome = some (.error e)) : ¬ Refuses e := by
  obtain ⟨c, hc, hs⟩ := Procedure.exists_ended Unrefused
    (fun c s resume _ hs r => unrefused_next c s resume hs r) (unrefused_start q b) h
  replace hs : c.step = .ended (.error e) := hs
  rw [step] at hs
  split at hs
  all_goals cases hs
  exact hc e ‹_›

end ReadCall

/-! ### Asking -/

namespace Query

variable {q : Query} {ctx : Context} {reached : Except (StoreError PostgresError) Unit}

/-- What a read says to a database that gives these responses, and what it comes to, where the database
may not be `reached`.  Before it says anything, it looks for an interruption and at the numbers of the
query. -/
def asking (q : Query) (ctx : Context) (reached : Except (StoreError PostgresError) Unit)
    (rs : List Response) : Dialogue (Except (StoreError PostgresError) Output) :=
  match (do let admitted ← q.admitted ctx; reached; return admitted) with
  | .error e => { outcome := some (.error e) }
  | .ok (q, b) => Procedure.dialogue (ReadCall.start q b) rs

/-- A read that is not interrupted is admitted with its numbers, unless one of them is too large. -/
theorem admitted_eq (hctx : ctx.interruption? = none) (q : Query) :
    q.admitted ctx = match q.tooLarge? with
      | some (quantity, n) => .error (.backend (.outOfRange quantity n))
      | none => .ok (q.resolve ctx, Bounds.exact q) := by
  have hbounds : q.admitted ctx =
      ((Bounds.ofQuery (q.resolve ctx)).mapError .backend).map fun b => (q.resolve ctx, b) := by
    simp only [admitted, Context.check, hctx]
    rfl
  rw [hbounds, Bounds.ofQuery_resolve, Bounds.unlessTooLarge, tooLarge?]
  cases q.quantities.find? _ <;> rfl

/-- How a read treats the numbers of its query. -/
structure AsksInRange (q : Query) (ctx : Context) (reached : Except (StoreError PostgresError) Unit) :
    Prop where
  refused_iff : ∀ rs quantity n,
    (q.asking ctx reached rs).outcome = some (.error (.backend (.outOfRange quantity n))) ↔
      q.tooLarge? = some (quantity, n)
  /-- Nothing is said then. -/
  refused : ∀ quantity n, q.tooLarge? = some (quantity, n) → ∀ rs,
    q.asking ctx reached rs = { outcome := some (.error (.backend (.outOfRange quantity n))) }
  bounds : q.tooLarge? = none → Bounds.ofQuery (q.resolve ctx) = .ok (Bounds.exact q)
  /-- And these bounds are what the read asks with. -/
  asked : q.tooLarge? = none → reached = .ok () → ∀ rs,
    q.asking ctx reached rs = Procedure.dialogue (ReadCall.start (q.resolve ctx) (Bounds.exact q)) rs

/-- **A read is refused exactly for the first number that is too large**, before it says anything.
Otherwise it asks with exactly the numbers of its query. -/
theorem asksInRange (hctx : ctx.interruption? = none) (hreached : ∀ e, reached = .error e → ¬ Refuses e)
    (q : Query) : q.AsksInRange ctx reached := by
  have hadmitted := q.admitted_eq hctx
  have hrefused (quantity : Quantity) (n : Nat) (h : q.tooLarge? = some (quantity, n))
      (rs : List Response) :
      q.asking ctx reached rs = { outcome := some (.error (.backend (.outOfRange quantity n))) } := by
    rw [asking, hadmitted, h]
    rfl
  have hasked (h : q.tooLarge? = none) (hr : reached = .ok ()) (rs : List Response) :
      q.asking ctx reached rs =
        Procedure.dialogue (ReadCall.start (q.resolve ctx) (Bounds.exact q)) rs := by
    rw [asking, hadmitted, h, hr]
    rfl
  refine ⟨fun rs quantity n => ⟨fun houtcome => ?_, fun h => by rw [hrefused quantity n h]⟩, hrefused,
    fun h => ?_, hasked⟩
  · cases h : q.tooLarge? with
    | some x =>
        rw [hrefused x.1 x.2 h] at houtcome
        cases houtcome
        rfl
    | none =>
        -- neither the way to the database nor the database itself looks at the numbers
        exfalso
        cases hr : reached with
        | error e =>
            rw [asking, hadmitted, h, hr] at houtcome
            cases houtcome
            exact hreached _ hr trivial
        | ok _ =>
            rw [hasked h hr] at houtcome
            exact ReadCall.not_refuses_of_dialogue houtcome trivial
  · rw [tooLarge?] at h
    rw [Bounds.ofQuery_resolve, Bounds.unlessTooLarge, h]

end Query

/-! ### On a connection -/

/-- A network that is down is no refusal. -/
theorem PooledStore.not_refuses_of_acquire (p : PooledStore) (e : StoreError PostgresError)
    (h : p.acquire = .error e) : ¬ Refuses e := by
  obtain ⟨fault, -, rfl⟩ := mapError_eq_error.mp h
  exact id

/-- **A read from a pool** says what it asks, for the responses that the scripted database gives. -/
theorem PooledStore.query_asking (p : PooledStore) (ctx : Context) (q : Query) :
    ∃ rs, rs = p.connection.responses ctx (q.asking ctx p.acquire rs).statements ∧
      (q.asking ctx p.acquire rs).outcome = some (p.query ctx q).1 ∧
      (p.query ctx q).2 =
        { p with connection := p.connection.sendAll ctx (q.asking ctx p.acquire rs).statements } := by
  simp only [Query.asking, query]
  cases (do let admitted ← q.admitted ctx; p.acquire; return admitted) with
  | error e => exact ⟨[], rfl, rfl, rfl⟩
  | ok admitted =>
      obtain ⟨q', b⟩ := admitted
      obtain ⟨rs, hresponses, houtcome, hend⟩ := p.connection.run_dialogue ctx (ReadCall.start q' b)
      exact ⟨rs, hresponses, houtcome, congrArg (fun connection => { p with connection }) hend⟩

/-- **So does a read in a transaction**, which has reached the database. -/
theorem TransactionStore.query_asking (t : TransactionStore) (ctx : Context) (q : Query) :
    ∃ rs, rs = t.connection.responses ctx (q.asking ctx (.ok ()) rs).statements ∧
      (q.asking ctx (.ok ()) rs).outcome = some (t.query ctx q).1 ∧
      (t.query ctx q).2 =
        { connection := t.connection.sendAll ctx (q.asking ctx (.ok ()) rs).statements } := by
  simp only [Query.asking, query]
  cases q.admitted ctx with
  | error e => exact ⟨[], rfl, rfl, rfl⟩
  | ok admitted =>
      obtain ⟨q', b⟩ := admitted
      obtain ⟨rs, hresponses, houtcome, hend⟩ := t.connection.run_dialogue ctx (ReadCall.start q' b)
      exact ⟨rs, hresponses, houtcome, congrArg TransactionStore.mk hend⟩

end EventSourcing
