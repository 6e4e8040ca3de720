import EventSourcing.Postgres.Script

/-!
# Connections

A connection carries procedures to a scripted database and notes every statement the database
receives.  A rollback that is owed goes out before the next statement.
-/

namespace EventSourcing

/-- A connection to a scripted database. -/
structure Connection where
  script : Script := {}
  /-- Whether the script has cancelled the call. -/
  cancelled : Bool := false
  /-- The statements received, in their order. -/
  received : List Statement := []
  /-- A statement that goes out before the next one. -/
  owed : Option Statement := none
deriving DecidableEq

instance : Inhabited Connection := ⟨{}⟩

namespace Connection

/-- The connection ready for a call under a new script. -/
def prepare (c : Connection) (script : Script) : Connection :=
  { c with script, cancelled := false, received := [] }

/-- Lets the database receive a statement. -/
def receive (s : Statement) (c : Connection) : Answer × Connection :=
  let (answer, script) := c.script.answer s
  (answer, { c with
    script
    cancelled := c.cancelled || c.script.cancels s
    received := c.received ++ [s] })

/-- Sends what is owed. -/
def settle (c : Connection) : Connection :=
  match c.owed with
  | some s => (receive s { c with owed := none }).2
  | none => c

/-- What has interrupted a call by now. -/
def interruption? (c : Connection) (ctx : Context) : Option Interruption :=
  { ctx with cancelled := ctx.cancelled || c.cancelled }.interruption?

/-- Sends a statement of a call. -/
def send (ctx : Context) (s : Statement) (c : Connection) : Response × Connection :=
  let (answer, c) := c.settle.receive s
  ({ answer, interruption := c.interruption? ctx }, c)

/-- Sending what is owed adds no replies. -/
theorem length_replies_settle (c : Connection) :
    c.settle.script.replies.length ≤ c.script.replies.length := by
  unfold settle
  split
  · exact Script.length_replies_answer c.script _
  · exact Nat.le_refl _

/-- Nor does sending a statement. -/
theorem length_replies_send (ctx : Context) (s : Statement) (c : Connection) :
    (c.send ctx s).2.script.replies.length ≤ c.script.replies.length :=
  Nat.le_trans (Script.length_replies_answer c.settle.script s) (length_replies_settle c)

/-- A response with a row takes a reply. -/
theorem length_replies_send_lt {ctx : Context} {s : Statement} {c : Connection}
    (h : (c.send ctx s).1.hasRow = true) :
    (c.send ctx s).2.script.replies.length < c.script.replies.length := by
  unfold Response.hasRow at h
  split at h
  · rename_i row rows hr
    exact Nat.lt_of_lt_of_le (Script.length_replies_answer_lt hr) (length_replies_settle c)
  · simp at h

/-- Carries out a procedure to its end. -/
def run {π ρ : Type} [Procedure π ρ] (ctx : Context) (p : π) (c : Connection) : ρ × Connection :=
  match _h : Procedure.step p with
  | .ended result => (result, c)
  | .sent s resume => run ctx (resume (c.send ctx s).1) (c.send ctx s).2
termination_by (c.script.replies.length, Procedure.rank p)
decreasing_by
  have hle := length_replies_send ctx s c
  rcases Procedure.rank_resume _h (c.send ctx s).1 with hr | ⟨-, hr⟩
  · rcases Nat.lt_or_eq_of_le hle with hlt | heq
    · exact Prod.Lex.left _ _ hlt
    · rw [heq]; exact Prod.Lex.right _ hr
  · exact Prod.Lex.left _ _ (length_replies_send_lt hr)

end Connection

end EventSourcing
