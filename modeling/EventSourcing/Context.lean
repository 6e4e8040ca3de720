import EventSourcing.Aggregate

/-!
# Contexts

Every store call is made in a context.  It names the tenant on whose behalf the call is made, which
scopes commands and queries that name none themselves, and holds the two signals that interrupt a
call: cancellation, and a deadline that has passed.  Cancellation is reported before the deadline.
-/

namespace EventSourcing

/-- Where the deadline of a call lies. -/
inductive Deadline where
  | passed
  | ahead
deriving DecidableEq, Repr

/-- What ends a call early. -/
inductive Interruption where
  | cancelled
  | deadlineExceeded
deriving DecidableEq, Repr

/-- The circumstances of one store call. -/
structure Context where
  /-- The caller's tenant. -/
  instanceId : Option String := none
  cancelled : Bool := false
  deadline : Option Deadline := none
deriving DecidableEq, Repr, Inhabited

namespace Context

/-- A context that acts on behalf of a tenant. -/
def forInstance (instanceId : String) : Context where
  instanceId := some instanceId

/-- What interrupts a call that looks now. -/
def interruption? (ctx : Context) : Option Interruption :=
  if ctx.cancelled then some .cancelled
  else if ctx.deadline = some .passed then some .deadlineExceeded
  else none

/-- Gives an aggregate the caller's tenant, unless it names one itself. -/
def scope (ctx : Context) (a : Aggregate) : Aggregate :=
  match ctx.instanceId with
  | some instanceId => if a.instanceId = "" then { a with instanceId } else a
  | none => a

/-! ### Interruptions -/

section Interruptions

variable {ctx : Context}

/-- A call that is cancelled is so, even past its deadline. -/
theorem interruption?_of_cancelled (h : ctx.cancelled = true) : ctx.interruption? = some .cancelled :=
  if_pos h

/-- Past its deadline, a call that is not cancelled is late. -/
theorem interruption?_of_late (hc : ctx.cancelled = false) (hd : ctx.deadline = some .passed) :
    ctx.interruption? = some .deadlineExceeded := by
  rw [interruption?, hc, hd]
  rfl

/-- What goes on is neither cancelled nor late. -/
theorem interruption?_eq_none_iff :
    ctx.interruption? = none ↔ ctx.cancelled = false ∧ ctx.deadline ≠ some .passed := by
  rw [interruption?]
  cases ctx.cancelled with
  | true => simp
  | false => by_cases hd : ctx.deadline = some .passed <;> simp [hd]

end Interruptions

/-! ### Scoping -/

section Scoping

variable (ctx : Context) (a : Aggregate)

/-- Scoping touches nothing but the tenant. -/
theorem scope_eq_inInstance : ctx.scope a = a.inInstance (ctx.scope a).instanceId := by
  rw [scope]
  split
  · split <;> rfl
  · rfl

@[simp] theorem type_scope : (ctx.scope a).type = a.type := by
  rw [scope_eq_inInstance]
  rfl

@[simp] theorem id_scope : (ctx.scope a).id = a.id := by
  rw [scope_eq_inInstance]
  rfl

@[simp] theorem resourceOwner_scope : (ctx.scope a).resourceOwner = a.resourceOwner := by
  rw [scope_eq_inInstance]
  rfl

end Scoping

end Context

end EventSourcing
