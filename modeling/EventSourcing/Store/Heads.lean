import EventSourcing.Command
import EventSourcing.Conflict
import EventSourcing.Context

/-!
# Heads of streams

What a push is checked against: the head of every stream before the batch.  Every store scopes a batch
to the caller's tenant before it looks at the heads, and then compares the expected sequences in the
order of the commands.
-/

namespace EventSourcing

/-- The commands of a batch with their aggregates scoped to the caller's tenant. -/
def Batch.scoped (b : Batch) (ctx : Context) : Batch :=
  b.map fun c => { c with aggregate := ctx.scope c.aggregate }

theorem Batch.toList_scoped (b : Batch) (ctx : Context) :
    (b.scoped ctx).toList = b.toList.map fun c => { c with aggregate := ctx.scope c.aggregate } := rfl

/-- The heads of the streams that have events. -/
abbrev Heads := Stream → Option Nat

namespace Heads

/-- The head of a stream, `0` where it has no events. -/
def head (h : Heads) (s : Stream) : Nat :=
  (h s).getD 0

/-- The heads with that of one stream put to `n`. -/
def set (h : Heads) (s : Stream) (n : Nat) : Heads :=
  fun t => if t = s then some n else h t

/-- The first command that expects another head than its stream has. -/
def conflict? (h : Heads) (commands : List Command) : Option Conflict :=
  commands.findSome? fun c =>
    match c.sequence with
    | none => none
    | some expected =>
      let actual := h.head c.stream
      if expected = actual then none
      else some ⟨c.aggregate.type, c.aggregate.id, expected, actual⟩

end Heads

end EventSourcing
