import EventSourcing.Proofs.Ledger.Batches
import EventSourcing.Proofs.Memory.Runs

/-!
# The store in memory — decisions on pushes

A push is decided before anything is written.  An interruption comes first, then the expectations in the
order of the commands, each against its stream as it is before the batch.

* `conflict?_scoped_eq_none_iff`, `conflict?_scoped_iff`: the conflict that is reported is that of the first
  command that misjudges its stream, and there is none where no command does.
* `push_decides`: **a push is decided exactly**.  It fails for no other reason than an interruption or a
  misjudged stream, a failure leaves the ledger as it is, and otherwise the ledger is extended by the events
  of the batch.
-/

namespace EventSourcing

/-- The command expects another sequence than that of the last event of its stream. -/
def Command.Misjudges (c : Command) (ctx : Context) (l : Ledger) : Prop :=
  ∃ n, c.sequence = some n ∧ n ≠ l.lastSequence (ctx.scope c.aggregate).stream

instance (c : Command) (ctx : Context) (l : Ledger) : Decidable (c.Misjudges ctx l) :=
  decidable_of_iff (∃ n ∈ c.sequence, n ≠ l.lastSequence (ctx.scope c.aggregate).stream) Iff.rfl

/-- The conflict is that of the first command of the batch that misjudges its stream. -/
def Batch.Meets (b : Batch) (ctx : Context) (l : Ledger) (conflict : Conflict) : Prop :=
  ∃ before c after n, b.toList = before ++ c :: after ∧ (∀ d ∈ before, ¬ d.Misjudges ctx l) ∧
    c.sequence = some n ∧ n ≠ l.lastSequence (ctx.scope c.aggregate).stream ∧
    conflict = ⟨c.aggregate.type, c.aggregate.id, n, l.lastSequence (ctx.scope c.aggregate).stream⟩

/-! ### Expectations -/

namespace Ledger.Consistent

variable {l : Ledger} (h : l.Consistent) (ctx : Context)

include h

/-- No command is in conflict exactly if none misjudges its stream. -/
theorem conflict?_scoped_eq_none_iff (commands : List Command) :
    l.heads.conflict? (commands.map fun c => { c with aggregate := ctx.scope c.aggregate }) = none ↔
      ∀ c ∈ commands, ¬ c.Misjudges ctx l := by
  rw [Heads.conflict?_eq_none_iff, List.forall_mem_map]
  refine forall_congr' fun c => forall_congr' fun _ => ?_
  rw [Command.Misjudges, not_exists]
  refine forall_congr' fun n => ?_
  rw [not_and, not_not, ← h.head_eq_lastSequence]
  rfl

/-- The conflict of a scoped command names the aggregate as the command does. -/
theorem conflict_scoped (c : Command) (n : Nat) :
    (⟨(ctx.scope c.aggregate).type, (ctx.scope c.aggregate).id, n,
        l.heads.head (ctx.scope c.aggregate).stream⟩ : Conflict) =
      ⟨c.aggregate.type, c.aggregate.id, n, l.lastSequence (ctx.scope c.aggregate).stream⟩ := by
  rw [h.head_eq_lastSequence, Context.type_scope, Context.id_scope]

/-- The conflict that is reported is that of the first command that misjudges its stream. -/
theorem conflict?_scoped_iff (b : Batch) (conflict : Conflict) :
    l.heads.conflict? (b.scoped ctx).toList = some conflict ↔ b.Meets ctx l conflict := by
  rw [Heads.conflict?_eq_some_iff, Batch.toList_scoped]
  constructor
  · rintro ⟨before', c', after', n, hsplit, hbefore, hn, hne, rfl⟩
    obtain ⟨before, rest, hb, rfl, hrest⟩ := List.map_eq_append_iff.mp hsplit
    obtain ⟨c, after, rfl, rfl, rfl⟩ := List.map_eq_cons_iff.mp hrest
    refine ⟨before, c, after, n, hb, (h.conflict?_scoped_eq_none_iff ctx before).mp hbefore, hn, ?_,
      h.conflict_scoped ctx c n⟩
    rw [← h.head_eq_lastSequence]
    exact hne
  · rintro ⟨before, c, after, n, hb, hbefore, hn, hne, rfl⟩
    refine ⟨before.map _, { c with aggregate := ctx.scope c.aggregate }, after.map _, n,
      by rw [hb, List.map_append, List.map_cons],
      (h.conflict?_scoped_eq_none_iff ctx before).mpr hbefore, hn, ?_, (h.conflict_scoped ctx c n).symm⟩
    rw [← h.head_eq_lastSequence] at hne
    exact hne

end Ledger.Consistent

/-! ### Pushes -/

namespace Memory

/-- A push of the batch to this store is decided exactly. -/
structure Decides (m : Memory) (ctx : Context) (b : Batch) : Prop where
  cancelled : ctx.cancelled = true → (m.push ctx b).1 = .error .cancelled
  late : ctx.cancelled = false → ctx.deadline = some .passed →
    (m.push ctx b).1 = .error .deadlineExceeded
  /-- Whatever fails without an interruption is in conflict, and only then. -/
  refused : ctx.cancelled = false → ctx.deadline ≠ some .passed →
    ((∃ conflict, (m.push ctx b).1 = .error (.conflict conflict)) ↔
      ∃ c ∈ b.toList, c.Misjudges ctx m.ledger)
  first : ctx.cancelled = false → ctx.deadline ≠ some .passed →
    ∀ conflict, (m.push ctx b).1 = .error (.conflict conflict) ↔ b.Meets ctx m.ledger conflict
  /-- No failure touches the log, a head, the last position or the last date. -/
  unchanged : ∀ e, (m.push ctx b).1 = .error e → (m.push ctx b).2.ledger = m.ledger
  accepted : ctx.cancelled = false → ctx.deadline ≠ some .passed →
    (∀ c ∈ b.toList, ¬ c.Misjudges ctx m.ledger) →
    ∃ events, (m.push ctx b).1 = .ok events ∧
      m.ledger.ExtendedBy ctx b m.clock.next events (m.push ctx b).2.ledger

/-- Without an interruption a push fails exactly with the conflict of its batch. -/
theorem push_conflict_iff {ctx : Context} (hi : ctx.interruption? = none) (b : Batch) (m : Memory)
    (conflict : Conflict) :
    (m.push ctx b).1 = .error (.conflict conflict) ↔
      m.ledger.heads.conflict? (b.scoped ctx).toList = some conflict := by
  cases hc : m.ledger.heads.conflict? (b.scoped ctx).toList with
  | none => rw [push_accepted hi hc]; simp
  | some k => rw [push_refused hi hc]; simp

/-- **A push is decided exactly**, in every store that began empty, whatever its clock says. -/
theorem push_decides {m : Memory} (h : m.Reachable) (ctx : Context) (b : Batch) : m.Decides ctx b where
  cancelled hc := by
    rw [push_interrupted (Context.interruption?_of_cancelled hc)]
    rfl
  late hc hd := by
    rw [push_interrupted (Context.interruption?_of_late hc hd)]
    rfl
  refused hc hd := by
    have hi := Context.interruption?_eq_none_iff.mpr ⟨hc, hd⟩
    have hnone := h.consistent.conflict?_scoped_eq_none_iff ctx b.toList
    calc (∃ conflict, (m.push ctx b).1 = .error (.conflict conflict))
        ↔ ∃ conflict, m.ledger.heads.conflict? (b.scoped ctx).toList = some conflict :=
          exists_congr (push_conflict_iff hi b m)
      _ ↔ ¬ ∀ c ∈ b.toList, ¬ c.Misjudges ctx m.ledger :=
          Option.ne_none_iff_exists'.symm.trans (not_congr hnone)
      _ ↔ ∃ c ∈ b.toList, c.Misjudges ctx m.ledger := by simp only [not_forall, not_not, exists_prop]
  first hc hd conflict := by
    rw [push_conflict_iff (Context.interruption?_eq_none_iff.mpr ⟨hc, hd⟩)]
    exact h.consistent.conflict?_scoped_iff ctx b conflict
  unchanged _ he := (push_error he).1
  accepted hc hd hall := by
    have hnone := (h.consistent.conflict?_scoped_eq_none_iff ctx b.toList).mpr hall
    rw [push_accepted (Context.interruption?_eq_none_iff.mpr ⟨hc, hd⟩) hnone]
    exact ⟨_, rfl, h.consistent.extendedBy_appendAll ctx b m.clock.next⟩

/-! ### Mixed batches -/

/-- A command on a user that is owned by an organisation. -/
def userCommand (id : String) (type : EventType) : Command where
  aggregate := { type := "user", id, resourceOwner := "org-1" }
  type
  editorUser := "admin"

/-- A store with one event, whose clock has gone back since. -/
def oneUser : Memory :=
  ({ clock := ⟨.unixEpoch, [.zero]⟩ } : Memory).acts
    [.push (.forInstance "t1") ⟨userCommand "u1" "user.added", []⟩]

/-- Both expectations are those of a user with one event. -/
def lockBoth : Batch :=
  ⟨(userCommand "u1" "user.locked").expecting 1,
    [userCommand "u2" "user.added", (userCommand "u1" "user.renamed").expecting 1]⟩

/-- The last command expects what the first makes of the stream. -/
def lockThenRename : Batch :=
  ⟨userCommand "u1" "user.locked", [userCommand "u2" "user.added",
    (userCommand "u1" "user.renamed").expecting 2]⟩

/-- A batch that locks two users is accepted, and each stream is numbered on its own. -/
theorem push_decides_oneUser :
    (∃ events, (oneUser.push (.forInstance "t1") lockBoth).1 = .ok events ∧
      events.map Event.position = [2, 3, 4] ∧ events.map Event.sequence = [2, 1, 3] ∧
      ∀ e ∈ events, e.creationDate = .unixEpoch) ∧
    ((oneUser.push (.forInstance "t1") lockThenRename).1 =
        .error (.conflict ⟨"user", "u1", 2, 1⟩) ∧
      (oneUser.push (.forInstance "t1") lockThenRename).2.ledger = oneUser.ledger) ∧
    (oneUser.push { cancelled := true, deadline := some .passed } lockThenRename).1 =
      .error .cancelled := by
  have hreach : oneUser.Reachable := ⟨_, _, rfl⟩
  have hlock := push_decides hreach (.forInstance "t1") lockBoth
  have hrename := push_decides hreach (.forInstance "t1") lockThenRename
  have hlate := push_decides hreach { cancelled := true, deadline := some .passed } lockThenRename
  have hboth : ∀ c ∈ lockBoth.toList, ¬ c.Misjudges (.forInstance "t1") oneUser.ledger := by decide
  have hmeets : lockThenRename.Meets (.forInstance "t1") oneUser.ledger ⟨"user", "u1", 2, 1⟩ :=
    ⟨lockThenRename.toList.take 2, _, [], 2, rfl, by decide, rfl, by decide, by decide⟩
  obtain ⟨events, hok, hext⟩ := hlock.accepted rfl (by decide) hboth
  have hconflict := (hrename.first rfl (by decide) _).mpr hmeets
  refine ⟨⟨events, hok, ?_, ?_, hext.dates⟩, ⟨hconflict, hrename.unchanged _ hconflict⟩,
    hlate.cancelled rfl⟩
  · cases hok; rfl
  · cases hok; rfl

end Memory

end EventSourcing
