import Mathlib.Tactic.Common
import EventSourcing.Store.Ledger

/-!
# Ledgers — the streams of a log

The log of a ledger holds the events of all streams, interleaved.  `Ledger.eventsOf` is the part of
it that belongs to one stream.

* `log_appendAll`: a series of commands puts its events at the end of the log, and touches nothing
  before it.
* `records_nextEvents`: every command becomes one event that says what the command asked for.
* `eventsOf_append_self`, `eventsOf_append_other`: an appended event ends the stream of its command
  and leaves every other stream as it is.
* `conflict?_eq_none_iff`, `conflict?_eq_some_iff`: a batch is in conflict unless each of its expectations
  is the head of its stream, and the conflict is that of the first expectation that is not.
-/

namespace EventSourcing

/-! ### Heads -/

namespace Heads

theorem head_set_self (h : Heads) (s : Stream) (n : Nat) : (h.set s n).head s = n := by
  simp [head, set]

theorem head_set_other {s t : Stream} (h : Heads) (n : Nat) (hne : t ≠ s) :
    (h.set s n).head t = h.head t := by
  simp [head, set, hne]

/-- No command is in conflict exactly if every expectation is the head of its stream. -/
theorem conflict?_eq_none_iff {h : Heads} {commands : List Command} :
    h.conflict? commands = none ↔
      ∀ c ∈ commands, ∀ n, c.sequence = some n → n = h.head c.stream := by
  rw [conflict?]
  rw [List.findSome?_eq_none_iff]
  refine forall_congr' fun c => forall_congr' fun _ => ?_
  cases hs : c.sequence with
  | none => simp
  | some expected =>
      by_cases he : expected = h.head c.stream
      · simp [he]
      · simp [he]

/-- The conflict of a batch is that of its first command that is in conflict. -/
theorem conflict?_eq_some_iff {h : Heads} {commands : List Command} {conflict : Conflict} :
    h.conflict? commands = some conflict ↔
      ∃ before c after n, commands = before ++ c :: after ∧ h.conflict? before = none ∧
        c.sequence = some n ∧ n ≠ h.head c.stream ∧
        conflict = ⟨c.aggregate.type, c.aggregate.id, n, h.head c.stream⟩ := by
  simp only [conflict?, List.findSome?_eq_some_iff, List.findSome?_eq_none_iff]
  constructor
  · rintro ⟨before, c, after, rfl, hc, hbefore⟩
    cases hs : c.sequence with
    | none => rw [hs] at hc; cases hc
    | some n =>
        rw [hs] at hc
        dsimp only at hc
        split at hc
        · cases hc
        · rename_i hne
          cases hc
          exact ⟨before, c, after, n, rfl, hbefore, hs, hne, rfl⟩
  · rintro ⟨before, c, after, n, rfl, hbefore, hs, hne, rfl⟩
    refine ⟨before, c, after, rfl, ?_, hbefore⟩
    rw [hs]
    exact if_neg hne

/-- Whether a batch is in conflict depends on the heads of its own streams alone. -/
theorem conflict?_congr {h h' : Heads} {commands : List Command}
    (heq : ∀ c ∈ commands, h.head c.stream = h'.head c.stream) :
    h.conflict? commands = h'.conflict? commands := by
  induction commands with
  | nil => rfl
  | cons c cs ih =>
      obtain ⟨hc, hcs⟩ := List.forall_mem_cons.mp heq
      simp only [conflict?] at ih ⊢
      rw [List.findSome?_cons, List.findSome?_cons, hc, ih hcs]

/-- The conflict of two series of commands is that of the first, or else of the second. -/
theorem conflict?_append (h : Heads) (xs ys : List Command) :
    h.conflict? (xs ++ ys) = (h.conflict? xs).or (h.conflict? ys) :=
  List.findSome?_append

end Heads

/-- The event says what the command asks for. -/
structure Event.Records (e : Event) (c : Command) : Prop where
  aggregate : e.aggregate = c.aggregate
  type : e.type = c.type
  editorUser : e.editorUser = c.editorUser
  data : e.data = c.payload

/-! ### Appending to a log -/

namespace Ledger

/-- The events of one stream, in the order of the log. -/
def eventsOf (l : Ledger) (s : Stream) : List Event :=
  l.log.filter fun e => e.stream = s

theorem mem_eventsOf {l : Ledger} {s : Stream} {e : Event} :
    e ∈ l.eventsOf s ↔ e ∈ l.log ∧ e.stream = s := by
  simp [eventsOf]

@[simp] theorem stream_nextEvent (l : Ledger) (date : Instant) (c : Command) :
    (l.nextEvent date c).stream = c.stream := rfl

theorem log_append (l : Ledger) (date : Instant) (c : Command) :
    (l.append date c).log = l.log ++ [l.nextEvent date c] := rfl

/-- A command adds its event to its stream. -/
theorem eventsOf_append_self (l : Ledger) (date : Instant) (c : Command) :
    (l.append date c).eventsOf c.stream = l.eventsOf c.stream ++ [l.nextEvent date c] := by
  simp [eventsOf, log_append, List.filter_append]

/-- It leaves all other streams alone. -/
theorem eventsOf_append_other {s : Stream} (l : Ledger) (date : Instant) {c : Command}
    (hne : s ≠ c.stream) : (l.append date c).eventsOf s = l.eventsOf s := by
  simp [eventsOf, log_append, List.filter_append, hne.symm]

/-- A batch adds its events at the end of the log. -/
theorem log_appendAll (date : Instant) (commands : List Command) :
    ∀ l : Ledger, (l.appendAll date commands).log = l.log ++ l.nextEvents date commands := by
  induction commands with
  | nil => intro l; exact (List.append_nil _).symm
  | cons c cs ih =>
      intro l
      show ((l.append date c).appendAll date cs).log = _
      rw [ih, log_append, List.append_assoc]
      rfl

theorem appendAll_append (l : Ledger) (date : Instant) (xs ys : List Command) :
    l.appendAll date (xs ++ ys) = (l.appendAll date xs).appendAll date ys :=
  List.foldl_append

/-- The events of a batch in two parts are those of one part after the other. -/
theorem nextEvents_append (date : Instant) (xs ys : List Command) :
    ∀ l : Ledger, l.nextEvents date (xs ++ ys) =
      l.nextEvents date xs ++ (l.appendAll date xs).nextEvents date ys := by
  induction xs with
  | nil => intro l; rfl
  | cons c cs ih => intro l; exact congrArg (l.nextEvent date c :: ·) (ih (l.append date c))

/-- To each stream a batch adds its own events. -/
theorem eventsOf_appendAll (l : Ledger) (date : Instant) (commands : List Command) (s : Stream) :
    (l.appendAll date commands).eventsOf s =
      l.eventsOf s ++ (l.nextEvents date commands).filter fun e => e.stream = s := by
  simp only [eventsOf]
  rw [log_appendAll, List.filter_append]

/-- Each command makes one event. -/
theorem length_nextEvents (date : Instant) (commands : List Command) :
    ∀ l : Ledger, (l.nextEvents date commands).length = commands.length := by
  induction commands with
  | nil => intro l; rfl
  | cons c cs ih => intro l; rw [nextEvents, List.length_cons, List.length_cons, ih]

/-- **Each event records its command**, in the order of the commands. -/
theorem records_nextEvents (date : Instant) (commands : List Command) :
    ∀ l : Ledger, List.Forall₂ Event.Records (l.nextEvents date commands) commands := by
  induction commands with
  | nil => intro l; exact .nil
  | cons c cs ih => intro l; exact .cons ⟨rfl, rfl, rfl, rfl⟩ (ih (l.append date c))

/-- The event of a command stands where the command stands. -/
theorem exists_getElem?_nextEvents (date : Instant) {commands : List Command} {c : Command} :
    ∀ {i : Nat} (l : Ledger), commands[i]? = some c →
      ∃ e, (l.nextEvents date commands)[i]? = some e ∧ e.Records c := by
  induction commands with
  | nil => intro i l h; cases h
  | cons d ds ih =>
      intro i l h
      cases i with
      | zero => cases h; exact ⟨_, rfl, rfl, rfl, rfl, rfl⟩
      | succ i => exact ih (l.append date d) h

/-- No head falls. -/
theorem head_le_head_append (l : Ledger) (date : Instant) (c : Command) (s : Stream) :
    l.heads.head s ≤ (l.append date c).heads.head s := by
  show _ ≤ (l.heads.set _ _).head s
  by_cases hs : s = c.stream
  · subst hs
    rw [Heads.head_set_self]
    exact Nat.le_succ _
  · exact Nat.le_of_eq (Heads.head_set_other _ _ hs).symm

/-- Every command becomes an event of its stream. -/
theorem exists_mem_nextEvents (date : Instant) {commands : List Command} {c : Command}
    (hc : c ∈ commands) :
    ∀ l : Ledger, ∃ e ∈ l.nextEvents date commands, e.stream = c.stream := by
  induction commands with
  | nil => cases hc
  | cons d ds ih =>
      intro l
      rcases List.mem_cons.mp hc with rfl | hc
      · exact ⟨_, List.mem_cons_self, rfl⟩
      · obtain ⟨e, he, hs⟩ := ih hc (l.append date d)
        exact ⟨e, List.mem_cons_of_mem _ he, hs⟩

/-! ### Logs that have grown -/

/-- `l'` has all that `l` has, and possibly more after it. -/
def Grows (l l' : Ledger) : Prop := l.log <+: l'.log

theorem Grows.refl (l : Ledger) : l.Grows l := List.prefix_rfl

theorem Grows.trans {l₁ l₂ l₃ : Ledger} (h₁ : l₁.Grows l₂) (h₂ : l₂.Grows l₃) : l₁.Grows l₃ :=
  List.IsPrefix.trans h₁ h₂

theorem grows_appendAll (l : Ledger) (date : Instant) (commands : List Command) :
    l.Grows (l.appendAll date commands) :=
  ⟨_, (log_appendAll date commands l).symm⟩

/-- A commit only adds events. -/
theorem grows_commit (l : Ledger) (ctx : Context) (b : Batch) (now : Instant) :
    l.Grows (l.commit ctx b now).2 := by
  rw [commit]
  dsimp only
  split
  · exact Grows.refl l
  · exact grows_appendAll l _ _

theorem Grows.eventsOf {l l' : Ledger} (h : l.Grows l') (s : Stream) :
    l.eventsOf s <+: l'.eventsOf s :=
  List.IsPrefix.filter _ h

end Ledger

end EventSourcing
