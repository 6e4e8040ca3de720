import EventSourcing.Proofs.Ledger.Consistent

/-!
# Ledgers — what a batch adds

The events of a batch go to the end of the log.  They are numbered on, in the log and in each of their
streams, and all of them have one date.

* `positions_nextEvents`, `sequences_nextEvents`, `creationDate_of_mem_nextEvents`: how the events of a
  series of commands are numbered and dated.
* `heads_appendAll_other`: a stream that no command writes to keeps its head.
* `Consistent.head_eq_lastSequence`: the head of a stream is the sequence of its last event.
* `Consistent.extendedBy_appendAll`: **an accepted batch extends the ledger by its events**, and by nothing
  else.
-/

namespace EventSourcing.Ledger

/-! ### One command after another -/

section Series

variable {date : Instant} {commands : List Command}

/-- The positions of a batch follow the last one. -/
theorem positions_nextEvents (l : Ledger) :
    (l.nextEvents date commands).map Event.position =
      List.range' (l.lastPosition + 1) commands.length := by
  induction commands generalizing l with
  | nil => rfl
  | cons c cs ih =>
      rw [nextEvents, List.map_cons, ih, List.length_cons, List.range'_succ]
      rfl

/-- In every stream, the sequences go on from its head. -/
theorem sequences_nextEvents (l : Ledger) (s : Stream) :
    ((l.nextEvents date commands).filter fun e => e.stream = s).map Event.sequence =
      List.range' (l.heads.head s + 1)
        ((l.nextEvents date commands).filter fun e => e.stream = s).length := by
  induction commands generalizing l with
  | nil => rfl
  | cons c cs ih =>
      -- the first event takes the number after the head if it belongs to the stream, and none otherwise
      rw [nextEvents, List.filter_cons, stream_nextEvent]
      by_cases hs : c.stream = s
      · have hhead : (l.append date c).heads.head s = l.heads.head s + 1 := by
          rw [← hs]
          exact Heads.head_set_self _ _ _
        rw [if_pos (decide_eq_true hs), List.map_cons, ih, List.length_cons, List.range'_succ, hhead,
          ← hs]
        rfl
      · have hhead : (l.append date c).heads.head s = l.heads.head s :=
          Heads.head_set_other _ _ (Ne.symm hs)
        rw [if_neg (by simpa using hs), ih, hhead]

/-- All events of a batch have its date. -/
theorem creationDate_of_mem_nextEvents {l : Ledger} {e : Event}
    (he : e ∈ l.nextEvents date commands) : e.creationDate = date := by
  induction commands generalizing l with
  | nil => cases he
  | cons c cs ih =>
      rcases List.mem_cons.mp he with rfl | he
      · rfl
      · exact ih he

/-- A stream that no command writes to keeps its head. -/
theorem heads_appendAll_other {s : Stream} (hs : ∀ c ∈ commands, c.stream ≠ s) (l : Ledger) :
    (l.appendAll date commands).heads s = l.heads s := by
  induction commands generalizing l with
  | nil => rfl
  | cons c cs ih =>
      obtain ⟨hc, hcs⟩ := List.forall_mem_cons.mp hs
      exact (ih hcs (l.append date c)).trans (if_neg (Ne.symm hc))

/-- What a series of commands makes of the head of a stream depends on that head alone. -/
theorem heads_appendAll_congr {l l' : Ledger} {date' : Instant} {s : Stream}
    (h : l.heads s = l'.heads s) :
    (l.appendAll date commands).heads s = (l'.appendAll date' commands).heads s := by
  induction commands generalizing l l' with
  | nil => exact h
  | cons c cs ih =>
      have hstep : (l.append date c).heads s = (l'.append date' c).heads s := by
        show l.heads.set c.stream _ s = l'.heads.set c.stream _ s
        by_cases hs : s = c.stream
        · subst hs
          rw [Heads.set, Heads.set, if_pos rfl, if_pos rfl, Heads.head, Heads.head, h]
        · rw [Heads.set, Heads.set, if_neg hs, if_neg hs, h]
      exact ih hstep

/-- The last position moves by the number of commands. -/
theorem lastPosition_appendAll (l : Ledger) :
    (l.appendAll date commands).lastPosition = l.lastPosition + commands.length := by
  induction commands generalizing l with
  | nil => rfl
  | cons c cs ih =>
      refine (ih (l.append date c)).trans ?_
      rw [List.length_cons, Nat.add_comm cs.length, ← Nat.add_assoc]
      rfl

/-- The last date is that of the batch. -/
theorem lastDate_appendAll (h : commands ≠ []) (l : Ledger) :
    (l.appendAll date commands).lastDate = some date := by
  induction commands generalizing l with
  | nil => exact absurd rfl h
  | cons c cs ih =>
      cases cs with
      | nil => rfl
      | cons d ds => exact ih (by simp) (l.append date c)

end Series

/-! ### Heads and last events -/

/-- The sequence of the last event of a stream, `0` for a stream without events. -/
def lastSequence (l : Ledger) (s : Stream) : Nat :=
  ((l.eventsOf s).getLast?.map Event.sequence).getD 0

/-- The head of a stream is the sequence of its last event. -/
theorem Consistent.head_eq_lastSequence {l : Ledger} (h : l.Consistent) (s : Stream) :
    l.heads.head s = l.lastSequence s :=
  (h.head_eq s).trans (h.sequence_getLast s).symm

/-- A batch is dated by the clock, or by the last event if the clock is behind. -/
theorem dateAt_eq (l : Ledger) (now : Instant) :
    l.dateAt now = l.lastDate.elim now fun last => max last now := by
  rw [dateAt]
  cases l.lastDate <;> rfl

/-- A batch that is pushed after another one is dated like it, unless the clock has gone on since. -/
theorem dateAt_appendAll {date now : Instant} (hnow : now ≤ date) {commands : List Command}
    (h : commands ≠ []) (l : Ledger) : (l.appendAll date commands).dateAt now = date := by
  rw [dateAt_eq, lastDate_appendAll h]
  exact Instant.max_eq_left hnow

/-- The date of a batch is never before the clock. -/
theorem now_le_dateAt (l : Ledger) (now : Instant) : now ≤ l.dateAt now := by
  rw [dateAt_eq]
  cases l.lastDate with
  | none => exact Instant.le_refl now
  | some last => exact Instant.le_max_right last now

/-! ### One batch -/

/-- Ledger `l'` is `l` with these events of a batch, which was pushed when the clock said `now`. -/
structure ExtendedBy (l : Ledger) (ctx : Context) (b : Batch) (now : Instant) (events : List Event)
    (l' : Ledger) : Prop where
  log : l'.log = l.log ++ events
  /-- There is one event for each command, in their order, with all that the command says.  Its aggregate is
  in the tenant to which the command was scoped. -/
  records : List.Forall₂ Event.Records events (b.scoped ctx).toList
  owners : events.map (·.aggregate.resourceOwner) = b.toList.map (·.aggregate.resourceOwner)
  /-- In each stream the sequences go on from its last event. -/
  sequences : ∀ s, (events.filter fun e => e.stream = s).map Event.sequence =
    List.range' (l.lastSequence s + 1) (events.filter fun e => e.stream = s).length
  positions : events.map Event.position = List.range' (l.lastPosition + 1) events.length
  /-- All events have one date: that of the clock, unless the last date is later. -/
  dates : ∀ e ∈ events, e.creationDate = l.lastDate.elim now fun last => max last now
  lastDate : l'.lastDate = some (l.lastDate.elim now fun last => max last now)
  lastPosition : l'.lastPosition = l.lastPosition + events.length
  /-- Below `2 ^ 64` events, 64 bits hold every number. -/
  bounded : ∀ e ∈ events, e.position ≤ l'.log.length ∧ e.sequence ≤ l'.log.length
  heads : ∀ s, l'.heads.head s = l'.lastSequence s
  /-- A stream that the batch does not touch has the head that it had, if any. -/
  otherHeads : ∀ s, (∀ c ∈ b.toList, (ctx.scope c.aggregate).stream ≠ s) → l'.heads s = l.heads s

/-- Events have the owners of their commands. -/
theorem owners_of_records {events : List Event} {commands : List Command}
    (h : List.Forall₂ Event.Records events commands) :
    events.map (·.aggregate.resourceOwner) = commands.map (·.aggregate.resourceOwner) := by
  induction h with
  | nil => rfl
  | cons he _ ih => rw [List.map_cons, List.map_cons, he.aggregate, ih]

/-- **An accepted batch extends the ledger by its events.** -/
theorem Consistent.extendedBy_appendAll {l : Ledger} (h : l.Consistent) (ctx : Context) (b : Batch)
    (now : Instant) :
    l.ExtendedBy ctx b now (l.nextEvents (l.dateAt now) (b.scoped ctx).toList)
      (l.appendAll (l.dateAt now) (b.scoped ctx).toList) := by
  have hafter : (l.appendAll (l.dateAt now) (b.scoped ctx).toList).Consistent :=
    h.appendAll _ fun _ hl => le_dateAt hl
  refine {
    log := log_appendAll _ _ l
    records := records_nextEvents _ _ l
    owners := ?_
    sequences := fun s => ?_
    positions := ?_
    dates := fun e he => (creationDate_of_mem_nextEvents he).trans (l.dateAt_eq now)
    lastDate := ?_
    lastPosition := ?_
    bounded := fun e he => ?_
    heads := hafter.head_eq_lastSequence
    otherHeads := fun s hs => heads_appendAll_other ?_ l }
  · rw [owners_of_records (records_nextEvents _ _ l), Batch.toList_scoped, List.map_map]
    exact List.map_congr_left fun c _ => ctx.resourceOwner_scope c.aggregate
  · rw [← h.head_eq_lastSequence]
    exact sequences_nextEvents l s
  · rw [length_nextEvents]
    exact positions_nextEvents l
  · rw [← dateAt_eq]
    exact lastDate_appendAll (Batch.toList_ne_nil _) l
  · rw [length_nextEvents]
    exact lastPosition_appendAll l
  · have hmem := (log_appendAll (l.dateAt now) (b.scoped ctx).toList l).symm ▸
      List.mem_append_right l.log he
    exact ⟨hafter.position_le hmem, hafter.sequence_le hmem⟩
  · rw [Batch.toList_scoped, List.forall_mem_map]
    exact hs

end EventSourcing.Ledger
