import EventSourcing.Proofs.Ledger.Streams

/-!
# Ledgers — consistency

A ledger keeps four things: the log, the heads of the streams, the last position and the last date.
`Consistent` says how they belong together.  The log and every stream in it are numbered from one
without gaps, the heads are the lengths of the streams, a stream without events has no head, and dates
never go back.

* `Consistent.append`: an event that is not dated before the end of the log keeps the ledger
  consistent.
* `Consistent.commit`: so does every batch, whether it is appended or in conflict.
* `Consistent.position_le`, `Consistent.sequence_le`: no number of a consistent ledger exceeds the
  number of its events.  With fewer than `2 ^ 64` events, all of them fit a 64-bit word.
-/

namespace EventSourcing.Ledger

/-- Log, heads, last position and last date of the ledger agree with each other. -/
structure Consistent (l : Ledger) : Prop where
  positions : l.log.map Event.position = List.range' 1 l.log.length
  lastPosition : l.lastPosition = l.log.length
  sequences : ∀ s, (l.eventsOf s).map Event.sequence = List.range' 1 (l.eventsOf s).length
  /-- A stream has a head, its length, exactly if it has events. -/
  heads : ∀ s n, l.heads s = some n ↔ n = (l.eventsOf s).length ∧ 0 < n
  dates : l.log.Pairwise fun a b => a.creationDate ≤ b.creationDate
  lastDate : l.lastDate = l.log.getLast?.map Event.creationDate

/-- The empty ledger is consistent. -/
theorem consistent_empty : ({} : Ledger).Consistent where
  positions := rfl
  lastPosition := rfl
  sequences _ := rfl
  heads s n := by
    constructor
    · rintro ⟨⟩
    · rintro ⟨rfl, hn⟩
      exact absurd hn (Nat.lt_irrefl 0)
  dates := List.Pairwise.nil
  lastDate := rfl

namespace Consistent

variable {l : Ledger}

/-- The head of a stream is its length. -/
theorem head_eq (h : l.Consistent) (s : Stream) : l.heads.head s = (l.eventsOf s).length := by
  rw [Heads.head]
  cases hs : l.heads s with
  | some n => exact ((h.heads s n).mp hs).1
  | none =>
      -- a stream with events would have a head
      by_contra hne
      have hpos : 0 < (l.eventsOf s).length := Nat.pos_of_ne_zero (Ne.symm hne)
      have hsome := (h.heads s _).mpr ⟨rfl, hpos⟩
      rw [hs] at hsome
      cases hsome

/-- No event is dated after the end of the log. -/
theorem date_le (h : l.Consistent) {e : Event} (he : e ∈ l.log) {last : Instant}
    (hl : l.lastDate = some last) : e.creationDate ≤ last := by
  rw [h.lastDate, Option.map_eq_some_iff] at hl
  obtain ⟨f, hf, rfl⟩ := hl
  obtain ⟨init, hi⟩ := List.getLast?_eq_some_iff.mp hf
  have hd := h.dates
  rw [hi] at he hd
  rcases List.mem_append.mp he with he | he
  · exact (List.pairwise_append.mp hd).2.2 e he f (List.mem_singleton_self f)
  · rw [List.mem_singleton.mp he]
    exact Instant.le_refl _

/-! ### One event more -/

/-- A list numbered from one is still numbered so with the next number at its end. -/
theorem numbered_concat {α : Type} {f : α → Nat} {xs : List α} {x : α}
    (hxs : xs.map f = List.range' 1 xs.length) (hx : f x = xs.length + 1) :
    (xs ++ [x]).map f = List.range' 1 (xs ++ [x]).length := by
  rw [List.map_append, hxs, List.length_append, List.length_singleton, List.range'_concat]
  simp [hx, Nat.add_comm]

/-- One more command keeps each stream numbered from one. -/
theorem sequences_append (h : l.Consistent) (date : Instant) (c : Command) (s : Stream) :
    ((l.append date c).eventsOf s).map Event.sequence =
      List.range' 1 ((l.append date c).eventsOf s).length := by
  -- the stream of the command ends with one number more, and no other stream changes
  by_cases hs : s = c.stream
  · subst hs
    rw [eventsOf_append_self]
    exact numbered_concat (h.sequences _) (congrArg (· + 1) (h.head_eq c.stream))
  · rw [eventsOf_append_other l date hs]
    exact h.sequences s

/-- The heads follow the streams. -/
theorem heads_append (h : l.Consistent) (date : Instant) (c : Command) (s : Stream) (n : Nat) :
    (l.append date c).heads s = some n ↔ n = ((l.append date c).eventsOf s).length ∧ 0 < n := by
  by_cases hs : s = c.stream
  · subst hs
    rw [eventsOf_append_self, List.length_append, List.length_singleton, ← h.head_eq]
    show (l.heads.set c.stream _) c.stream = some n ↔ _
    simp only [Heads.set, if_pos, Option.some.injEq]
    omega
  · rw [eventsOf_append_other l date hs, ← h.heads s n]
    show (l.heads.set c.stream _) s = some n ↔ _
    simp only [Heads.set, if_neg hs]

/-- The dates still ascend, if the new one is not before the last. -/
theorem dates_append (h : l.Consistent) {date : Instant} (c : Command)
    (hd : ∀ last, l.lastDate = some last → last ≤ date) :
    (l.append date c).log.Pairwise fun a b => a.creationDate ≤ b.creationDate := by
  refine List.pairwise_append.mpr ⟨h.dates, List.pairwise_singleton _ _, fun e he f hf => ?_⟩
  rw [List.mem_singleton.mp hf]
  -- `e` is not dated after the end of the log, and the new event not before it
  show e.creationDate ≤ date
  cases hl : l.lastDate with
  | some last => exact Instant.le_trans (h.date_le he hl) (hd last hl)
  | none =>
      rw [h.lastDate, Option.map_eq_none_iff, List.getLast?_eq_none_iff] at hl
      rw [hl] at he
      cases he

/-- **One event more.**  An event that is not dated before the end of the log keeps the ledger
consistent. -/
theorem append (h : l.Consistent) {date : Instant} (c : Command)
    (hd : ∀ last, l.lastDate = some last → last ≤ date) : (l.append date c).Consistent where
  positions := numbered_concat h.positions (congrArg (· + 1) h.lastPosition)
  lastPosition := by
    show l.lastPosition + 1 = (l.log ++ [_]).length
    rw [List.length_append, List.length_singleton, h.lastPosition]
  sequences := h.sequences_append date c
  heads := h.heads_append date c
  dates := h.dates_append c hd
  lastDate := by
    show some date = (l.log ++ [_]).getLast?.map _
    rw [List.getLast?_concat]
    rfl

/-! ### A batch more -/

/-- The date of an appended event is the last date, so the events after it may have the same. -/
theorem appendAll {date : Instant} (commands : List Command) :
    ∀ {l : Ledger}, l.Consistent → (∀ last, l.lastDate = some last → last ≤ date) →
      (l.appendAll date commands).Consistent := by
  induction commands with
  | nil => intro l h _; exact h
  | cons c cs ih =>
      intro l h hd
      refine ih (h.append c hd) fun last hl => ?_
      cases hl
      exact Instant.le_refl _

/-- The date of a batch does not lie before the end of the log. -/
theorem le_dateAt {l : Ledger} {now last : Instant} (h : l.lastDate = some last) :
    last ≤ l.dateAt now := by
  rw [dateAt]
  rw [h]
  exact Instant.le_max_left last now

/-- **A batch more.**  A batch keeps the ledger consistent, in conflict or not. -/
theorem commit (h : l.Consistent) (ctx : Context) (b : Batch) (now : Instant) :
    (l.commit ctx b now).2.Consistent := by
  rw [Ledger.commit]
  dsimp only
  split
  · exact h
  · exact h.appendAll _ fun last hl => le_dateAt hl

/-! ### The size of the numbers -/

/-- Positions count the events. -/
theorem position_le (h : l.Consistent) {e : Event} (he : e ∈ l.log) :
    e.position ≤ l.log.length := by
  have hp : e.position ∈ l.log.map Event.position := List.mem_map_of_mem he
  rw [h.positions, List.mem_range'_1] at hp
  omega

/-- Sequences count the events of their stream. -/
theorem sequence_le_stream (h : l.Consistent) {e : Event} (he : e ∈ l.log) :
    e.sequence ≤ (l.eventsOf e.stream).length := by
  have hs : e.sequence ∈ (l.eventsOf e.stream).map Event.sequence :=
    List.mem_map_of_mem (mem_eventsOf.mpr ⟨he, rfl⟩)
  rw [h.sequences, List.mem_range'_1] at hs
  omega

/-- So they do not exceed the number of all events. -/
theorem sequence_le (h : l.Consistent) {e : Event} (he : e ∈ l.log) :
    e.sequence ≤ l.log.length :=
  Nat.le_trans (h.sequence_le_stream he) (List.length_filter_le _ _)

/-- The last event of a stream has the length of the stream as its sequence. -/
theorem sequence_getLast (h : l.Consistent) (s : Stream) :
    ((l.eventsOf s).getLast?.map Event.sequence).getD 0 = (l.eventsOf s).length := by
  rw [← List.getLast?_map, h.sequences, List.getLast?_range']
  cases (l.eventsOf s).length with
  | zero => rfl
  | succ n => simp

end Consistent

end EventSourcing.Ledger
