import EventSourcing.Proofs.Ledger.Streams

/-!
# Ledgers — agreement on some streams

Streams share the positions and the dates of one log, and nothing else.  Two ledgers *agree* on some
streams if these have the same heads and the same events in both, in the same order, up to positions
and dates.

* `AgreeOn.append`: an event appended to both ledgers keeps the agreement, whatever its stream.
* `AgreeOn.append_left`: an event of another stream, appended to one of them alone, keeps it as well.
* `AgreeOn.commit`: ledgers that agree on the streams of a batch decide on it alike.
-/

namespace EventSourcing

/-- What an event says, apart from its position and its date. -/
def Event.content (e : Event) : Event :=
  { e with position := 0, creationDate := default }

@[simp] theorem Event.stream_content (e : Event) : e.content.stream = e.stream := rfl

namespace Ledger

/-- The streams that `p` admits have the same heads and, up to positions and dates, the same events. -/
structure AgreeOn (p : Stream → Bool) (l l' : Ledger) : Prop where
  heads : ∀ s, p s = true → l.heads.head s = l'.heads.head s
  events : (l.log.filter fun e => p e.stream).map Event.content =
    (l'.log.filter fun e => p e.stream).map Event.content

namespace AgreeOn

variable {p : Stream → Bool} {l l' : Ledger}

theorem refl (p : Stream → Bool) (l : Ledger) : l.AgreeOn p l := ⟨fun _ _ => rfl, rfl⟩

theorem symm (h : l.AgreeOn p l') : l'.AgreeOn p l :=
  ⟨fun s hs => (h.heads s hs).symm, h.events.symm⟩

theorem trans {l'' : Ledger} (h : l.AgreeOn p l') (h' : l'.AgreeOn p l'') : l.AgreeOn p l'' :=
  ⟨fun s hs => (h.heads s hs).trans (h'.heads s hs), h.events.trans h'.events⟩

/-- A stream that is among those agreed on has the same events. -/
theorem eventsOf (h : l.AgreeOn p l') {s : Stream} (hs : p s = true) :
    (l.eventsOf s).map Event.content = (l'.eventsOf s).map Event.content := by
  have hpart (l : Ledger) : (l.eventsOf s).map Event.content =
      ((l.log.filter fun e => p e.stream).map Event.content).filter fun e => e.stream = s := by
    rw [List.filter_map, List.filter_filter, Ledger.eventsOf]
    refine congrArg _ (List.filter_congr fun e _ => ?_)
    by_cases he : e.stream = s
    · simp [Function.comp, Event.stream_content, he, hs]
    · simp [Function.comp, Event.stream_content, he]
  rw [hpart, hpart, h.events]

/-- The next event has the same content in both ledgers. -/
theorem content_nextEvent (h : l.AgreeOn p l') (date date' : Instant) {c : Command}
    (hc : p c.stream = true) :
    (l.nextEvent date c).content = (l'.nextEvent date' c).content := by
  rw [nextEvent, nextEvent, h.heads c.stream hc]
  rfl

/-- An event appended to both ledgers keeps the agreement, whatever its stream. -/
theorem append (h : l.AgreeOn p l') (date date' : Instant) (c : Command) :
    (l.append date c).AgreeOn p (l'.append date' c) where
  heads s hs := by
    show (l.heads.set _ _).head s = (l'.heads.set _ _).head s
    by_cases he : s = c.stream
    · subst he
      rw [Heads.head_set_self, Heads.head_set_self, h.heads _ hs]
    · rw [Heads.head_set_other _ _ he, Heads.head_set_other _ _ he, h.heads s hs]
  events := by
    rw [log_append, log_append, List.filter_append, List.filter_append, List.map_append,
      List.map_append, h.events]
    cases hc : p c.stream with
    | true => simp [hc, h.content_nextEvent date date' hc]
    | false => simp [hc]

/-- An event of another stream, appended to one ledger alone, keeps the agreement. -/
theorem append_left (h : l.AgreeOn p l') (date : Instant) {c : Command} (hc : p c.stream = false) :
    (l.append date c).AgreeOn p l' where
  heads s hs := by
    have hne : s ≠ c.stream := by
      rintro rfl
      rw [hs] at hc
      cases hc
    show (l.heads.set _ _).head s = _
    rw [Heads.head_set_other _ _ hne]
    exact h.heads s hs
  events := by
    rw [log_append, List.filter_append, ← h.events]
    simp [hc]

/-! ### Batches -/

variable {commands : List Command}

/-- Both ledgers agree after the same commands. -/
theorem appendAll (h : l.AgreeOn p l') (date date' : Instant) :
    (l.appendAll date commands).AgreeOn p (l'.appendAll date' commands) := by
  induction commands generalizing l l' with
  | nil => exact h
  | cons c cs ih => exact ih (h.append date date' c)

/-- Commands out of sight make no difference. -/
theorem appendAll_left (h : l.AgreeOn p l') (date : Instant)
    (hp : ∀ c ∈ commands, p c.stream = false) : (l.appendAll date commands).AgreeOn p l' := by
  induction commands generalizing l with
  | nil => exact h
  | cons c cs ih =>
      obtain ⟨hc, hcs⟩ := List.forall_mem_cons.mp hp
      exact ih (h.append_left date hc) hcs

/-- So has every event of a batch. -/
theorem content_nextEvents (h : l.AgreeOn p l') (date date' : Instant)
    (hp : ∀ c ∈ commands, p c.stream = true) :
    (l.nextEvents date commands).map Event.content =
      (l'.nextEvents date' commands).map Event.content := by
  induction commands generalizing l l' with
  | nil => rfl
  | cons c cs ih =>
      obtain ⟨hc, hcs⟩ := List.forall_mem_cons.mp hp
      rw [nextEvents, nextEvents, List.map_cons, List.map_cons, h.content_nextEvent date date' hc,
        ih (h.append date date' c) hcs]

/-- **Ledgers that agree on the streams of a batch decide on it alike**: with the same conflict, or with
the same events up to positions and dates; and they still agree afterwards. -/
theorem commit (h : l.AgreeOn p l') {ctx : Context} {b : Batch}
    (hp : ∀ c ∈ (b.scoped ctx).toList, p c.stream = true) (now now' : Instant) :
    (l.commit ctx b now).1.map (·.map Event.content) =
        (l'.commit ctx b now').1.map (·.map Event.content) ∧
      (l.commit ctx b now).2.AgreeOn p (l'.commit ctx b now').2 := by
  rw [Ledger.commit, Ledger.commit]
  dsimp only
  rw [Heads.conflict?_congr fun c hc => h.heads c.stream (hp c hc)]
  cases l'.heads.conflict? (b.scoped ctx).toList with
  | some conflict => exact ⟨rfl, h⟩
  | none => exact ⟨congrArg Except.ok (h.content_nextEvents _ _ hp), h.appendAll _ _⟩

/-- A batch on other streams, committed to one ledger alone, keeps the agreement. -/
theorem commit_left (h : l.AgreeOn p l') {ctx : Context} {b : Batch}
    (hp : ∀ c ∈ (b.scoped ctx).toList, p c.stream = false) (now : Instant) :
    (l.commit ctx b now).2.AgreeOn p l' := by
  rw [Ledger.commit]
  dsimp only
  split
  · exact h
  · exact h.appendAll_left _ hp

end AgreeOn

end Ledger

end EventSourcing
