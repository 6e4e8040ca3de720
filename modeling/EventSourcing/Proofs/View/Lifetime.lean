import Mathlib.Data.List.Induction
import EventSourcing.Proofs.View.Replay

/-!
# Views — over their whole life

A view is given batches, call after call, and keeps one watermark: the sequence of the last event that it
has applied, whichever stream that belongs to.  It holds a batch against this number in the stream of the
first event, and against nothing in all others.

* `refuses_iff`: the batches that are refused.
* `life_eq_replay`: a view is a replay of all that it has applied.
* `lastSequences_eq`: a batch that `Continues` what has been applied begins in the stream of the last event,
  and else holds only streams that are new to the view.  It is held against all that has been applied.
* `life_in_order`: **as long as every batch continues**, no event is applied twice and no new one is
  refused.  In a view of one stream every batch does.
-/

namespace EventSourcing.View

/-! ### Largest sequences -/

/-- The largest sequence of a stream among some events, `0` if none of them belongs to it. -/
def largest (s : Stream) : List Event → Nat
  | [] => 0
  | e :: es => if e.stream = s then max e.sequence (largest s es) else largest s es

/-- The largest sequence is the least bound. -/
theorem largest_le_iff {s : Stream} {es : List Event} {n : Nat} :
    largest s es ≤ n ↔ ∀ e ∈ es, e.stream = s → e.sequence ≤ n := by
  induction es with
  | nil => exact ⟨fun _ _ h => absurd h List.not_mem_nil, fun _ => Nat.zero_le n⟩
  | cons e es ih =>
      rw [largest, List.forall_mem_cons, ← ih]
      by_cases hs : e.stream = s
      · rw [if_pos hs, Nat.max_le]
        exact ⟨fun ⟨he, hes⟩ => ⟨fun _ => he, hes⟩, fun ⟨he, hes⟩ => ⟨he hs, hes⟩⟩
      · rw [if_neg hs]
        exact ⟨fun hes => ⟨fun h => absurd h hs, hes⟩, And.right⟩

/-- No event goes beyond the largest sequence of its stream. -/
theorem sequence_le_largest {es : List Event} {e : Event} (he : e ∈ es) :
    e.sequence ≤ largest e.stream es :=
  largest_le_iff.mp (Nat.le_refl _) e he rfl

/-- The largest of two parts is that of one of them. -/
theorem largest_append (s : Stream) (es es' : List Event) :
    largest s (es ++ es') = max (largest s es) (largest s es') := by
  induction es with
  | nil => exact (Nat.zero_max _).symm
  | cons e es ih =>
      rw [List.cons_append, largest, largest, ih]
      split
      · exact (Nat.max_assoc ..).symm
      · rfl

/-- The events of each stream ascend. -/
def Ascends (es : List Event) : Prop :=
  es.Pairwise fun a b => b.stream = a.stream → a.sequence < b.sequence

instance (es : List Event) : Decidable (Ascends es) :=
  inferInstanceAs (Decidable (es.Pairwise _))

/-- The last of events that ascend is the largest of its stream. -/
theorem Ascends.largest_getLast {es : List Event} (h : Ascends es) {last : Event}
    (hlast : es.getLast? = some last) : largest last.stream es = last.sequence := by
  obtain ⟨init, rfl⟩ := List.getLast?_eq_some_iff.mp hlast
  obtain ⟨-, -, hbefore⟩ := List.pairwise_append.mp h
  refine Nat.le_antisymm (largest_le_iff.mpr fun e he hs => ?_) (sequence_le_largest (by simp))
  rcases List.mem_append.mp he with he | he
  · exact Nat.le_of_lt (hbefore e he last (by simp) hs.symm)
  · exact Nat.le_of_eq (congrArg Event.sequence (List.mem_singleton.mp he))

/-! ### Batches that continue -/

/-- The batch continues what has been applied: it begins in the stream of the last event, and holds nothing
else of a stream that the view has met. -/
structure Continues (hist es : List Event) : Prop where
  first : ∀ last ∈ hist.getLast?, ∀ e ∈ es.head?, e.stream = last.stream
  others : ∀ last ∈ hist.getLast?, ∀ e ∈ es, e.stream ≠ last.stream → ∀ a ∈ hist, a.stream ≠ e.stream

/-- In a view of one stream, every batch continues. -/
theorem Continues.of_stream {s : Stream} {hist es : List Event} (hhist : ∀ e ∈ hist, e.stream = s)
    (hes : ∀ e ∈ es, e.stream = s) : Continues hist es where
  first last hlast e he :=
    (hes e (List.mem_of_mem_head? he)).trans (hhist last (List.mem_of_getLast? hlast)).symm
  others last hlast e he hne :=
    absurd ((hes e he).trans (hhist last (List.mem_of_getLast? hlast)).symm) hne

variable {ω π : Type} [View ω π]

/-- **What a batch that continues is held against**: in each of its streams, all that has been applied. -/
theorem lastSequences_eq {v : ω} {hist es : List Event} (hascends : Ascends hist)
    (hwatermark : (watermark v).sequence = (hist.getLast?.map Event.sequence).getD 0)
    (hes : Continues hist es) {e : Event} (he : e ∈ es) :
    lastSequences v es e.stream = largest e.stream hist := by
  obtain ⟨first, rest, rfl⟩ := List.exists_cons_of_ne_nil (List.ne_nil_of_mem he)
  rw [lastSequences, hwatermark]
  cases hlast : hist.getLast? with
  | none =>
      rw [List.getLast?_eq_none_iff.mp hlast]
      split <;> rfl
  | some last =>
      have hfirst : first.stream = last.stream := hes.first last hlast first rfl
      by_cases hs : e.stream = last.stream
      · rw [if_pos (hs.trans hfirst.symm), hs, hascends.largest_getLast hlast]
        rfl
      · rw [if_neg fun h => hs (h.trans hfirst)]
        have hnone := hes.others last hlast e he hs
        exact (Nat.le_zero.mp (largest_le_iff.mpr fun a ha h => absurd h (hnone a ha))).symm

/-! ### Refusals -/

/-- **A batch is out of order** exactly if one of its events is not beyond the last sequence of its stream,
or beyond all those of its stream that stand before it. -/
theorem outOfOrder?_ne_none_iff {es : List Event} :
    ∀ {last : Stream → Nat}, outOfOrder? last es ≠ none ↔
      ∃ before e after, es = before ++ e :: after ∧
        e.sequence ≤ max (last e.stream) (largest e.stream before) := by
  induction es with
  | nil =>
      intro last
      refine ⟨fun h => absurd rfl h, ?_⟩
      rintro ⟨before, e, after, hes, -⟩
      exact absurd hes (by simp)
  | cons x es ih =>
      intro last
      rw [outOfOrder?]
      by_cases hle : x.sequence ≤ last x.stream
      · rw [if_pos hle]
        exact ⟨fun _ => ⟨[], x, es, rfl, Nat.le_trans hle (Nat.le_max_left _ _)⟩,
          fun _ => Option.some_ne_none _⟩
      · have hbound (s : Stream) (before : List Event) :
            max (if s = x.stream then x.sequence else last s) (largest s before) =
              max (last s) (largest s (x :: before)) := by
          rw [largest]
          by_cases hs : s = x.stream
          · rw [if_pos hs, if_pos hs.symm, hs]
            omega
          · rw [if_neg hs, if_neg (Ne.symm hs)]
        rw [if_neg hle, ih]
        constructor
        · rintro ⟨before, e, after, rfl, he⟩
          exact ⟨x :: before, e, after, rfl, by rwa [← hbound]⟩
        · rintro ⟨before, e, after, hes, he⟩
          cases before with
          | nil =>
              -- `x` itself is in order
              cases hes
              rw [largest, Nat.max_zero] at he
              exact absurd he hle
          | cons y before =>
              cases hes
              exact ⟨before, e, after, rfl, by rwa [hbound]⟩

/-- All that the test reports is an event out of order. -/
theorem exists_of_outOfOrder? {es : List Event} {error : ViewError} :
    ∀ {last : Stream → Nat}, outOfOrder? last es = some error →
      ∃ current sequence, error = .outOfOrder current sequence := by
  induction es with
  | nil => intro last h; cases h
  | cons e es ih =>
      intro last h
      rw [outOfOrder?] at h
      split at h
      · cases h; exact ⟨_, _, rfl⟩
      · exact ih h

variable [OfPayload π]

/-- The view refuses the batch for its order. -/
def Refuses (v : ω) (es : List Event) : Prop :=
  ∃ current sequence, (applyAll es v).1 = .error (.outOfOrder current sequence)

/-- A batch is refused exactly if the test finds something. -/
theorem refuses_iff_outOfOrder? {v : ω} {es : List Event} :
    Refuses v es ↔ outOfOrder? (lastSequences v es) es ≠ none := by
  rw [Refuses, applyAll]
  cases h : outOfOrder? (lastSequences v es) es with
  | some error =>
      obtain ⟨current, sequence, rfl⟩ := exists_of_outOfOrder? h
      exact ⟨fun _ => Option.some_ne_none _, fun _ => ⟨current, sequence, rfl⟩⟩
  | none =>
      refine ⟨?_, fun h => absurd rfl h⟩
      rintro ⟨current, sequence, herror⟩
      -- all that the events themselves can fail by is their payloads
      have hreports := (applyEach_eq v es).2
      rw [show (applyEach v es).1 = _ from herror, reported] at hreports
      have hmem := hreports ▸ List.mem_singleton_self _
      obtain ⟨_, -, hfault⟩ := List.mem_map.mp hmem
      cases hfault

/-- **The batches that are refused** are those with an event that does not come after all events of its
stream that stand before it, or in the stream of the first event does not come after the watermark. -/
theorem refuses_iff {v : ω} {es : List Event} :
    Refuses v es ↔ ∃ before e after, es = before ++ e :: after ∧
      (e.sequence ≤ largest e.stream before ∨
        es.head?.map Event.stream = some e.stream ∧ e.sequence ≤ (watermark v).sequence) := by
  rw [refuses_iff_outOfOrder?, outOfOrder?_ne_none_iff]
  refine exists_congr fun before => exists_congr fun e => exists_congr fun after =>
    and_congr_right fun hes => ?_
  cases es with
  | nil => exact absurd hes (by simp)
  | cons first es =>
      rw [lastSequences, List.head?_cons, Option.map_some, Option.some.injEq]
      by_cases hs : e.stream = first.stream
      · simp only [hs, ↓reduceIte, true_and]
        omega
      · simp only [if_neg hs, Ne.symm hs, false_and, or_false]
        omega

/-! ### Lives -/

/-- The view after a series of batches, whether or not each of them is refused. -/
def life (v : ω) (batches : List (List Event)) : ω :=
  batches.foldl (fun v es => (applyAll es v).2) v

/-- All that the view has applied of a series of batches. -/
def history (v : ω) : List (List Event) → List Event
  | [] => []
  | es :: batches => applied v es ++ history (applyAll es v).2 batches

/-- One more batch adds what is applied of it. -/
theorem history_concat (batches : List (List Event)) (es : List Event) :
    ∀ v : ω, history v (batches ++ [es]) = history v batches ++ applied (life v batches) es := by
  induction batches with
  | nil => intro v; exact List.append_nil _
  | cons es' batches ih =>
      intro v
      rw [List.cons_append, history, history, ih, List.append_assoc]
      rfl

/-- What one batch applies ascends. -/
theorem ascends_applied (v : ω) (es : List Event) : Ascends (applied v es) := by
  cases h : outOfOrder? (lastSequences v es) es with
  | some error => rw [applied, h]; exact .nil
  | none => exact (outOfOrder?_eq_none_iff.mp h).2.sublist (applied_isPrefix v es).sublist

/-- **A view is a replay** of all that it has applied. -/
theorem life_eq_replay (batches : List (List Event)) :
    ∀ v : ω, life v batches = replay v (history v batches) := by
  induction batches with
  | nil => intro v; rfl
  | cons es batches ih =>
      intro v
      rw [history, replay_append, ← applyAll_snd, ← ih]
      rfl

/-- So it stands at the last event that it has applied. -/
theorem sequence_life [Lawful ω] (v : ω) (batches : List (List Event)) :
    (watermark (life v batches)).sequence =
      ((history v batches).getLast?.map Event.sequence).getD (watermark v).sequence := by
  rw [life_eq_replay, sequence_replay]

/-! ### Views that follow -/

/-- The batch holds an event that is not beyond all those of its stream that have been applied or stand
before it. -/
def Repeats (hist es : List Event) : Prop :=
  ∃ before e after, es = before ++ e :: after ∧ e.sequence ≤ largest e.stream (hist ++ before)

/-- One event is repeated if it is not beyond its stream. -/
theorem repeats_singleton_iff {hist : List Event} {e : Event} :
    Repeats hist [e] ↔ e.sequence ≤ largest e.stream hist := by
  constructor
  · rintro ⟨before, x, after, hsplit, hle⟩
    cases before with
    | nil => cases hsplit; rwa [List.append_nil] at hle
    | cons y before => simp at hsplit
  · intro hle
    exact ⟨[], e, [], rfl, by rwa [List.append_nil]⟩

/-- **A batch that continues** is refused exactly if it repeats something.  Otherwise it ascends from what
has been applied. -/
theorem refuses_of_continues {v : ω} {hist es : List Event} (hascends : Ascends hist)
    (hwatermark : (watermark v).sequence = (hist.getLast?.map Event.sequence).getD 0)
    (hes : Continues hist es) :
    (Refuses v es ↔ Repeats hist es) ∧ Ascends (hist ++ applied v es) := by
  have hlast : ∀ e ∈ es, lastSequences v es e.stream = largest e.stream hist :=
    fun e he => lastSequences_eq hascends hwatermark hes he
  constructor
  · rw [refuses_iff_outOfOrder?, outOfOrder?_ne_none_iff]
    refine exists_congr fun before => exists_congr fun e => exists_congr fun after =>
      and_congr_right fun hsplit => ?_
    rw [hlast e (by simp [hsplit]), largest_append]
  · cases h : outOfOrder? (lastSequences v es) es with
    | some error =>
        rw [applied, h, List.append_nil]
        exact hascends
    | none =>
        obtain ⟨hbeyond, hbatch⟩ := outOfOrder?_eq_none_iff.mp h
        have hacross (a : Event) (ha : a ∈ hist) (e : Event) (he : e ∈ es) (hs : e.stream = a.stream) :
            a.sequence < e.sequence :=
          calc a.sequence ≤ largest e.stream hist := hs ▸ sequence_le_largest ha
            _ = lastSequences v es e.stream := (hlast e he).symm
            _ < e.sequence := hbeyond e he
        have hwhole : Ascends (hist ++ es) := List.pairwise_append.mpr ⟨hascends, hbatch, hacross⟩
        exact hwhole.sublist ((applied_isPrefix v es).sublist.append_left hist)

/-- Every batch continues what has been applied before it. -/
def Continuing (v : ω) (batches : List (List Event)) : Prop :=
  ∀ before es after, batches = before ++ es :: after → Continues (history v before) es

/-- What has been applied was given. -/
theorem mem_of_mem_history {batches : List (List Event)} {e : Event} :
    ∀ {v : ω}, e ∈ history v batches → ∃ es ∈ batches, e ∈ es := by
  induction batches with
  | nil => intro v he; cases he
  | cons es batches ih =>
      intro v he
      rcases List.mem_append.mp he with he | he
      · exact ⟨es, List.mem_cons_self, (applied_isPrefix v es).subset he⟩
      · obtain ⟨es', hes', he⟩ := ih he
        exact ⟨es', List.mem_cons_of_mem es hes', he⟩

/-- A view of one stream is always continued. -/
theorem Continuing.of_stream {s : Stream} {v : ω} {batches : List (List Event)}
    (hs : ∀ es ∈ batches, ∀ e ∈ es, e.stream = s) : Continuing v batches := by
  rintro before es after rfl
  refine .of_stream (s := s) (fun e he => ?_) (hs es (by simp))
  obtain ⟨es', hes', he⟩ := mem_of_mem_history he
  exact hs es' (by simp [hes']) e he

/-- **What has been applied ascends** in each stream, in a view that every batch continues. -/
theorem ascends_history [Lawful ω] {v : ω} (hv : watermark v = {}) {batches : List (List Event)}
    (h : Continuing v batches) : Ascends (history v batches) := by
  induction batches using List.reverseRecOn with
  | nil => exact .nil
  | append_singleton batches es ih =>
      have hbefore : Ascends (history v batches) := ih fun before es' after heq =>
        h before es' (after ++ [es]) (by rw [heq, List.append_assoc, List.cons_append])
      rw [history_concat]
      exact (refuses_of_continues hbefore (by rw [sequence_life, hv]) (h batches es [] rfl)).2

/-- **The order that a view keeps over its whole life.**  Whatever it has been given, it is a replay of what it
has applied.  Of a batch it applies a prefix, which ascends, and it refuses the batches with an event that does
not come after all events of its stream that stand before it, or in the stream of the first event does not
come after the last event that was applied.

As long as every batch continues what has been applied, it refuses exactly those that repeat something, and
all that it has applied ascends: no event is applied twice, and no new one is refused. -/
theorem life_in_order [Lawful ω] {v : ω} (hv : watermark v = {}) (batches : List (List Event)) :
    life v batches = replay v (history v batches) ∧
    (∀ es, (applyAll es (life v batches)).2 = replay (life v batches) (applied (life v batches) es) ∧
      applied (life v batches) es <+: es ∧ Ascends (applied (life v batches) es) ∧
      (Refuses (life v batches) es ↔ ∃ before e after, es = before ++ e :: after ∧
        (e.sequence ≤ largest e.stream before ∨ es.head?.map Event.stream = some e.stream ∧
          e.sequence ≤ ((history v batches).getLast?.map Event.sequence).getD 0))) ∧
    (Continuing v batches → Ascends (history v batches) ∧
      ∀ es, Continues (history v batches) es →
        (Refuses (life v batches) es ↔ Repeats (history v batches) es)) := by
  have hwatermark : (watermark (life v batches)).sequence =
      ((history v batches).getLast?.map Event.sequence).getD 0 := by
    rw [sequence_life, hv]
  refine ⟨life_eq_replay batches v, fun es => ⟨applyAll_snd _ es, applied_isPrefix _ es,
    ascends_applied _ es, ?_⟩, fun h => ?_⟩
  · rw [refuses_iff, hwatermark]
  · have hascends := ascends_history hv h
    exact ⟨hascends, fun es hes => (refuses_of_continues hascends hwatermark hes).1⟩

/-! ### Counters -/

/-- The event that sets a counter to its own sequence. -/
def setting (id : String) (sequence : Nat) : Event where
  aggregate := { type := "counter", id }
  type := "counter.set"
  sequence
  position := sequence
  creationDate := default
  editorUser := ""
  data := .obj [("count", .int sequence)]

/-- The view of one counter refuses to set it back, and takes what is new. -/
theorem life_in_order_counter :
    Ascends (history ({} : CounterView) [[setting "a" 1, setting "a" 2], [setting "a" 2]]) ∧
    Refuses (life ({} : CounterView) [[setting "a" 1, setting "a" 2], [setting "a" 2]]) [setting "a" 1] ∧
    ¬ Refuses (life ({} : CounterView) [[setting "a" 1, setting "a" 2], [setting "a" 2]])
      [setting "a" 3] := by
  obtain ⟨-, -, hcontinuing⟩ := life_in_order (v := ({} : CounterView)) rfl
    [[setting "a" 1, setting "a" 2], [setting "a" 2]]
  obtain ⟨hascends, hrefuses⟩ := hcontinuing (.of_stream (s := ⟨"", "counter", "a"⟩) (by decide))
  have hnext (n : Nat) : Continues (history ({} : CounterView)
      [[setting "a" 1, setting "a" 2], [setting "a" 2]]) [setting "a" n] :=
    .of_stream (s := ⟨"", "counter", "a"⟩) (by decide)
      (by simp [setting, Event.stream, Aggregate.stream])
  refine ⟨hascends, ?_, ?_⟩
  · rw [hrefuses _ (hnext 1), repeats_singleton_iff]
    decide
  · rw [hrefuses _ (hnext 3), repeats_singleton_iff]
    decide

/-- The view of two counters may apply an event of one of them twice, and refuse what is new of the
other. -/
theorem not_life_in_order_twoCounters :
    ¬ Ascends (history ({} : CounterView) [[setting "a" 5, setting "b" 2], [setting "a" 5]]) ∧
    ¬ (Refuses (life ({} : CounterView) [[setting "a" 5, setting "b" 2]]) [setting "a" 5] ↔
      Repeats (history ({} : CounterView) [[setting "a" 5, setting "b" 2]]) [setting "a" 5]) ∧
    ¬ (Refuses (life ({} : CounterView) [[setting "a" 2]]) [setting "b" 1] ↔
      Repeats (history ({} : CounterView) [[setting "a" 2]]) [setting "b" 1]) := by
  refine ⟨by decide, fun h => ?_, fun h => ?_⟩
  · obtain ⟨_, _, herror⟩ := h.mpr (repeats_singleton_iff.mpr (by decide))
    cases herror
  · exact absurd (repeats_singleton_iff.mp (h.mp ⟨2, 1, rfl⟩)) (by decide)

end EventSourcing.View
