import EventSourcing.Directory.Counter
import EventSourcing.Directory.Member
import Mathlib.Data.List.Basic

/-!
# Views — replays

A view that is given events one by one ends the same whether or not they come in batches: it is a replay
of what it was given.  A batch ends early at an event that cannot be read, and a replay passes over it.

* `outOfOrder?_eq_none_iff`: a batch is in order exactly if each stream in it ascends from its last
  sequence.
* `apply_fst`: applying an event fails exactly if the view acts upon it and its payload does not decode.
* `applyAll_snd`, `reported_applyAll`: a batch that is in order is a replay of those of its events that
  are reached, and reports what is wrong with the last of them.
* `sequence_replay`: the watermark of a replay is the sequence of the last event.
-/

namespace EventSourcing.View

variable {ω π : Type} [View ω π]

/-- Views whose hooks leave the watermark alone. -/
class Lawful (ω : Type) {π : Type} [View ω π] : Prop where
  watermark_setWatermark (w : Watermark) (v : ω) : watermark (setWatermark w v) = w
  watermark_bindRoot (e : Event) (v : ω) : watermark (bindRoot e v) = watermark v
  watermark_applyPatch (p : π) (v : ω) : watermark (applyPatch p v) = watermark v

instance : Lawful MemberView where
  watermark_setWatermark _ _ := rfl
  watermark_bindRoot _ _ := rfl
  watermark_applyPatch _ _ := rfl

instance : Lawful CounterView where
  watermark_setWatermark _ _ := rfl
  watermark_bindRoot _ _ := rfl
  watermark_applyPatch _ _ := rfl

/-! ### The order of a batch -/

/-- **A batch is in order** exactly if every event exceeds the last sequence of its stream before the
batch, and the events of each stream ascend. -/
theorem outOfOrder?_eq_none_iff {last : Stream → Nat} {es : List Event} :
    outOfOrder? last es = none ↔ (∀ e ∈ es, last e.stream < e.sequence) ∧
      es.Pairwise fun a b => b.stream = a.stream → a.sequence < b.sequence := by
  induction es generalizing last with
  | nil => exact ⟨fun _ => ⟨fun _ h => absurd h List.not_mem_nil, .nil⟩, fun _ => rfl⟩
  | cons e es ih =>
      rw [outOfOrder?, List.forall_mem_cons, List.pairwise_cons]
      by_cases hle : e.sequence ≤ last e.stream
      · rw [if_pos hle]
        constructor
        · intro h
          cases h
        · rintro ⟨⟨hlt, -⟩, -⟩
          exact absurd hlt (Nat.not_lt.mpr hle)
      · have hlt := Nat.not_le.mp hle
        rw [if_neg hle, ih]
        constructor
        · rintro ⟨hafter, hes⟩
          refine ⟨⟨hlt, fun x hx => ?_⟩, fun x hx hs => ?_, hes⟩
          · have hx := hafter x hx
            split at hx
            · -- what comes after `e` in its stream comes after all that was before it
              rename_i hs
              rw [hs]
              exact Nat.lt_trans hlt hx
            · exact hx
          · have hx := hafter x hx
            rwa [if_pos hs] at hx
        · rintro ⟨⟨-, hlast⟩, hfirst, hes⟩
          refine ⟨fun x hx => ?_, hes⟩
          split
          · rename_i hs
            exact hfirst x hx hs
          · exact hlast x hx

/-- A batch of one stream that ascends from the watermark is in order. -/
theorem outOfOrder?_of_stream {v : ω} {s : Stream} {es : List Event}
    (hs : ∀ e ∈ es, e.stream = s) (hlast : ∀ e ∈ es, (watermark v).sequence < e.sequence)
    (hascend : es.Pairwise fun a b => a.sequence < b.sequence) :
    outOfOrder? (lastSequences v es) es = none := by
  refine outOfOrder?_eq_none_iff.mpr ⟨fun e he => ?_, List.Pairwise.imp ?_ hascend⟩
  · cases es with
    | nil => cases he
    | cons first es =>
        rw [lastSequences, if_pos ((hs e he).trans (hs first List.mem_cons_self).symm)]
        exact hlast e he
  · intro a b h _
    exact h

/-! ### One event -/

variable [OfPayload π]

/-- What is wrong with the payload of an event, if the view acts upon it. -/
def fault? (v : ω) (e : Event) : Option DecodeError :=
  match action (advance e v) e.type, e.decode π with
  | .ignore, _ | _, .ok _ => none
  | _, .error d => some d

/-- **An event fails exactly by its payload.** -/
theorem apply_fst (v : ω) (e : Event) :
    (apply e v).1 = match fault? v e with
      | some d => .error (.decode d)
      | none => .ok () := by
  simp only [apply, fault?]
  cases action (advance e v) e.type with
  | ignore => rfl
  | create | change =>
      simp only [setData]
      cases e.decode π <;> rfl

/-- A payload does not move the watermark. -/
theorem watermark_setData [Lawful ω] (e : Event) (v : ω) :
    watermark (setData e v).2 = watermark v := by
  rw [setData]
  split
  · exact Lawful.watermark_applyPatch _ v
  · rfl

/-- An event moves the watermark to its sequence, whether or not it can be read. -/
theorem sequence_apply [Lawful ω] (e : Event) (v : ω) :
    (watermark (apply e v).2).sequence = e.sequence := by
  have hadvance : (watermark (advance e v)).sequence = e.sequence := by
    rw [advance, Lawful.watermark_setWatermark]
  simp only [apply]
  split
  · -- the root and the creation date are bound in between
    rw [watermark_setData, bind, Lawful.watermark_setWatermark, Lawful.watermark_bindRoot]
    exact hadvance
  · rw [watermark_setData]
    exact hadvance
  · exact hadvance

/-! ### Replays -/

/-- The view after some events, whether or not each of them can be read. -/
def replay (v : ω) (events : List Event) : ω :=
  events.foldl (fun v e => (apply e v).2) v

/-- The events of a replay that cannot be read, each with what is wrong with it. -/
def faults (v : ω) : List Event → List (Event × DecodeError)
  | [] => []
  | e :: es => ((fault? v e).map (e, ·)).toList ++ faults (apply e v).2 es

theorem replay_append (v : ω) (es es' : List Event) :
    replay v (es ++ es') = replay (replay v es) es' :=
  List.foldl_append

/-- Faults of two parts are those of one after the other. -/
theorem faults_append (v : ω) (es es' : List Event) :
    faults v (es ++ es') = faults v es ++ faults (replay v es) es' := by
  induction es generalizing v with
  | nil => rfl
  | cons e es ih =>
      rw [List.cons_append, faults, ih, faults, List.append_assoc]
      rfl

/-- The watermark of a replay is the sequence of the last event. -/
theorem sequence_replay [Lawful ω] (v : ω) (es : List Event) :
    (watermark (replay v es)).sequence =
      (es.getLast?.map Event.sequence).getD (watermark v).sequence := by
  rcases List.eq_nil_or_concat' es with rfl | ⟨init, e, rfl⟩
  · rfl
  · rw [replay_append, List.getLast?_concat]
    exact sequence_apply e _

/-! ### Batches -/

/-- What a batch comes to, as a list of reports. -/
def reported : Except ViewError Unit → List ViewError
  | .ok () => []
  | .error e => [e]

/-- The events that are reached when a batch is applied: up to the first that cannot be read, and that one
too. -/
def reached (v : ω) : List Event → List Event
  | [] => []
  | e :: es =>
    match fault? v e with
    | some _ => [e]
    | none => e :: reached (apply e v).2 es

/-- Events are reached in their order. -/
theorem reached_isPrefix (v : ω) (es : List Event) : reached v es <+: es := by
  induction es generalizing v with
  | nil => exact List.prefix_rfl
  | cons e es ih =>
      rw [reached]
      split
      · exact List.prefix_append [e] es
      · exact List.cons_prefix_cons.mpr ⟨rfl, ih _⟩

theorem reached_ne_nil (v : ω) {es : List Event} (h : es ≠ []) : reached v es ≠ [] := by
  cases es with
  | nil => exact absurd rfl h
  | cons e es =>
      rw [reached]
      split
      · exact List.cons_ne_nil _ _
      · exact List.cons_ne_nil _ _

/-- Applying a batch is a replay of what is reached. -/
theorem applyEach_eq (v : ω) (es : List Event) :
    (applyEach v es).2 = replay v (reached v es) ∧
      reported (applyEach v es).1 = (faults v (reached v es)).map fun x => .decode x.2 := by
  induction es generalizing v with
  | nil => exact ⟨rfl, rfl⟩
  | cons e es ih =>
      have happly : apply e v = ((apply e v).1, (apply e v).2) := rfl
      rw [apply_fst] at happly
      rw [applyEach, reached, happly]
      cases hf : fault? v e with
      | some d => simp [replay, faults, hf, reported]
      | none =>
          obtain ⟨hview, hreports⟩ := ih (apply e v).2
          refine ⟨hview, hreports.trans ?_⟩
          rw [faults, hf]
          rfl

/-- The events of a batch that are applied: none, if the batch is out of order. -/
def applied (v : ω) (es : List Event) : List Event :=
  match outOfOrder? (lastSequences v es) es with
  | some _ => []
  | none => reached v es

/-- What is applied of a batch is a beginning of it. -/
theorem applied_isPrefix (v : ω) (es : List Event) : applied v es <+: es := by
  rw [applied]
  split
  · exact List.nil_prefix
  · exact reached_isPrefix v es

/-- **A batch is a replay** of those of its events that are applied. -/
theorem applyAll_snd (v : ω) (es : List Event) :
    (applyAll es v).2 = replay v (applied v es) := by
  rw [applyAll, applied]
  cases outOfOrder? (lastSequences v es) es with
  | some error => rfl
  | none => exact (applyEach_eq v es).1

/-- **A batch that is in order reports** what is wrong with the events that are applied. -/
theorem reported_applyAll {v : ω} {es : List Event}
    (h : outOfOrder? (lastSequences v es) es = none) :
    reported (applyAll es v).1 = (faults v (applied v es)).map fun x => .decode x.2 := by
  rw [applyAll, applied, h]
  exact (applyEach_eq v es).2

end EventSourcing.View
