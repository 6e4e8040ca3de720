import EventSourcing.Proofs.Fields
import EventSourcing.Proofs.View.Replay

/-!
# Views — last writes

A view that is given events one by one, past those that cannot be read, ends with what the last of them
wrote into each of its fields.  Which event that is differs from field to field: all events move the
watermark, the creating ones bind the root, and those that decode overwrite what their payload gives.

* `replay_field`: a field into which each event writes by itself holds the last write.
* `standing`: the watermark after a replay, and which events failed, for every view that acts upon events by
  their type.
* `replay_determined`: **the views of members and counters** in closed form.
-/

namespace EventSourcing.View

/-! ### Last writes -/

section

variable {α : Type}

/-- What the last of some events that write anything writes. -/
def lastWritten (write : Event → Option α) (es : List Event) : Option α :=
  (es.filterMap write).getLast?

/-- All events write. -/
theorem lastWritten_some (f : Event → α) (es : List Event) :
    lastWritten (fun e => some (f e)) es = es.getLast?.map f := by
  rw [lastWritten, List.filterMap_eq_map', List.getLast?_map]

end

variable {ω π : Type} [View ω π] [OfPayload π]

/-- **A field holds the last write**, if what an event writes into it depends on the event alone. -/
theorem replay_field {α : Type} (get : ω → α) (write : Event → Option α)
    (h : ∀ v e, get (apply e v).2 = (write e).getD (get v)) (es : List Event) :
    ∀ v, get (replay v es) = (lastWritten write es).getD (get v) :=
  foldl_field get h es

/-! ### Views that act by types -/

/-- What a creating event writes. -/
def created {α : Type} (kind : EventType → ViewAction) (f : Event → α) (e : Event) : Option α :=
  if kind e.type = .create then some (f e) else none

/-- The patch of an event that is acted upon, if its payload decodes. -/
def patch? (π : Type) [OfPayload π] (kind : EventType → ViewAction) (e : Event) : Option π :=
  if kind e.type = .ignore then none else (e.decode π).toOption

/-- The event is acted upon, and its payload does not decode. -/
def broken (π : Type) [OfPayload π] (kind : EventType → ViewAction) (e : Event) : Bool :=
  kind e.type ≠ .ignore && !(e.decode π).isOk

/-- What a view answers to each of some events, given one by one. -/
def outcomes (v : ω) : List Event → List (Except ViewError Unit)
  | [] => []
  | e :: es => (apply e v).1 :: outcomes (apply e v).2 es

variable {kind : EventType → ViewAction}

/-- The view moved to an event, before the payload is read. -/
def moved (kind : EventType → ViewAction) (e : Event) (v : ω) : ω :=
  if kind e.type = .create then bind e (advance e v) else advance e v

/-- **What one event does**: it moves the view, and applies the patch that it gives. -/
theorem apply_snd (hkind : ∀ (v : ω) t, action v t = kind t) (v : ω) (e : Event) :
    (apply e v).2 = (patch? π kind e).elim (moved kind e v) (applyPatch · (moved kind e v)) := by
  simp only [apply, hkind, moved, patch?]
  cases kind e.type with
  | ignore => rfl
  | create | change =>
      simp only [setData]
      cases e.decode π <;> rfl

omit [OfPayload π] in
/-- The watermark is that of the event, but for the date of creation. -/
theorem watermark_moved [Lawful ω] (e : Event) (v : ω) :
    watermark (moved kind e v) =
      { sequence := e.sequence
        creationDate := (created kind (some ·.creationDate) e).getD (watermark v).creationDate
        changeDate := some e.creationDate } := by
  have hadvance : watermark (advance e v) =
      { watermark v with sequence := e.sequence, changeDate := some e.creationDate } := by
    rw [advance, Lawful.watermark_setWatermark]
  rw [moved, created]
  split
  · rw [bind, Lawful.watermark_setWatermark, Lawful.watermark_bindRoot, hadvance]
    rfl
  · exact hadvance

/-- The payload of an event leaves the watermark alone. -/
theorem watermark_apply [Lawful ω] (hkind : ∀ (v : ω) t, action v t = kind t) (v : ω) (e : Event) :
    watermark (apply e v).2 = watermark (moved kind e v) := by
  rw [apply_snd hkind]
  cases patch? π kind e with
  | none => rfl
  | some p => exact Lawful.watermark_applyPatch p _

/-- An event fails exactly if it is broken. -/
theorem apply_fst_cases (hkind : ∀ (v : ω) t, action v t = kind t) (v : ω) (e : Event) :
    (apply e v).1 = .ok () ∧ broken π kind e = false ∨
      (∃ d, (apply e v).1 = .error (.decode d)) ∧ broken π kind e = true := by
  simp only [apply, hkind, broken]
  cases kind e.type with
  | ignore => exact .inl ⟨rfl, rfl⟩
  | create | change =>
      simp only [setData]
      cases e.decode π with
      | ok patch => exact .inl ⟨rfl, rfl⟩
      | error d => exact .inr ⟨⟨d, rfl⟩, rfl⟩

/-- As many events fail as are broken. -/
theorem countP_outcomes (hkind : ∀ (v : ω) t, action v t = kind t) (es : List Event) :
    ∀ v : ω, (outcomes v es).countP (fun r => r matches .error (.decode _)) =
      es.countP (broken π kind) := by
  induction es with
  | nil => exact fun _ => rfl
  | cons e es ih =>
      intro v
      rw [outcomes, List.countP_cons, List.countP_cons, ih]
      rcases apply_fst_cases hkind v e with ⟨hok, hb⟩ | ⟨⟨d, herror⟩, hb⟩
      · rw [hok, hb]
      · rw [herror, hb]

/-- An event that is ignored does not fail. -/
theorem ok_of_ignored (hkind : ∀ (v : ω) t, action v t = kind t) (es : List Event) :
    ∀ (v : ω) (i : Nat) (e : Event), es[i]? = some e → kind e.type = .ignore →
      (outcomes v es)[i]? = some (.ok ()) := by
  induction es with
  | nil => exact fun _ i e he => by cases he
  | cons x es ih =>
      intro v i e he hignored
      cases i with
      | succ i => exact ih _ i e he hignored
      | zero =>
          cases he
          rcases apply_fst_cases hkind v x with ⟨hok, -⟩ | ⟨-, hb⟩
          · exact congrArg some hok
          · simp [broken, hignored] at hb

/-- What events that are given one by one make of the watermark, and which of them fail. -/
structure Standing (kind : EventType → ViewAction) (v : ω) (es : List Event) : Prop where
  sequence : (watermark (replay v es)).sequence =
    (es.getLast?.map (·.sequence)).getD (watermark v).sequence
  changeDate : (watermark (replay v es)).changeDate =
    (es.getLast?.map (some ·.creationDate)).getD (watermark v).changeDate
  /-- An event that creates counts whether or not it can be read. -/
  creationDate : (watermark (replay v es)).creationDate =
    (lastWritten (created kind (some ·.creationDate)) es).getD (watermark v).creationDate
  failures : (outcomes v es).countP (fun r => r matches .error (.decode _)) = es.countP (broken π kind)
  ignored : ∀ (i : Nat) (e : Event), es[i]? = some e → kind e.type = .ignore →
    (outcomes v es)[i]? = some (.ok ())

/-- **A view that acts by types** stands at the last event, and was created by the last that creates. -/
theorem standing [Lawful ω] (hkind : ∀ (v : ω) t, action v t = kind t) (v : ω) (es : List Event) :
    Standing kind v es := by
  have happly (v : ω) (e : Event) := (watermark_apply hkind v e).trans (watermark_moved e v)
  refine ⟨sequence_replay v es, ?_, ?_, countP_outcomes hkind es v, ok_of_ignored hkind es v⟩
  · rw [replay_field (fun v => (watermark v).changeDate) (fun e => some (some e.creationDate))
      (fun v e => by rw [happly]; rfl), lastWritten_some]
  · exact replay_field (fun v => (watermark v).creationDate) _ (fun v e => by rw [happly]) es v

/-! ### Members and counters -/

theorem member_action (v : MemberView) (t : EventType) : action v t = MemberView.action t :=
  rfl

theorem counter_action (v : CounterView) (t : EventType) : action v t = CounterView.action t :=
  rfl

/-- What one event does to the view of a member. -/
theorem member_apply (v : MemberView) (e : Event) :
    (apply e v).2.orgId = (created MemberView.action (·.aggregate.id) e).getD v.orgId ∧
    (apply e v).2.userId =
      ((patch? MemberPatch MemberView.action e).bind (·.userId)).getD v.userId ∧
    (apply e v).2.roles =
      ((patch? MemberPatch MemberView.action e).bind (·.roles)).getD v.roles := by
  rw [apply_snd member_action, moved, created]
  cases patch? MemberPatch MemberView.action e <;> split <;> exact ⟨rfl, rfl, rfl⟩

/-- What one event does to the view of a counter. -/
theorem counter_apply (v : CounterView) (e : Event) :
    (apply e v).2.root = (created CounterView.action (·.aggregate.id) e).getD v.root ∧
    (apply e v).2.count =
      ((patch? CounterPatch CounterView.action e).map (·.count)).getD v.count := by
  rw [apply_snd counter_action, moved, created]
  cases patch? CounterPatch CounterView.action e <;> split <;> exact ⟨rfl, rfl⟩

/-- **A view is determined by its events.**  Given one by one and past those that fail, the events leave in
each field what the last event that writes into the field has written. -/
theorem replay_determined :
    (∀ (v : MemberView) (es : List Event), Standing MemberView.action v es ∧
      (replay v es).orgId =
        (lastWritten (created MemberView.action (·.aggregate.id)) es).getD v.orgId ∧
      (replay v es).userId =
        (lastWritten (fun e => (patch? MemberPatch MemberView.action e).bind (·.userId)) es).getD v.userId ∧
      (replay v es).roles =
        (lastWritten (fun e => (patch? MemberPatch MemberView.action e).bind (·.roles)) es).getD v.roles) ∧
    (∀ (v : CounterView) (es : List Event), Standing CounterView.action v es ∧
      (replay v es).root =
        (lastWritten (created CounterView.action (·.aggregate.id)) es).getD v.root ∧
      (replay v es).count =
        (lastWritten (fun e => (patch? CounterPatch CounterView.action e).map (·.count)) es).getD
          v.count) := by
  refine ⟨fun v es => ⟨standing member_action v es, ?_, ?_, ?_⟩,
    fun v es => ⟨standing counter_action v es, ?_, ?_⟩⟩
  · exact replay_field MemberView.orgId _ (fun v e => (member_apply v e).1) es v
  · exact replay_field MemberView.userId _ (fun v e => (member_apply v e).2.1) es v
  · exact replay_field MemberView.roles _ (fun v e => (member_apply v e).2.2) es v
  · exact replay_field CounterView.root _ (fun v e => (counter_apply v e).1) es v
  · exact replay_field CounterView.count _ (fun v e => (counter_apply v e).2) es v

end EventSourcing.View
