import Mathlib.Data.List.Basic
import EventSourcing.WriteModel.Loading

/-!
# Write models — what books take from events

Books that are reduced take their identity from the first event of the buffer, as far as it is not known
yet, and their place in the stream from the last.

* `reduce_append`: with nothing buffered before, that is all that books take from events.
* `reduce_again`: **to enter events again, and more of them, is to enter them once**.
-/

namespace EventSourcing.WriteModel

/-! ### Identity -/

@[simp] theorem orElse_of_ne {known : String} (h : known ≠ "") (found : String) :
    orElse known found = known :=
  if_neg h

@[simp] theorem orElse_empty (found : String) : orElse "" found = found :=
  if_pos rfl

@[simp] theorem orElse_self (known : String) : orElse known known = known :=
  ite_self known

/-- What has been taken from an event is not taken from it again. -/
theorem orElse_orElse (known found : String) : orElse (orElse known found) found = orElse known found := by
  by_cases h : known = ""
  · rw [h, orElse_empty, orElse]
    split <;> rfl
  · rw [orElse_of_ne h, orElse_of_ne h]

/-! ### Reductions -/

/-- A reduction leaves nothing buffered. -/
@[simp] theorem events_reduce (m : WriteModel) : m.reduce.events = [] := by
  rw [reduce]
  cases he : m.events with
  | nil => exact he
  | cons e es => rw [List.head?_cons, List.getLast?_eq_some_getLast (List.cons_ne_nil e es)]

/-- Books that know their stream learn nothing about it from its events. -/
theorem aggregateId_reduce {m : WriteModel} (h : ∀ e ∈ m.events, e.aggregate.id = m.aggregateId) :
    m.reduce.aggregateId = m.aggregateId := by
  rw [reduce]
  cases he : m.events with
  | nil => rfl
  | cons e es =>
      rw [List.head?_cons, List.getLast?_eq_some_getLast (List.cons_ne_nil e es)]
      show orElse m.aggregateId e.aggregate.id = m.aggregateId
      rw [h e (he ▸ List.mem_cons_self), orElse_self]

/-- Books that have been reduced with events from `first` to `last`. -/
def closed (m : WriteModel) (first last : Event) : WriteModel where
  aggregateId := orElse m.aggregateId first.aggregate.id
  resourceOwner := orElse m.resourceOwner first.aggregate.resourceOwner
  instanceId := orElse m.instanceId first.aggregate.instanceId
  events := []
  processedSequence := last.sequence
  changeDate := some last.creationDate

/-- A reduction that finds nothing buffered changes nothing. -/
theorem reduce_of_events_nil {m : WriteModel} (h : m.events = []) : m.reduce = m := by
  rw [reduce, h]
  rfl

/-- Any other takes from events what `closed` says. -/
theorem reduce_eq_closed {m : WriteModel} {first last : Event} (hfirst : m.events.head? = some first)
    (hlast : m.events.getLast? = some last) : m.reduce = m.closed first last := by
  rw [reduce, hfirst, hlast]
  rfl

/-- With nothing buffered before, only the events appended are taken from. -/
theorem reduce_append {m : WriteModel} (hm : m.events = []) (first : Event) (rest : List Event) :
    (m.append (first :: rest)).reduce =
      m.closed first ((first :: rest).getLast (List.cons_ne_nil first rest)) := by
  have hevents : (m.append (first :: rest)).events = first :: rest := by
    rw [append, hm, List.nil_append]
  apply reduce_eq_closed
  · rw [hevents, List.head?_cons]
  · rw [hevents, List.getLast?_eq_some_getLast (List.cons_ne_nil first rest)]

/-- Closing the books twice is closing them once, with the first identity and the last event. -/
theorem closed_closed (m : WriteModel) (first last last' : Event) :
    (m.closed first last).closed first last' = m.closed first last' := by
  simp only [closed, orElse_orElse]

/-- **To enter events again, and more of them, is to enter them once.** -/
theorem reduce_again {m : WriteModel} (hm : m.events = []) {events more : List Event}
    (hne : events ≠ []) (hpre : events <+: more) :
    ((m.append events).reduce.append more).reduce = (m.append more).reduce := by
  obtain ⟨later, rfl⟩ := hpre
  cases events with
  | nil => exact absurd rfl hne
  | cons first rest =>
      -- both begin with the same event
      rw [List.cons_append, reduce_append hm, reduce_append hm, reduce_append rfl, closed_closed]

end EventSourcing.WriteModel
