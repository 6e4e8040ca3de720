import EventSourcing.Proofs.Memory.Runs
import EventSourcing.Proofs.WriteModel.Bookkeeping

/-!
# Write models — how loads and saves end

A load or a save touches two things, a store and a model, and can fail for two reasons: the store refuses
it, or the model cannot fold an event.  The store is asked first.  If it refuses, nothing has happened to
either.  If it does not, the events of a save are in the log for good, whatever the model makes of them.

* `Saved`, `Loaded`: all the ways in which a save and a load can end, and what each of them leaves.
* `StopsShort`: what a fold that fails leaves of a model of the directory.  Nothing that was buffered is
  lost, and the books have not been closed.
* `Memory.loads_and_saves_whole`: **no load and no save leaves anything half-done**.
-/

namespace EventSourcing

open Reducer (absorb replay)

/-! ### Saves -/

/-- How a save of the batch from model `x` to store `m` has ended. -/
structure Saved {μ : Type} [Reducer μ] (ctx : Context) (b : Batch) (x : μ) (m : Memory)
    (outcome : Except (ModelError Empty) Unit × μ × Memory) : Prop where
  /-- It is refused by the store exactly if the push is. -/
  refused (e : StoreError Empty) : outcome.1 = .error (.store e) ↔ (m.push ctx b).1 = .error e
  /-- Then the model is as before, and so is all that the store holds.  At most the clock was read. -/
  untouched (e : StoreError Empty) (h : (m.push ctx b).1 = .error e) :
    outcome.2.1 = x ∧ outcome.2.2.ledger = m.ledger ∧ (outcome.2.2 = m ∨ outcome.2.2 = m.tick)
  /-- Otherwise the events of the batch, in the order of its commands, are all that has been appended. -/
  persisted (events : List Event) (h : (m.push ctx b).1 = .ok events) :
    outcome.2.2.ledger.log = m.ledger.log ++ events ∧
      List.Forall₂ Event.Records events (b.scoped ctx).toList
  /-- The model has folded just these on top of its buffer, and the save fails if that did. -/
  folded (events : List Event) (h : (m.push ctx b).1 = .ok events) :
    outcome.2.1 = (replay events x).2 ∧
      ∀ r, outcome.1 = .error (.reduce r) ↔ (replay events x).1 = .error r

/-- What a replay ends with is never an error of the store. -/
theorem ModelError.mapError_reduce {α : Type} {x : Except ReduceError α} :
    (∀ e, x.mapError (ModelError.reduce (ε := Empty)) ≠ .error (.store e)) ∧
      ∀ r, x.mapError (ModelError.reduce (ε := Empty)) = .error (.reduce r) ↔ x = .error r := by
  refine ⟨fun e h => ?_, fun r => ?_⟩
  · obtain ⟨r, -, hr⟩ := mapError_eq_error.mp h
    cases hr
  · rw [mapError_eq_error]
    constructor
    · rintro ⟨r', hx, hr⟩
      cases hr
      exact hx
    · intro hx
      exact ⟨r, hx, rfl⟩

namespace Memory

theorem save_eq {μ : Type} [Reducer μ] (ctx : Context) (b : Batch) (x : μ) (m : Memory) :
    Reducer.save ctx b x m =
      match (m.push ctx b).1 with
      | .error e => (.error (.store e), x, (m.push ctx b).2)
      | .ok events =>
        ((replay events x).1.mapError .reduce, (replay events x).2, (m.push ctx b).2) := by
  have hpush : EventStore.push ctx b m = m.push ctx b := rfl
  rw [Reducer.save, hpush]
  rcases m.push ctx b with ⟨e | events, m'⟩
  · rfl
  · rfl

/-- **Every save is one of the outcomes.** -/
theorem saved {μ : Type} [Reducer μ] (ctx : Context) (b : Batch) (x : μ) (m : Memory) :
    Saved ctx b x m (Reducer.save ctx b x m) := by
  rw [save_eq]
  cases hp : (m.push ctx b).1 with
  | error e =>
      refine ⟨fun e' => ?_, fun e' _ => ⟨rfl, push_error hp⟩, fun _ h => ?_, fun _ h => ?_⟩
      · rw [hp]; simp
      · rw [hp] at h; cases h
      · rw [hp] at h; cases h
  | ok events =>
      obtain ⟨-, -, hevents, hstore⟩ := push_ok hp
      obtain ⟨hnever, hreduce⟩ := ModelError.mapError_reduce (x := (replay events x).1)
      refine ⟨fun e' => ?_, fun e' h => ?_, fun events' h => ?_, fun events' h => ?_⟩
      · rw [hp]; simp [hnever]
      · rw [hp] at h; cases h
      · rw [hp] at h
        cases h
        rw [hstore, hevents]
        exact ⟨Ledger.log_appendAll _ _ _, Ledger.records_nextEvents _ _ _⟩
      · rw [hp] at h
        cases h
        exact ⟨rfl, hreduce⟩

end Memory

/-! ### Loads -/

/-- How a call that loads model `x` from store `m` has ended. -/
structure Loaded {μ α : Type} [QueryReducer μ] (ctx : Context) (x : μ) (m : Memory)
    (outcome : Except (ModelError Empty) α × μ × Memory) : Prop where
  /-- The store is as before, clock and all. -/
  store : outcome.2.2 = m
  /-- The store refuses it exactly if it refuses to read the events that the model asks for, -/
  refused (e : StoreError Empty) :
    outcome.1 = .error (.store e) ↔ (EventStore.filter ctx (QueryReducer.query x) m).1 = .error e
  /-- which it does for a query for other columns and for an interrupted call. -/
  causes (e : StoreError Empty) :
    outcome.1 = .error (.store e) ↔
      ((QueryReducer.query x).columns ≠ .event ∧
        e = .invalidArgument (.columnsMismatch .event (QueryReducer.query x).columns)) ∨
      ((QueryReducer.query x).columns = .event ∧
        ∃ i, ctx.interruption? = some i ∧ e = .ofInterruption i)
  /-- Then the model is as before, -/
  untouched (e : StoreError Empty) (h : outcome.1 = .error (.store e)) : outcome.2.1 = x
  /-- and also where there are no events. -/
  empty (h : (EventStore.filter ctx (QueryReducer.query x) m).1 = .ok []) :
    outcome.2.1 = x ∧ ∃ a, outcome.1 = .ok a
  /-- Otherwise the model has folded just the events that were read on top of its buffer. -/
  folded (events : List Event) (hne : events ≠ [])
    (h : (EventStore.filter ctx (QueryReducer.query x) m).1 = .ok events) :
    outcome.2.1 = (replay events x).2 ∧
      ∀ r, outcome.1 = .error (.reduce r) ↔ (replay events x).1 = .error r

namespace Memory

/-- **Every load is one of the outcomes.** -/
theorem loaded {μ : Type} [QueryReducer μ] (ctx : Context) (x : μ) (m : Memory) :
    Loaded ctx x m (Reducer.load ctx x m) := by
  have hrefused (e : StoreError Empty) : (Reducer.load ctx x m).1 = .error (.store e) ↔
      (EventStore.filter ctx (QueryReducer.query x) m).1 = .error e := by
    rw [load_eq]
    cases hf : (EventStore.filter ctx (QueryReducer.query x) m).1 with
    | error e' => simp
    | ok events => simp [ModelError.mapError_reduce.1]
  refine ⟨?_, hrefused, fun e => (hrefused e).trans filter_error_iff, fun e h => ?_, fun h => ?_,
    fun events hne h => ?_⟩
  · rw [load_eq]; split <;> rfl
  · rw [load_eq, (hrefused e).mp h]
  · rw [load_eq, h]; exact ⟨rfl, (), rfl⟩
  · rw [load_eq, h]
    dsimp only
    rw [Reducer.absorb_of_ne_nil hne]
    exact ⟨rfl, ModelError.mapError_reduce.2⟩

/-- Asking for existence is a load, and a look at the model after it. -/
theorem loadExists_eq {μ : Type} [ExistenceCheck μ] (ctx : Context) (x : μ) (m : Memory) :
    Reducer.loadExists ctx x m =
      ((Reducer.load ctx x m).1.map fun () => ExistenceCheck.subjectExists (Reducer.load ctx x m).2.1,
        (Reducer.load ctx x m).2) :=
  rfl

/-- To ask whether the subject exists does to store and model what a load does. -/
theorem loadedExists {μ : Type} [ExistenceCheck μ] (ctx : Context) (x : μ) (m : Memory) :
    Loaded ctx x m (Reducer.loadExists ctx x m) := by
  have h := loaded ctx x m
  rw [loadExists_eq]
  refine ⟨h.store, fun e => map_eq_error.trans (h.refused e), fun e => map_eq_error.trans (h.causes e),
    fun e he => h.untouched e (map_eq_error.mp he), fun hempty => ?_, fun events hne hf => ?_⟩
  · obtain ⟨hx, a, ha⟩ := h.empty hempty
    exact ⟨hx, _, map_eq_ok.mpr ⟨a, ha, rfl⟩⟩
  · obtain ⟨hx, hr⟩ := h.folded events hne hf
    exact ⟨hx, fun r => map_eq_error.trans (hr r)⟩

end Memory

/-! ### Folds that fail -/

/-- A fold of model `x` that fails has closed no books and lost nothing that was buffered, and the model's
own fields are where the events before the one that it could not apply have brought them. -/
def StopsShort {μ : Type} [Reducer μ] [Bookkept μ] (step : μ → Event → Except ReduceError μ)
    (x : μ) : Prop :=
  ∀ events r, (replay events x).1 = .error r →
    Bookkept.base (replay events x).2 =
      { Bookkept.base x with events := (Bookkept.base x).events ++ events } ∧
    ∃ before e after, (Bookkept.base x).events ++ events = before ++ e :: after ∧
      before.foldlM step (Reducer.append events x) = .ok (replay events x).2 ∧
      step (replay events x).2 e = .error r

/-- A fold that fails keeps what earlier events changed, and all books. -/
theorem Folding.stopsShort {μ : Type} [Reducer μ] [Bookkept μ] [Folding μ] (x : μ) :
    StopsShort Folding.applyEvent x := by
  intro events r h
  obtain ⟨hbase, hfold⟩ := stops h
  rw [base_append] at hbase hfold
  exact ⟨hbase, hfold⟩

/-- **No load and no save leaves anything half-done.**

A save that the store refuses has changed neither model nor store.  Any other has appended the events of
its batch, whether or not the model can fold them.  A load never changes the store, nor does asking whether
the subject exists, and both leave the model as it was if the store refuses them or has nothing to give.
A model of the directory, finally, that fails to fold its events keeps them all. -/
theorem Memory.loads_and_saves_whole (m : Memory) (ctx : Context) (b : Batch) :
    (∀ (μ : Type) [Reducer μ] (x : μ), Saved ctx b x m (Reducer.save ctx b x m)) ∧
    (∀ (μ : Type) [QueryReducer μ] (x : μ), Loaded ctx x m (Reducer.load ctx x m)) ∧
    (∀ (μ : Type) [ExistenceCheck μ] (x : μ), Loaded ctx x m (Reducer.loadExists ctx x m) ∧
      ∀ answer, (Reducer.loadExists ctx x m).1 = .ok answer →
        answer = ExistenceCheck.subjectExists (Reducer.loadExists ctx x m).2.1) ∧
    (∀ o : Org, StopsShort Org.applyEvent o) ∧
    (∀ k : KeyPair, StopsShort KeyPair.applyEvent k) ∧
    (∀ j : Journal, StopsShort Journal.applyEvent j) := by
  refine ⟨fun μ _ x => saved ctx b x m, fun μ _ x => loaded ctx x m,
    fun μ _ x => ⟨loadedExists ctx x m, fun answer h => ?_⟩, Folding.stopsShort, Folding.stopsShort,
    Folding.stopsShort⟩
  rw [loadExists_eq] at h
  obtain ⟨-, -, hanswer⟩ := map_eq_ok.mp h
  exact hanswer.symm

/-! ### A page that cannot be read -/

/-- A command on a diary. -/
def diaryCommand (type : EventType) : Command where
  aggregate := { type := "diary", id := "d-1" }
  type

/-- Three entries, of which a journal refuses the second. -/
def tornPage : Batch :=
  ⟨(diaryCommand "noted").expecting 0, [diaryCommand "fail", diaryCommand "noted"]⟩

/-- The page is saved in an empty store. -/
def tornSave : Except (ModelError Empty) Unit × Journal × Memory :=
  Reducer.save {} tornPage ({ source := { limit := 1 } } : Journal) ({ clock := default } : Memory)

/-- The store has the page.  The journal has it in its buffer, and fails again with what it loads.  To push
the page once more is in conflict, and changes nothing. -/
theorem Memory.loads_and_saves_whole_torn :
    (∃ events, (({ clock := default } : Memory).push {} tornPage).1 = .ok events ∧
      tornSave.1 = .error (.reduce (.other "refused")) ∧
      tornSave.2.2.ledger.log = events ∧
      Bookkept.base tornSave.2.1 = { Bookkept.base ({} : Journal) with events := events } ∧
      tornSave.2.1.seen = ["noted@1"]) ∧
    (∃ e, (tornSave.2.2.push {} tornPage).1 = .error e ∧
      (Reducer.save {} tornPage tornSave.2.1 tornSave.2.2).1 = .error (.store e) ∧
      (Reducer.save {} tornPage tornSave.2.1 tornSave.2.2).2.1 = tornSave.2.1) ∧
    (Reducer.load {} tornSave.2.1 tornSave.2.2).1 = .error (.reduce (.other "refused")) := by
  obtain ⟨hsaves, -, -, -, -, hjournals⟩ :=
    loads_and_saves_whole ({ clock := default } : Memory) {} tornPage
  obtain ⟨hagain, hloads, -⟩ := loads_and_saves_whole tornSave.2.2 {} tornPage
  refine ⟨⟨_, rfl, rfl, ?_, ?_, rfl⟩, ⟨_, rfl, ?_, ?_⟩, ?_⟩
  · exact ((hsaves Journal _).persisted _ rfl).1
  · obtain ⟨htaken, -⟩ := (hsaves Journal { source := { limit := 1 } }).folded _ rfl
    rw [tornSave, htaken]
    exact (hjournals _ _ (.other "refused") rfl).1
  · exact ((hagain Journal _).refused _).mpr rfl
  · exact ((hagain Journal _).untouched _ rfl).1
  · exact (((hloads Journal _).folded _ (by decide) rfl).2 (.other "refused")).mpr rfl

end EventSourcing
