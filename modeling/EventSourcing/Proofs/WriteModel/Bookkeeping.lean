import EventSourcing.Proofs.Memory.Reads
import EventSourcing.Proofs.Results
import EventSourcing.Proofs.WriteModel.Folding

/-!
# Write models — the embedded books

Every write model embeds the same books, and folds its own fields before it closes them.
`LawfulBookkept` says so: buffering events buffers them in the books, and a fold that succeeds closes
the books as `WriteModel.reduce` does.  Models that fold event by event are of this kind, and so are all
models of the directory.

* `load_eq`: a load folds exactly the events that the model asks for, and nothing where there are none.
* `processedSequence_load`: after it, a fresh model stands at the last event it was given.
-/

namespace EventSourcing

/-! ### Models that embed the books -/

/-- Models whose books are kept as those of the write model they embed. -/
class LawfulBookkept (μ : Type) [Reducer μ] [Bookkept μ] : Prop where
  base_append (events : List Event) (m : μ) :
    Bookkept.base (Reducer.append events m) = (Bookkept.base m).append events
  base_reduce {m : μ} (h : (Reducer.reduce m).1 = .ok ()) :
    Bookkept.base (Reducer.reduce m).2 = (Bookkept.base m).reduce

/-- Events that can be folded are entered in the books. -/
theorem LawfulBookkept.base_replay {μ : Type} [Reducer μ] [Bookkept μ] [LawfulBookkept μ]
    {events : List Event} {m : μ} (h : (Reducer.replay events m).1 = .ok ()) :
    Bookkept.base (Reducer.replay events m).2 = ((Bookkept.base m).append events).reduce := by
  rw [← base_append]
  exact base_reduce h

instance {μ : Type} [Reducer μ] [Bookkept μ] [Folding μ] : LawfulBookkept μ where
  base_append := Folding.base_append
  base_reduce {m} h := by
    rw [Folding.reduce_fst, map_eq_ok] at h
    obtain ⟨m', hfold, -⟩ := h
    rw [Folding.reduce_of_foldlM hfold, Folding.base_withBase]

instance : LawfulBookkept DirectoryModel where
  base_append events m := by cases m <;> rfl
  base_reduce {m} h := by
    cases m with
    | org o => exact LawfulBookkept.base_reduce (m := o) h
    | keyPair k => exact LawfulBookkept.base_reduce (m := k) h
    | journal j => exact LawfulBookkept.base_reduce (m := j) h

/-! ### Fresh books -/

/-- Books in which nothing has been entered but, possibly, whose they are. -/
def WriteModel.Fresh (m : WriteModel) : Prop :=
  m.events = [] ∧ m.processedSequence = 0 ∧ m.changeDate = none

/-- A fold leaves the books at the last event of the buffer. -/
theorem WriteModel.processedSequence_reduce (m : WriteModel) :
    m.reduce.processedSequence =
      (m.events.getLast?.map Event.sequence).getD m.processedSequence := by
  rw [reduce]
  cases he : m.events with
  | nil => rfl
  | cons e es => simp [List.getLast?_cons]

/-! ### Loading -/

/-- Folds events, if there are any. -/
def Reducer.absorb {μ : Type} [Reducer μ] : List Event → μ → Except ReduceError Unit × μ
  | [], x => (.ok (), x)
  | e :: es, x => replay (e :: es) x

theorem Reducer.absorb_of_ne_nil {μ : Type} [Reducer μ] {events : List Event} (h : events ≠ [])
    (x : μ) : absorb events x = replay events x := by
  cases events with
  | nil => exact absurd rfl h
  | cons e es => rfl

namespace Memory

open Reducer (absorb replay)

variable {μ : Type} [QueryReducer μ]

/-- **A load** folds the events that the model asks for, if there are any, and leaves the store as it
is. -/
theorem load_eq (ctx : Context) (x : μ) (m : Memory) :
    Reducer.load ctx x m =
      match (EventStore.filter ctx (QueryReducer.query x) m).1 with
      | .error e => (.error (.store e), x, m)
      | .ok events => ((absorb events x).1.mapError .reduce, (absorb events x).2, m) := by
  have hs := filter_snd ctx (QueryReducer.query x) m
  rw [Reducer.load]
  rcases hf : EventStore.filter ctx (QueryReducer.query x) m with ⟨e | events, m'⟩
  · rw [hf] at hs
    cases hs
    rfl
  · rw [hf] at hs
    cases hs
    cases events with
    | nil => rfl
    | cons e es => rfl

/-- A load that succeeds has been given events, and has folded them. -/
theorem load_ok {ctx : Context} {x : μ} {m : Memory} (h : (Reducer.load ctx x m).1 = .ok ()) :
    ∃ events, (EventStore.filter ctx (QueryReducer.query x) m).1 = .ok events ∧
      (absorb events x).1 = .ok () ∧
      Reducer.load ctx x m = (.ok (), (absorb events x).2, m) := by
  rw [load_eq] at h ⊢
  cases hf : (EventStore.filter ctx (QueryReducer.query x) m).1 with
  | error e => rw [hf] at h; cases h
  | ok events =>
      rw [hf] at h
      exact ⟨events, rfl, mapError_eq_ok.mp h, Prod.ext h rfl⟩

/-- **Where a load leaves a fresh model**: at the last of the events it was given. -/
theorem processedSequence_load [Bookkept μ] [LawfulBookkept μ] {ctx : Context} {x : μ} {m : Memory}
    (hx : (Bookkept.base x).Fresh) (h : (Reducer.load ctx x m).1 = .ok ()) :
    ∃ events, (EventStore.filter ctx (QueryReducer.query x) m).1 = .ok events ∧
      (Bookkept.base (Reducer.load ctx x m).2.1).processedSequence =
        (events.getLast?.map Event.sequence).getD 0 := by
  obtain ⟨hbuffer, hseq, -⟩ := hx
  obtain ⟨events, hf, hr, hl⟩ := load_ok h
  refine ⟨events, hf, ?_⟩
  cases events with
  | nil => rw [hl]; exact hseq
  | cons e es =>
      rw [hl]
      dsimp only [absorb]
      rw [LawfulBookkept.base_replay hr, WriteModel.processedSequence_reduce]
      simp only [WriteModel.append, hbuffer, List.nil_append, hseq]

end Memory

end EventSourcing
