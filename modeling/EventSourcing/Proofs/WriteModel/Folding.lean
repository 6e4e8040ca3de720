import EventSourcing.Directory.Model

/-!
# Write models — folding event by event

The models of the directory fold their buffer event by event.  Where every event can be applied, they
then close the books that they embed; where one cannot, they stop in front of it and close nothing.

* `foldEvents_eq_ok_iff`, `foldEvents_stops`: a fold comes to its end exactly if every event can be
  applied, and otherwise stands in front of the first that cannot.
* `Folding`: the models that reduce in this way, each with its own step.
* `Folding.reduce_of_foldlM`, `Folding.stops`: what a reduction leaves of a model, and that one that fails
  loses nothing of the buffer.
-/

namespace EventSourcing

/-! ### Folds that stop short -/

section

variable {μ : Type} {step : μ → Event → Except ReduceError μ}

theorem foldEvents_fst (es : List Event) :
    ∀ m, (foldEvents step m es).1 = (es.foldlM step m).map fun _ => () := by
  induction es with
  | nil => intro m; rfl
  | cons e es ih =>
      intro m
      rw [foldEvents, List.foldlM_cons]
      cases step m e with
      | ok m₁ => exact ih m₁
      | error r => rfl

/-- A fold comes to its end exactly if every event can be applied. -/
theorem foldEvents_eq_ok_iff {es : List Event} {m m' : μ} :
    foldEvents step m es = (.ok (), m') ↔ es.foldlM step m = .ok m' := by
  induction es generalizing m with
  | nil =>
      constructor
      · intro h; cases h; rfl
      · intro h; cases h; rfl
  | cons e es ih =>
      rw [foldEvents, List.foldlM_cons]
      cases step m e with
      | ok m₁ => exact ih
      | error r =>
          constructor
          · intro h; cases h
          · intro h; cases h

/-- A fold that fails stops in front of an event that cannot be applied, once those before it have been. -/
theorem foldEvents_stops {es : List Event} {m m' : μ} {r : ReduceError}
    (h : foldEvents step m es = (.error r, m')) :
    ∃ before e after, es = before ++ e :: after ∧ before.foldlM step m = .ok m' ∧
      step m' e = .error r := by
  induction es generalizing m with
  | nil => cases h
  | cons e es ih =>
      rw [foldEvents] at h
      cases hs : step m e with
      | ok m₁ =>
          rw [hs] at h
          obtain ⟨before, f, after, rfl, hbefore, hf⟩ := ih h
          exact ⟨e :: before, f, after, rfl, by rw [List.foldlM_cons, hs]; exact hbefore, hf⟩
      | error r' =>
          rw [hs] at h
          cases h
          exact ⟨[], e, es, rfl, rfl, hs⟩

/-- Folding a model's own fields leaves its books alone, if no single event touches them. -/
theorem base_foldEvents {base : μ → WriteModel}
    (hstep : ∀ m e m', step m e = .ok m' → base m' = base m) (events : List Event) :
    ∀ m, base (foldEvents step m events).2 = base m := by
  induction events with
  | nil => intro m; rfl
  | cons e es ih =>
      intro m
      rw [foldEvents]
      cases hs : step m e with
      | error error => rfl
      | ok m' => exact (ih m').trans (hstep m e m' hs)

end

/-! ### Models that fold -/

/-- Models that fold their own fields event by event, and close the books that they embed only where that
succeeds. -/
class Folding (μ : Type) [Reducer μ] [Bookkept μ] where
  /-- How an event changes the model's own fields. -/
  applyEvent : μ → Event → Except ReduceError μ
  /-- The model with other books. -/
  withBase : WriteModel → μ → μ
  base_withBase (b : WriteModel) (m : μ) : Bookkept.base (withBase b m) = b
  withBase_withBase (b b' : WriteModel) (m : μ) : withBase b (withBase b' m) = withBase b m
  withBase_base (m : μ) : withBase (Bookkept.base m) m = m
  base_applyEvent (m : μ) (e : Event) (m' : μ) (h : applyEvent m e = .ok m') :
    Bookkept.base m' = Bookkept.base m
  append_eq (events : List Event) (m : μ) :
    Reducer.append events m = withBase ((Bookkept.base m).append events) m
  reduce_of_ok (m m' : μ) (h : foldEvents applyEvent m (Bookkept.base m).events = (.ok (), m')) :
    Reducer.reduce m = (.ok (), withBase (Bookkept.base m').reduce m')
  reduce_of_error (m m' : μ) (r : ReduceError)
    (h : foldEvents applyEvent m (Bookkept.base m).events = (.error r, m')) :
    Reducer.reduce m = (.error r, m')

namespace Folding

variable {μ : Type} [Reducer μ] [Bookkept μ] [Folding μ] {m m' : μ}

/-- Buffered events go to the books. -/
theorem base_append (events : List Event) (m : μ) :
    Bookkept.base (Reducer.append events m) = (Bookkept.base m).append events := by
  rw [append_eq, base_withBase]

/-- A fold that comes to its end closes the books. -/
theorem reduce_of_foldlM (h : (Bookkept.base m).events.foldlM applyEvent m = .ok m') :
    Reducer.reduce m = (.ok (), withBase (Bookkept.base m).reduce m') := by
  have hfold := foldEvents_eq_ok_iff.mpr h
  have hbase := base_foldEvents base_applyEvent (Bookkept.base m).events m
  rw [hfold] at hbase
  rw [reduce_of_ok m m' hfold, hbase]

/-- A reduction fails as its fold does. -/
theorem reduce_fst (m : μ) :
    (Reducer.reduce m).1 =
      ((Bookkept.base m).events.foldlM applyEvent m).map fun _ => () := by
  rw [← foldEvents_fst]
  rcases hf : foldEvents applyEvent m (Bookkept.base m).events with ⟨r | ⟨⟩, m'⟩
  · rw [reduce_of_error m m' r hf]
  · rw [reduce_of_ok m m' hf]

/-- A reduction that fails leaves the model where its fold has stopped. -/
theorem foldEvents_of_error {r : ReduceError} (h : (Reducer.reduce m).1 = .error r) :
    foldEvents applyEvent m (Bookkept.base m).events = (.error r, (Reducer.reduce m).2) := by
  rcases hf : foldEvents applyEvent m (Bookkept.base m).events with ⟨r' | ⟨⟩, m'⟩
  · rw [reduce_of_error m m' r' hf] at h ⊢
    cases h
    rfl
  · rw [reduce_of_ok m m' hf] at h
    cases h

/-- **A reduction that fails** leaves the books, with all that they have buffered, as they were, and the
model where the events before the one that cannot be applied have brought it. -/
theorem stops {r : ReduceError} (h : (Reducer.reduce m).1 = .error r) :
    Bookkept.base (Reducer.reduce m).2 = Bookkept.base m ∧
      ∃ before e after, (Bookkept.base m).events = before ++ e :: after ∧
        before.foldlM applyEvent m = .ok (Reducer.reduce m).2 ∧
        applyEvent (Reducer.reduce m).2 e = .error r := by
  have hfold := foldEvents_of_error h
  have hbase := base_foldEvents base_applyEvent (Bookkept.base m).events m
  rw [hfold] at hbase
  exact ⟨hbase, foldEvents_stops hfold⟩

end Folding

/-! ### The models of the directory -/

/-- Folding leaves the books of an organisation alone. -/
theorem Org.base_applyEvent (o : Org) (e : Event) (o' : Org) (h : o.applyEvent e = .ok o') :
    o'.base = o.base := by
  rw [applyEvent] at h
  split at h
  · cases hd : e.decode OrgAdded <;> rw [hd] at h <;> cases h; rfl
  · cases hd : e.decode OrgChanged <;> rw [hd] at h <;> cases h; rfl
  · cases h; rfl
  · cases h; rfl

instance : Folding Org where
  applyEvent := Org.applyEvent
  withBase base o := { o with base }
  base_withBase _ _ := rfl
  withBase_withBase _ _ _ := rfl
  withBase_base _ := rfl
  base_applyEvent := Org.base_applyEvent
  append_eq _ _ := rfl
  reduce_of_ok o o' (h : foldEvents _ o o.base.events = _) := by
    show Org.reduce o = _
    rw [Org.reduce, h]
    rfl
  reduce_of_error o o' r (h : foldEvents _ o o.base.events = _) := by
    show Org.reduce o = _
    rw [Org.reduce, h]

/-- Folding leaves the books of a key pair alone. -/
theorem KeyPair.base_applyEvent (k : KeyPair) (e : Event) (k' : KeyPair)
    (h : k.applyEvent e = .ok k') : k'.base = k.base := by
  rw [applyEvent] at h
  split at h
  · cases hd : e.decode KeyPairAdded <;> rw [hd] at h <;> cases h; rfl
  · cases h; rfl

instance : Folding KeyPair where
  applyEvent := KeyPair.applyEvent
  withBase base k := { k with base }
  base_withBase _ _ := rfl
  withBase_withBase _ _ _ := rfl
  withBase_base _ := rfl
  base_applyEvent := KeyPair.base_applyEvent
  append_eq _ _ := rfl
  reduce_of_ok k k' (h : foldEvents _ k k.base.events = _) := by
    show KeyPair.reduce k = _
    rw [KeyPair.reduce, h]
    rfl
  reduce_of_error k k' r (h : foldEvents _ k k.base.events = _) := by
    show KeyPair.reduce k = _
    rw [KeyPair.reduce, h]

/-- Folding leaves the books of a journal alone. -/
theorem Journal.base_applyEvent (j : Journal) (e : Event) (j' : Journal)
    (h : j.applyEvent e = .ok j') : j'.base = j.base := by
  rw [applyEvent] at h
  split at h
  · cases h
  · cases h; rfl

instance : Folding Journal where
  applyEvent := Journal.applyEvent
  withBase base j := { j with base }
  base_withBase _ _ := rfl
  withBase_withBase _ _ _ := rfl
  withBase_base _ := rfl
  base_applyEvent := Journal.base_applyEvent
  append_eq _ _ := rfl
  reduce_of_ok j j' (h : foldEvents _ j j.base.events = _) := by
    show Journal.reduce j = _
    rw [Journal.reduce, h]
    rfl
  reduce_of_error j j' r (h : foldEvents _ j j.base.events = _) := by
    show Journal.reduce j = _
    rw [Journal.reduce, h]

end EventSourcing
