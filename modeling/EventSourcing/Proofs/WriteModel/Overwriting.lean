import EventSourcing.Proofs.Results
import EventSourcing.Proofs.WriteModel.Books
import EventSourcing.Proofs.WriteModel.Folding

/-!
# Write models — events that overwrite

An organisation has the name that it was given last.  For models of this kind an event, if it can be read,
sets some fields to values that it brings along, and so it does not matter what has been written before if
the same is written again.

* `Overwriting`: the models whose own fields are overwritten, each with the entries that its events make.
* `writeAll_absorbed`: what is written again, in whatever order, need not have been written before.
* `replay_again`: **to fold events once more, and later ones after them, is to fold them once**.
-/

namespace EventSourcing

open Reducer (replay)

/-- Models whose events, where they can be read, make entries that overwrite the model's own fields. -/
class Overwriting (μ : Type) [Reducer μ] [Bookkept μ] [Folding μ] where
  /-- What an event sets, and to what. -/
  Entry : Type
  read : Event → Except ReduceError Entry
  write : Entry → μ → μ
  applyEvent_eq (x : μ) (e : Event) : Folding.applyEvent x e = (read e).map (write · x)
  write_withBase (p : Entry) (b : WriteModel) (x : μ) :
    write p (Folding.withBase b x) = Folding.withBase b (write p x)
  write_write (p : Entry) (x : μ) : write p (write p x) = write p x
  /-- An entry that is written again leaves no trace of its having been written before. -/
  write_write_write (p q : Entry) (x : μ) : write p (write q (write p x)) = write p (write q x)

namespace Overwriting

variable {μ : Type} [Reducer μ] [Bookkept μ] [Folding μ] [Overwriting μ]

/-! ### Entries -/

/-- The model with some entries, one after another. -/
def writeAll (ps : List (Entry μ)) (x : μ) : μ :=
  ps.foldl (fun x p => write p x) x

/-- Entries are written past the books. -/
theorem writeAll_withBase (ps : List (Entry μ)) (b : WriteModel) :
    ∀ x : μ, writeAll ps (Folding.withBase b x) = Folding.withBase b (writeAll ps x) := by
  induction ps with
  | nil => intro x; rfl
  | cons p ps ih =>
      intro x
      show writeAll ps (write p (Folding.withBase b x)) = _
      rw [write_withBase]
      exact ih (write p x)

/-- An entry that is written again later need not be written before. -/
theorem write_absorbed {p : Entry μ} {ps : List (Entry μ)} (hp : p ∈ ps) :
    ∀ x : μ, writeAll ps (write p x) = writeAll ps x := by
  induction ps with
  | nil => cases hp
  | cons q ps ih =>
      intro x
      show writeAll ps (write q (write p x)) = writeAll ps (write q x)
      by_cases hps : p ∈ ps
      · -- it is written once more after `q`, so it may as well be written right after it
        calc writeAll ps (write q (write p x))
            = writeAll ps (write p (write q (write p x))) := (ih hps _).symm
          _ = writeAll ps (write p (write q x)) := by rw [write_write_write]
          _ = writeAll ps (write q x) := ih hps _
      · obtain rfl : p = q := (List.mem_cons.mp hp).resolve_right hps
        rw [write_write]

/-- **What is written again** need not have been written before. -/
theorem writeAll_absorbed {ps more : List (Entry μ)} (h : ps ⊆ more) :
    ∀ x : μ, writeAll more (writeAll ps x) = writeAll more x := by
  induction ps with
  | nil => intro x; rfl
  | cons p ps ih =>
      intro x
      obtain ⟨hp, hps⟩ := List.cons_subset.mp h
      exact (ih hps (write p x)).trans (write_absorbed hp x)

/-! ### Folds -/

/-- A fold reads all events, and then writes what it has read. -/
theorem foldlM_applyEvent (events : List Event) :
    ∀ x : μ, events.foldlM Folding.applyEvent x = (events.mapM read).map (writeAll · x) := by
  induction events with
  | nil => intro x; rfl
  | cons e es ih =>
      intro x
      rw [List.foldlM_cons, List.mapM_cons, applyEvent_eq]
      cases read (μ := μ) e with
      | error r => rfl
      | ok p =>
          show es.foldlM Folding.applyEvent (write p x) = _
          rw [ih]
          cases es.mapM (read (μ := μ)) with
          | error r => rfl
          | ok ps => rfl

/-- With nothing buffered before, the events alone decide whether they can be folded. -/
theorem replay_fst {x : μ} (hx : (Bookkept.base x).events = []) (events : List Event) :
    (replay events x).1 = (events.mapM (read (μ := μ))).map fun _ => () := by
  rw [replay, Folding.reduce_fst, Folding.base_append, WriteModel.append, hx, List.nil_append,
    foldlM_applyEvent]
  cases events.mapM (read (μ := μ)) with
  | error r => rfl
  | ok ps => rfl

/-- If they can, their entries are written and the books closed. -/
theorem replay_eq {x : μ} (hx : (Bookkept.base x).events = []) {events : List Event}
    {ps : List (Entry μ)} (h : events.mapM read = .ok ps) :
    replay events x =
      (.ok (), Folding.withBase ((Bookkept.base x).append events).reduce (writeAll ps x)) := by
  have hbuffer : (Bookkept.base (Reducer.append events x)).events = events := by
    rw [Folding.base_append, WriteModel.append, hx, List.nil_append]
  have hfold : (Bookkept.base (Reducer.append events x)).events.foldlM Folding.applyEvent
      (Reducer.append events x) = .ok (writeAll ps (Reducer.append events x)) := by
    rw [hbuffer, foldlM_applyEvent, h]
    rfl
  rw [replay, Folding.reduce_of_foldlM hfold, Folding.base_append, Folding.append_eq,
    writeAll_withBase, Folding.withBase_withBase]

/-- **To fold events once more, and later ones after them, is to fold them once.** -/
theorem replay_again {x : μ} (hx : (Bookkept.base x).events = []) {events more : List Event}
    (hne : events ≠ []) (hpre : events <+: more) (hok : (replay events x).1 = .ok ()) :
    (replay more (replay events x).2).1 = (replay more x).1 ∧
      ((replay more x).1 = .ok () → replay more (replay events x).2 = replay more x) := by
  rw [replay_fst hx, map_eq_ok] at hok
  obtain ⟨ps, hps, -⟩ := hok
  have hbase : Bookkept.base (replay events x).2 = ((Bookkept.base x).append events).reduce := by
    rw [replay_eq hx hps, Folding.base_withBase]
  have hclosed : (Bookkept.base (replay events x).2).events = [] := by
    rw [hbase, WriteModel.events_reduce]
  refine ⟨by rw [replay_fst hclosed, replay_fst hx], fun h => ?_⟩
  rw [replay_fst hx, map_eq_ok] at h
  obtain ⟨more', hmore, -⟩ := h
  have hsub : ps ⊆ more' := (prefix_of_mapM_eq_ok hpre hps hmore).subset
  rw [replay_eq hclosed hmore, hbase, WriteModel.reduce_again hx hne hpre, replay_eq hx hps,
    replay_eq hx hmore, writeAll_withBase, Folding.withBase_withBase, writeAll_absorbed hsub]

end Overwriting

/-! ### The models of the directory -/

/-- What an event changes about an organisation. -/
structure OrgEntry where
  name : Option String := none
  state : Option OrgState := none

namespace OrgEntry

/-- What an event says about an organisation; events of other types say nothing. -/
def ofEvent (e : Event) : Except ReduceError OrgEntry :=
  if e.type = "org.added" then
    (e.decode OrgAdded).map (fun p => { name := some p.name, state := some .active })
      |>.mapError .decode
  else if e.type = "org.changed" then
    (e.decode OrgChanged).map (fun p => { name := some p.name }) |>.mapError .decode
  else if e.type = "org.removed" then .ok { state := some .removed }
  else .ok {}

/-- Writes what an entry gives, and keeps the rest. -/
def write (p : OrgEntry) (o : Org) : Org :=
  { o with name := p.name.getD o.name, state := p.state.getD o.state }

theorem applyEvent_eq (o : Org) (e : Event) : o.applyEvent e = (ofEvent e).map (write · o) := by
  rw [Org.applyEvent, ofEvent]
  split
  next h =>
    rw [if_pos h]
    cases e.decode OrgAdded <;> rfl
  next h =>
    rw [if_neg (by rw [h]; decide), if_pos h]
    cases e.decode OrgChanged <;> rfl
  next h =>
    rw [if_neg (by rw [h]; decide), if_neg (by rw [h]; decide), if_pos h]
    rfl
  next hadded hchanged hremoved =>
    rw [if_neg hadded, if_neg hchanged, if_neg hremoved]
    rfl

end OrgEntry

instance : Overwriting Org where
  Entry := OrgEntry
  read := OrgEntry.ofEvent
  write := OrgEntry.write
  applyEvent_eq := OrgEntry.applyEvent_eq
  write_withBase _ _ _ := rfl
  write_write := by rintro ⟨_ | name, _ | state⟩ o <;> rfl
  write_write_write := by rintro ⟨_ | name, _ | state⟩ q o <;> rfl

namespace KeyPairAdded

/-- The key pair that an event adds, if it adds one. -/
def ofEvent (e : Event) : Except ReduceError (Option KeyPairAdded) :=
  if e.type = "key_pair.added" then (e.decode KeyPairAdded).map some |>.mapError .decode
  else .ok none

/-- Writes down the key pair that is added, if one is. -/
def write : Option KeyPairAdded → KeyPair → KeyPair
  | some p, k => { k with usage := some p.usage, algorithm := p.algorithm }
  | none, k => k

theorem applyEvent_eq (k : KeyPair) (e : Event) : k.applyEvent e = (ofEvent e).map (write · k) := by
  rw [KeyPair.applyEvent, ofEvent]
  split
  next h =>
    rw [if_pos h]
    cases e.decode KeyPairAdded <;> rfl
  next h =>
    rw [if_neg h]
    rfl

end KeyPairAdded

instance : Overwriting KeyPair where
  Entry := Option KeyPairAdded
  read := KeyPairAdded.ofEvent
  write := KeyPairAdded.write
  applyEvent_eq := KeyPairAdded.applyEvent_eq
  write_withBase := by rintro (_ | p) b k <;> rfl
  write_write := by rintro (_ | p) k <;> rfl
  write_write_write := by rintro (_ | p) (_ | q) k <;> rfl

end EventSourcing
