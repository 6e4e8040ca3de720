import EventSourcing.Proofs.Memory.Runs
import EventSourcing.Proofs.WriteModel.Books

/-!
# Write models — histories in increments

Books may be given the history of a stream at once, as by a load, or in increments, as by one save after
another.  It comes to the same but for one thing.  Each increment is asked for what is not known yet of the
identity.  The events of a stream agree on its id and on its tenant, but they need not agree on the owner,
and only the first event of an increment is asked for it.

* `replay_replay`: one increment after another is both at once, up to the owner.
* `increments_eq`: all increments are the whole, up to the owner, who is the first that an increment names.
* `increments_of_stream`: **the increments of a stream come to the whole of it**, in full exactly if no
  increment but the first has to be asked for the owner, or none has one.
-/

namespace EventSourcing

open Reducer (replay)

/-- A model after one increment after another. -/
def Reducer.increments {μ : Type} [Reducer μ] (chunks : List (List Event)) (x : μ) : μ :=
  chunks.foldl (fun x chunk => (replay chunk x).2) x

namespace WriteModel

open Reducer (increments)

/-! ### Owners -/

/-- The first owner that is named. -/
def firstNamed (owners : List String) : String :=
  (owners.find? fun owner => owner ≠ "").getD ""

@[simp] theorem firstNamed_empty_cons (owners : List String) :
    firstNamed ("" :: owners) = firstNamed owners :=
  rfl

theorem firstNamed_cons_of_ne {owner : String} (h : owner ≠ "") (owners : List String) :
    firstNamed (owner :: owners) = owner := by
  rw [firstNamed, List.find?_cons_of_pos (by simpa using h)]
  rfl

theorem firstNamed_singleton (owner : String) : firstNamed [owner] = owner := by
  by_cases h : owner = ""
  · rw [h]; rfl
  · exact firstNamed_cons_of_ne h []

/-- Nobody is named first if nobody is named. -/
theorem firstNamed_eq_empty_iff {owners : List String} :
    firstNamed owners = "" ↔ ∀ owner ∈ owners, owner = "" := by
  induction owners with
  | nil => exact ⟨fun _ _ h => absurd h List.not_mem_nil, fun _ => rfl⟩
  | cons owner owners ih =>
      rw [List.forall_mem_cons]
      by_cases h : owner = ""
      · rw [h, firstNamed_empty_cons, ih]
        exact ⟨fun hall => ⟨rfl, hall⟩, And.right⟩
      · rw [firstNamed_cons_of_ne h]
        exact ⟨fun he => absurd he h, And.left⟩

/-- Whether an owner is looked for in two steps or in one, the first that is named is found. -/
theorem firstNamed_orElse (known found : String) (later : List String) :
    firstNamed (orElse known found :: later) = firstNamed (known :: found :: later) := by
  by_cases h : known = ""
  · rw [h, orElse_empty, firstNamed_empty_cons]
  · rw [orElse_of_ne h, firstNamed_cons_of_ne h, firstNamed_cons_of_ne h]

/-- Later owners change nothing exactly if one is named before them, or none at all. -/
theorem firstNamed_eq_orElse_iff {known found : String} {later : List String} :
    firstNamed (known :: found :: later) = orElse known found ↔
      known ≠ "" ∨ found ≠ "" ∨ ∀ owner ∈ found :: later, owner = "" := by
  by_cases hknown : known = ""
  · by_cases hfound : found = ""
    · simp [hknown, hfound, firstNamed_eq_empty_iff]
    · simp [hknown, hfound, firstNamed_cons_of_ne hfound]
  · simp [hknown, firstNamed_cons_of_ne hknown]

/-- A model is unchanged in the hands of its owner alone. -/
theorem ownedBy_eq_self_iff {w : WriteModel} {owner : String} :
    w.ownedBy owner = w ↔ owner = w.resourceOwner := by
  constructor
  · intro h
    exact congrArg resourceOwner h
  · rintro rfl
    rfl

/-! ### Increments -/

/-- Nothing is taken from nothing. -/
theorem replay_nil {w : WriteModel} (hw : w.events = []) : (replay [] w).2 = w := by
  show (w.append []).reduce = w
  rw [append, hw, reduce]
  cases w
  cases hw
  rfl

theorem replay_cons {w : WriteModel} (hw : w.events = []) (first : Event) (rest : List Event) :
    (replay (first :: rest) w).2 =
      w.closed first ((first :: rest).getLast (List.cons_ne_nil first rest)) :=
  reduce_append hw first rest

/-- **One increment after another is both at once**, up to the owner. -/
theorem replay_replay {w : WriteModel} (hw : w.events = []) {s : Stream} {chunk more : List Event}
    (hne : chunk ≠ []) (hs : ∀ e ∈ chunk ++ more, e.stream = s) (owner : String) :
    (replay more (replay chunk w).2).2.ownedBy owner =
      (replay (chunk ++ more) w).2.ownedBy owner := by
  obtain ⟨first, rest, rfl⟩ := List.exists_cons_of_ne_nil hne
  cases more with
  | nil => rw [List.append_nil, replay_cons hw, replay_nil rfl]
  | cons next later =>
      -- what the second increment could add to id and tenant, the first has found
      have hstream : next.stream = first.stream :=
        (hs next (by simp)).trans (hs first (by simp)).symm
      have hid : next.aggregate.id = first.aggregate.id := congrArg Stream.aggregateId hstream
      have hinstance : next.aggregate.instanceId = first.aggregate.instanceId :=
        congrArg Stream.instanceId hstream
      have hlast : (first :: (rest ++ next :: later)).getLast (List.cons_ne_nil _ _) =
          (next :: later).getLast (List.cons_ne_nil _ _) :=
        List.getLast_append_of_ne_nil (l := first :: rest) _ (List.cons_ne_nil next later)
      rw [replay_cons hw, replay_cons rfl, List.cons_append, replay_cons hw, hlast]
      simp only [ownedBy, closed, hid, hinstance, orElse_orElse]

/-- The owners that the increments name in their first events. -/
def leadingOwners (chunks : List (List Event)) : List String :=
  chunks.filterMap fun chunk => chunk.head?.map fun e => e.aggregate.resourceOwner

/-- A chunk is led by the owner of its first event. -/
theorem leadingOwners_cons (first : Event) (rest : List Event) (chunks : List (List Event)) :
    leadingOwners ((first :: rest) :: chunks) =
      first.aggregate.resourceOwner :: leadingOwners chunks :=
  rfl

/-- **All increments are the whole**, up to the owner, who is the first that an increment names. -/
theorem increments_eq {s : Stream} {chunks : List (List Event)} (hne : ∀ chunk ∈ chunks, chunk ≠ [])
    (hs : ∀ e ∈ chunks.flatten, e.stream = s) :
    ∀ {w : WriteModel}, w.events = [] → increments chunks w =
      (replay chunks.flatten w).2.ownedBy (firstNamed (w.resourceOwner :: leadingOwners chunks)) := by
  induction chunks with
  | nil =>
      intro w hw
      rw [List.flatten_nil, replay_nil hw, leadingOwners, List.filterMap_nil, firstNamed_singleton]
      rfl
  | cons chunk chunks ih =>
      intro w hw
      obtain ⟨hchunk, hchunks⟩ := List.forall_mem_cons.mp hne
      rw [List.flatten_cons] at hs ⊢
      rw [← replay_replay hw hchunk hs]
      obtain ⟨first, rest, rfl⟩ := List.exists_cons_of_ne_nil hchunk
      have hreplay := replay_cons hw first rest
      rw [increments, List.foldl_cons, ← increments,
        ih hchunks (fun e he => hs e (List.mem_append_right _ he)) (by rw [hreplay]; rfl)]
      congr 1
      rw [hreplay, closed, firstNamed_orElse, leadingOwners_cons]

/-! ### Streams -/

/-- **The increments of a stream come to the whole of it**, however it is cut and whatever the books know
of its identity beforehand.  They do up to the owner, who is the first that an increment names, unless one
was known.  They do in full exactly if one was known, or the first event of all names one, or no increment
does. -/
theorem increments_of_stream (m : Memory) (s : Stream) {chunks : List (List Event)}
    (hne : ∀ chunk ∈ chunks, chunk ≠ []) (hcut : chunks.flatten = m.ledger.eventsOf s)
    {w : WriteModel} (hw : w.events = []) :
    increments chunks w = (replay (m.ledger.eventsOf s) w).2.ownedBy
        (firstNamed (w.resourceOwner :: leadingOwners chunks)) ∧
    (increments chunks w = (replay (m.ledger.eventsOf s) w).2 ↔
      w.resourceOwner ≠ "" ∨
      (∃ e, (m.ledger.eventsOf s).head? = some e ∧ e.aggregate.resourceOwner ≠ "") ∨
      ∀ owner ∈ leadingOwners chunks, owner = "") := by
  have hs : ∀ e ∈ chunks.flatten, e.stream = s := fun e he =>
    (Ledger.mem_eventsOf.mp (hcut ▸ he)).2
  have heq := increments_eq hne hs hw
  rw [← hcut]
  refine ⟨heq, ?_⟩
  cases chunks with
  | nil =>
      rw [List.flatten_nil, replay_nil hw]
      exact ⟨fun _ => .inr (.inr fun owner h => absurd h List.not_mem_nil), fun _ => rfl⟩
  | cons chunk chunks =>
      obtain ⟨first, rest, rfl⟩ := List.exists_cons_of_ne_nil (hne chunk List.mem_cons_self)
      rw [heq, List.flatten_cons, List.cons_append, replay_cons hw, ownedBy_eq_self_iff, closed,
        leadingOwners_cons, firstNamed_eq_orElse_iff, List.head?_cons]
      simp only [Option.some.injEq, exists_eq_left']

/-! ### An owner who comes late -/

/-- A note on an organisation. -/
def orgNote (owner : String) : Command where
  aggregate := { type := "org", id := "org-1", resourceOwner := owner }
  type := "org.noted"

/-- A store with three notes, of which only the second names an owner. -/
def lateOwner : Memory :=
  ({ clock := default } : Memory).acts
    [.push {} ⟨orgNote "", []⟩, .push {} ⟨orgNote "owner", [orgNote ""]⟩]

/-- The notes, in their stream. -/
def notes : List Event :=
  lateOwner.ledger.eventsOf (orgNote "").stream

/-- An increment that begins with the second note has the owner, and one that only holds it has not. -/
theorem increments_of_stream_lateOwner :
    increments [notes.take 1, notes.drop 1] {} = ownedBy (replay notes {}).2 "owner" ∧
    increments [notes.take 2, notes.drop 2] ({} : WriteModel) = (replay notes {}).2 := by
  have hearly : ∀ chunk ∈ [notes.take 1, notes.drop 1], chunk ≠ [] := by decide
  have hlate : ∀ chunk ∈ [notes.take 2, notes.drop 2], chunk ≠ [] := by decide
  obtain ⟨hhead, -⟩ :=
    increments_of_stream lateOwner (orgNote "").stream hearly (by decide) (w := {}) rfl
  obtain ⟨-, hwhole⟩ :=
    increments_of_stream lateOwner (orgNote "").stream hlate (by decide) (w := {}) rfl
  exact ⟨hhead, hwhole.mpr (.inr (.inr (by decide)))⟩

/-- So it is not the same in every field how a stream is cut. -/
theorem not_increments_eq_whole :
    ¬ ∀ m : Memory, m.Reachable → ∀ (s : Stream) (chunks : List (List Event)),
      (∀ chunk ∈ chunks, chunk ≠ []) → chunks.flatten = m.ledger.eventsOf s →
      ∀ w : WriteModel, w.events = [] →
        increments chunks w = (replay (m.ledger.eventsOf s) w).2 := by
  intro h
  have heq := h lateOwner ⟨default, _, rfl⟩ (orgNote "").stream [notes.take 1, notes.drop 1]
    (by decide) (by decide) {} rfl
  have howner := congrArg resourceOwner heq
  revert howner
  decide

end WriteModel

end EventSourcing
