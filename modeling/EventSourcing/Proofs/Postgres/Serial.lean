import EventSourcing.Proofs.Postgres.Progress
import EventSourcing.Proofs.Postgres.Transaction

/-!
# The PostgreSQL store — concurrent pushes are serialised

Pushes that use one database at once take effect one after another: between the heads that a push reads and
its commit, nobody else publishes anything.

* `World.Step.moves`: what one step does, whatever it is.
* `World.Sound.step`: it preserves the invariant.
* `World.pushes_serialised`: **in every world that concurrent pushes can reach**, the table is numbered;
  what is published comes at later positions than all before it; and every batch that is published met
  the heads that it expected.
-/

namespace EventSourcing

namespace World

variable {ι : Type} {requests : ι → Context × Batch} {w w' : World ι}

/-! ### Steps -/

/-- What is known of a world in which these requests are pushed. -/
structure Sound (requests : ι → Context × Batch) (w : World ι) : Prop where
  orderly : w.database.Orderly
  commands : ∀ i, (w.pushes i).commands = commandsOf (requests i)
  keeps : ∀ i own, w.database.transactions i = some own → w.database.Keeps i (w.pushes i) own

/-- In a step, one push moves.  The others stay where they are, and their transactions as they were; the
table is as it was, or has got the rows that the push had ready. -/
structure Moves (i : ι) (w w' : World ι) : Prop where
  others : ∀ j, j ≠ i → w'.pushes j = w.pushes j ∧ Database.Spares j w.database w'.database
  commands : (w'.pushes i).commands = (w.pushes i).commands
  keeps : ∀ own, w'.database.transactions i = some own → w'.database.Keeps i (w'.pushes i) own
  drawn : w.database.drawn ≤ w'.database.drawn
  committed : w'.database.committed = w.database.committed ∨
    ∃ own, w.database.transactions i = some own ∧ w.database.Ready (w.pushes i).commands own ∧
      w'.database.committed = w.database.committed ++ own

/-- A move keeps what is committed in order. -/
theorem Moves.orderly {i : ι} (h : Moves i w w') (hw : w.database.Orderly) : w'.database.Orderly := by
  rcases h.committed with hcommitted | ⟨own, -, hready, hcommitted⟩
  · exact hw.of_committed hcommitted h.drawn
  · exact hw.publish hready hcommitted h.drawn

/-- Before anything is pushed, all is sound. -/
theorem sound_start (requests : ι → Context × Batch) : (start requests).Sound requests where
  orderly := ⟨numbered_nil, List.Pairwise.nil, fun e he => absurd he List.not_mem_nil⟩
  commands _ := rfl
  keeps _ _ hopen := by cases hopen

variable [DecidableEq ι]

/-- A push whose transaction is over leaves everything else as it is. -/
theorem moves_close (w : World ι) (i : ι) : Moves i w { w with database := w.database.close i } where
  others j hne := ⟨rfl, Database.spares_close hne⟩
  commands := rfl
  keeps own hopen := by cases (w.database.transactions_setTransaction_self i none).symm.trans hopen
  drawn := Nat.le_refl _
  committed := .inl rfl

/-- So does one that gives up, whatever positions it has drawn. -/
theorem moves_resume {i : ι} {c : PushCall} {drawn : Nat} (hc : c.commands = (w.pushes i).commands)
    (hkeeps : ∀ d own, Database.Keeps d i c own) (hle : w.database.drawn ≤ drawn) :
    Moves i w (w.resume { w.database with drawn } i c) where
  others j hne := ⟨Function.update_of_ne hne _ _, rfl, id, fun _ => rfl⟩
  commands := by
    show (Function.update w.pushes i c i).commands = _
    rw [Function.update_self, hc]
  keeps own _ := by
    show Database.Keeps _ i (Function.update w.pushes i c i) own
    rw [Function.update_self]
    exact hkeeps _ own
  drawn := hle
  committed := .inl rfl

/-- **What a step does**, whatever it is. -/
theorem Step.moves (h : Step w w') (hw : w.Sound requests) : ∃ i, Moves i w w' := by
  cases h with
  | @performed i s next rows d r hsent hperforms hanswer =>
      refine ⟨i, ?_, ?_, ?_, hperforms.drawn_le, ?_⟩
      · intro j hne
        refine ⟨Function.update_of_ne hne _ _, hperforms.spares hne ?_⟩
        rintro rfl
        cases hperforms with
        | commit hopen => exact ((hw.keeps i _ hopen).of_commit hsent).1
      · show (Function.update w.pushes i (next r) i).commands = _
        rw [Function.update_self]
        exact PushCall.commands_of_sent hsent r
      · intro own hopen
        show d.Keeps i (Function.update w.pushes i (next r) i) own
        rw [Function.update_self]
        exact Database.keeps_performed hw.orderly hsent hperforms hanswer (hw.keeps i) hopen
      · refine hperforms.committed.imp id ?_
        rintro ⟨rfl, own, hopen, hcommitted⟩
        exact ⟨own, hopen, ((hw.keeps i own hopen).of_commit hsent).2, hcommitted⟩
  | @failed i s next fault r drawn hsent hanswer hle =>
      exact ⟨i, moves_resume (PushCall.commands_of_sent hsent r)
        (fun d own => Database.keeps_of_fault hsent hanswer) hle⟩
  | @dropped i s next e hsent =>
      exact ⟨i, moves_resume rfl (fun d own => trivial) (Nat.le_refl _)⟩
  | @closed i e rows d hended hopen hperforms =>
      cases hperforms
      exact ⟨i, moves_close w i⟩
  | aborted i => exact ⟨i, moves_close w i⟩

/-- **A step preserves the invariant.** -/
theorem Sound.step (hw : w.Sound requests) (h : Step w w') : w'.Sound requests := by
  obtain ⟨i, hmoves⟩ := h.moves hw
  refine ⟨hmoves.orderly hw.orderly, fun j => ?_, fun j own hopen => ?_⟩
  · by_cases hj : j = i
    · rw [hj, hmoves.commands]
      exact hw.commands i
    · rw [(hmoves.others j hj).1]
      exact hw.commands j
  · by_cases hj : j = i
    · subst hj
      exact hmoves.keeps own hopen
    · obtain ⟨hpush, hspares⟩ := hmoves.others j hj
      rw [hspares.transaction] at hopen
      rw [hpush]
      exact (hw.keeps j own hopen).of_spares hspares hmoves.drawn

/-! ### Runs -/

/-- **Whatever is pushed, and however it is interleaved, all stays sound.** -/
theorem Sound.run (hw : w.Sound requests) (h : Relation.ReflTransGen Step w w') :
    w'.Sound requests := by
  induction h with
  | refl => exact hw
  | tail _ hstep ih => exact ih.step hstep

/-- What was published stays, and what is published comes after it. -/
theorem Sound.grows (hw : w.Sound requests) (h : Relation.ReflTransGen Step w w') :
    w.database.committed <+: w'.database.committed := by
  induction h with
  | refl => exact List.prefix_rfl
  | tail hrun hstep ih =>
      obtain ⟨i, hmoves⟩ := hstep.moves (hw.run hrun)
      refine ih.trans ?_
      rcases hmoves.committed with hcommitted | ⟨own, -, -, hcommitted⟩
      · exact ⟨[], by rw [hcommitted, List.append_nil]⟩
      · exact ⟨own, hcommitted.symm⟩

/-- The pushes of these requests take effect one after another. -/
structure Serialised (requests : ι → Context × Batch) (w : World ι) : Prop where
  /-- The rows of a stream have the sequences from one on. -/
  numbered : ∀ s, (rowsOf w.database.committed s).map Event.sequence =
    List.range' 1 (rowsOf w.database.committed s).length
  /-- They are ordered alike by sequence and by position. -/
  ordered : ∀ e ∈ w.database.committed, ∀ f ∈ w.database.committed, e.stream = f.stream →
    (e.sequence < f.sequence ↔ e.position < f.position)
  /-- Whatever is published later comes at later positions. -/
  later : ∀ w', Relation.ReflTransGen Step w w' →
    ∃ rows, w'.database.committed = w.database.committed ++ rows ∧
      ∀ e ∈ w.database.committed, ∀ f ∈ rows, e.position < f.position
  /-- What is published at once is the batch of one transaction, and it expects the heads that it
  finds. -/
  published : ∀ w', Step w w' → w'.database.committed ≠ w.database.committed →
    ∃ i rows, w.database.transactions i = some rows ∧
      w'.database.committed = w.database.committed ++ rows ∧
      List.Forall₂ Staged.Fills (stage w.database.heads (commandsOf (requests i))) rows ∧
      ∀ c ∈ commandsOf (requests i), ∀ n, c.sequence = some n →
        n = headIn w.database.committed c.stream

/-- **Concurrent pushes are serialised.** -/
theorem pushes_serialised (requests : ι → Context × Batch) {w : World ι}
    (h : Reachable requests w) : w.Serialised requests := by
  have hw : w.Sound requests := (sound_start requests).run h
  refine ⟨hw.orderly.numbered, ?_, ?_, ?_⟩
  · intro e he f hf hs
    exact hw.orderly.numbered.sequence_lt_iff hw.orderly.ascend he hf hs
  · intro w' hrun
    obtain ⟨rows, hrows⟩ := hw.grows hrun
    have hascend := (hw.run hrun).orderly.ascend
    rw [← hrows] at hascend
    exact ⟨rows, hrows.symm, (List.pairwise_append.mp hascend).2.2⟩
  · intro w' hstep hne
    obtain ⟨i, hmoves⟩ := hstep.moves hw
    obtain ⟨own, hopen, hready, hcommitted⟩ := hmoves.committed.resolve_left hne
    rw [hw.commands i] at hready
    exact ⟨i, own, hopen, hcommitted, hready.fills, hready.fits.expected⟩

/-- Three pushes to one organisation.  The first adds it, and so would the third; the second renames it and
adds another. -/
def rivals : Fin 3 → Context × Batch
  | 0 => (.forInstance "t1",
      ⟨{ aggregate := { type := "org", id := "org-1" }, type := "org.added", sequence := some 0 }, []⟩)
  | 1 => (.forInstance "t1",
      ⟨{ aggregate := { type := "org", id := "org-1" }, type := "org.changed", sequence := some 1 },
        [{ aggregate := { type := "org", id := "org-2" }, type := "org.added" }]⟩)
  | 2 => (.forInstance "t1",
      ⟨{ aggregate := { type := "org", id := "org-1" }, type := "org.added", sequence := some 0 }, []⟩)

/-- All three open their transactions.  The third gets the lock, and its insertion fails after it has drawn
a position; then the first goes through, and then the second. -/
theorem pushes_serialised_rivals : ∃ w, Reachable rivals w ∧ w.Serialised rivals ∧
    (w.database.committed.map fun e => (e.aggregate.id, e.sequence, e.position)) =
      [("org-1", 1, 2), ("org-1", 2, 3), ("org-2", 1, 4)] := by
  have hstart : Reachable rivals (start rivals) := .refl
  have hbegun := ((hstart.started (i := 0) rfl rfl).started (i := 1) rfl rfl).started (i := 2) rfl rfl
  have hlocked := hbegun.tail (.performed (i := 2) (r := { answer := .ok [] }) rfl
    (.lock rfl (.inl rfl)) (by rintro l ⟨⟩; rfl))
  have hread := hlocked.tail (.performed (i := 2) (r := { answer := .ok [[.integer 0]] }) rfl
    (.head rfl _) (by rintro l ⟨⟩; rfl))
  have hfailed := hread.tail (.failed (i := 2) (r := { answer := .error (.statement "disk full") }) rfl rfl
    (Nat.zero_le 1))
  have hclosed := hfailed.tail (.closed (i := 2) rfl rfl (.rollback _ []))
  obtain ⟨_, hfirst⟩ := Reachable.pushed (i := 0) hclosed rfl rfl rfl ⟨by decide, by decide⟩
  obtain ⟨_, hsecond⟩ := Reachable.pushed (i := 1) hfirst rfl rfl rfl
    ⟨by dsimp only [resume]; decide, by dsimp only [resume]; decide⟩
  exact ⟨_, hsecond, pushes_serialised rivals hsecond, rfl⟩

end World

end EventSourcing
