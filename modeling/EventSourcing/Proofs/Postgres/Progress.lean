import EventSourcing.Proofs.Postgres.Database
import EventSourcing.Proofs.Postgres.Pushing

/-!
# The PostgreSQL store — a push that nobody hinders

While nobody has the lock, a push whose transaction is open can go through to its commit, if its batch
fits the heads of the table.

* `drawRows`: the rows that its insertion makes, and their laws.
* `World.Reachable.pushed`: the run to its commit.
-/

namespace EventSourcing

/-! ### The rows of an insertion -/

/-- The rows of staged commands, with the positions that are drawn next. -/
def drawRows (drawn : Nat) : List Staged → List Event
  | [] => []
  | s :: staged => s.event (drawn + 1) default :: drawRows (drawn + 1) staged

/-- The rows fill in what was staged. -/
theorem fills_drawRows (drawn : Nat) (staged : List Staged) :
    List.Forall₂ Staged.Fills staged (drawRows drawn staged) := by
  induction staged generalizing drawn with
  | nil => exact .nil
  | cons s staged ih => exact .cons rfl (ih (drawn + 1))

/-- They take the next positions. -/
theorem positions_drawRows (drawn : Nat) (staged : List Staged) :
    (drawRows drawn staged).map Event.position = List.range' (drawn + 1) staged.length := by
  induction staged generalizing drawn with
  | nil => rfl
  | cons s staged ih =>
      rw [drawRows, List.map_cons, ih, List.length_cons, List.range'_succ]
      rfl

theorem ascend_drawRows (drawn : Nat) (staged : List Staged) :
    (drawRows drawn staged).Pairwise fun e f => e.position < f.position := by
  rw [← List.pairwise_map, positions_drawRows]
  exact List.pairwise_lt_range'

/-- These are beyond all positions drawn before. -/
theorem drawn_drawRows {drawn : Nat} {staged : List Staged} {e : Event}
    (he : e ∈ drawRows drawn staged) :
    drawn < e.position ∧ e.position ≤ drawn + staged.length := by
  have hmem : e.position ∈ (drawRows drawn staged).map Event.position := List.mem_map_of_mem he
  rw [positions_drawRows, List.mem_range'_1] at hmem
  omega

/-- What the insertion gives back is read. -/
theorem exists_insertedEvents (drawn : Nat) (staged : List Staged) :
    ∃ events, insertedEvents staged
      ((drawRows drawn staged).map fun e => Column.generated.map e.row) = .ok events := by
  have hread := mapM_map_ok (f := generatedOf) (g := fun g => [.integer g.1, .timestamp g.2])
    (fun _ => rfl) ((drawRows drawn staged).map fun e => ((e.position : Int), e.creationDate))
  rw [List.map_map] at hread
  refine insertedEvents_iff.mpr ⟨_, hread, ?_, fun g hg => ?_⟩
  · rw [List.length_map, ← List.length_map (f := Event.position), positions_drawRows,
      List.length_range']
  · obtain ⟨e, -, rfl⟩ := List.mem_map.mp hg
    exact Int.natCast_nonneg _

namespace Database

variable {ι : Type} [DecidableEq ι] {d : Database ι} {i : ι}

/-- The database after the transaction of `i` has published these commands. -/
def pushed (d : Database ι) (i : ι) (commands : List Command) : Database ι :=
  let staged := stage d.heads commands
  { d.close i with
    committed := d.committed ++ drawRows d.drawn staged
    drawn := d.drawn + staged.length }

/-- An insertion and a commit publish the commands. -/
theorem performs_pushed (hopen : d.transactions i = some []) (commands : List Command) :
    ∃ d' rows events, d.Performs i (.insert (stage d.heads commands)) rows d' ∧
      insertedEvents (stage d.heads commands) rows = .ok events ∧
      d'.Performs i (.control .commit false) [] (d.pushed i commands) := by
  obtain ⟨events, hevents⟩ := exists_insertedEvents d.drawn (stage d.heads commands)
  have hinsert := Performs.insert hopen (fills_drawRows d.drawn (stage d.heads commands))
    (ascend_drawRows d.drawn _) (fun e he => drawn_drawRows he) (Nat.le_add_right d.drawn _)
    (List.Perm.refl _)
  refine ⟨_, _, events, hinsert, hevents, ?_⟩
  have hcommit : Performs i (.control .commit false) [] { d.setTransaction i
      (some ([] ++ drawRows d.drawn (stage d.heads commands))) with
        drawn := d.drawn + (stage d.heads commands).length } _ :=
    .commit (d.transactions_setTransaction_self i _)
  simpa only [pushed, close, setTransaction, Function.update_idem, List.nil_append] using hcommit

end Database

/-! ### The run to the commit -/

namespace World

variable {ι : Type} [DecidableEq ι] {d d' : Database ι} {i : ι} {c c' : PushCall}

theorem resume_self (w : World ι) (i : ι) : w.resume w.database i (w.pushes i) = w := by
  rw [resume]
  rw [Function.update_eq_self]

theorem resume_resume (w : World ι) (d d' : Database ι) (i : ι) (c c' : PushCall) :
    (w.resume d i c).resume d' i c' = w.resume d' i c' := by
  simp only [resume, Function.update_idem]

/-- The push at work gets the rows of its statement, and nothing interrupts it. -/
theorem step_resume {s : Statement} {next : Response → PushCall} {rows : List Row} (w : World ι)
    (hsent : Procedure.step c = .sent s next) (hperforms : d.Performs i s rows d')
    (hnext : next { answer := .ok rows } = c') : Step (w.resume d i c) (w.resume d' i c') := by
  rw [← w.resume_resume d d' i c, ← hnext]
  refine .performed ?_ hperforms (by rintro l ⟨⟩; rfl)
  rw [← hsent]
  exact congrArg Procedure.step (Function.update_self ..)

/-- A push opens its transaction. -/
theorem Reachable.started {requests : ι → Context × Batch} {w : World ι} (h : Reachable requests w)
    {commands : List Command} (hpush : w.pushes i = { commands })
    (hclosed : w.database.transactions i = none) :
    Reachable requests
      (w.resume (w.database.setTransaction i (some [])) i { commands, phase := .locking }) := by
  have hstart : w.database.Performs i (.control .start false) [] _ := .start hclosed
  have hstep : Step (w.resume w.database i { commands })
      (w.resume (w.database.setTransaction i (some [])) i { commands, phase := .locking }) :=
    step_resume w rfl hstart rfl
  rw [← hpush, resume_self] at hstep
  exact h.tail hstep

/-- Once its batch is staged on the heads of the table, a push inserts it and commits. -/
theorem run_inserting (w : World ι) (commands : List Command) (hopen : d.transactions i = some []) :
    ∃ events, Relation.ReflTransGen Step
      (w.resume d i { commands, phase := .inserting (stage d.heads commands) })
      (w.resume (d.pushed i commands) i { commands, phase := .ended { result := .ok events } }) := by
  obtain ⟨d', rows, events, hinsert, hevents, hcommit⟩ := Database.performs_pushed hopen commands
  have hread : Response.read { answer := .ok rows } (insertedEvents _) = .ok events :=
    Response.read_eq_ok_iff.mpr ⟨rows, ⟨rfl, rfl⟩, hevents⟩
  have hinserted : Step (w.resume d i { commands, phase := .inserting (stage d.heads commands) })
      (w.resume d' i { commands, phase := .committing events }) := by
    refine step_resume w rfl hinsert ?_
    show PushCall.proceed _ (do return .committing (← Response.read _ _)) = _
    rw [hread]
    rfl
  exact ⟨events, .tail (.single hinserted) (step_resume w rfl hcommit rfl)⟩

/-- A push that knows the heads of all streams but these reads the others, and goes through. -/
theorem run_toRead (w : World ι) {commands : List Command} (hopen : d.transactions i = some [])
    (hfits : Fits d.heads commands) {streams : List Stream} {heads : Heads}
    (hknown : ∀ s ∈ streamsOf commands, s ∉ streams → heads.head s = headIn d.committed s) :
    ∃ phase, PushCall.toRead { commands } heads streams = .ok phase ∧
      ∃ events, Relation.ReflTransGen Step (w.resume d i { commands, phase })
        (w.resume (d.pushed i commands) i { commands, phase := .ended { result := .ok events } }) := by
  -- the head of the first stream, and then the rest with one head more
  induction streams generalizing heads with
  | nil =>
      have hheads : ∀ c ∈ commands, d.heads.head c.stream = heads.head c.stream := fun c hc =>
        (hknown _ (mem_streamsOf.mpr ⟨c, hc, rfl⟩) List.not_mem_nil).symm
      have hstaged := stageChecked_eq_ok_iff.mpr ⟨hfits.congr hheads, stage_congr hheads⟩
      exact ⟨.inserting (stage d.heads commands), map_eq_ok.mpr ⟨_, hstaged, rfl⟩,
        run_inserting w commands hopen⟩
  | cons next later ih =>
      refine ⟨.reading heads next later, rfl, ?_⟩
      obtain ⟨phase, hphase, events, hrun⟩ := ih (known_set hknown)
      have hperforms := Database.Performs.head hopen next
      rw [List.append_nil] at hperforms
      have hread : Step (w.resume d i { commands, phase := .reading heads next later })
          (w.resume d i { commands, phase }) := by
        refine step_resume w rfl hperforms ?_
        show PushCall.proceed _
          (PushCall.toRead { commands } (heads.set next (headIn d.committed next)) later) = _
        rw [hphase]
        rfl
      exact ⟨events, .head hread hrun⟩

/-- **A push that nobody hinders goes through**: it takes the lock, and publishes its commands if they
fit the heads of the table. -/
theorem Reachable.pushed {requests : ι → Context × Batch} {w : World ι} (h : Reachable requests w)
    {commands : List Command} (hpush : w.pushes i = { commands, phase := .locking })
    (hopen : w.database.transactions i = some []) (hfree : w.database.holder = none)
    (hfits : Fits w.database.heads commands) :
    ∃ events, Reachable requests (w.resume (w.database.pushed i commands) i
      { commands, phase := .ended { result := .ok events } }) := by
  have hlock : w.database.Performs i .lock [] { w.database with holder := some i } :=
    .lock hopen (.inl hfree)
  obtain ⟨phase, hphase, events, hrun⟩ := run_toRead w (d := { w.database with holder := some i })
    hopen hfits fun s hs hs' => absurd hs hs'
  have hlocked : Step (w.resume w.database i { commands, phase := .locking })
      (w.resume { w.database with holder := some i } i { commands, phase }) := by
    refine step_resume w rfl hlock ?_
    show PushCall.proceed _ (PushCall.toRead { commands } (fun _ => none) (streamsOf commands)) = _
    rw [hphase]
    rfl
  rw [← hpush, resume_self] at hlocked
  -- the lock is free again in the end
  have hclose : Database.close { w.database with holder := some i } i = w.database.close i := by
    simp [Database.close, Database.setTransaction, hfree]
  have hheads : Database.heads { w.database with holder := some i } = w.database.heads := rfl
  have hpushed : Database.pushed { w.database with holder := some i } i commands =
      w.database.pushed i commands := by
    simp only [Database.pushed, hclose, hheads]
  rw [hpushed] at hrun
  exact ⟨events, h.trans (.head hlocked hrun)⟩

end World

end EventSourcing
