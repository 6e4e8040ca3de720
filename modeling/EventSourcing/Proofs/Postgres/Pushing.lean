import EventSourcing.Proofs.Postgres.Dialogue
import EventSourcing.Proofs.Postgres.Staging

/-!
# The PostgreSQL store — what a push says

A push goes through its phases one by one.  In each it sends one statement, and the response decides
whether it goes on: that is its `verdict`.  Everything that a push says follows from this.

* `answers_induction`: a response either ends the push or brings it to its next phase.
* `statements_follow`: the statements of a push follow one script.
* `ended_or_proceeds`: a response ends a push, or brings it to the phase of the verdict.
* `answered_of_lt`: a statement is sent only where those before it have succeeded.
* `error_of_commit`: once the commit is sent, only the database can still fail.
* `ok_iff_committed`: a push succeeds exactly if its commit does.
* `isOpen_iff`: a push that fails leaves a transaction behind wherever it has opened one.
-/

namespace EventSourcing

/-! ### Responses -/

namespace Response

/-- The statement succeeded with these rows, and nothing has interrupted the call. -/
def Gives (r : Response) (rows : List Row) : Prop :=
  r.answer = .ok rows ∧ r.interruption = none

/-- **A response gives its rows** unless it is a fault or comes with an interruption. -/
theorem rows_eq_ok_iff {r : Response} {rows : List Row} : r.rows = .ok rows ↔ r.Gives rows := by
  rw [Response.rows, Gives]
  cases r.interruption with
  | some i => simp
  | none =>
      cases r.answer with
      | error fault =>
          constructor
          · intro h
            cases h
          · rintro ⟨h, -⟩
            cases h
      | ok l =>
          constructor
          · intro h
            cases h
            exact ⟨rfl, rfl⟩
          · rintro ⟨h, -⟩
            cases h
            rfl

/-- What a response is read as comes from the rows that it gives. -/
theorem read_eq_ok_iff {α : Type} {r : Response} {use : List Row → Except PostgresError α} {a : α} :
    r.read use = .ok a ↔ ∃ rows, r.Gives rows ∧ use rows = .ok a := by
  rw [Response.read]
  rw [bind_eq_ok]
  refine exists_congr fun rows => ?_
  rw [rows_eq_ok_iff, mapError_eq_ok]

/-- What keeps a call from the rows is an interruption, or else a fault of the database. -/
theorem rows_eq_error_iff {r : Response} {e : StoreError PostgresError} :
    r.rows = .error e ↔ (∃ i, r.interruption = some i ∧ e = .ofInterruption i) ∨
      (r.interruption = none ∧ ∃ fault, r.answer = .error fault ∧ e = .backend (.database fault)) := by
  rw [Response.rows]
  cases r.interruption with
  | some i => simp [eq_comm]
  | none => simp [mapError_eq_error, eq_comm (b := e)]

/-- A call fails for want of the rows, or because it cannot use them. -/
theorem read_eq_error_iff {α : Type} {r : Response} {use : List Row → Except PostgresError α}
    {e : StoreError PostgresError} :
    r.read use = .error e ↔ r.rows = .error e ∨
      ∃ rows fault, r.Gives rows ∧ use rows = .error fault ∧ e = .backend fault := by
  rw [Response.read]
  rw [bind_eq_error]
  refine or_congr_right (exists_congr fun rows => ?_)
  rw [rows_eq_ok_iff, mapError_eq_error, ← exists_and_left]
  exact exists_congr fun fault => by rw [eq_comm (a := e)]

end Response

namespace PushCall

/-! ### Phases and verdicts -/

/-- The statement of the phase that the push is in. -/
def sends? (c : PushCall) : Option Statement :=
  match c.phase with
  | .opening => some (.control .start c.nested)
  | .locking => some .lock
  | .reading _ next _ => some (.head next)
  | .inserting staged => some (.insert staged)
  | .committing _ => some (.control .commit c.nested)
  | .ended _ => none

/-- What a response makes of a push: the next phase, or the error that ends it. -/
def verdict (c : PushCall) (r : Response) : Except (StoreError PostgresError) PushPhase :=
  match c.phase with
  | .opening =>
    match r.answer, r.interruption with
    | .error fault, _ => .error (.backend (.database fault))
    | .ok _, some i => .error (.ofInterruption i)
    | .ok _, none => .ok .locking
  | .locking => do
    let _ ← r.rows
    c.toRead (fun _ => none) (streamsOf c.commands)
  | .reading heads next later => do
    let head ← r.read headOf
    c.toRead (heads.set next head) later
  | .inserting staged => do return .committing (← r.read (insertedEvents staged))
  | .committing events =>
    match r.answer with
    | .error fault => .error (.backend (.database fault))
    | .ok _ => .ok (.ended { result := .ok events })
  | .ended e => .ok (.ended e)

/-- What a push says, with the result that its caller sees. -/
def answers (c : PushCall) (rs : List Response) :
    Dialogue (Except (StoreError PostgresError) (List Event)) :=
  (Procedure.dialogue c rs).map PushEnd.result

variable {c : PushCall} {s : Statement} {r : Response} {rs : List Response}

/-- A push that has ended sends nothing. -/
theorem answers_ended {e : PushEnd} (h : c.phase = .ended e) (rs : List Response) :
    c.answers rs = { outcome := some e.result } := by
  have hstep : Procedure.step c = .ended e := by
    show c.step = _
    rw [step]
    rw [h]
  rw [answers]
  rw [Procedure.dialogue_ended hstep]
  rfl

theorem answers_abandon (c : PushCall) (e : StoreError PostgresError) (rs : List Response) :
    (c.proceed (.error e)).answers rs = { outcome := some (.error e) } :=
  answers_ended (c := c.abandon e) rfl rs

/-- What a push does with a response is what the verdict says, as far as its caller can see. -/
theorem step_sends (h : c.sends? = some s) :
    ∃ resume, Procedure.step c = .sent s resume ∧
      ∀ r rs, (resume r).answers rs = (c.proceed (c.verdict r)).answers rs := by
  obtain ⟨commands, nested, phase⟩ := c
  cases phase with
  | opening =>
      cases h
      refine ⟨_, rfl, fun r rs => ?_⟩
      obtain ⟨answer, interruption⟩ := r
      cases answer with
      -- no transaction was opened, so none is abandoned; the caller sees the same
      | error fault => exact (answers_ended rfl rs).trans (answers_abandon _ _ rs).symm
      | ok rows => cases interruption <;> rfl
  | locking | reading heads next later | inserting staged =>
      cases h
      exact ⟨_, rfl, fun r rs => rfl⟩
  | committing events =>
      cases h
      refine ⟨_, rfl, fun r rs => ?_⟩
      obtain ⟨answer, interruption⟩ := r
      cases answer <;> rfl
  | ended e => cases h

theorem answers_nil (h : c.sends? = some s) :
    c.answers [] = { statements := [s], outcome := none } := by
  obtain ⟨resume, hstep, -⟩ := step_sends h
  rw [answers]
  rw [Procedure.dialogue_nil hstep]
  rfl

/-- **A response ends a push, or brings it to its next phase.** -/
theorem answers_cons (h : c.sends? = some s) (r : Response) (rs : List Response) :
    c.answers (r :: rs) = ((c.proceed (c.verdict r)).answers rs).after s := by
  obtain ⟨resume, hstep, hresume⟩ := step_sends h
  rw [← hresume]
  rw [answers]
  rw [Procedure.dialogue_cons hstep]
  rfl

/-- Either a push has ended, or it sends a statement. -/
theorem ended_or_sends (c : PushCall) : (∃ e, c.phase = .ended e) ∨ ∃ s, c.sends? = some s := by
  rw [sends?]
  cases c.phase with
  | ended e => exact .inl ⟨e, rfl⟩
  | _ => exact .inr ⟨_, rfl⟩

/-! ### Verdicts -/

/-- A commit is sent in one phase only. -/
theorem committing_of_sends {nested : Bool} (h : c.sends? = some (.control .commit nested)) :
    ∃ events, c.phase = .committing events := by
  rw [sends?] at h
  cases hp : c.phase with
  | committing events => exact ⟨events, rfl⟩
  | _ => rw [hp] at h; cases h

/-- Whether a commit succeeds is up to the database alone. -/
theorem verdict_of_committing {events : List Event} (h : c.phase = .committing events) :
    c.verdict r = (r.answer.mapError fun fault => .backend (.database fault)).map
      fun _ => .ended { result := .ok events } := by
  rw [verdict]
  rw [h]
  cases r.answer <;> rfl

theorem sends?_of_committing {events : List Event} (h : c.phase = .committing events) :
    c.sends? = some (.control .commit c.nested) := by
  rw [sends?]
  rw [h]

/-- A commit fails only with a fault of the database. -/
theorem error_of_committing {events : List Event} {e : StoreError PostgresError}
    (h : c.phase = .committing events) (hv : c.verdict r = .error e) :
    ∃ fault, e = .backend (.database fault) := by
  rw [verdict_of_committing h] at hv
  cases ha : r.answer with
  | error fault =>
      rw [ha] at hv
      cases hv
      exact ⟨fault, rfl⟩
  | ok rows =>
      rw [ha] at hv
      cases hv

/-- **What a push says, by induction on the responses.**  It has ended; or it waits; or the response ends
it, with an error or with its commit; or it goes on to the next phase. -/
theorem answers_induction
    {P : PushCall → List Response → Dialogue (Except (StoreError PostgresError) (List Event)) → Prop}
    (ended : ∀ c e rs, c.phase = .ended e → P c rs { outcome := some e.result })
    (waits : ∀ c s, c.sends? = some s → P c [] { statements := [s], outcome := none })
    (fails : ∀ c s r rs e, c.sends? = some s → c.verdict r = .error e →
      P c (r :: rs) { statements := [s], outcome := some (.error e) })
    (commits : ∀ c events r rs rows, c.phase = .committing events → r.answer = .ok rows →
      P c (r :: rs) { statements := [.control .commit c.nested], outcome := some (.ok events) })
    (proceeds : ∀ c s r rs phase, c.sends? = some s → (∀ events, c.phase ≠ .committing events) →
      c.verdict r = .ok phase → P { c with phase } rs (answers { c with phase } rs) →
      P c (r :: rs) ((answers { c with phase } rs).after s))
    (c : PushCall) (rs : List Response) : P c rs (c.answers rs) := by
  induction rs generalizing c with
  | nil =>
      rcases c.ended_or_sends with ⟨e, he⟩ | ⟨s, hs⟩
      · rw [answers_ended he]
        exact ended c e [] he
      · rw [answers_nil hs]
        exact waits c s hs
  | cons r rs ih =>
      rcases c.ended_or_sends with ⟨e, he⟩ | ⟨s, hs⟩
      · rw [answers_ended he]
        exact ended c e (r :: rs) he
      · rw [answers_cons hs]
        cases hv : c.verdict r with
        | error e =>
            rw [answers_abandon]
            exact fails c s r rs e hs hv
        | ok phase =>
            -- a push goes on unless this was the answer to its commit
            by_cases hcommit : ∃ events, c.phase = .committing events
            · obtain ⟨events, hp⟩ := hcommit
              rw [verdict_of_committing hp] at hv
              obtain ⟨rows, hrows, rfl⟩ := map_eq_ok.mp hv
              obtain rfl := Option.some.inj ((sends?_of_committing hp).symm.trans hs)
              rw [answers_ended (c := c.proceed (.ok (.ended { result := .ok events }))) rfl]
              exact commits c events r rs rows hp (mapError_eq_ok.mp hrows)
            · exact proceeds c s r rs phase hs (fun events hp => hcommit ⟨events, hp⟩) hv
                (ih { c with phase })

/-- Before its commit, a push goes on only after a statement that succeeded. -/
theorem gives_of_verdict {phase : PushPhase} (hs : c.sends? = some s)
    (hcommit : ∀ events, c.phase ≠ .committing events) (h : c.verdict r = .ok phase) :
    ∃ rows, r.Gives rows := by
  rw [sends?] at hs
  rw [verdict] at h
  split at h
  · split at h
    · cases h
    · cases h
    · rename_i ha hi
      exact ⟨_, ha, hi⟩
  · obtain ⟨rows, hrows, -⟩ := bind_eq_ok.mp h
    exact ⟨rows, Response.rows_eq_ok_iff.mp hrows⟩
  · obtain ⟨head, hhead, -⟩ := bind_eq_ok.mp h
    obtain ⟨rows, hrows, -⟩ := Response.read_eq_ok_iff.mp hhead
    exact ⟨rows, hrows⟩
  · obtain ⟨events, hevents, -⟩ := bind_eq_ok.mp h
    obtain ⟨rows, hrows, -⟩ := Response.read_eq_ok_iff.mp hevents
    exact ⟨rows, hrows⟩
  · rename_i hp
    exact absurd hp (hcommit _)
  · rename_i hp
    rw [hp] at hs
    cases hs

/-- **What a response makes of a push**: it has ended, or the statement succeeded and the push is in the
phase of the verdict. -/
theorem ended_or_proceeds {next : Response → PushCall} (h : Procedure.step c = .sent s next)
    (r : Response) :
    (∃ e, next r = { c with phase := .ended e }) ∨
      ∃ phase rows, r.answer = .ok rows ∧ c.verdict r = .ok phase ∧ next r = { c with phase } := by
  have hproceed (hs : c.sends? = some s) (hcommit : ∀ events, c.phase ≠ .committing events)
      (hnext : next r = c.proceed (c.verdict r)) :
      (∃ e, next r = { c with phase := .ended e }) ∨
        ∃ phase rows, r.answer = .ok rows ∧ c.verdict r = .ok phase ∧ next r = { c with phase } := by
    rw [hnext]
    cases hv : c.verdict r with
    | error e => exact .inl ⟨_, rfl⟩
    | ok phase =>
        obtain ⟨rows, hrows, -⟩ := gives_of_verdict hs hcommit hv
        exact .inr ⟨phase, rows, hrows, rfl, rfl⟩
  obtain ⟨commands, nested, phase⟩ := c
  cases phase with
  | opening =>
      cases h
      obtain ⟨answer, interruption⟩ := r
      cases answer with
      | error fault => exact .inl ⟨_, rfl⟩
      | ok rows =>
          cases interruption with
          | some i => exact .inl ⟨_, rfl⟩
          | none => exact .inr ⟨_, rows, rfl, rfl, rfl⟩
  | locking | reading _ _ _ | inserting _ =>
      cases h
      exact hproceed rfl (by rintro events ⟨⟩) rfl
  | committing events =>
      cases h
      obtain ⟨answer, interruption⟩ := r
      cases answer with
      | error fault => exact .inl ⟨_, rfl⟩
      | ok rows => exact .inr ⟨_, rows, rfl, rfl, rfl⟩
  | ended e => cases h

/-- A push never changes what it pushes. -/
theorem commands_of_sent {next : Response → PushCall} (h : Procedure.step c = .sent s next)
    (r : Response) : (next r).commands = c.commands := by
  rcases ended_or_proceeds h r with ⟨e, hnext⟩ | ⟨phase, rows, -, -, hnext⟩
  · rw [hnext]
  · rw [hnext]

/-- **A statement is sent only where those before it have succeeded**, and nothing has interrupted the
push by then. -/
theorem answered_of_lt (c : PushCall) (rs : List Response) :
    ∀ i, i + 1 < (c.answers rs).statements.length → ∃ r, rs[i]? = some r ∧ ∃ rows, r.Gives rows := by
  refine answers_induction (P := fun _ rs d => ∀ i, i + 1 < d.statements.length →
    ∃ r, rs[i]? = some r ∧ ∃ rows, r.Gives rows) ?_ ?_ ?_ ?_ ?_ c rs
  · intro c e rs _ i h
    exact absurd h (Nat.not_lt_zero _)
  · intro c s _ i h
    exact absurd (Nat.lt_of_succ_lt_succ h) (Nat.not_lt_zero _)
  · intro c s r rs e _ _ i h
    exact absurd (Nat.lt_of_succ_lt_succ h) (Nat.not_lt_zero _)
  · intro c events r rs rows _ _ i h
    exact absurd (Nat.lt_of_succ_lt_succ h) (Nat.not_lt_zero _)
  · intro c s r rs phase hs hcommit hv ih i h
    cases i with
    | zero => exact ⟨r, rfl, gives_of_verdict hs hcommit hv⟩
    | succ i => exact ih i (Nat.lt_of_succ_lt_succ h)

/-! ### The script -/

/-- What a push still has to say: its statements in their order, with these rows to insert. -/
def remaining (c : PushCall) (staged : List Staged) : List Statement :=
  let heads (streams : List Stream) := streams.map Statement.head
  let commit := Statement.control .commit c.nested
  match c.phase with
  | .opening =>
    .control .start c.nested :: .lock :: (heads (streamsOf c.commands) ++ [.insert staged, commit])
  | .locking => .lock :: (heads (streamsOf c.commands) ++ [.insert staged, commit])
  | .reading _ next later => heads (next :: later) ++ [.insert staged, commit]
  | .inserting staged => [.insert staged, commit]
  | .committing _ => [commit]
  | .ended _ => []

/-- What is being sent comes first of what remains. -/
theorem remaining_eq_cons (hs : c.sends? = some s) (staged : List Staged) :
    ∃ rest, c.remaining staged = s :: rest := by
  obtain ⟨commands, nested, phase⟩ := c
  cases phase with
  | ended e => cases hs
  | _ => cases hs; exact ⟨_, rfl⟩

/-- Once the heads are read, the rows that are staged are those of the commands. -/
theorem remaining_toRead {heads : Heads} {streams : List Stream} {phase : PushPhase}
    (h : c.toRead heads streams = .ok phase) {staged : List Staged}
    (hstaged : staged.map Staged.command = c.commands) :
    ∃ staged', staged'.map Staged.command = c.commands ∧
      ({ c with phase } : PushCall).remaining staged =
        streams.map Statement.head ++ [.insert staged', .control .commit c.nested] := by
  cases streams with
  | cons next later => cases h; exact ⟨staged, hstaged, rfl⟩
  | nil =>
      obtain ⟨staged', hchecked, rfl⟩ := map_eq_ok.mp h
      obtain ⟨-, rfl⟩ := stageChecked_eq_ok_iff.mp hchecked
      exact ⟨_, map_command_stage _ _, rfl⟩

/-- A push that goes on has said what came first, and no more. -/
theorem remaining_verdict {phase : PushPhase} (hs : c.sends? = some s)
    (hv : c.verdict r = .ok phase) {staged : List Staged}
    (hstaged : staged.map Staged.command = c.commands) :
    ∃ staged', staged'.map Staged.command = c.commands ∧
      c.remaining staged' = s :: ({ c with phase } : PushCall).remaining staged := by
  obtain ⟨commands, nested, current⟩ := c
  cases current with
  | opening =>
      cases hs
      rw [verdict] at hv
      simp only at hv
      split at hv
      · cases hv
      · cases hv
      · cases hv
        exact ⟨staged, hstaged, rfl⟩
  | locking =>
      cases hs
      obtain ⟨rows, -, hread⟩ := bind_eq_ok.mp hv
      obtain ⟨staged', hstaged', hremaining⟩ := remaining_toRead hread hstaged
      exact ⟨staged', hstaged', by rw [hremaining]; rfl⟩
  | reading heads next later =>
      cases hs
      obtain ⟨head, -, hread⟩ := bind_eq_ok.mp hv
      obtain ⟨staged', hstaged', hremaining⟩ := remaining_toRead hread hstaged
      exact ⟨staged', hstaged', by rw [hremaining]; rfl⟩
  | inserting staged' =>
      cases hs
      obtain ⟨events, -, hphase⟩ := bind_eq_ok.mp hv
      cases hphase
      exact ⟨staged, hstaged, rfl⟩
  | committing events =>
      cases hs
      rw [verdict] at hv
      simp only at hv
      split at hv
      · cases hv
      · cases hv
        exact ⟨staged, hstaged, rfl⟩
  | ended e => cases hs

/-- **The statements of a push follow one script**: what remains to be said, from the first statement up
to any. -/
theorem statements_follow (c : PushCall) (rs : List Response) :
    ∃ staged, staged.map Staged.command = c.commands ∧
      (c.answers rs).statements <+: c.remaining staged := by
  -- where no rows are inserted, any that could be will do
  have hfirst {c : PushCall} {s : Statement} (hs : c.sends? = some s) :
      ∃ staged, staged.map Staged.command = c.commands ∧ [s] <+: c.remaining staged := by
    refine ⟨_, map_command_stage (fun _ => none) c.commands, ?_⟩
    obtain ⟨rest, hrest⟩ := remaining_eq_cons hs (stage (fun _ => none) c.commands)
    rw [hrest]
    exact List.prefix_append [s] rest
  refine answers_induction (P := fun c _ d => ∃ staged, staged.map Staged.command = c.commands ∧
    d.statements <+: c.remaining staged) ?_ ?_ ?_ ?_ ?_ c rs
  · intro c e rs _
    exact ⟨_, map_command_stage (fun _ => none) c.commands, List.nil_prefix⟩
  · intro c s hs
    exact hfirst hs
  · intro c s r rs e hs _
    exact hfirst hs
  · intro c events r rs rows hp _
    exact hfirst (sends?_of_committing hp)
  · rintro c s r rs phase hs - hv ⟨staged, hstaged, hpre⟩
    obtain ⟨staged', hstaged', hremaining⟩ := remaining_verdict hs hv hstaged
    refine ⟨staged', hstaged', ?_⟩
    rw [hremaining]
    exact List.cons_prefix_cons.mpr ⟨rfl, hpre⟩

/-! ### How a push ends -/

/-- **Once the commit is sent, only the database can still fail.** -/
theorem error_of_commit (c : PushCall) (rs : List Response) :
    .control .commit c.nested ∈ (c.answers rs).statements →
      ∀ e, (c.answers rs).outcome = some (.error e) → ∃ fault, e = .backend (.database fault) := by
  refine answers_induction (P := fun c _ d => .control .commit c.nested ∈ d.statements →
    ∀ e, d.outcome = some (.error e) → ∃ fault, e = .backend (.database fault)) ?_ ?_ ?_ ?_ ?_ c rs
  · intro c e rs _ hs
    cases hs
  · intro c s _ _ e he
    cases he
  · intro c s r rs e hs hv hmem e' he
    cases he
    obtain rfl := List.mem_singleton.mp hmem
    obtain ⟨events, hp⟩ := committing_of_sends hs
    exact error_of_committing hp hv
  · intro c events r rs rows _ _ _ e he
    cases he
  · intro c s r rs phase hs hcommit _ ih hmem e he
    rcases List.mem_cons.mp hmem with rfl | hmem
    · obtain ⟨events, hp⟩ := committing_of_sends hs
      exact absurd hp (hcommit events)
    · exact ih hmem e he

/-- A response does not end a push that has not reached its commit, unless as a failure. -/
theorem underway_of_verdict {phase : PushPhase} (hc : ∀ e, c.phase ≠ .ended e)
    (hcommit : ∀ events, c.phase ≠ .committing events) (hv : c.verdict r = .ok phase) (e : PushEnd) :
    phase ≠ .ended e := by
  have hread {heads : Heads} {streams : List Stream} (h : c.toRead heads streams = .ok phase) :
      phase ≠ .ended e := by
    cases streams with
    | cons next later =>
        cases h
        intro he
        cases he
    | nil =>
        obtain ⟨staged, -, rfl⟩ := map_eq_ok.mp h
        intro he
        cases he
  rw [verdict] at hv
  split at hv
  · split at hv
    · cases hv
    · cases hv
    · cases hv
      intro he
      cases he
  · obtain ⟨rows, -, h⟩ := bind_eq_ok.mp hv
    exact hread h
  · obtain ⟨head, -, h⟩ := bind_eq_ok.mp hv
    exact hread h
  · obtain ⟨events, -, h⟩ := bind_eq_ok.mp hv
    cases h
    intro he
    cases he
  · rename_i hp
    exact absurd hp (hcommit _)
  · rename_i hp
    exact absurd hp (hc _)

/-- **A push succeeds exactly if its commit does.** -/
theorem ok_iff_committed (c : PushCall) (rs : List Response) : (∀ e, c.phase ≠ .ended e) →
    ((∃ events, (c.answers rs).outcome = some (.ok events)) ↔
      ∃ (i : Nat) (r : Response) (rows : List Row),
        (c.answers rs).statements[i]? = some (Statement.control .commit c.nested) ∧
        rs[i]? = some r ∧ r.answer = .ok rows) := by
  refine answers_induction (P := fun c rs d => (∀ e, c.phase ≠ .ended e) →
    ((∃ events, d.outcome = some (.ok events)) ↔
      ∃ (i : Nat) (r : Response) (rows : List Row),
        d.statements[i]? = some (Statement.control .commit c.nested) ∧ rs[i]? = some r ∧
        r.answer = .ok rows)) ?_ ?_ ?_ ?_ ?_ c rs
  · intro c e rs hp hc
    exact absurd hp (hc e)
  · intro c s _ _
    constructor
    · rintro ⟨events, h⟩
      cases h
    · rintro ⟨i, r, rows, -, h, -⟩
      cases h
  · intro c s r rs e hs hv _
    constructor
    · rintro ⟨events, h⟩
      cases h
    · rintro ⟨i, r', rows, hi, hr, hrows⟩
      cases i with
      | zero =>
          -- a commit that succeeds does not end the push with an error
          cases hr
          obtain rfl := Option.some.inj hi
          obtain ⟨events, hp⟩ := committing_of_sends hs
          rw [verdict_of_committing hp, hrows] at hv
          cases hv
      | succ i => cases hi
  · intro c events r rs rows _ hrows _
    exact ⟨fun _ => ⟨0, r, rows, rfl, rfl, hrows⟩, fun _ => ⟨events, rfl⟩⟩
  · intro c s r rs phase hs hcommit hv ih hc
    refine (ih (underway_of_verdict hc hcommit hv)).trans ?_
    constructor
    · rintro ⟨i, h⟩
      exact ⟨i + 1, h⟩
    · rintro ⟨i, r', rows, hi, hr, hrows⟩
      cases i with
      | zero =>
          obtain rfl := Option.some.inj hi
          obtain ⟨events, hp⟩ := committing_of_sends hs
          exact absurd hp (hcommit events)
      | succ i => exact ⟨i, r', rows, hi, hr, hrows⟩

/-! ### Transactions left open -/

/-- Past its opening, a push leaves its transaction open exactly if it fails. -/
def LeavesOpen (c : PushCall) : Prop :=
  match c.phase with
  | .opening => False
  | .ended e => e.isOpen = true ↔ ∃ error, e.result = .error error
  | _ => True

/-- A push that proceeds leaves its transaction open, as far as its next phase does. -/
theorem leavesOpen_proceed {next : Except (StoreError PostgresError) PushPhase}
    (h : ∀ phase, next = .ok phase → ({ c with phase } : PushCall).LeavesOpen) :
    (c.proceed next).LeavesOpen := by
  cases next with
  | error e => exact ⟨fun _ => ⟨e, rfl⟩, fun _ => rfl⟩
  | ok phase => exact h phase rfl

theorem leavesOpen_toRead {heads : Heads} {streams : List Stream} {phase : PushPhase}
    (h : c.toRead heads streams = .ok phase) : ({ c with phase } : PushCall).LeavesOpen := by
  cases streams with
  | cons next later => cases h; exact trivial
  | nil =>
      obtain ⟨staged, -, rfl⟩ := map_eq_ok.mp h
      exact trivial

/-- What holds past the opening holds to the end. -/
theorem leavesOpen_step {resume : Response → PushCall} (hc : c.LeavesOpen)
    (h : Procedure.step c = .sent s resume) (r : Response) : (resume r).LeavesOpen := by
  obtain ⟨commands, nested, phase⟩ := c
  cases phase with
  | opening => exact hc.elim
  | locking =>
      cases h
      refine leavesOpen_proceed fun phase h => ?_
      obtain ⟨rows, -, h⟩ := bind_eq_ok.mp h
      exact leavesOpen_toRead h
  | reading heads next later =>
      cases h
      refine leavesOpen_proceed fun phase h => ?_
      obtain ⟨head, -, h⟩ := bind_eq_ok.mp h
      exact leavesOpen_toRead h
  | inserting staged =>
      cases h
      refine leavesOpen_proceed fun phase h => ?_
      obtain ⟨events, -, h⟩ := bind_eq_ok.mp h
      cases h
      exact trivial
  | committing events =>
      cases h
      obtain ⟨answer, interruption⟩ := r
      cases answer with
      | error fault => exact ⟨fun _ => ⟨_, rfl⟩, fun _ => rfl⟩
      | ok rows =>
          constructor
          · intro h
            cases h
          · rintro ⟨error, h⟩
            cases h
  | ended e => cases h

/-- **A push leaves its transaction open** exactly if it fails after the transaction was opened. -/
theorem isOpen_iff (hc : c.phase = .opening) {e : PushEnd}
    (h : (Procedure.dialogue c rs).outcome = some e) :
    e.isOpen = true ↔ (∃ error, e.result = .error error) ∧
      ∃ r rest rows, rs = r :: rest ∧ r.answer = .ok rows := by
  obtain ⟨commands, nested, phase⟩ := c
  cases hc
  cases rs with
  | nil => cases h
  | cons r rs =>
      rw [Procedure.dialogue_cons (s := .control .start nested) rfl] at h
      obtain ⟨answer, interruption⟩ := r
      cases answer with
      | error fault =>
          -- nothing was opened, and nothing is left open
          replace h : (Procedure.dialogue (PushCall.mk commands nested
              (.ended { result := .error (.backend (.database fault)) })) rs).outcome = some e := h
          rw [Procedure.dialogue_ended rfl] at h
          cases h
          constructor
          · intro h
            cases h
          · rintro ⟨-, r, rest, rows, hr, hrows⟩
            cases hr
            cases hrows
      | ok rows =>
          have hopen : ∃ q : PushCall, q.LeavesOpen ∧ Procedure.step q = .ended e := by
            refine Procedure.exists_ended LeavesOpen (fun p s resume => leavesOpen_step) ?_ h
            cases interruption with
            | some i => exact ⟨fun _ => ⟨_, rfl⟩, fun _ => rfl⟩
            | none => exact trivial
          obtain ⟨⟨commands, nested, phase⟩, hq, hended⟩ := hopen
          cases phase <;> cases hended
          exact Iff.trans hq ⟨fun he => ⟨he, _, rs, rows, rfl, rfl⟩, fun he => he.1⟩

end PushCall

end EventSourcing
