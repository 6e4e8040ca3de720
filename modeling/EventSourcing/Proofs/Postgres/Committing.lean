import Mathlib.Data.List.Forall2
import EventSourcing.Proofs.Postgres.Pushing

/-!
# The PostgreSQL store — which pushes commit

A push sends its commit exactly if every response before it allows the next statement.  Read phase by
phase, this becomes a list of demands on the responses: `Admitted`.

* `not_refuses_of_insert`: once the rows are sent, the batch is not refused any more.
* `commits_toRead_iff`: which responses bring a push from its first head to its commit.
* `commits_iff`: a push commits exactly if its responses are `Admitted`.
-/

namespace EventSourcing

namespace PushCall

variable {c : PushCall} {s : Statement} {r : Response} {rs : List Response}

theorem verdict_of_inserting {staged : List Staged} (h : c.phase = .inserting staged) :
    c.verdict r = (do return .committing (← r.read (insertedEvents staged))) := by
  rw [verdict]
  rw [h]

/-- Rows are inserted in one phase only. -/
theorem inserting_of_sends {staged : List Staged} (h : c.sends? = some (.insert staged)) :
    c.phase = .inserting staged := by
  rw [sends?] at h
  cases hp : c.phase <;> rw [hp] at h <;> cases h
  rfl

theorem not_refuses_of_rows {e : StoreError PostgresError} (h : r.rows = .error e) :
    ¬ Refuses e := by
  rcases Response.rows_eq_error_iff.mp h with ⟨i, -, rfl⟩ | ⟨-, fault, -, rfl⟩
  · cases i <;> exact id
  · exact id

/-- Once rows are inserted, nothing is refused any more. -/
theorem not_refuses_of_inserting {staged : List Staged} {e : StoreError PostgresError}
    (h : c.phase = .inserting staged) (hv : c.verdict r = .error e) : ¬ Refuses e := by
  rw [verdict_of_inserting h] at hv
  rcases bind_eq_error.mp hv with hread | ⟨events, -, hv⟩
  · rcases Response.read_eq_error_iff.mp hread with hrows | ⟨rows, fault, -, hevents, rfl⟩
    · exact not_refuses_of_rows hrows
    · exact blameless_insertedEvents staged rows fault hevents
  · cases hv

/-- **Once the rows are sent, the batch is not refused any more.** -/
theorem not_refuses_of_insert (c : PushCall) (rs : List Response) {staged : List Staged} :
    .insert staged ∈ (c.answers rs).statements → ∀ e, (c.answers rs).outcome = some (.error e) →
      ¬ Refuses e := by
  -- the rows are sent, or have been sent and only the commit is left
  suffices h : (.insert staged ∈ (c.answers rs).statements ∨ ∃ events, c.phase = .committing events) →
      ∀ e, (c.answers rs).outcome = some (.error e) → ¬ Refuses e from fun hs => h (.inl hs)
  refine answers_induction (P := fun c _ d =>
    (.insert staged ∈ d.statements ∨ ∃ events, c.phase = .committing events) →
      ∀ e, d.outcome = some (.error e) → ¬ Refuses e) ?_ ?_ ?_ ?_ ?_ c rs
  · rintro c e rs hp (hs | ⟨events, hp'⟩)
    · cases hs
    · rw [hp] at hp'
      cases hp'
  · intro c s _ _ e he
    cases he
  · intro c s r rs e hs hv hsent e' he
    cases he
    rcases hsent with hmem | ⟨events, hp⟩
    · obtain rfl := List.mem_singleton.mp hmem
      exact not_refuses_of_inserting (inserting_of_sends hs) hv
    · obtain ⟨fault, rfl⟩ := error_of_committing hp hv
      exact id
  · intro c events r rs rows _ _ _ e he
    cases he
  · intro c s r rs phase hs hcommit hv ih hsent
    rcases hsent with hmem | ⟨events, hp⟩
    · rcases List.mem_cons.mp hmem with rfl | hmem
      · rw [verdict_of_inserting (inserting_of_sends hs)] at hv
        obtain ⟨events, -, hphase⟩ := bind_eq_ok.mp hv
        cases hphase
        exact ih (.inr ⟨events, rfl⟩)
      · exact ih (.inl hmem)
    · exact absurd hp (hcommit events)

/-! ### On the way to the commit -/

/-- The push sends its commit. -/
def Commits (c : PushCall) (rs : List Response) : Prop :=
  .control .commit c.nested ∈ (c.answers rs).statements

/-- A push that has not reached its commit gets there only if the next response lets it go on. -/
theorem commits_step_iff (hs : c.sends? = some s) (hne : s ≠ .control .commit c.nested) :
    c.Commits rs ↔ ∃ r rest phase, rs = r :: rest ∧ c.verdict r = .ok phase ∧
      ({ c with phase } : PushCall).Commits rest := by
  rw [Commits]
  cases rs with
  | nil =>
      rw [answers_nil hs]
      constructor
      · intro h
        exact absurd (List.mem_singleton.mp h).symm hne
      · rintro ⟨r, rest, phase, h, -⟩
        cases h
  | cons r rs =>
      rw [answers_cons hs]
      constructor
      · intro h
        rcases List.mem_cons.mp h with h | h
        · exact absurd h.symm hne
        · cases hv : c.verdict r with
          | error e =>
              rw [hv, answers_abandon] at h
              cases h
          | ok phase =>
              rw [hv] at h
              exact ⟨r, rs, phase, rfl, hv, h⟩
      · rintro ⟨r', rest, phase, hrs, hv, h⟩
        cases hrs
        rw [hv]
        exact List.mem_cons_of_mem s h

theorem commits_of_committing {events : List Event} (h : c.phase = .committing events) :
    c.Commits rs := by
  rw [Commits]
  cases rs with
  | nil =>
      rw [answers_nil (sends?_of_committing h)]
      exact List.mem_singleton_self _
  | cons r rs =>
      rw [answers_cons (sends?_of_committing h)]
      exact List.mem_cons_self

/-- An insertion leads to the commit if its rows are given back. -/
theorem commits_inserting_iff {staged : List Staged} (h : c.phase = .inserting staged) :
    c.Commits rs ↔ ∃ inserted rest rows, rs = inserted :: rest ∧ inserted.Gives rows ∧
      Returned staged.length rows := by
  have hs : c.sends? = some (.insert staged) := by
    rw [sends?]
    rw [h]
  rw [commits_step_iff hs (by rintro ⟨⟩)]
  constructor
  · rintro ⟨r, rest, phase, rfl, hv, -⟩
    rw [verdict_of_inserting h] at hv
    obtain ⟨events, hevents, -⟩ := bind_eq_ok.mp hv
    obtain ⟨rows, hrows, hread⟩ := Response.read_eq_ok_iff.mp hevents
    exact ⟨r, rest, rows, rfl, hrows, insertedEvents_iff.mp ⟨events, hread⟩⟩
  · rintro ⟨r, rest, rows, rfl, hrows, hreturned⟩
    obtain ⟨events, hread⟩ := insertedEvents_iff.mpr hreturned
    have hevents := Response.read_eq_ok_iff.mpr ⟨rows, hrows, hread⟩
    refine ⟨r, rest, .committing events, rfl, ?_, commits_of_committing rfl⟩
    rw [verdict_of_inserting h, hevents]
    rfl

/-- The response tells the head of the stream. -/
def TellsHead (heads : Heads) (s : Stream) (r : Response) : Prop :=
  ∃ rows, r.Gives rows ∧ headOf rows = .ok (heads.head s)

/-- The start of a transaction leads to the commit if what follows does. -/
theorem commits_opening_iff (h : c.phase = .opening) :
    c.Commits rs ↔ ∃ begun rest, rs = begun :: rest ∧ (∃ rows, begun.Gives rows) ∧
      ({ c with phase := .locking } : PushCall).Commits rest := by
  have hs : c.sends? = some (.control .start c.nested) := by
    rw [sends?]
    rw [h]
  have hverdict (r : Response) (phase : PushPhase) :
      c.verdict r = .ok phase ↔ (∃ rows, r.Gives rows) ∧ phase = .locking := by
    obtain ⟨answer, interruption⟩ := r
    simp only [verdict, Response.Gives]
    rw [h]
    cases answer with
    | error fault => simp
    | ok rows => cases interruption <;> simp [eq_comm]
  rw [commits_step_iff hs (by rintro ⟨⟩)]
  constructor
  · rintro ⟨r, rest, phase, rfl, hv, hcommits⟩
    obtain ⟨hrows, rfl⟩ := (hverdict r phase).mp hv
    exact ⟨r, rest, rfl, hrows, hcommits⟩
  · rintro ⟨r, rest, rfl, hrows, hcommits⟩
    exact ⟨r, rest, .locking, rfl, (hverdict r .locking).mpr ⟨hrows, rfl⟩, hcommits⟩

/-- The lock leads to the commit if the phase after it does. -/
theorem commits_locking_iff (h : c.phase = .locking) :
    c.Commits rs ↔ ∃ locked rest, rs = locked :: rest ∧ (∃ rows, locked.Gives rows) ∧
      ∃ phase, c.toRead (fun _ => none) (streamsOf c.commands) = .ok phase ∧
        ({ c with phase } : PushCall).Commits rest := by
  have hs : c.sends? = some .lock := by
    rw [sends?]
    rw [h]
  have hverdict (r : Response) : c.verdict r = (do
      let _ ← r.rows
      c.toRead (fun _ => none) (streamsOf c.commands)) := by
    rw [verdict]
    rw [h]
  rw [commits_step_iff hs (by rintro ⟨⟩)]
  constructor
  · rintro ⟨r, rest, phase, rfl, hv, hcommits⟩
    rw [hverdict] at hv
    obtain ⟨rows, hrows, hread⟩ := bind_eq_ok.mp hv
    exact ⟨r, rest, rfl, ⟨rows, Response.rows_eq_ok_iff.mp hrows⟩, phase, hread, hcommits⟩
  · rintro ⟨r, rest, rfl, ⟨rows, hrows⟩, phase, hread, hcommits⟩
    refine ⟨r, rest, phase, rfl, ?_, hcommits⟩
    rw [hverdict, Response.rows_eq_ok_iff.mpr hrows]
    exact hread

/-- A head that is read leads to the commit if the phase after it does. -/
theorem commits_reading_iff {heads : Heads} {next : Stream} {later : List Stream}
    (h : c.phase = .reading heads next later) :
    c.Commits rs ↔ ∃ r rest head, rs = r :: rest ∧ r.read headOf = .ok head ∧
      ∃ phase, c.toRead (heads.set next head) later = .ok phase ∧
        ({ c with phase } : PushCall).Commits rest := by
  have hs : c.sends? = some (.head next) := by
    rw [sends?]
    rw [h]
  have hverdict (r : Response) :
      c.verdict r = (do c.toRead (heads.set next (← r.read headOf)) later) := by
    rw [verdict]
    rw [h]
  rw [commits_step_iff hs (by rintro ⟨⟩)]
  constructor
  · rintro ⟨r, rest, phase, rfl, hv, hcommits⟩
    rw [hverdict] at hv
    obtain ⟨head, hhead, hread⟩ := bind_eq_ok.mp hv
    exact ⟨r, rest, head, rfl, hhead, phase, hread, hcommits⟩
  · rintro ⟨r, rest, head, rfl, hhead, phase, hread, hcommits⟩
    exact ⟨r, rest, phase, rfl, by rw [hverdict, hhead]; exact hread, hcommits⟩

/-- **From the first head to the commit.**  A push that is about to read the heads of `streams` and knows
those of the other streams commits exactly if it learns heads that its commands fit, and then gets its
rows back. -/
theorem commits_toRead_iff {streams : List Stream} (hnodup : streams.Nodup)
    (hsub : ∀ s ∈ streams, s ∈ streamsOf c.commands) (heads : Heads) (rs : List Response) :
    (∃ phase, c.toRead heads streams = .ok phase ∧ ({ c with phase } : PushCall).Commits rs) ↔
      ∃ reads inserted rest known rows, rs = reads ++ inserted :: rest ∧
        (∀ s ∈ streamsOf c.commands, s ∉ streams → known.head s = heads.head s) ∧
        List.Forall₂ (TellsHead known) streams reads ∧ Fits known c.commands ∧
        inserted.Gives rows ∧ Returned c.commands.length rows := by
  -- the response that tells the first head, and then the rest with one head more
  induction streams generalizing heads rs with
  | nil =>
      constructor
      · rintro ⟨phase, hread, hcommits⟩
        obtain ⟨staged, hstaged, rfl⟩ := map_eq_ok.mp hread
        obtain ⟨hfits, rfl⟩ := stageChecked_eq_ok_iff.mp hstaged
        obtain ⟨inserted, rest, rows, rfl, hrows, hreturned⟩ := (commits_inserting_iff rfl).mp hcommits
        rw [length_stage] at hreturned
        exact ⟨[], inserted, rest, heads, rows, rfl, fun _ _ _ => rfl, .nil, hfits, hrows, hreturned⟩
      · rintro ⟨reads, inserted, rest, known, rows, rfl, hknown, hreads, hfits, hrows, hreturned⟩
        cases hreads
        have hheads : ∀ d ∈ c.commands, known.head d.stream = heads.head d.stream := fun d hd =>
          hknown d.stream (mem_streamsOf.mpr ⟨d, hd, rfl⟩) List.not_mem_nil
        refine ⟨.inserting (stage heads c.commands), ?_, ?_⟩
        · exact map_eq_ok.mpr ⟨_, stageChecked_eq_ok_iff.mpr ⟨hfits.congr hheads, rfl⟩, rfl⟩
        · rw [← length_stage heads] at hreturned
          exact (commits_inserting_iff rfl).mpr ⟨inserted, rest, rows, rfl, hrows, hreturned⟩
  | cons next later ih =>
      obtain ⟨hnew, hnodup⟩ := List.nodup_cons.mp hnodup
      have ih := ih hnodup fun s hs => hsub s (List.mem_cons_of_mem next hs)
      constructor
      · rintro ⟨phase, hread, hcommits⟩
        cases hread
        obtain ⟨r, rs, head, rfl, hhead, hrest⟩ := (commits_reading_iff rfl).mp hcommits
        obtain ⟨reads, inserted, rest, known, rows, rfl, hknown, hreads, hfits⟩ := (ih _ rs).mp hrest
        obtain ⟨rows', hrows', hhead⟩ := Response.read_eq_ok_iff.mp hhead
        refine ⟨r :: reads, inserted, rest, known, rows, rfl, fun s hs hs' => ?_,
          .cons ⟨rows', hrows', ?_⟩ hreads, hfits⟩
        · obtain ⟨hne, hs'⟩ := not_or.mp (mt List.mem_cons.mpr hs')
          rw [hknown s hs hs', Heads.head_set_other _ _ hne]
        · -- `next` is not read again, so what was told of it stands
          rw [hknown next (hsub next List.mem_cons_self) hnew, Heads.head_set_self]
          exact hhead
      · rintro ⟨reads, inserted, rest, known, rows, rfl, hknown, hreads, hfits⟩
        obtain _ | ⟨⟨rows', hrows', hhead⟩, hreads⟩ := hreads
        have hset := known_set fun s hs hs' => (hknown s hs hs').symm
        exact ⟨.reading heads next later, rfl, (commits_reading_iff rfl).mpr ⟨_, _, _, rfl,
          Response.read_eq_ok_iff.mpr ⟨rows', hrows', hhead⟩, (ih _ _).mpr ⟨_, inserted, rest, known,
            rows, rfl, fun s hs hs' => (hset s hs hs').symm, hreads, hfits⟩⟩⟩

/-- What the responses to a push have to say for its commit to be sent: every statement succeeds, and
nothing interrupts the push; the commands fit the heads of their streams; the insertion gives one row per
command, with positions that are not negative. -/
structure Admitted (commands : List Command) (heads : Heads) (begun locked : Response)
    (reads : List Response) (inserted : Response) : Prop where
  begun : ∃ rows, begun.Gives rows
  locked : ∃ rows, locked.Gives rows
  read : List.Forall₂ (TellsHead heads) (streamsOf commands) reads
  fits : Fits heads commands
  inserted : ∃ rows, inserted.Gives rows ∧ Returned commands.length rows

/-- **A push commits exactly if its responses are admitted.** -/
theorem commits_iff (commands : List Command) (nested : Bool) (rs : List Response) :
    ({ commands, nested } : PushCall).Commits rs ↔
      ∃ begun locked reads inserted rest heads,
        rs = begun :: locked :: (reads ++ inserted :: rest) ∧
        Admitted commands heads begun locked reads inserted := by
  constructor
  · intro h
    obtain ⟨begun, rest, rfl, hbegun, h⟩ := (commits_opening_iff rfl).mp h
    obtain ⟨locked, rest, rfl, hlocked, h⟩ := (commits_locking_iff rfl).mp h
    obtain ⟨reads, inserted, rest, heads, rows, rfl, -, hreads, hfits, hinserted⟩ :=
      (commits_toRead_iff (nodup_streamsOf commands) (fun _ hs => hs) _ rest).mp h
    exact ⟨begun, locked, reads, inserted, rest, heads, rfl, hbegun, hlocked, hreads, hfits, rows,
      hinserted⟩
  · rintro ⟨begun, locked, reads, inserted, rest, heads, rfl, h⟩
    obtain ⟨rows, hinserted⟩ := h.inserted
    refine (commits_opening_iff rfl).mpr ⟨begun, _, rfl, h.begun, ?_⟩
    refine (commits_locking_iff rfl).mpr ⟨locked, _, rfl, h.locked, ?_⟩
    exact (commits_toRead_iff (nodup_streamsOf commands) (fun _ hs => hs) _ _).mpr
      ⟨reads, inserted, rest, heads, rows, rfl, fun s hs hs' => absurd hs hs', h.read, h.fits,
        hinserted⟩

end PushCall

end EventSourcing
