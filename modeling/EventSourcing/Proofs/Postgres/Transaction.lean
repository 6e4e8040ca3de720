import EventSourcing.Proofs.Postgres.Numbering
import EventSourcing.Proofs.Postgres.Pushing

/-!
# The PostgreSQL store — what is known of a transaction

A push reads heads only while its transaction has the lock, so nothing is published between the heads that
it reads and its commit: what it stages on them is right when it is published.  The positions that it
draws come after all that were published, as nobody else who has drawn positions can still publish them.

* `Database.Keeps`: what is known of an open transaction, by the phase of its push.
* `Database.Keeps.of_spares`: it stays true while other transactions are at work.
* `Database.keeps_performed`, `Database.keeps_of_fault`: it stays true with each statement of the push.
* `Database.Orderly.publish`: what is committed leaves the table in order.
-/

namespace EventSourcing

namespace Database

variable {ι : Type} {d d' : Database ι} {i : ι} {c : PushCall}

/-! ### The table -/

/-- The table is numbered, in the order of its positions, all of which were drawn. -/
structure Orderly (d : Database ι) : Prop where
  numbered : Numbered d.committed
  ascend : d.committed.Pairwise fun e f => e.position < f.position
  drawn : ∀ e ∈ d.committed, e.position ≤ d.drawn

/-- Rows that a batch of these commands may publish. -/
structure Ready (d : Database ι) (commands : List Command) (own : List Event) : Prop where
  fits : Fits d.heads commands
  fills : List.Forall₂ Staged.Fills (stage d.heads commands) own
  ascend : own.Pairwise fun e f => e.position < f.position
  above : ∀ e ∈ d.committed, ∀ f ∈ own, e.position < f.position
  drawn : ∀ f ∈ own, f.position ≤ d.drawn

/-- Order is a matter of what is committed. -/
theorem Orderly.of_committed (h : d.Orderly) (hcommitted : d'.committed = d.committed)
    (hdrawn : d.drawn ≤ d'.drawn) : d'.Orderly where
  numbered := hcommitted ▸ h.numbered
  ascend := hcommitted ▸ h.ascend
  drawn e he := Nat.le_trans (h.drawn e (hcommitted ▸ he)) hdrawn

/-- Rows that are ready keep the table orderly. -/
theorem Orderly.publish {commands : List Command} {own : List Event} (h : d.Orderly)
    (hready : d.Ready commands own) (hcommitted : d'.committed = d.committed ++ own)
    (hdrawn : d.drawn ≤ d'.drawn) : d'.Orderly where
  numbered := hcommitted ▸ h.numbered.append d.head_heads hready.fills
  ascend := hcommitted ▸ List.pairwise_append.mpr ⟨h.ascend, hready.ascend, hready.above⟩
  drawn e he := by
    rw [hcommitted] at he
    rcases List.mem_append.mp he with he | he
    · exact Nat.le_trans (h.drawn e he) hdrawn
    · exact Nat.le_trans (hready.drawn e he) hdrawn

/-! ### The transactions -/

/-- What is known of an open transaction that has inserted these rows, by the phase of its push. -/
def Keeps (d : Database ι) (i : ι) (c : PushCall) (own : List Event) : Prop :=
  match c.phase with
  | .opening => False
  | .locking => own = []
  | .reading heads next later => own = [] ∧ d.holder = some i ∧
      ∀ s ∈ streamsOf c.commands, s ∉ next :: later → heads.head s = headIn d.committed s
  | .inserting staged => own = [] ∧ d.holder = some i ∧ Fits d.heads c.commands ∧
      staged = stage d.heads c.commands
  | .committing _ => d.holder = some i ∧ d.Ready c.commands own
  | .ended _ => True

/-- Whether rows are ready to be committed is a matter of what is committed. -/
theorem Ready.of_committed {commands : List Command} {own : List Event} (h : d.Ready commands own)
    (hcommitted : d'.committed = d.committed) (hdrawn : d.drawn ≤ d'.drawn) :
    d'.Ready commands own where
  fits := heads_congr hcommitted ▸ h.fits
  fills := heads_congr hcommitted ▸ h.fills
  ascend := h.ascend
  above := hcommitted ▸ h.above
  drawn f hf := Nat.le_trans (h.drawn f hf) hdrawn

/-- What is known of a transaction stays true while other transactions are at work. -/
theorem Keeps.of_spares {own : List Event} (h : d.Keeps i c own) (hs : Spares i d d')
    (hdrawn : d.drawn ≤ d'.drawn) : d'.Keeps i c own := by
  obtain ⟨commands, nested, phase⟩ := c
  cases phase with
  | opening => exact h
  | locking => exact h
  | reading heads next later =>
      obtain ⟨hown, hholder, hknown⟩ := h
      refine ⟨hown, hs.holder hholder, ?_⟩
      rw [hs.committed hholder]
      exact hknown
  | inserting staged =>
      obtain ⟨hown, hholder, hfits, hstaged⟩ := h
      refine ⟨hown, hs.holder hholder, ?_⟩
      rw [heads_congr (hs.committed hholder)]
      exact ⟨hfits, hstaged⟩
  | committing events =>
      obtain ⟨hholder, hready⟩ := h
      exact ⟨hs.holder hholder, hready.of_committed (hs.committed hholder) hdrawn⟩
  | ended e => exact trivial

/-- A push that has the lock, and knows the heads of all streams but these, goes on. -/
theorem keeps_toRead {heads : Heads} {streams : List Stream} {phase : PushPhase}
    (hholder : d.holder = some i)
    (hknown : ∀ s ∈ streamsOf c.commands, s ∉ streams → heads.head s = headIn d.committed s)
    (h : c.toRead heads streams = .ok phase) : d.Keeps i { c with phase } [] := by
  cases streams with
  | cons next later =>
      cases h
      exact ⟨rfl, hholder, hknown⟩
  | nil =>
      obtain ⟨staged, hstaged, rfl⟩ := map_eq_ok.mp h
      obtain ⟨hfits, rfl⟩ := stageChecked_eq_ok_iff.mp hstaged
      have hheads : ∀ command ∈ c.commands, heads.head command.stream = d.heads.head command.stream :=
        fun command hc => hknown _ (mem_streamsOf.mpr ⟨command, hc, rfl⟩) List.not_mem_nil
      exact ⟨rfl, hholder, hfits.congr hheads, stage_congr hheads⟩

variable {s : Statement} {next : Response → PushCall} {rows : List Row} {r : Response}

/-- A commit is sent only with the lock, and with rows that are ready. -/
theorem Keeps.of_commit {own : List Event} (h : d.Keeps i c own)
    (hsent : Procedure.step c = .sent (.control .commit false) next) :
    d.holder = some i ∧ d.Ready c.commands own := by
  obtain ⟨commands, nested, phase⟩ := c
  cases phase with
  | committing events => exact h
  | _ => cases hsent

/-- Nothing is demanded of a push whose statement has failed: it has ended. -/
theorem keeps_of_fault {fault : DatabaseFault} {own : List Event}
    (hsent : Procedure.step c = .sent s next) (hanswer : r.answer = .error fault) :
    d.Keeps i (next r) own := by
  rcases PushCall.ended_or_proceeds hsent r with ⟨e, hnext⟩ | ⟨phase, l, hl, -, -⟩
  · rw [hnext]
    exact trivial
  · rw [hanswer] at hl
    cases hl

/-- **One statement of a push**: what is known of its transaction afterwards. -/
theorem keeps_performed [DecidableEq ι] (horderly : d.Orderly) (hsent : Procedure.step c = .sent s next)
    (h : d.Performs i s rows d') (hanswer : ∀ l, r.answer = .ok l → l = rows)
    (hkeeps : ∀ own, d.transactions i = some own → d.Keeps i c own) {own : List Event}
    (hopen' : d'.transactions i = some own) : d'.Keeps i (next r) own := by
  rcases PushCall.ended_or_proceeds hsent r with ⟨e, hnext⟩ | ⟨phase', l, hl, hverdict, hnext⟩
  · rw [hnext]
    exact trivial
  rw [hnext]
  obtain rfl := hanswer l hl
  -- phase by phase: which statement it was, and what the push makes of its answer
  obtain ⟨commands, nested, phase⟩ := c
  cases phase with
  | opening =>
      cases hsent
      cases h with
      | start hclosed =>
          cases (d.transactions_setTransaction_self i _).symm.trans hopen'
          obtain ⟨answer, interruption⟩ := r
          cases hl
          cases interruption <;> cases hverdict
          exact rfl
  | locking =>
      cases hsent
      cases h with
      | lock hopen hfree =>
          cases hopen.symm.trans hopen'
          obtain rfl : own = [] := hkeeps own hopen
          obtain ⟨_, -, hphase⟩ := bind_eq_ok.mp hverdict
          exact keeps_toRead rfl (fun s hs hs' => absurd hs hs') hphase
  | reading heads stream later =>
      cases hsent
      cases h with
      | head hopen s =>
          cases hopen.symm.trans hopen'
          obtain ⟨rfl, hholder, hknown⟩ := hkeeps own hopen
          obtain ⟨head, hhead, hphase⟩ := bind_eq_ok.mp hverdict
          -- the head that was read is that of the table, as the transaction has no rows of its own
          have hhead : head = headIn d.committed stream := by
            obtain ⟨_, ⟨hl', -⟩, hhead⟩ := Response.read_eq_ok_iff.mp hhead
            cases hl.symm.trans hl'
            rw [List.append_nil] at hhead
            exact (Except.ok.inj hhead).symm
          rw [hhead] at hphase
          exact keeps_toRead hholder (known_set hknown) hphase
  | inserting staged =>
      cases hsent
      cases h with
      | insert hopen hfills hascend hdrawn hle hrows =>
          obtain ⟨rfl, hholder, hfits, hstaged⟩ := hkeeps _ hopen
          rw [hstaged] at hfills
          cases (d.transactions_setTransaction_self i _).symm.trans hopen'
          obtain ⟨events, -, hphase⟩ := bind_eq_ok.mp hverdict
          cases hphase
          exact ⟨hholder, {
            fits := hfits
            fills := hfills
            ascend := hascend
            above := fun e he f hf => Nat.lt_of_le_of_lt (horderly.drawn e he) (hdrawn f hf).1
            drawn := fun f hf => (hdrawn f hf).2 }⟩
  | committing events =>
      -- the transaction is over
      cases hsent
      cases h with
      | commit hopen => cases (d.transactions_setTransaction_self i _).symm.trans hopen'
  | ended e => cases hsent

end Database

end EventSourcing
