import EventSourcing.Proofs.Postgres.Asking
import EventSourcing.Proofs.Postgres.Returning

/-!
# The PostgreSQL store — no number wraps

Sequences and positions are natural numbers here and signed columns there.  A push computes the sequences of
its rows from the heads that it is told, and takes the positions from the rows that are given back.  What does
not fit is reported and never turned into another number.

* `sequence_stage`: a command has the head of its stream plus the number of commands up to it in that stream.
* `stageChecked_eq`: a batch whose expectations hold is staged unless one of its sequences is too large.
* `PushCall.answers_tooLarge`, `PushCall.answers_negativeHead`, `PushCall.answers_negativePosition`: what a
  push reports, and after which statements.
* `no_number_wraps`: **reads and pushes keep to the range of the database.**
-/

namespace EventSourcing

/-! ### Staged sequences -/

/-- **The sequence of a staged command** is the head of its stream, and one more for each command up to it
that belongs to this stream. -/
theorem sequence_stage {commands : List Command} :
    ∀ {heads : Heads} {i : Nat} {s : Staged}, (stage heads commands)[i]? = some s →
      commands[i]? = some s.command ∧ s.sequence = heads.head s.command.stream +
        (commands.take (i + 1)).countP fun c => c.stream = s.command.stream := by
  induction commands with
  | nil => intro heads i s hs; cases hs
  | cons c cs ih =>
      intro heads i s hs
      cases i with
      | zero =>
          cases hs
          refine ⟨rfl, ?_⟩
          rw [List.take_succ_cons, List.countP_cons_of_pos (by simp), List.take_zero]
          rfl
      | succ i =>
          obtain ⟨hcommand, hsequence⟩ := ih hs
          refine ⟨hcommand, ?_⟩
          rw [hsequence, List.take_succ_cons]
          -- the head that `c` leaves is one more in its own stream
          by_cases hstream : c.stream = s.command.stream
          · rw [List.countP_cons_of_pos (by simpa using hstream), ← hstream, Heads.head_set_self]
            omega
          · rw [List.countP_cons_of_neg (by simpa using hstream),
              Heads.head_set_other _ _ (Ne.symm hstream)]

/-- No sequence exceeds the head of its stream by more than the length of the batch. -/
theorem sequence_le_of_mem_stage {heads : Heads} {commands : List Command} {s : Staged}
    (hs : s ∈ stage heads commands) :
    s.sequence ≤ heads.head s.command.stream + commands.length := by
  obtain ⟨i, hi⟩ := List.mem_iff_getElem?.mp hs
  rw [(sequence_stage hi).2]
  have hcount := List.countP_le_length (p := fun c : Command => decide (c.stream = s.command.stream))
    (l := commands.take (i + 1))
  have htake := List.length_take_le' (i + 1) commands
  omega

/-- The first staged sequence that is too large for the database. -/
def tooLargeSequence? (heads : Heads) (commands : List Command) : Option Nat :=
  ((stage heads commands).map Staged.sequence).find? fun n => Nat.pow 2 63 ≤ n

/-- **A batch whose expectations hold is staged**, unless one of its sequences is too large. -/
theorem stageChecked_eq {heads : Heads} {commands : List Command}
    (h : ∀ c ∈ commands, ∀ n, c.sequence = some n → n = heads.head c.stream) :
    stageChecked heads commands = (tooLargeSequence? heads commands).elim (.ok (stage heads commands))
      fun n => .error (.backend (.outOfRange .sequence n)) := by
  have hfind (staged : List Staged) :
      staged.findSome? (fun s => if s.sequence < Nat.pow 2 63 then none else some s.sequence) =
        (staged.map Staged.sequence).find? fun n => Nat.pow 2 63 ≤ n := by
    induction staged with
    | nil => rfl
    | cons s staged ih =>
        rw [List.map_cons, List.findSome?_cons]
        by_cases hs : s.sequence < Nat.pow 2 63
        · rw [if_pos hs, List.find?_cons_of_neg (by simpa using hs)]
          exact ih
        · rw [if_neg hs, List.find?_cons_of_pos (by simpa using hs)]
  have hchecked := hfind (stage heads commands)
  rw [← tooLargeSequence?] at hchecked
  rw [stageChecked, Heads.conflict?_eq_none_iff.mpr h]
  cases hn : tooLargeSequence? heads commands with
  | some n => rw [hn] at hchecked; simp only [hchecked, Option.elim_some]
  | none => rw [hn] at hchecked; simp only [hchecked, Option.elim_none]

/-! ### Rows given back -/

/-- The smallest position comes first. -/
theorem exists_sortedDraws_cons {draws : List Drawn} {n : Int}
    (hmin : (draws.map Prod.fst).min? = some n) :
    ∃ g later, sortedDraws draws = g :: later ∧ g.1 = n := by
  have hperm := sortedDraws_perm draws
  obtain ⟨hmem, hle⟩ := List.min?_eq_some_iff.mp hmin
  obtain ⟨smallest, hsmallest, rfl⟩ := List.mem_map.mp hmem
  have hsmallest : smallest ∈ sortedDraws draws := hperm.mem_iff.mpr hsmallest
  obtain ⟨g, later, hsorted⟩ := List.exists_cons_of_ne_nil (List.ne_nil_of_mem hsmallest)
  refine ⟨g, later, hsorted, Int.le_antisymm ?_ (hle g.1 ?_)⟩
  · have hascend := sortedDraws_ascend draws
    rw [hsorted] at hsmallest hascend
    rcases List.mem_cons.mp hsmallest with rfl | hlater
    · exact Int.le_refl _
    · exact of_decide_eq_true ((List.pairwise_cons.mp hascend).1 smallest hlater)
  · exact List.mem_map_of_mem (hperm.mem_iff.mp (hsorted ▸ List.mem_cons_self))

/-- A negative position makes the events fail, and the smallest is reported. -/
theorem insertedEvents_negative {staged : List Staged} {rows : List Row} {draws : List Drawn} {n : Int}
    (hread : rows.mapM generatedOf = .ok draws) (hlength : draws.length = staged.length)
    (hmin : (draws.map Prod.fst).min? = some n) (hneg : n < 0) :
    insertedEvents staged rows = .error (.invalidPosition n) := by
  obtain ⟨g, later, hsorted, rfl⟩ := exists_sortedDraws_cons hmin
  have hstaged : 0 < staged.length := by
    rw [← hlength, ← (sortedDraws_perm draws).length_eq, hsorted]
    exact Nat.succ_pos _
  obtain ⟨s, staged', rfl⟩ := List.exists_cons_of_length_pos hstaged
  rw [insertedEvents]
  refine bind_eq_error.mpr (.inr ⟨draws, hread, ?_⟩)
  rw [if_neg (not_not.mpr hlength)]
  show ((s :: staged').zip (sortedDraws draws)).mapM _ = _
  rw [hsorted, List.zip_cons_cons]
  refine mapM_cons_eq_error_iff.mpr (.inl (bind_eq_error.mpr (.inl ?_)))
  exact if_neg (Int.not_le.mpr hneg)

/-- Rows that are not one for each staged row are a missing position. -/
theorem insertedEvents_missing {staged : List Staged} {rows : List Row} {draws : List Drawn}
    (hread : rows.mapM generatedOf = .ok draws) (hlength : draws.length ≠ staged.length) :
    insertedEvents staged rows = .error .missingReturnedPosition := by
  rw [insertedEvents]
  refine bind_eq_error.mpr (.inr ⟨draws, hread, ?_⟩)
  rw [if_pos hlength]

/-! ### Pushes -/

theorem Dialogue.afterAll_after {ρ : Type} (statements : List Statement) (s : Statement)
    (d : Dialogue ρ) : (d.after s).afterAll statements = d.afterAll (statements ++ [s]) := by
  rw [afterAll, afterAll, List.foldr_append]
  rfl

theorem Dialogue.afterAll_ended {ρ : Type} (statements : List Statement) (outcome : Option ρ) :
    ({ outcome } : Dialogue ρ).afterAll statements = { statements, outcome } := by
  induction statements with
  | nil => rfl
  | cons s statements ih => exact congrArg (Dialogue.after s) ih

namespace PushCall

/-- The responses let a push begin and take its lock, and tell it the heads of these streams. -/
def Tells (heads : Heads) (streams : List Stream) (told : List Response) : Prop :=
  ∃ begun locked reads, told = begun :: locked :: reads ∧ (∃ rows, begun.Gives rows) ∧
    (∃ rows, locked.Gives rows) ∧ List.Forall₂ (TellsHead heads) streams reads

/-- What a push has said once it has asked for the heads of these streams. -/
def asking (nested : Bool) (streams : List Stream) : List Statement :=
  .control .start nested :: .lock :: streams.map .head

/-- The responses tell a push of these commands the heads that they expect. -/
structure TellsExpected (heads : Heads) (commands : List Command) (told : List Response) : Prop where
  tells : Tells heads (streamsOf commands) told
  expected : ∀ c ∈ commands, ∀ n, c.sequence = some n → n = heads.head c.stream

section Told

variable {commands : List Command} {nested : Bool} {heads : Heads} {told : List Response}
  (h : TellsExpected heads commands told)

include h

/-- A push that has been told its heads goes on as `stageChecked` says. -/
theorem answers_tells (rest : List Response) :
    ({ commands, nested } : PushCall).answers (told ++ rest) =
      ((({ commands, nested } : PushCall).proceed
        ((stageChecked heads commands).map .inserting)).answers rest).afterAll
          (asking nested (streamsOf commands)) := by
  obtain ⟨begun, locked, reads, rfl, hbegun, hlocked, hreads⟩ := h.tells
  exact answers_informed commands nested hbegun hlocked hreads

/-- **A sequence that is too large** is reported before anything is inserted. -/
theorem answers_tooLarge {n : Nat} (hn : tooLargeSequence? heads commands = some n)
    (rest : List Response) :
    ({ commands, nested } : PushCall).answers (told ++ rest) =
      { statements := asking nested (streamsOf commands)
        outcome := some (.error (.backend (.outOfRange .sequence n))) } := by
  rw [answers_tells h, stageChecked_eq h.expected, hn]
  show ((({ commands, nested } : PushCall).proceed (.error _)).answers rest).afterAll _ = _
  rw [answers_abandon, Dialogue.afterAll_ended]

/-- If all sequences fit, the rows are inserted. -/
theorem answers_staged (hn : tooLargeSequence? heads commands = none) (rest : List Response) :
    ({ commands, nested } : PushCall).answers (told ++ rest) =
      ((({ commands, nested, phase := .inserting (stage heads commands) } : PushCall).answers
        rest).afterAll (asking nested (streamsOf commands))) := by
  rw [answers_tells h, stageChecked_eq h.expected, hn]
  rfl

/-- Rows that fit are inserted as they were staged. -/
theorem insert_mem_of_staged (hn : tooLargeSequence? heads commands = none) (rest : List Response) :
    .insert (stage heads commands) ∈
      (({ commands, nested } : PushCall).answers (told ++ rest)).statements := by
  rw [answers_staged h hn, Dialogue.statements_afterAll]
  refine List.mem_append_right _ ?_
  exact (insert_mem_inserting { commands, nested } _ _ rest).mpr rfl

/-- **A push is out of range** exactly if one of its sequences is too large. -/
theorem outOfRange_iff (rest : List Response) (quantity : Quantity) (n : Nat) :
    (({ commands, nested } : PushCall).answers (told ++ rest)).outcome =
        some (.error (.backend (.outOfRange quantity n))) ↔
      quantity = .sequence ∧ tooLargeSequence? heads commands = some n := by
  constructor
  · intro houtcome
    cases hn : tooLargeSequence? heads commands with
    | some m =>
        rw [answers_tooLarge h hn] at houtcome
        cases houtcome
        exact ⟨rfl, rfl⟩
    | none =>
        -- once the rows are sent, the batch is not refused any more
        have hinsert : .insert (stage heads commands) ∈
            (({ commands, nested } : PushCall).answers (told ++ rest)).statements :=
          insert_mem_of_staged h hn rest
        exact absurd trivial (not_refuses_of_insert _ _ hinsert _ houtcome)
  · rintro ⟨rfl, hn⟩
    rw [answers_tooLarge h hn]

/-- Rows that cannot be used end the push, which does not commit. -/
theorem answers_unusable (hn : tooLargeSequence? heads commands = none) {r : Response} {rows : List Row}
    (hrows : r.Gives rows) {fault : PostgresError}
    (hfault : insertedEvents (stage heads commands) rows = .error fault) (rest : List Response) :
    ({ commands, nested } : PushCall).answers (told ++ r :: rest) =
      { statements := asking nested (streamsOf commands) ++ [.insert (stage heads commands)]
        outcome := some (.error (.backend fault)) } := by
  have hread : r.read (insertedEvents (stage heads commands)) = .error (.backend fault) :=
    Response.read_eq_error_iff.mpr (.inr ⟨rows, fault, hrows, hfault, rfl⟩)
  have hverdict : ({ commands, nested, phase := .inserting (stage heads commands) } : PushCall).verdict r =
      .error (.backend fault) := by
    rw [verdict_of_inserting rfl, hread]
    rfl
  rw [answers_staged h hn, answers_cons (s := .insert (stage heads commands)) rfl, hverdict,
    answers_abandon, Dialogue.afterAll_after, Dialogue.afterAll_ended]

/-- Rows for some of the commands only are no rows. -/
theorem answers_missingPosition (hn : tooLargeSequence? heads commands = none) {r : Response}
    {rows : List Row} (hrows : r.Gives rows) {draws : List Drawn}
    (hread : rows.mapM generatedOf = .ok draws) (hlength : draws.length ≠ commands.length)
    (rest : List Response) :
    ({ commands, nested } : PushCall).answers (told ++ r :: rest) =
      { statements := asking nested (streamsOf commands) ++ [.insert (stage heads commands)]
        outcome := some (.error (.backend .missingReturnedPosition)) } := by
  rw [← length_stage heads commands] at hlength
  exact answers_unusable h hn hrows (insertedEvents_missing hread hlength) rest

/-- **A negative position** is reported, the smallest of them, and the push does not commit. -/
theorem answers_negativePosition (hn : tooLargeSequence? heads commands = none) {r : Response}
    {rows : List Row} (hrows : r.Gives rows) {draws : List Drawn}
    (hread : rows.mapM generatedOf = .ok draws) (hlength : draws.length = commands.length) {n : Int}
    (hmin : (draws.map Prod.fst).min? = some n) (hneg : n < 0) (rest : List Response) :
    ({ commands, nested } : PushCall).answers (told ++ r :: rest) =
      { statements := asking nested (streamsOf commands) ++ [.insert (stage heads commands)]
        outcome := some (.error (.backend (.invalidPosition n))) } := by
  rw [← length_stage heads commands] at hlength
  exact answers_unusable h hn hrows (insertedEvents_negative hread hlength hmin hneg) rest

end Told

/-- A push that has been told some heads and is then given a negative one asks for no more. -/
theorem answers_toRead_negative {c : PushCall} {known : Heads} {before after : List Stream} {s : Stream}
    {reads rest : List Response} {r : Response} {rows : List Row} {n : Int}
    (hreads : List.Forall₂ (TellsHead known) before reads) (hrows : r.Gives rows)
    (hfirst : firstInteger rows = .ok n) (hneg : n < 0) (heads : Heads) :
    (c.proceed (c.toRead heads (before ++ s :: after))).answers (reads ++ r :: rest) =
      { statements := (before ++ [s]).map .head
        outcome := some (.error (.backend (.invalidSequence n))) } := by
  induction hreads generalizing heads with
  | nil =>
      have hhead : headOf rows = .error (.invalidSequence n) := by
        rw [headOf, hfirst]
        exact if_neg (Int.not_le.mpr hneg)
      have hread : r.read headOf = .error (.backend (.invalidSequence n)) :=
        Response.read_eq_error_iff.mpr (.inr ⟨rows, _, hrows, hhead, rfl⟩)
      have hverdict : ({ c with phase := .reading heads s after } : PushCall).verdict r =
          .error (.backend (.invalidSequence n)) := by
        rw [verdict]
        simp only [hread]
        rfl
      show ({ c with phase := .reading heads s after } : PushCall).answers (r :: rest) = _
      rw [answers_cons (s := .head s) rfl, hverdict, answers_abandon]
      rfl
  | @cons next r' before reads htold hreads ih =>
      have hanswers := answers_told (c := c) heads (before ++ s :: after) htold (reads ++ r :: rest)
      rw [ih] at hanswers
      exact hanswers

/-- **A negative head** is reported when it is told, and no other head is asked for. -/
theorem answers_negativeHead {commands : List Command} {nested : Bool} {heads : Heads}
    {before after : List Stream} {s : Stream} (hstreams : streamsOf commands = before ++ s :: after)
    {told rest : List Response} (htold : Tells heads before told) {r : Response} {rows : List Row}
    (hrows : r.Gives rows) {n : Int} (hfirst : firstInteger rows = .ok n) (hneg : n < 0) :
    ({ commands, nested } : PushCall).answers (told ++ r :: rest) =
      { statements := asking nested (before ++ [s])
        outcome := some (.error (.backend (.invalidSequence n))) } := by
  obtain ⟨begun, locked, reads, rfl, hbegun, hlocked, hreads⟩ := htold
  rw [List.cons_append, List.cons_append, answers_opened commands nested hbegun hlocked, hstreams,
    answers_toRead_negative hreads hrows hfirst hneg]
  rfl

/-- How a push of these commands, which says `say rs` for any responses `rs`, treats the numbers that it is
told. -/
structure KeepsRange (commands : List Command) (nested : Bool)
    (say : List Response → Dialogue (Except (StoreError PostgresError) (List Event))) : Prop where
  refused_iff : ∀ {heads told}, TellsExpected heads commands told → ∀ rest quantity n,
    (say (told ++ rest)).outcome = some (.error (.backend (.outOfRange quantity n))) ↔
      quantity = .sequence ∧ tooLargeSequence? heads commands = some n
  /-- Nothing is inserted then. -/
  refused : ∀ {heads told}, TellsExpected heads commands told →
    ∀ n, tooLargeSequence? heads commands = some n → ∀ rest, say (told ++ rest) =
      { statements := asking nested (streamsOf commands)
        outcome := some (.error (.backend (.outOfRange .sequence n))) }
  inserts : ∀ {heads told}, TellsExpected heads commands told → tooLargeSequence? heads commands = none →
    ∀ rest, .insert (stage heads commands) ∈ (say (told ++ rest)).statements
  /-- The heads that are told before a negative one may be any. -/
  negativeHead : ∀ {heads before s after told r rows n}, streamsOf commands = before ++ s :: after →
    Tells heads before told → r.Gives rows → firstInteger rows = .ok n → n < 0 →
    ∀ rest, say (told ++ r :: rest) =
      { statements := asking nested (before ++ [s])
        outcome := some (.error (.backend (.invalidSequence n))) }
  missingPosition : ∀ {heads told r rows draws}, TellsExpected heads commands told →
    tooLargeSequence? heads commands = none → r.Gives rows → rows.mapM generatedOf = .ok draws →
    draws.length ≠ commands.length → ∀ rest, say (told ++ r :: rest) =
      { statements := asking nested (streamsOf commands) ++ [.insert (stage heads commands)]
        outcome := some (.error (.backend .missingReturnedPosition)) }
  /-- One row for each command is given back, and the smallest position is negative. -/
  negativePosition : ∀ {heads told r rows draws n}, TellsExpected heads commands told →
    tooLargeSequence? heads commands = none → r.Gives rows → rows.mapM generatedOf = .ok draws →
    draws.length = commands.length → (draws.map Prod.fst).min? = some n → n < 0 →
    ∀ rest, say (told ++ r :: rest) =
      { statements := asking nested (streamsOf commands) ++ [.insert (stage heads commands)]
        outcome := some (.error (.backend (.invalidPosition n))) }

/-- Every push keeps within the range of the database. -/
theorem keepsRange (commands : List Command) (nested : Bool) :
    KeepsRange commands nested ({ commands, nested } : PushCall).answers where
  refused_iff h := outOfRange_iff h
  refused h _ hn := answers_tooLarge h hn
  inserts h hn := insert_mem_of_staged h hn
  negativeHead hstreams htold hrows hfirst hneg _ :=
    answers_negativeHead hstreams htold hrows hfirst hneg
  missingPosition h hn hrows hread hlength := answers_missingPosition h hn hrows hread hlength
  negativePosition h hn hrows hread hlength hmin hneg :=
    answers_negativePosition h hn hrows hread hlength hmin hneg

end PushCall

/-! ### On a connection -/

/-- A push from a pool says what a push says, and comes to what it comes to for the responses that the
scripted database gives. -/
theorem PooledStore.keepsRange_push {ctx : Context} (hctx : ctx.interruption? = none) (b : Batch)
    (p : PooledStore) (hp : p.network = .up) :
    PushCall.KeepsRange (b.scoped ctx).toList false (p.pushing ctx b) ∧
      ∃ rs, (p.pushing ctx b rs).outcome = some (p.push ctx b).1 := by
  have hready := ready_iff.mpr ⟨hctx, hp⟩
  have hpushing : p.pushing ctx b = ({ commands := (b.scoped ctx).toList } : PushCall).answers := by
    funext rs
    rw [pushing, hready]
  obtain ⟨rs, -, houtcome, -⟩ :=
    p.connection.run_dialogue ctx ({ commands := (b.scoped ctx).toList } : PushCall)
  rw [hpushing]
  refine ⟨PushCall.keepsRange _ false, rs, ?_⟩
  rw [PushCall.answers, Dialogue.map, houtcome, push, hready]
  rfl

/-- So does a push in a transaction, inside which it opens another one. -/
theorem TransactionStore.keepsRange_push {ctx : Context} (hctx : ctx.interruption? = none) (b : Batch)
    (t : TransactionStore) :
    PushCall.KeepsRange (b.scoped ctx).toList true
        ({ commands := (b.scoped ctx).toList, nested := true } : PushCall).answers ∧
      ∃ rs, (({ commands := (b.scoped ctx).toList, nested := true } : PushCall).answers rs).outcome =
        some (t.push ctx b).1 := by
  obtain ⟨rs, -, houtcome, -⟩ :=
    t.connection.run_dialogue ctx ({ commands := (b.scoped ctx).toList, nested := true } : PushCall)
  refine ⟨PushCall.keepsRange _ true, rs, ?_⟩
  rw [PushCall.answers, Dialogue.map, houtcome, push, Context.check, hctx]
  rfl

/-! ### Both -/

/-- How the commands of a batch are staged on some heads. -/
structure StagesInRange (heads : Heads) (commands : List Command) : Prop where
  /-- Each command is staged in its place. -/
  staged : (stage heads commands).map Staged.command = commands
  sequence : ∀ i s, (stage heads commands)[i]? = some s → s.sequence =
    heads.head s.command.stream + (commands.take (i + 1)).countP fun c => c.stream = s.command.stream
  /-- No word of 64 bits overflows, if the heads fit signed columns. -/
  word : (∀ s ∈ streamsOf commands, heads.head s < Nat.pow 2 63) → commands.length < Nat.pow 2 63 →
    ∀ s ∈ stage heads commands, s.sequence < Nat.pow 2 64

/-- What is staged is numbered without gaps, and a word holds the numbers. -/
theorem stagesInRange (heads : Heads) (commands : List Command) : StagesInRange heads commands where
  staged := map_command_stage heads commands
  sequence _ _ hs := (sequence_stage hs).2
  word hheads hlength s hs := by
    have hcommand : s.command ∈ commands := by
      rw [← map_command_stage heads commands]
      exact List.mem_map_of_mem hs
    have hhead := hheads _ (mem_streamsOf.mpr ⟨s.command, hcommand, rfl⟩)
    have hle := sequence_le_of_mem_stage hs
    have hpow : Nat.pow 2 63 + Nat.pow 2 63 = Nat.pow 2 64 := by decide
    omega

/-- **No number wraps.**  A read that is not interrupted is refused exactly for the first of its numbers that
is too large for the database, before it says anything, and otherwise asks with exactly its numbers.  The
sequences of a batch are computed without overflow; a push whose expectations hold is refused exactly for the
first of them that is too large, before it inserts anything.  A negative head and the smallest negative
position are reported as they are. -/
theorem no_number_wraps {ctx : Context} (hctx : ctx.interruption? = none) (q : Query) (b : Batch) :
    (∀ p : PooledStore, q.AsksInRange ctx p.acquire ∧
      ∃ rs, (q.asking ctx p.acquire rs).outcome = some (p.query ctx q).1 ∧ (p.query ctx q).2 =
        { p with connection := p.connection.sendAll ctx (q.asking ctx p.acquire rs).statements }) ∧
    (∀ t : TransactionStore, q.AsksInRange ctx (.ok ()) ∧
      ∃ rs, (q.asking ctx (.ok ()) rs).outcome = some (t.query ctx q).1 ∧ (t.query ctx q).2 =
        { connection := t.connection.sendAll ctx (q.asking ctx (.ok ()) rs).statements }) ∧
    (∀ heads, StagesInRange heads (b.scoped ctx).toList) ∧
    (∀ p : PooledStore, p.network = .up →
      PushCall.KeepsRange (b.scoped ctx).toList false (p.pushing ctx b) ∧
      ∃ rs, (p.pushing ctx b rs).outcome = some (p.push ctx b).1) ∧
    ∀ t : TransactionStore,
      PushCall.KeepsRange (b.scoped ctx).toList true
        ({ commands := (b.scoped ctx).toList, nested := true } : PushCall).answers ∧
      ∃ rs, (({ commands := (b.scoped ctx).toList, nested := true } : PushCall).answers rs).outcome =
        some (t.push ctx b).1 := by
  refine ⟨fun p => ⟨q.asksInRange hctx p.not_refuses_of_acquire, ?_⟩,
    fun t => ⟨q.asksInRange hctx (fun _ h => by cases h), ?_⟩, fun heads => stagesInRange heads _,
    PooledStore.keepsRange_push hctx b, TransactionStore.keepsRange_push hctx b⟩
  · obtain ⟨rs, -, houtcome, hend⟩ := p.query_asking ctx q
    exact ⟨rs, houtcome, hend⟩
  · obtain ⟨rs, -, houtcome, hend⟩ := t.query_asking ctx q
    exact ⟨rs, houtcome, hend⟩

/-! ### Three commands at the end of the range -/

/-- Skips more events than a signed column can count, of a log that is as long. -/
def skipAll : Query := { offset := Nat.pow 2 63, asOfPosition := some (Nat.pow 2 63) }

/-- One counter is set three times. -/
def threeSettings : Batch :=
  let command : Command := { aggregate := { type := "counter", id := "a" }, type := "counter.set" }
  ⟨command, [command, command]⟩

/-- Responses that tell this head. -/
def tellingHead (n : Nat) : List Response :=
  [{ answer := .ok [] }, { answer := .ok [[.null]] }, { answer := .ok [[.integer n]] }]

/-- The offset, the third sequence and the second position do not fit. -/
theorem no_number_wraps_threeSettings :
    ({} : Context).interruption? = none ∧
    (({} : PooledStore).query {} skipAll).1 = .error (.backend (.outOfRange .offset (Nat.pow 2 63))) ∧
    (({} : PooledStore).pushing {} threeSettings (tellingHead (Nat.pow 2 63 - 3))).outcome =
      some (.error (.backend (.outOfRange .sequence (Nat.pow 2 63)))) ∧
    (({} : PooledStore).pushing {} threeSettings (tellingHead 0 ++
      [{ answer := .ok ([-5, -7, 8].map fun n => [.integer n, .timestamp default]) }])).outcome =
      some (.error (.backend (.invalidPosition (-7)))) := by
  have hctx : ({} : Context).interruption? = none := rfl
  obtain ⟨hreads, -, -, hpushes, -⟩ := no_number_wraps hctx skipAll threeSettings
  obtain ⟨hpush, -⟩ := hpushes {} rfl
  have hstreams : streamsOf (threeSettings.scoped {}).toList = [⟨"", "counter", "a"⟩] := by decide
  have hexpected : ∀ c ∈ (threeSettings.scoped {}).toList, c.sequence = none := by decide
  have htold (n : Nat) : PushCall.TellsExpected (fun _ => some n) (threeSettings.scoped {}).toList
      (tellingHead n) := {
    tells := ⟨_, _, [_], rfl, ⟨_, rfl, rfl⟩, ⟨_, rfl, rfl⟩,
      hstreams ▸ .cons ⟨_, ⟨rfl, rfl⟩, rfl⟩ .nil⟩
    expected := fun c hc m hm => by rw [hexpected c hc] at hm; cases hm }
  refine ⟨hctx, ?_, ?_, ?_⟩
  · obtain ⟨hasks, rs, houtcome, -⟩ := hreads {}
    have hrefused := (hasks.refused_iff rs .offset (Nat.pow 2 63)).mpr (by decide)
    exact Option.some.inj (houtcome.symm.trans hrefused)
  · exact (hpush.refused_iff (htold _) [] .sequence _).mpr ⟨rfl, by decide⟩
  · exact congrArg Dialogue.outcome (hpush.negativePosition (htold 0) (by decide) ⟨rfl, rfl⟩ rfl rfl
      (by decide) (by decide) [])

end EventSourcing
