import EventSourcing.Proofs.Memory.Runs
import EventSourcing.Proofs.Postgres.AllOrNothing

/-!
# The PostgreSQL store — one decision on a push

The store in memory has the heads of all streams at hand when it decides on a batch.  In the database a
push reads the heads it needs, one after another, and stages its rows on them.  Told the same heads, both
decide alike.

* `answers_informed`: a push that has been told its heads goes on as `stageChecked` says.
* `insert_mem_iff`, `conflict_iff`: which rows it inserts, and which conflict it ends with.
* `values_stage`: the rows that are staged on the heads of a ledger hold what the ledger's next events
  hold.
* `decides_as_memory`: **the same conflict, or the same rows.**
-/

namespace EventSourcing

namespace Dialogue

variable {ρ : Type}

/-- The dialogue with these statements before it. -/
def afterAll (statements : List Statement) (d : Dialogue ρ) : Dialogue ρ :=
  statements.foldr after d

theorem statements_afterAll (statements : List Statement) (d : Dialogue ρ) :
    (d.afterAll statements).statements = statements ++ d.statements := by
  induction statements with
  | nil => rfl
  | cons s statements ih => exact congrArg (s :: ·) ih

theorem outcome_afterAll (statements : List Statement) (d : Dialogue ρ) :
    (d.afterAll statements).outcome = d.outcome := by
  induction statements with
  | nil => rfl
  | cons s statements ih => exact ih

end Dialogue

/-! ### Staging -/

/-- A batch is checked against no head but those of its own streams. -/
theorem stageChecked_congr {heads heads' : Heads} {commands : List Command}
    (h : ∀ c ∈ commands, heads.head c.stream = heads'.head c.stream) :
    stageChecked heads commands = stageChecked heads' commands := by
  rw [stageChecked, stageChecked, Heads.conflict?_congr h, stage_congr h]

/-- The staging finds the same conflict as the heads. -/
theorem stageChecked_eq_conflict_iff {heads : Heads} {commands : List Command} {conflict : Conflict} :
    stageChecked heads commands = .error (.conflict conflict) ↔
      heads.conflict? commands = some conflict := by
  rw [stageChecked]
  cases heads.conflict? commands with
  | some conflict' => simp
  | none =>
      dsimp only
      split
      · simp
      · simp

/-- Rows are staged with the sequences that the events get in memory. -/
theorem sequences_stage (l : Ledger) (date : Instant) (commands : List Command) :
    (stage l.heads commands).map Staged.sequence =
      (l.nextEvents date commands).map Event.sequence := by
  induction commands generalizing l with
  | nil => rfl
  | cons c cs ih => exact congrArg (_ :: ·) (ih (l.append date c))

/-- **The rows that are staged hold what the events hold**, in every column that is inserted. -/
theorem values_stage (l : Ledger) (date : Instant) (commands : List Command) :
    (stage l.heads commands).map Staged.values =
      (l.nextEvents date commands).map fun e => Column.inserted.map e.row := by
  induction commands generalizing l with
  | nil => rfl
  | cons c cs ih => exact congrArg (_ :: ·) (ih (l.append date c))

namespace PushCall

variable {c : PushCall} {known : Heads} {reads rest : List Response}

/-! ### A push that has been told its heads -/

/-- How a push goes on does not depend on where it stood. -/
theorem proceed_phase (c : PushCall) (phase : PushPhase)
    (next : Except (StoreError PostgresError) PushPhase) :
    ({ c with phase } : PushCall).proceed next = c.proceed next := by
  cases next <;> rfl

/-- A push that is told the head of a stream goes on to the later ones. -/
theorem answers_told (heads : Heads) {next : Stream} (later : List Stream) {r : Response}
    (htold : TellsHead known next r) (rs : List Response) :
    (c.proceed (c.toRead heads (next :: later))).answers (r :: rs) =
      ((c.proceed (c.toRead (heads.set next (known.head next)) later)).answers rs).after (.head next) := by
  obtain ⟨rows, hrows, hhead⟩ := htold
  have hread : r.read headOf = .ok (known.head next) :=
    Response.read_eq_ok_iff.mpr ⟨rows, hrows, hhead⟩
  have hverdict : ({ c with phase := .reading heads next later } : PushCall).verdict r =
      c.toRead (heads.set next (known.head next)) later := by
    rw [verdict]
    simp only [hread]
    rfl
  have hanswers := answers_cons (c := { c with phase := .reading heads next later })
    (s := .head next) rfl r rs
  rw [hverdict, proceed_phase] at hanswers
  exact hanswers

/-- A push that has begun and has taken its lock goes on to the heads of its streams. -/
theorem answers_opened (commands : List Command) (nested : Bool) {begun locked : Response}
    (hbegun : ∃ rows, begun.Gives rows) (hlocked : ∃ rows, locked.Gives rows) (rs : List Response) :
    ({ commands, nested } : PushCall).answers (begun :: locked :: rs) =
      ((({ commands, nested } : PushCall).proceed (({ commands, nested } : PushCall).toRead
        (fun _ => none) (streamsOf commands))).answers rs).afterAll [.control .start nested, .lock] := by
  obtain ⟨rows, hbegun, hgo⟩ := hbegun
  obtain ⟨rows', hlocked⟩ := hlocked
  have hopening : ({ commands, nested } : PushCall).verdict begun = .ok .locking := by
    simp only [verdict, hbegun, hgo]
  have hlocking : ({ commands, nested, phase := .locking } : PushCall).verdict locked =
      ({ commands, nested } : PushCall).toRead (fun _ => none) (streamsOf commands) := by
    simp only [verdict, Response.rows_eq_ok_iff.mpr hlocked]
    rfl
  rw [answers_cons (s := .control .start nested) rfl, hopening, proceed,
    answers_cons (s := .lock) rfl, hlocking, proceed_phase { commands, nested } .locking]
  rfl

/-- From the first head on, a push that is told all heads goes on as it would with all of them known. -/
theorem answers_toRead (rest : List Response) {streams : List Stream} (hnodup : streams.Nodup)
    (heads : Heads) (hheads : ∀ s ∈ streamsOf c.commands, s ∉ streams → heads.head s = known.head s)
    (hreads : List.Forall₂ (TellsHead known) streams reads) :
    (c.proceed (c.toRead heads streams)).answers (reads ++ rest) =
      ((c.proceed ((stageChecked known c.commands).map .inserting)).answers rest).afterAll
        (streams.map .head) := by
  induction hreads generalizing heads with
  | nil =>
      have hcongr : ∀ d ∈ c.commands, heads.head d.stream = known.head d.stream := fun d hd =>
        hheads d.stream (mem_streamsOf.mpr ⟨d, hd, rfl⟩) List.not_mem_nil
      rw [toRead, stageChecked_congr hcongr]
      rfl
  | @cons next r later reads htold hreads ih =>
      obtain ⟨hnew, hnodup⟩ := List.nodup_cons.mp hnodup
      have hanswers := answers_told (c := c) heads later htold (reads ++ rest)
      rw [ih hnodup _ (known_set hheads)] at hanswers
      exact hanswers

/-- **A push that has been told its heads** goes on as `stageChecked` says. -/
theorem answers_informed (commands : List Command) (nested : Bool) {begun locked : Response}
    (hbegun : ∃ rows, begun.Gives rows) (hlocked : ∃ rows, locked.Gives rows)
    (hreads : List.Forall₂ (TellsHead known) (streamsOf commands) reads) :
    ({ commands, nested } : PushCall).answers (begun :: locked :: (reads ++ rest)) =
      ((({ commands, nested } : PushCall).proceed
        ((stageChecked known commands).map .inserting)).answers rest).afterAll
          (.control .start nested :: .lock :: (streamsOf commands).map .head) := by
  have hread := answers_toRead (c := { commands, nested }) rest (nodup_streamsOf commands)
    (fun _ => none) (fun s hs hs' => absurd hs hs') hreads
  rw [answers_opened commands nested hbegun hlocked, hread]
  rfl

/-! ### What it inserts, and how it fails -/

/-- A push that is about to insert rows inserts these and no others. -/
theorem insert_mem_inserting (c : PushCall) (staged staged' : List Staged) (rest : List Response) :
    .insert staged' ∈
        ((c.proceed (.ok (.inserting staged))).answers rest).statements ↔ staged' = staged := by
  have hs : (c.proceed (.ok (.inserting staged))).sends? = some (.insert staged) := rfl
  constructor
  · intro hmem
    -- whatever is said is part of what remained to be said
    obtain ⟨_, -, hpre⟩ := statements_follow (c.proceed (.ok (.inserting staged))) rest
    have hmem : .insert staged' ∈ [Statement.insert staged, .control .commit c.nested] :=
      hpre.subset hmem
    simpa using hmem
  · rintro rfl
    cases rest with
    | nil =>
        rw [answers_nil hs]
        exact List.mem_cons_self
    | cons r rest =>
        rw [answers_cons hs]
        exact List.mem_cons_self

section Informed

variable (commands : List Command) (nested : Bool) {begun locked : Response}
  (hbegun : ∃ rows, begun.Gives rows) (hlocked : ∃ rows, locked.Gives rows)
  (hreads : List.Forall₂ (TellsHead known) (streamsOf commands) reads)

include hbegun hlocked hreads

/-- **Which rows a push inserts** that has been told its heads. -/
theorem insert_mem_iff (rest : List Response) (staged : List Staged) :
    .insert staged ∈ (({ commands, nested } : PushCall).answers
        (begun :: locked :: (reads ++ rest))).statements ↔
      stageChecked known commands = .ok staged := by
  rw [answers_informed commands nested hbegun hlocked hreads, Dialogue.statements_afterAll,
    List.mem_append]
  have hbefore : .insert staged ∉
      Statement.control .start nested :: .lock :: (streamsOf commands).map .head := by simp
  rw [or_iff_right hbefore]
  cases stageChecked known commands with
  | error e =>
      show .insert staged ∈ ((({ commands, nested } : PushCall).proceed (.error e)).answers
        rest).statements ↔ _
      rw [answers_abandon]
      simp
  | ok staged' =>
      refine (insert_mem_inserting _ staged' staged rest).trans ?_
      rw [eq_comm, Except.ok.injEq]

/-- **Which conflict a push ends with** that has been told its heads. -/
theorem conflict_iff (rest : List Response) (conflict : Conflict) :
    (({ commands, nested } : PushCall).answers (begun :: locked :: (reads ++ rest))).outcome =
        some (.error (.conflict conflict)) ↔
      known.conflict? commands = some conflict := by
  rw [answers_informed commands nested hbegun hlocked hreads, Dialogue.outcome_afterAll,
    ← stageChecked_eq_conflict_iff]
  cases hchecked : stageChecked known commands with
  | error e =>
      show ((({ commands, nested } : PushCall).proceed (.error e)).answers rest).outcome = _ ↔ _
      rw [answers_abandon]
      simp
  | ok staged =>
      -- once the rows are sent, no conflict comes up
      constructor
      · intro houtcome
        exact absurd trivial (not_refuses_of_insert _ rest
          ((insert_mem_inserting _ staged staged rest).mpr rfl) _ houtcome)
      · intro h
        cases h

end Informed

end PushCall

/-! ### The same decision -/

/-- The responses let a push of these commands begin and take its lock, and then tell it these heads. -/
def Informs (heads : Heads) (commands : List Command) (rs : List Response) : Prop :=
  ∃ begun locked reads rest, rs = begun :: locked :: (reads ++ rest) ∧
    (∃ rows, begun.Gives rows) ∧ (∃ rows, locked.Gives rows) ∧
    List.Forall₂ (PushCall.TellsHead heads) (streamsOf commands) reads

/-- A push decides as the store in memory does that gave this result. -/
structure Dialogue.DecidesAs (d : Dialogue (Except (StoreError PostgresError) (List Event)))
    (result : Except (StoreError Empty) (List Event)) : Prop where
  /-- The one is in conflict exactly if the other is, and the conflicts are the same. -/
  conflict : ∀ conflict, d.outcome = some (.error (.conflict conflict)) ↔
    result = .error (.conflict conflict)
  /-- Rows are inserted for accepted commands, unless a sequence is too large for the database. -/
  inserts : ∀ events, result = .ok events →
    ((∃ staged, .insert staged ∈ d.statements) ↔ ∀ e ∈ events, e.sequence < Nat.pow 2 63)
  /-- The rows hold what the events hold, in the order of the commands. -/
  rows : ∀ events, result = .ok events → ∀ staged, .insert staged ∈ d.statements →
    staged.map Staged.values = events.map fun e => Column.inserted.map e.row

/-- A push that is told the heads of a ledger decides as the ledger's store does. -/
theorem PushCall.decidesAs {m : Memory} {ctx : Context} (hctx : ctx.interruption? = none) {b : Batch}
    (nested : Bool) {rs : List Response} (hrs : Informs m.ledger.heads (b.scoped ctx).toList rs) :
    (({ commands := (b.scoped ctx).toList, nested } : PushCall).answers rs).DecidesAs
      (m.push ctx b).1 := by
  obtain ⟨begun, locked, reads, rest, rfl, hbegun, hlocked, hreads⟩ := hrs
  have hconflict := conflict_iff (b.scoped ctx).toList nested hbegun hlocked hreads rest
  have hinsert := insert_mem_iff (b.scoped ctx).toList nested hbegun hlocked hreads rest
  have hfits {staged : List Staged} {events : List Event} (h : (m.push ctx b).1 = .ok events) :
      stageChecked m.ledger.heads (b.scoped ctx).toList = .ok staged ↔
        (∀ e ∈ events, e.sequence < Nat.pow 2 63) ∧
          staged = stage m.ledger.heads (b.scoped ctx).toList := by
    obtain ⟨-, hnone, rfl, -⟩ := Memory.push_ok h
    have hrange : (∀ s ∈ stage m.ledger.heads (b.scoped ctx).toList, s.sequence < Nat.pow 2 63) ↔
        ∀ e ∈ m.ledger.nextEvents m.now (b.scoped ctx).toList, e.sequence < Nat.pow 2 63 := by
      have hsequences := sequences_stage m.ledger m.now (b.scoped ctx).toList
      rw [← List.forall_mem_map (f := Staged.sequence) (P := fun n => n < Nat.pow 2 63),
        hsequences, List.forall_mem_map]
    rw [stageChecked_eq_ok_iff, ← hrange]
    refine and_congr_left' ⟨Fits.inRange, fun h => ⟨?_, h⟩⟩
    exact Heads.conflict?_eq_none_iff.mp hnone
  refine ⟨fun conflict => (hconflict conflict).trans ?_, fun events h => ?_, fun events h staged hs => ?_⟩
  · constructor
    · intro hc
      rw [Memory.push_refused hctx hc]
    · intro h
      obtain ⟨i, hi, -⟩ | ⟨conflict', -, hc, hp⟩ | ⟨-, -, hp⟩ := Memory.push_cases ctx b m
      · rw [hctx] at hi
        cases hi
      · rw [hp] at h
        cases h
        exact hc
      · rw [hp] at h
        cases h
  · constructor
    · rintro ⟨staged, hs⟩
      exact ((hfits h).mp ((hinsert staged).mp hs)).1
    · intro hrange
      exact ⟨_, (hinsert _).mpr ((hfits h).mpr ⟨hrange, rfl⟩)⟩
  · obtain ⟨-, rfl⟩ := (hfits h).mp ((hinsert staged).mp hs)
    obtain ⟨-, -, rfl, -⟩ := Memory.push_ok h
    exact values_stage m.ledger m.now _

/-- **Both stores decide a push alike.**  Let a store in memory hold any ledger, and let the responses to
a push in PostgreSQL tell the heads of that ledger.  Then, for any batch in any context that is not
interrupted, the push decides as the store in memory does: from a pool, as well as in a transaction, be
it one inside another. -/
theorem decides_as_memory (m : Memory) {ctx : Context} (hctx : ctx.interruption? = none) (b : Batch)
    {rs : List Response} (hrs : Informs m.ledger.heads (b.scoped ctx).toList rs) :
    (∀ p : PooledStore, p.network = .up → (p.pushing ctx b rs).DecidesAs (m.push ctx b).1) ∧
    ∀ nested, (({ commands := (b.scoped ctx).toList, nested } : PushCall).answers rs).DecidesAs
      (m.push ctx b).1 := by
  refine ⟨fun p hp => ?_, fun nested => PushCall.decidesAs hctx nested hrs⟩
  rw [PooledStore.pushing, PooledStore.ready_iff.mpr ⟨hctx, hp⟩]
  exact PushCall.decidesAs hctx false hrs

/-- A store that holds one organisation. -/
def settled : Memory :=
  (({ clock := default } : Memory).push (.forInstance "t1")
    ⟨{ aggregate := { type := "org", id := "org-1" }, type := "org.added" }, []⟩).2

/-- The organisation is renamed twice, once with an expectation, and another one is added. -/
def interleaved (expected : Nat) : Batch :=
  ⟨{ aggregate := { type := "org", id := "org-1" }, type := "org.changed", sequence := some expected },
    [{ aggregate := { type := "org", id := "org-2" }, type := "org.added", sequence := some 0 },
      { aggregate := { type := "org", id := "org-1" }, type := "org.changed" }]⟩

/-- Responses that tell one event of the first stream, and none of the second. -/
def toldOne : List Response :=
  [{ answer := .ok [] }, { answer := .ok [[.null]] }, { answer := .ok [[.integer 1]] },
    { answer := .ok [[.integer 0]] }]

/-- Told the head of one stream, the push inserts the batch numbered as in memory. -/
theorem decides_as_memory_interleaved :
    (∃ staged,
      .insert staged ∈
        (({} : PooledStore).pushing (.forInstance "t1") (interleaved 1) toldOne).statements ∧
      (staged.map Staged.values).map (List.take 4) =
        [[.text "t1", .text "org", .text "org-1", .integer 2],
          [.text "t1", .text "org", .text "org-2", .integer 1],
          [.text "t1", .text "org", .text "org-1", .integer 3]]) ∧
    (({} : PooledStore).pushing (.forInstance "t1") (interleaved 0) toldOne).outcome =
      some (.error (.conflict ⟨"org", "org-1", 0, 1⟩)) := by
  have hstreams (n : Nat) : streamsOf ((interleaved n).scoped (.forInstance "t1")).toList =
      [⟨"t1", "org", "org-1"⟩, ⟨"t1", "org", "org-2"⟩] := by
    show ([⟨"t1", "org", "org-1"⟩, ⟨"t1", "org", "org-2"⟩, ⟨"t1", "org", "org-1"⟩] :
      List Stream).eraseDups = _
    decide
  have htold (n : Nat) : Informs settled.ledger.heads
      ((interleaved n).scoped (.forInstance "t1")).toList toldOne :=
    ⟨_, _, [_, _], [], rfl, ⟨_, rfl, rfl⟩, ⟨_, rfl, rfl⟩,
      hstreams n ▸ .cons ⟨_, ⟨rfl, rfl⟩, rfl⟩ (.cons ⟨_, ⟨rfl, rfl⟩, rfl⟩ .nil)⟩
  have hctx : (Context.forInstance "t1").interruption? = none := rfl
  obtain ⟨hfirst, -⟩ := decides_as_memory settled hctx (interleaved 1) (htold 1)
  obtain ⟨hsecond, -⟩ := decides_as_memory settled hctx (interleaved 0) (htold 0)
  have haccepted := hfirst {} rfl
  obtain ⟨staged, hs⟩ := (haccepted.inserts _ rfl).mpr (by decide)
  have hrows := haccepted.rows _ rfl staged hs
  exact ⟨⟨staged, hs, congrArg (List.map (List.take 4)) hrows⟩, ((hsecond {} rfl).conflict _).mpr rfl⟩

end EventSourcing
