import Mathlib.Data.List.Perm.Basic
import EventSourcing.Proofs.Postgres.Decoding
import EventSourcing.Proofs.Postgres.Deciding
import EventSourcing.Proofs.Sql.Insert

/-!
# The PostgreSQL store — the rows that an insertion gives back

An insertion gives back the position and the date of every row that it wrote, in no particular order.  The
push matches them to its commands by their positions.

* `insertedEvents_eq`: rows that were given back become the events of the commands, in the order of the
  positions.
* `sortedDraws_eq_of_perm`: in which order they were given back does not matter.
* `ofValues_inserted`: what was inserted, and what the database filled in, is the row of the event.
* `returns_what_is_written`: **a push returns what it has written**, and rows are decoded in their order.
-/

namespace EventSourcing

open Sql

/-! ### Positions and dates -/

/-- A position that the database has drawn, and the date beside it. -/
abbrev Drawn := Int × Instant

/-- Some draws in the order of their positions. -/
def sortedDraws (draws : List Drawn) : List Drawn :=
  draws.mergeSort fun a b => a.1 ≤ b.1

/-- No position is lost by sorting. -/
theorem sortedDraws_perm (draws : List Drawn) : (sortedDraws draws).Perm draws :=
  List.mergeSort_perm _ _

/-- No position is drawn twice. -/
def Distinct (draws : List Drawn) : Prop :=
  (draws.map Prod.fst).Nodup

instance (draws : List Drawn) : Decidable (Distinct draws) :=
  inferInstanceAs (Decidable (draws.map Prod.fst).Nodup)

variable {draws : List Drawn}

/-- Sorted positions ascend. -/
theorem sortedDraws_ascend (draws : List Drawn) :
    (sortedDraws draws).Pairwise fun a b => decide (a.1 ≤ b.1) = true :=
  List.pairwise_mergeSort (fun a b c hab hbc => by simp only [decide_eq_true_eq] at *; omega)
    (fun a b => by simp only [Bool.or_eq_true, decide_eq_true_eq]; omega) draws

/-- The order of the positions is strict where none is drawn twice. -/
theorem pairwise_sortedDraws (h : Distinct draws) : (sortedDraws draws).Pairwise fun a b => a.1 < b.1 := by
  have hne : (sortedDraws draws).Pairwise fun a b => a.1 ≠ b.1 :=
    List.pairwise_map.mp (((sortedDraws_perm draws).map Prod.fst).nodup_iff.mpr h)
  exact ((sortedDraws_ascend draws).and hne).imp fun h => Int.lt_iff_le_and_ne.mpr ⟨of_decide_eq_true h.1, h.2⟩

/-- There is one order of the positions, in whichever order they come. -/
theorem sortedDraws_eq_of_perm {draws' : List Drawn} (h : Distinct draws) (hp : draws'.Perm draws) :
    sortedDraws draws' = sortedDraws draws := by
  have h' : Distinct draws' := ((hp.map Prod.fst).nodup_iff).mpr h
  refine List.Perm.eq_of_pairwise (fun a b _ _ hab hba => absurd hab (Int.lt_asymm hba))
    (pairwise_sortedDraws h') (pairwise_sortedDraws h) ?_
  exact (sortedDraws_perm draws').trans (hp.trans (sortedDraws_perm draws).symm)

/-- In an ascending list, as many members are smaller than a member as come before it. -/
theorem countP_lt_of_pairwise {l : List Drawn} (h : l.Pairwise fun a b => a.1 < b.1) {i : Nat} {g : Drawn}
    (hg : l[i]? = some g) : (l.countP fun a => a.1 < g.1) = i := by
  induction l generalizing i with
  | nil => cases hg
  | cons a l ih =>
      obtain ⟨ha, hl⟩ := List.pairwise_cons.mp h
      cases i with
      | zero =>
          cases hg
          rw [List.countP_eq_zero]
          intro b hb
          rcases List.mem_cons.mp hb with rfl | hb
          · simp
          · simpa using Int.le_of_lt (ha b hb)
      | succ i =>
          have hmem : g ∈ l := List.mem_of_getElem? hg
          rw [List.countP_cons_of_pos (by simpa using ha g hmem), ih hl hg]

/-! ### The events of an insertion -/

/-- The events that staged commands become with these draws, one for each. -/
def eventsAt (staged : List Staged) (draws : List Drawn) : List Event :=
  (staged.zip draws).map fun x => x.1.event x.2.1.toNat x.2.2

section EventsAt

variable {staged : List Staged}

theorem map_eq_map_zip {β : Type} (h : draws.length = staged.length) (f : Staged → β) :
    staged.map f = (staged.zip draws).map fun x => f x.1 := by
  conv_lhs => rw [← List.map_fst_zip (Nat.le_of_eq h.symm), List.map_map]
  rfl

/-- There is an event for each row. -/
theorem length_eventsAt (h : draws.length = staged.length) :
    (eventsAt staged draws).length = staged.length := by
  rw [eventsAt, List.length_map, List.length_zip, h, Nat.min_self]

/-- Each event is what was staged in its place, at the position drawn there. -/
theorem getElem?_eventsAt {i : Nat} {e : Event} (he : (eventsAt staged draws)[i]? = some e) :
    ∃ s g, staged[i]? = some s ∧ draws[i]? = some g ∧ e = s.event g.1.toNat g.2 := by
  rw [eventsAt, List.getElem?_map, Option.map_eq_some_iff] at he
  obtain ⟨⟨s, g⟩, hx, rfl⟩ := he
  obtain ⟨hs, hg⟩ := List.getElem?_zip_eq_some.mp hx
  exact ⟨s, g, hs, hg, rfl⟩

/-- Each event says what its command asked for. -/
theorem records_eventsAt (h : draws.length = staged.length) :
    List.Forall₂ Event.Records (eventsAt staged draws) (staged.map Staged.command) := by
  rw [eventsAt, map_eq_map_zip h, List.forall₂_map_left_iff, List.forall₂_map_right_iff,
    List.forall₂_same]
  exact fun _ _ => ⟨rfl, rfl, rfl, rfl⟩

/-- Draws in strictly ascending order make the positions of the events ascend. -/
theorem pairwise_eventsAt (h : draws.length = staged.length)
    (hsorted : draws.Pairwise fun a b => a.1 < b.1) (hnonneg : ∀ g ∈ draws, 0 ≤ g.1) :
    (eventsAt staged draws).Pairwise fun e f => e.position < f.position := by
  rw [← List.map_snd_zip (Nat.le_of_eq h), List.pairwise_map] at hsorted
  rw [eventsAt, List.pairwise_map]
  refine hsorted.imp_of_mem fun {x y} hx _ hlt => ?_
  have hpos : 0 ≤ x.2.1 := hnonneg _ (List.of_mem_zip hx).2
  show x.2.1.toNat < y.2.1.toNat
  omega

end EventsAt

/-- **Rows that were given back become events**, in the order of their positions. -/
theorem insertedEvents_eq {staged : List Staged} {rows : List Row}
    (hread : rows.mapM generatedOf = .ok draws) (hlength : draws.length = staged.length)
    (hnonneg : ∀ g ∈ draws, 0 ≤ g.1) :
    insertedEvents staged rows = .ok (eventsAt staged (sortedDraws draws)) := by
  rw [insertedEvents]
  refine bind_eq_ok.mpr ⟨draws, hread, ?_⟩
  rw [if_neg (not_not.mpr hlength)]
  refine mapM_eq_ok_of_forall fun x hx => ?_
  have hmem := (sortedDraws_perm draws).mem_iff.mp (List.of_mem_zip hx).2
  exact bind_eq_ok.mpr ⟨_, if_pos (hnonneg _ hmem), rfl⟩

/-! ### Written and read back -/

/-- **What was inserted, and what the database filled in, is the row of the event.** -/
theorem Staged.ofValues_inserted (s : Staged) (position : Nat) (date : Instant) :
    TableRow.ofValues (Column.inserted ++ Column.generated)
      (s.values ++ [.integer position, .timestamp date]) = (s.event position date).row := by
  funext column
  cases column <;> rfl

/-- Every tuple of the insertion, with the position and the date of the event in its place, is decoded as
that event. -/
def ReadsBack (staged : List Staged) (events : List Event) : Prop :=
  ∃ insert, Insert.read? (tokens (Statement.insert staged).fragments) = some insert ∧
    insert.rows.length = events.length ∧
    Output.ofRows .event ((insert.rows.zip events).map fun x =>
      Column.ofEvent.map (TableRow.ofValues (insert.columns ++ insert.returning)
        (x.1 ++ [.integer x.2.position, .timestamp x.2.creationDate]))) = .ok (.events events)

/-- **The insertion reads back as the events that are returned.** -/
theorem readsBack_eventsAt {staged : List Staged} (hne : staged ≠ []) (h : draws.length = staged.length) :
    ReadsBack staged (eventsAt staged draws) := by
  refine ⟨_, read_insert hne, by rw [length_eventsAt h, List.length_map], ?_⟩
  have hrows : (((staged.map Staged.values).zip (eventsAt staged draws)).map fun x =>
      Column.ofEvent.map (TableRow.ofValues (Column.inserted ++ Column.generated)
        (x.1 ++ [.integer x.2.position, .timestamp x.2.creationDate]))) =
      ((eventsAt staged draws).map Event.row).map fun row => Column.ofEvent.map row := by
    rw [map_eq_map_zip h, eventsAt, List.zip_map', List.map_map, List.map_map, List.map_map]
    exact List.map_congr_left fun x _ =>
      congrArg (Column.ofEvent.map ·) (x.1.ofValues_inserted x.2.1.toNat x.2.2)
  rw [hrows, Output.ofRows_event, mapM_map_ok Event.ofRow_self]
  rfl

/-! ### In a push -/

/-- The events are those of the staged commands, with these draws. -/
structure Returns (staged : List Staged) (draws : List Drawn) (events : List Event) : Prop where
  records : List.Forall₂ Event.Records events (staged.map Staged.command)
  ascending : events.Pairwise fun e f => e.position < f.position
  /-- An event has the position below which as many are drawn as there are events before it, and the date
  that was drawn with the position. -/
  drawn : ∀ i e, events[i]? = some e → ∃ g ∈ draws, (draws.countP fun a => a.1 < g.1) = i ∧
    e.position = g.1 ∧ e.creationDate = g.2
  readBack : ReadsBack staged events

/-- Draws that are none of them negative and all distinct make up the events. -/
theorem returns_eventsAt {staged : List Staged} (hne : staged ≠ []) (hlength : draws.length = staged.length)
    (hnonneg : ∀ g ∈ draws, 0 ≤ g.1) (hdistinct : Distinct draws) :
    Returns staged draws (eventsAt staged (sortedDraws draws)) := by
  have hperm := sortedDraws_perm draws
  have hsorted := pairwise_sortedDraws hdistinct
  have hlength' : (sortedDraws draws).length = staged.length := hperm.length_eq.trans hlength
  have hnonneg' : ∀ g ∈ sortedDraws draws, 0 ≤ g.1 := fun g hg => hnonneg g (hperm.mem_iff.mp hg)
  refine {
    records := records_eventsAt hlength'
    ascending := pairwise_eventsAt hlength' hsorted hnonneg'
    drawn := fun i e he => ?_
    readBack := readsBack_eventsAt hne hlength' }
  obtain ⟨s, g, -, hg, rfl⟩ := getElem?_eventsAt he
  have hmem := List.mem_of_getElem? hg
  refine ⟨g, hperm.mem_iff.mp hmem, ?_, Int.toNat_of_nonneg (hnonneg' g hmem), rfl⟩
  rw [← hperm.countP_eq]
  exact countP_lt_of_pairwise hsorted hg

namespace PushCall

variable {commands : List Command} {heads : Heads} {begun locked committed : Response}
  {reads : List Response} {rows : List Row}

/-- A push that has been told its heads inserts the staged commands, and returns what it makes of the rows
once it has committed. -/
theorem answers_inserted {events : List Event} (h : Admitted commands heads begun locked reads
      { answer := .ok rows }) (hevents : insertedEvents (stage heads commands) rows = .ok events)
    {l : List Row} (hcommitted : committed.answer = .ok l) (nested : Bool) (rest : List Response) :
    let d := ({ commands, nested } : PushCall).answers
      (begun :: locked :: (reads ++ { answer := .ok rows } :: committed :: rest))
    .insert (stage heads commands) ∈ d.statements ∧ d.outcome = some (.ok events) := by
  have hstaged := stageChecked_eq_ok_iff.mpr ⟨h.fits, rfl⟩
  refine ⟨(insert_mem_iff commands nested h.begun h.locked h.read _ _).mpr hstaged, ?_⟩
  have hread : Response.read { answer := .ok rows } (insertedEvents (stage heads commands)) = .ok events :=
    Response.read_eq_ok_iff.mpr ⟨rows, ⟨rfl, rfl⟩, hevents⟩
  have hinserted : ({ commands, nested, phase := .inserting (stage heads commands) } : PushCall).verdict
      { answer := .ok rows } = .ok (.committing events) := by
    rw [verdict_of_inserting rfl, hread]
    rfl
  have hended : ({ commands, nested, phase := .committing events } : PushCall).verdict committed =
      .ok (.ended { result := .ok events }) := by
    rw [verdict_of_committing rfl, hcommitted]
    rfl
  have hlast : (({ commands, nested, phase := .committing events } : PushCall).answers
      (committed :: rest)).outcome = some (.ok events) := by
    rw [answers_cons (s := .control .commit nested) rfl, hended]
    exact congrArg Dialogue.outcome (answers_ended (c := { commands, nested, phase := .ended _ }) rfl rest)
  have hrest : (({ commands, nested, phase := .inserting (stage heads commands) } : PushCall).answers
      ({ answer := .ok rows } :: committed :: rest)).outcome = some (.ok events) := by
    rw [answers_cons (s := .insert (stage heads commands)) rfl, hinserted]
    exact hlast
  rw [answers_informed commands nested h.begun h.locked h.read, hstaged, Dialogue.outcome_afterAll]
  exact hrest

end PushCall

/-- In whichever order the rows were given back, they are as good. -/
theorem PushCall.Admitted.of_perm {commands : List Command} {heads : Heads} {begun locked : Response}
    {reads : List Response} {rows rows' : List Row}
    (h : Admitted commands heads begun locked reads { answer := .ok rows })
    (hread : rows'.mapM generatedOf = .ok draws) (hlength : rows'.length = commands.length)
    (hnonneg : ∀ g ∈ draws, 0 ≤ g.1) :
    Admitted commands heads begun locked reads { answer := .ok rows' } :=
  { h with inserted := ⟨rows', ⟨rfl, rfl⟩, draws, hread, hlength, hnonneg⟩ }

/-- **A push returns what it has written.**  Let its insertion give back one row per command, with distinct
positions none of which is negative.  In whichever order the rows come, the push inserts the same tuples and
returns the same events, in the order of its commands and of the positions, each with the position and the
date that were drawn together; and each tuple, completed by these, is decoded as its event.  In general, rows
are decoded in their order, up to the first that is faulty. -/
theorem returns_what_is_written {b : Batch} {ctx : Context} {heads : Heads} {begun locked : Response}
    {reads : List Response} {rows : List Row}
    (h : PushCall.Admitted (b.scoped ctx).toList heads begun locked reads { answer := .ok rows })
    (hread : rows.mapM generatedOf = .ok draws) (hdistinct : Distinct draws) :
    (∃ events, Returns (stage heads (b.scoped ctx).toList) draws events ∧
      ∀ (nested : Bool) (rows' l : List Row) (committed : Response) (rest : List Response),
        rows'.Perm rows → committed.answer = .ok l →
        let d := ({ commands := (b.scoped ctx).toList, nested } : PushCall).answers
          (begun :: locked :: (reads ++ { answer := .ok rows' } :: committed :: rest))
        .insert (stage heads (b.scoped ctx).toList) ∈ d.statements ∧ d.outcome = some (.ok events)) ∧
    ∀ table : List TableRow, (∀ row ∈ table, row.Typed) →
      DecodesRows table (Output.ofRows .event (table.map fun row => Column.ofEvent.map row)) := by
  refine ⟨?_, fun table htyped => decodesRows htyped⟩
  obtain ⟨_, ⟨hrows, -⟩, draws', hread', hlength, hnonneg⟩ := h.inserted
  cases hrows
  cases hread.symm.trans hread'
  have hdraws : draws.length = (stage heads (b.scoped ctx).toList).length := by
    rw [length_of_mapM_eq_ok hread, hlength, length_stage]
  have hne : stage heads (b.scoped ctx).toList ≠ [] := by rintro ⟨⟩
  refine ⟨_, returns_eventsAt hne hdraws hnonneg hdistinct, fun nested rows' l committed rest hp hl => ?_⟩
  obtain ⟨draws', hread', hperm⟩ := exists_mapM_of_perm hp hread
  have hnonneg' : ∀ g ∈ draws', 0 ≤ g.1 := fun g hg => hnonneg g (hperm.mem_iff.mp hg)
  have hevents := insertedEvents_eq hread' (hperm.length_eq.trans hdraws) hnonneg'
  rw [sortedDraws_eq_of_perm hdistinct hperm] at hevents
  have hadmitted := h.of_perm hread' (hp.length_eq.trans hlength) hnonneg'
  exact PushCall.answers_inserted hadmitted hevents hl nested rest

/-! ### Two rows out of order -/

/-- Two organisations are added. -/
def twoOrgs : Batch :=
  ⟨{ aggregate := { type := "org", id := "org-1" }, type := "org.added" },
    [{ aggregate := { type := "org", id := "org-2" }, type := "org.added" }]⟩

/-- The second row was drawn first, and has the later date. -/
def twoDraws : List Drawn :=
  [(8, .zero), (7, .unixEpoch)]

/-- The rows come back in reverse, the events do not. -/
theorem returns_what_is_written_twoOrgs :
    ∃ e f : Event, e.aggregate.id = "org-1" ∧ e.position = 7 ∧ e.creationDate = .unixEpoch ∧
      f.aggregate.id = "org-2" ∧ f.position = 8 ∧ f.creationDate = .zero ∧
      ReadsBack (stage (fun _ => none) (twoOrgs.scoped {}).toList) [e, f] := by
  have hbegun : ∃ rows, ({ answer := .ok [] } : Response).Gives rows := ⟨_, rfl, rfl⟩
  have hstreams : streamsOf (twoOrgs.scoped {}).toList =
      [⟨"", "org", "org-1"⟩, ⟨"", "org", "org-2"⟩] := by decide
  have htold : ∀ s, PushCall.TellsHead (fun _ => none) s { answer := .ok [[.integer 0]] } :=
    fun s => ⟨_, ⟨rfl, rfl⟩, rfl⟩
  have hadmitted : PushCall.Admitted (twoOrgs.scoped {}).toList (fun _ => none) { answer := .ok [] }
      { answer := .ok [] } [{ answer := .ok [[.integer 0]] }, { answer := .ok [[.integer 0]] }]
      { answer := .ok (twoDraws.map fun g => [.integer g.1, .timestamp g.2]) } := {
    begun := hbegun
    locked := hbegun
    read := hstreams ▸ .cons (htold _) (.cons (htold _) .nil)
    fits := ⟨by decide, by decide⟩
    inserted := ⟨_, ⟨rfl, rfl⟩, twoDraws, rfl, rfl, by decide⟩ }
  have hread : (twoDraws.map fun g => [.integer g.1, .timestamp g.2]).mapM generatedOf = .ok twoDraws := rfl
  obtain ⟨⟨events, hreturns, -⟩, -⟩ := returns_what_is_written hadmitted hread (by decide)
  -- one event for each command, and of each draw its rank
  obtain ⟨e, f, rfl, he, hf⟩ : ∃ e f, events = [e, f] ∧ e.aggregate.id = "org-1" ∧
      f.aggregate.id = "org-2" := by
    have hrecords := hreturns.records
    rw [map_command_stage] at hrecords
    cases hrecords with
    | cons he hrest =>
        cases hrest with
        | cons hf hnil =>
            cases hnil
            exact ⟨_, _, rfl, congrArg Aggregate.id he.aggregate, congrArg Aggregate.id hf.aggregate⟩
  have hdrawn : ∀ g ∈ twoDraws, (twoDraws.countP fun a => a.1 < g.1) = 0 → g = twoDraws[1] := by decide
  have hdrawn' : ∀ g ∈ twoDraws, (twoDraws.countP fun a => a.1 < g.1) = 1 → g = twoDraws[0] := by decide
  obtain ⟨g, hg, hrank, hposition, hdate⟩ := hreturns.drawn 0 e rfl
  obtain ⟨g', hg', hrank', hposition', hdate'⟩ := hreturns.drawn 1 f rfl
  obtain rfl := hdrawn g hg hrank
  obtain rfl := hdrawn' g' hg' hrank'
  exact ⟨e, f, he, Int.ofNat.inj hposition, hdate, hf, Int.ofNat.inj hposition', hdate',
    hreturns.readBack⟩

end EventSourcing
