import EventSourcing.Proofs.Memory.Matching

/-!
# The store in memory — dry runs

A query can be tried on the commands of a batch before they are pushed.  A command and the event that it
becomes have the same aggregate, type and payload, so a query that looks at nothing else decides on both
alike.  Their sequences differ in meaning: a command has the one that its producer saw, if any, and the
event the one that the store assigned.

* `candidate_of_mem_zip`: what an event shares with its command, and how its sequence lies.
* `picked_congr`: what is picked, and on which page, depends on the single verdicts alone.
* `accepts_ne_iff`: where a bound on the sequence makes a difference between a command and its event.
* `dry_run_agrees`: **a dry run foretells the reads that follow the push.**
-/

namespace EventSourcing

/-- The candidate as it is once its sequence is known. -/
def Candidate.numbered (c : Candidate) (n : Nat) : Candidate :=
  { c with sequence := some n }

namespace Query

/-- The query asks for nothing that only an event has. -/
structure Foreseeable (q : Query) : Prop extends q.Timeless where
  editorUser : q.editorUser = ""

theorem Foreseeable.resolve {q : Query} (h : q.Foreseeable) (ctx : Context) :
    (q.resolve ctx).Foreseeable where
  toTimeless := h.toTimeless.resolve ctx
  editorUser := by
    obtain ⟨instanceId, hq⟩ := q.exists_resolve ctx
    rw [hq]
    exact h.editorUser

/-- A query whose answer can be foreseen looks at nothing that a command does not have. -/
theorem Foreseeable.selects_eq {q : Query} (h : q.Foreseeable) (e : Event) :
    q.selects e = q.accepts e.candidate := by
  rw [h.toTimeless.selects_eq, editorUser?, h.editorUser]
  rfl

/-- The query for all its events, in ascending order and without a page. -/
def entire (q : Query) : Query :=
  { q with columns := .event, limit := 0, offset := 0, desc := false }

/-- Taking the page off is the same before and after the tenant is resolved. -/
theorem resolve_entire (q : Query) (ctx : Context) :
    q.entire.resolve ctx = (q.resolve ctx).entire :=
  resolve_comm entire (fun _ _ => rfl) q ctx

theorem Foreseeable.entire {q : Query} (h : q.Foreseeable) : q.entire.Foreseeable :=
  ⟨⟨h.creationDateAfter, h.creationDateBefore, h.positionAfter, h.asOfPosition⟩, h.editorUser⟩

/-! ### What is picked from a list -/

/-- Without a page, everything that is selected is picked. -/
theorem pick_entire {q : Query} (h : q.Foreseeable) (events : List Event) :
    q.entire.pick Event.candidate events = events.filter q.entire.selects := by
  have hpage : q.entire.pick Event.candidate events =
      events.filter fun e => q.entire.accepts e.candidate := rfl
  rw [hpage]
  exact List.filter_congr fun e _ => (h.entire.selects_eq e).symm

section Picked

variable {α β : Type} {f : α → Candidate} {g : β → Candidate}

/-- The places in a list of the members that the query picks. -/
def picked (q : Query) (candidate : α → Candidate) (l : List α) : List Nat :=
  (q.pick (fun x => candidate x.1) l.zipIdx).map Prod.snd

/-- What a query picks is what stands in these places. -/
theorem pick_eq_picked (q : Query) (f : α → Candidate) (l : List α) :
    q.pick f l = (q.picked f l).filterMap fun i => l[i]? := by
  have hfst : q.pick f l = (q.pick (fun x => f x.1) l.zipIdx).map Prod.fst := by
    conv => lhs; rw [← List.zipIdx_map_fst 0 l]
    rw [pick, pick, List.filter_map, page_map]
    rfl
  have hmem : ∀ x ∈ q.pick (fun x => f x.1) l.zipIdx, l[x.2]? = some x.1 := by
    intro x hx
    exact List.mem_zipIdx_iff_getElem?.mp (List.mem_of_mem_filter (mem_of_mem_page hx))
  rw [hfst, picked, List.filterMap_map, ← List.filterMap_eq_map]
  exact (List.filterMap_congr hmem).symm

/-- Lists with the same verdicts on their members have the same members picked. -/
theorem picked_congr {q : Query} {l : List α} {l' : List β}
    (h : l.map (fun a => q.accepts (f a)) = l'.map fun b => q.accepts (g b)) :
    q.picked f l = q.picked g l' := by
  have hverdicts {γ : Type} (k : γ → Candidate) (xs : List γ) : q.picked k xs =
      q.page (((xs.map fun x => q.accepts (k x)).zipIdx.filter Prod.fst).map Prod.snd) := by
    rw [picked, pick, ← page_map, List.zipIdx_map, List.filter_map, List.map_map]
    rfl
  rw [hverdicts, hverdicts, h]

/-- Commands and events that are decided on alike, one by one, have the same members picked. -/
theorem picked_eq_of_zip {q : Query} {commands : List Command} {events : List Event}
    (hlength : events.length = commands.length)
    (h : ∀ x ∈ commands.zip events, q.accepts x.1.candidate = q.accepts x.2.candidate) :
    q.picked Command.candidate commands = q.picked Event.candidate events := by
  have hfst : (commands.zip events).map Prod.fst = commands :=
    List.map_fst_zip (Nat.le_of_eq hlength.symm)
  have hsnd : (commands.zip events).map Prod.snd = events :=
    List.map_snd_zip (Nat.le_of_eq hlength)
  refine picked_congr ?_
  conv => lhs; rw [← hfst]
  conv => rhs; rw [← hsnd]
  rw [List.map_map, List.map_map]
  exact List.map_congr_left h

end Picked

/-! ### Bounds on the sequence -/

/-- Without a bound on the sequence, the sequence plays no part. -/
theorem accepts_numbered {q : Query} (h : q.sequenceGreater = 0) (c : Candidate) (n : Nat) :
    q.accepts (c.numbered n) = q.accepts c := by
  simp only [accepts, acceptsSequence, h]
  rfl

/-- The bound on the sequence is one filter among the others. -/
theorem accepts_eq_and (q : Query) (c : Candidate) :
    q.accepts c = ((q.set (.sequenceGreater 0)).accepts c && q.acceptsSequence c) := by
  have hnone : (q.set (.sequenceGreater 0)).acceptsSequence c = true := rfl
  rw [accepts, accepts, hnone, Bool.and_true]
  show _ = (q.acceptsOwner c && q.acceptsInstance c && q.acceptsBranch c && q.acceptsSequence c)
  ac_rfl

/-- **Where a bound makes a difference.**  A command that does not know its sequence passes every bound;
a command that knows it is held to the sequence before that of its event. -/
theorem accepts_ne_iff {q : Query} (hq : 0 < q.sequenceGreater) {c : Candidate} {n : Nat}
    (hn : ∀ k ∈ c.sequence, k < n) :
    q.accepts c ≠ q.accepts (c.numbered n) ↔
      (q.set (.sequenceGreater 0)).accepts c = true ∧
        ((c.sequence = none ∧ n ≤ q.sequenceGreater) ∨
          ∃ k, c.sequence = some k ∧ k ≤ q.sequenceGreater ∧ q.sequenceGreater < n) := by
  rw [accepts_eq_and q c, accepts_eq_and q (c.numbered n),
    accepts_numbered (q := q.set (.sequenceGreater 0)) rfl]
  cases (q.set (.sequenceGreater 0)).accepts c with
  | false => simp
  | true =>
      simp only [Bool.true_and, acceptsSequence, Candidate.numbered, Nat.ne_of_gt hq, decide_false, Bool.false_or,
        Option.all_some, true_and]
      cases hs : c.sequence with
      | none => simp
      | some k =>
          -- `k < n`, so whatever passes the bound as `k` passes it as `n`
          have hk := hn k hs
          simp only [Option.all_some, ne_eq, decide_eq_decide, reduceCtorEq, false_and,
            Option.some.injEq, false_or, exists_eq_left']
          omega

end Query

/-! ### Commands and their events -/

/-- An event shares everything with its command but the sequence, which lies beyond the head that its
stream had before the batch. -/
theorem Ledger.candidate_of_mem_zip (date : Instant) {commands : List Command} {x : Command × Event} :
    ∀ l : Ledger, x ∈ commands.zip (l.nextEvents date commands) →
      x.2.candidate = x.1.candidate.numbered x.2.sequence ∧
        l.heads.head x.1.stream < x.2.sequence := by
  induction commands with
  | nil => intro l hx; cases hx
  | cons c cs ih =>
      intro l hx
      rw [nextEvents, List.zip_cons_cons] at hx
      rcases List.mem_cons.mp hx with rfl | hx
      · exact ⟨rfl, Nat.lt_succ_self _⟩
      · obtain ⟨hcandidate, hlt⟩ := ih (l.append date c) hx
        exact ⟨hcandidate, Nat.lt_of_le_of_lt (l.head_le_head_append date c _) hlt⟩

namespace Memory

variable {m : Memory} {ctx : Context} {b : Batch} {events : List Event}

/-- An accepted command expected, if anything, a sequence before that of its event. -/
theorem candidate_of_ok (h : (m.push ctx b).1 = .ok events) {x : Command × Event}
    (hx : x ∈ (b.scoped ctx).toList.zip events) :
    x.2.candidate = x.1.candidate.numbered x.2.sequence ∧
      ∀ n ∈ x.1.candidate.sequence, n < x.2.sequence := by
  obtain ⟨-, hnone, rfl, -⟩ := push_ok h
  obtain ⟨hcandidate, hlt⟩ := Ledger.candidate_of_mem_zip m.now m.ledger hx
  refine ⟨hcandidate, fun n hn => ?_⟩
  rw [Heads.conflict?_eq_none_iff.mp hnone x.1 (List.of_mem_zip hx).1 n hn]
  exact hlt

/-- A read of all the events of a query gives what the query matches. -/
theorem query_entire (hctx : ctx.interruption? = none) (q : Query) (m : Memory) :
    (m.query ctx q.entire).1 = .ok (.events (m.ledger.matching (q.resolve ctx).entire)) := by
  rw [query_ok hctx, Query.resolve_entire]
  rfl

/-- **A dry run foretells the reads that follow the push.**  Let a batch be accepted, and let a query
ask for nothing that only an event has.

Without a bound on the sequence, the query decides on each scoped command as on its event; it picks the
same places from the commands as from the events, its page included; and the read of all its events gives
after the push what it gave before, and then the events of the commands that were picked.  With a bound,
the verdicts on a command and its event differ exactly if all other filters accept the command, and it
either has no sequence while that of its event is not beyond the bound, or has one that is not beyond the
bound while that of its event is. -/
theorem dry_run_agrees (h : (m.push ctx b).1 = .ok events) {q : Query} (hq : q.Foreseeable) :
    events.length = (b.scoped ctx).toList.length ∧
    (q.sequenceGreater = 0 →
      (∀ x ∈ (b.scoped ctx).toList.zip events,
        (q.resolve ctx).accepts x.1.candidate = (q.resolve ctx).selects x.2) ∧
      (q.resolve ctx).picked Command.candidate (b.scoped ctx).toList =
        (q.resolve ctx).picked Event.candidate events ∧
      ∃ before, (m.query ctx q.entire).1 = .ok (.events before) ∧
        ((m.push ctx b).2.query ctx q.entire).1 = .ok (.events (before ++
          ((q.resolve ctx).entire.picked Command.candidate (b.scoped ctx).toList).filterMap
            fun i => events[i]?))) ∧
    (0 < q.sequenceGreater → ∀ x ∈ (b.scoped ctx).toList.zip events,
      ((q.resolve ctx).accepts x.1.candidate ≠ (q.resolve ctx).selects x.2 ↔
        ((q.resolve ctx).set (.sequenceGreater 0)).accepts x.1.candidate = true ∧
          ((x.1.sequence = none ∧ x.2.sequence ≤ q.sequenceGreater) ∨
            ∃ n, x.1.sequence = some n ∧ n ≤ q.sequenceGreater ∧
              q.sequenceGreater < x.2.sequence))) := by
  obtain ⟨hctx, -, hevents, hafter⟩ := push_ok h
  obtain ⟨instanceId, hresolve⟩ := q.exists_resolve ctx
  have hbound : (q.resolve ctx).sequenceGreater = q.sequenceGreater := by rw [hresolve]
  have hselects := (hq.resolve ctx).selects_eq
  have hlength : events.length = (b.scoped ctx).toList.length := by
    rw [hevents, Ledger.length_nextEvents]
  refine ⟨hlength, fun hzero => ?_, fun hpos x hx => ?_⟩
  · have hverdict : ∀ x ∈ (b.scoped ctx).toList.zip events,
        (q.resolve ctx).accepts x.1.candidate = (q.resolve ctx).accepts x.2.candidate := by
      intro x hx
      rw [(candidate_of_ok h hx).1, Query.accepts_numbered (hbound.trans hzero)]
    refine ⟨fun x hx => (hverdict x hx).trans (hselects x.2).symm,
      Query.picked_eq_of_zip hlength hverdict, _, query_entire hctx q m, ?_⟩
    -- order and page play no part in the verdicts
    have hpicked : (q.resolve ctx).entire.picked Command.candidate (b.scoped ctx).toList =
        (q.resolve ctx).entire.picked Event.candidate events :=
      Query.picked_eq_of_zip hlength hverdict
    rw [query_entire hctx, hafter, hpicked, ← Query.pick_eq_picked,
      Query.pick_entire (hq.resolve ctx), hevents]
    show Except.ok (Output.events ((m.ledger.appendAll m.now _).log.filter _)) = _
    rw [Ledger.log_appendAll, List.filter_append]
    rfl
  · obtain ⟨hcandidate, hlt⟩ := candidate_of_ok h hx
    rw [hselects, hcandidate, ← hbound]
    exact Query.accepts_ne_iff (hbound ▸ hpos) hlt

/-! ### Two renames at once -/

/-- A store in which an organisation has been added. -/
def oneOrg : Memory :=
  ({ clock := default } : Memory).acts
    [.push (.forInstance "t1") ⟨{ aggregate := { type := "org", id := "org-1" }, type := "org.added" }, []⟩]

/-- The organisation is renamed twice, and another one is added in between. -/
def twoRenames : Batch :=
  ⟨{ aggregate := { type := "org", id := "org-1" }, type := "org.changed", sequence := some 1 },
    [{ aggregate := { type := "org", id := "org-2" }, type := "org.added" },
      { aggregate := { type := "org", id := "org-1" }, type := "org.changed" }]⟩

/-- The second of the renames. -/
def secondRename : Query :=
  { limit := 1, offset := 1, branches := [{ eventTypes := ["org.changed"] }] }

/-- What lies beyond sequence 1. -/
def beyondFirst : Query := { sequenceGreater := 1 }

/-- The dry run picks the second renaming, and so does the read after the push. -/
theorem dry_run_agrees_twoRenames :
    ∃ events, (oneOrg.push (.forInstance "t1") twoRenames).1 = .ok events ∧
      (secondRename.resolve (.forInstance "t1")).picked Event.candidate events = [2] ∧
      (∃ before, (oneOrg.query (.forInstance "t1") secondRename.entire).1 = .ok (.events before) ∧
        ((oneOrg.push (.forInstance "t1") twoRenames).2.query (.forInstance "t1")
          secondRename.entire).1 =
            .ok (.events (before ++ [0, 2].filterMap fun i => events[i]?))) ∧
      ∃ x ∈ (twoRenames.scoped (.forInstance "t1")).toList.zip events,
        (beyondFirst.resolve (.forInstance "t1")).accepts x.1.candidate ≠
          (beyondFirst.resolve (.forInstance "t1")).selects x.2 := by
  obtain ⟨events, h⟩ : ∃ events, (oneOrg.push (.forInstance "t1") twoRenames).1 = .ok events :=
    ⟨_, rfl⟩
  obtain ⟨-, hunbounded, -⟩ := dry_run_agrees h (q := secondRename) ⟨⟨rfl, rfl, rfl, rfl⟩, rfl⟩
  obtain ⟨-, -, hbounded⟩ := dry_run_agrees h (q := beyondFirst) ⟨⟨rfl, rfl, rfl, rfl⟩, rfl⟩
  obtain ⟨-, hpicked, hread⟩ := hunbounded rfl
  have hone : (secondRename.resolve (.forInstance "t1")).picked Command.candidate
      (twoRenames.scoped (.forInstance "t1")).toList = [2] := by decide
  have hboth : (secondRename.resolve (.forInstance "t1")).entire.picked Command.candidate
      (twoRenames.scoped (.forInstance "t1")).toList = [0, 2] := by decide
  rw [hone] at hpicked
  rw [hboth] at hread
  refine ⟨events, h, hpicked.symm, hread, ?_⟩
  cases h
  -- the first rename has seen sequence 1, and its event gets sequence 2
  exact ⟨_, List.mem_cons_self, (hbounded (by decide) _ List.mem_cons_self).mpr
    ⟨by decide, .inr ⟨1, rfl, by decide, by decide⟩⟩⟩

end Memory

end EventSourcing
