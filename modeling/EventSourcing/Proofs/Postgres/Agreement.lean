import EventSourcing.Proofs.Postgres.Answers
import EventSourcing.Proofs.Postgres.Bounds
import EventSourcing.Proofs.Query.DataFilter
import EventSourcing.Store.Ledger

/-!
# The PostgreSQL store — one meaning of a query

A query is evaluated twice over: in memory by `Query.selects`, and in the database by the statement that
it becomes.  Both select the same.

* `holds_clauses`: the conditions of the statement hold for the row of an event exactly if the query
  selects the event.
* `answer_selection`: order, page, maximum and distinct values agree as well.
* `select_agrees`: the statement, read as SQL, has exactly one answer from a table that holds one row
  per event, and that answer is the one in memory.
-/

namespace EventSourcing

open Sql

/-! ### The tests of a branch -/

/-- A list of texts demands that the column be listed. -/
theorem Atom.all_ofList (e : Event) {column : Column} {s : String} (h : e.row column = .text s)
    (l : List String) : (Atom.ofList column l).all (·.holds e.row) = listed l s := by
  rw [ofList, listed]
  split
  · rename_i hl; rw [hl]; rfl
  · rename_i hl
    rw [Bool.not_eq_true] at hl
    rw [hl, List.all_cons, List.all_nil, Atom.holds, h]
    exact Bool.and_true _

/-- **A row satisfies the atoms of a branch** exactly if the branch accepts its event. -/
theorem Branch.all_atoms (b : Branch) (e : Event) :
    b.atoms.all (·.holds e.row) = b.accepts e.candidate := by
  rw [atoms, List.all_append, List.all_append, List.all_append, Atom.all_ofList e rfl,
    Atom.all_ofList e rfl, Atom.all_ofList e rfl, List.all_map]
  show (_ && _) = (_ && b.data.all (·.accepts e.data))
  refine congrArg₂ (· && ·) rfl ?_
  cases b.data with
  | none => rfl
  | some f => exact f.all_toList e.data

theorem Atom.proper_of_mem_ofList {column : Column} {l : List String} {a : Atom}
    (h : a ∈ Atom.ofList column l) : a.Proper := by
  rw [ofList] at h
  split at h
  · cases h
  · rw [List.mem_singleton.mp h]
    trivial

/-- The atoms of a branch compare values of one type. -/
theorem Branch.proper_of_mem_atoms (b : Branch) {a : Atom} (h : a ∈ b.atoms) : a.Proper := by
  rw [atoms] at h
  simp only [List.mem_append] at h
  rcases h with ((h | h) | h) | h
  · exact Atom.proper_of_mem_ofList h
  · exact Atom.proper_of_mem_ofList h
  · exact Atom.proper_of_mem_ofList h
  · obtain ⟨member, -, rfl⟩ := List.mem_map.mp h
    trivial

/-! ### The conditions of a query -/

/-- A clause for a filter that may be missing constrains where the filter is given. -/
theorem all_toList_map {α : Type} (o : Option α) (clause : α → Clause) (p : Clause → Bool) :
    (o.map clause).toList.all p = o.all fun a => p (clause a) := by
  cases o with
  | none => rfl
  | some a => exact Bool.and_true _

namespace Query

variable {q : Query} {snapshot : Option Int} {e : Event}

/-- The snapshot that goes with a query: the highest position of the table where a time-travel read
names no position of its own, and `0` for an empty table. -/
def Snapshot (q : Query) (table : List TableRow) (snapshot : Option Int) : Prop :=
  if q.allowTimeTravel && q.asOfPosition.isNone then
    ∃ v, IsHighest v (table.map (· .position)) ∧
      ((v = .null ∧ snapshot = some 0) ∨ ∃ n, v = .integer n ∧ snapshot = some n)
  else snapshot = none

/-- The clause on the tenant lets through its rows and those of nobody. -/
theorem holds_instance (q : Query) (e : Event) :
    ((q.instanceId.bind nonEmpty?).all fun s => Clause.holds e.row
      (.either (.compare .instanceId .equal (.text s)) (.blank .instanceId))) =
      q.acceptsInstance e.candidate := by
  rw [acceptsInstance]
  congr 1
  funext s
  show (decide (e.aggregate.instanceId = s) || decide (e.row .instanceId = .text "")) =
    (decide (e.aggregate.instanceId = "") || decide (e.aggregate.instanceId = s))
  simp [Event.row, Bool.or_comm]

/-- The clause on the sequence is the condition on it. -/
theorem holds_sequence (q : Query) (e : Event) :
    ((Bounds.exact q).sequenceGreater.all fun n => Clause.holds e.row
      (.atom (.compare .sequence .greater (.integer n)))) = q.acceptsSequence e.candidate := by
  rw [acceptsSequence, Bounds.exact]
  by_cases hzero : q.sequenceGreater = 0
  · simp [hzero]
  · simp [hzero, Clause.holds, Atom.holds, Event.row, Comparison.holds, Comparison.ofOrder,
      Event.candidate]

theorem holds_positionAfter (q : Query) (e : Event) :
    ((Bounds.exact q).positionAfter.all fun n => Clause.holds e.row
      (.atom (.compare .position .greater (.integer n)))) =
      q.positionAfter.all (· < e.position) := by
  rw [Bounds.exact]
  cases q.positionAfter with
  | none => rfl
  | some n => simp [Clause.holds, Atom.holds, Event.row, Comparison.holds, Comparison.ofOrder]

/-- A snapshot that leaves out no event constrains nothing. -/
theorem holds_asOfPosition
    (h : ∀ n ∈ snapshot, q.asOfPosition = none ∧ (e.position : Int) ≤ n) :
    (((Bounds.exact q).asOfPosition.or snapshot).all fun n => Clause.holds e.row
      (.atom (.compare .position .atMost (.integer n)))) =
      q.asOfPosition.all (e.position ≤ ·) := by
  rw [Bounds.exact]
  cases hp : q.asOfPosition with
  | some n =>
      show (decide ((e.position : Int) = n) || decide ((e.position : Int) < n)) =
        decide (e.position ≤ n)
      rw [Bool.eq_iff_iff, Bool.or_eq_true, decide_eq_true_iff, decide_eq_true_iff,
        decide_eq_true_iff, Int.ofNat_inj, Int.ofNat_lt, or_comm]
      exact Nat.le_iff_lt_or_eq.symm
  | none =>
      cases snapshot with
      | none => rfl
      | some n =>
          have hle := (h n rfl).2
          simp [Clause.holds, Atom.holds, Event.row, Comparison.holds, Comparison.ofOrder,
            Int.le_iff_lt_or_eq.mp hle |>.symm]

/-- The clause on the branches is the condition that one of them accepts. -/
theorem holds_branches (q : Query) (e : Event) :
    ((if q.branches.isEmpty then [] else
      [Clause.anyOf (q.branches.map Branch.atoms)]).all fun c => c.holds e.row) =
      q.acceptsBranch e.candidate := by
  rw [acceptsBranch]
  cases q.branches.isEmpty with
  | true => rfl
  | false =>
      have hany : ((q.branches.map Branch.atoms).any fun atoms => atoms.all (·.holds e.row)) =
          q.branches.any (·.accepts e.candidate) := by
        rw [List.any_map]
        exact List.any_congr rfl fun b => b.all_atoms e
      rw [Bool.false_or, ← hany]
      exact Bool.and_true _

/-- **The conditions of the statement are the filters of the query**, for an event that the snapshot
does not leave out. -/
theorem holds_clauses (h : ∀ n ∈ snapshot, q.asOfPosition = none ∧ (e.position : Int) ≤ n) :
    ((q.clauses (Bounds.exact q) snapshot).all fun c => c.holds e.row) = q.selects e := by
  have howner : (q.resourceOwner?.all fun s => Clause.holds e.row
      (.atom (.compare .resourceOwner .equal (.text s)))) = q.acceptsOwner e.candidate := rfl
  have heditor : (q.editorUser?.all fun s => Clause.holds e.row
      (.atom (.compare .editorUser .equal (.text s)))) = q.editorUser?.all (e.editorUser = ·) := rfl
  have hlater : (q.creationDateAfter.all fun t => Clause.holds e.row
      (.atom (.compare .creationDate .greater (.timestamp t)))) =
      q.creationDateAfter.all (· < e.creationDate) := rfl
  have hearlier : (q.creationDateBefore.all fun t => Clause.holds e.row
      (.atom (.compare .creationDate .less (.timestamp t)))) =
      q.creationDateBefore.all (e.creationDate < ·) := rfl
  rw [clauses]
  simp only [List.all_append, all_toList_map]
  rw [holds_instance, howner, heditor, hlater, hearlier, holds_positionAfter, holds_asOfPosition h,
    holds_sequence, holds_branches]
  -- both sides are the same tests, in different orders
  rw [selects, acceptsEnvelope, accepts]
  ac_rfl

/-- The part that order, limit and offset cut out is the same on both sides. -/
theorem cut_page {α : Type} (q : Query) (snapshot : Option Int) (l : List α) :
    (q.selection (Bounds.exact q) snapshot).page.cut l = q.page (if q.desc then l.reverse else l) := by
  have hoffset : (Bounds.exact q).offset.elim 0 Int.toNat = q.offset := by
    rw [Bounds.exact]
    by_cases h : q.offset = 0
    · simp [h]
    · simp [h]
  have hlimit (rest : List α) : ((Bounds.exact q).limit.elim rest fun n => rest.take n.toNat) =
      if q.limit = 0 then rest else rest.take q.limit := by
    rw [Bounds.exact]
    by_cases h : q.limit = 0
    · simp [h]
    · simp [h]
  have hcut (ordered : List α) : ((Bounds.exact q).limit.elim
      (ordered.drop ((Bounds.exact q).offset.elim 0 Int.toNat)) fun n =>
        (ordered.drop ((Bounds.exact q).offset.elim 0 Int.toNat)).take n.toNat) = q.page ordered := by
    rw [hoffset, hlimit]
    rfl
  exact hcut _

/-- **The answer of the statement is the answer in memory.** -/
theorem answer_selection {l : Ledger}
    (h : ∀ e ∈ l.log, ∀ n ∈ snapshot, q.asOfPosition = none ∧ (e.position : Int) ≤ n) :
    (q.selection (Bounds.exact q) snapshot).answer l.log = l.select q := by
  have hfilter : l.log.filter (q.selection (Bounds.exact q) snapshot).accepts =
      l.log.filter q.selects :=
    List.filter_congr fun e he => holds_clauses (h e he)
  rw [Selection.answer, Ledger.select]
  simp only [hfilter, cut_page]
  rfl

/-- Everything that stands in the statement of a query can be sent. -/
theorem proper_selection (q : Query) (b : Bounds) (snapshot : Option Int) :
    (q.selection b snapshot).Proper := by
  have hgiven {α : Type} {o : Option α} {clause : α → Clause} {c : Clause}
      (hc : c ∈ (o.map clause).toList) (h : ∀ a, (clause a).Proper) : c.Proper := by
    obtain ⟨a, -, rfl⟩ := Option.map_eq_some_iff.mp (Option.mem_toList.mp hc)
    exact h a
  intro c hc
  rw [selection, clauses] at hc
  simp only [List.mem_append] at hc
  rcases hc with (((((((h | h) | h) | h) | h) | h) | h) | h) | h
  · exact hgiven h fun _ => ⟨trivial, trivial⟩
  · exact hgiven h fun _ => trivial
  · exact hgiven h fun _ => trivial
  · exact hgiven h fun _ => trivial
  · exact hgiven h fun _ => trivial
  · exact hgiven h fun _ => trivial
  · exact hgiven h fun _ => trivial
  · exact hgiven h fun _ => trivial
  · split at h
    · cases h
    · rename_i hne
      rw [List.mem_singleton.mp h]
      refine ⟨fun hnil => hne (List.isEmpty_iff.mpr (List.map_eq_nil_iff.mp hnil)), ?_⟩
      intro atoms hatoms a ha
      obtain ⟨branch, -, rfl⟩ := List.mem_map.mp hatoms
      exact branch.proper_of_mem_atoms ha

/-- A snapshot is the highest position of the log, or nothing where the query names a position. -/
theorem Snapshot.le {q : Query} {log : List Event} {table : List TableRow} {snapshot : Option Int}
    (h : q.Snapshot table snapshot) (ht : table.Perm (log.map Event.row)) :
    ∀ e ∈ log, ∀ n ∈ snapshot, q.asOfPosition = none ∧ (e.position : Int) ≤ n := by
  intro e he n hn
  have hrow : .integer (e.position : Int) ∈ table.map (· .position) :=
    List.mem_map.mpr ⟨e.row, ht.mem_iff.mpr (List.mem_map_of_mem he), rfl⟩
  rw [Snapshot] at h
  split at h
  · rename_i htravel
    obtain ⟨v, hv, hsnapshot⟩ := h
    refine ⟨Option.isNone_iff_eq_none.mp (Bool.and_eq_true_iff.mp htravel).2, ?_⟩
    rcases hv with ⟨hnil, -⟩ | ⟨hmem, hhighest⟩
    · exact absurd (hnil ▸ hrow) List.not_mem_nil
    · have hle := hhighest _ hrow
      rcases hsnapshot with ⟨rfl, -⟩ | ⟨m, rfl, hm⟩
      · simp [compares, Comparison.holds] at hle
      · rw [hm] at hn
        cases hn
        exact compares_atMost_integer.mp hle
  · -- no snapshot was taken
    rw [h] at hn
    cases hn

/-- **A query means the same in the database and in memory.**  Take a query whose numbers fit, a log in
the order of its positions, and a table that holds one row per event, in any order.  The statement of
the query, read as SQL from its words and bound values, has a condition that accepts the row of an
event exactly if the query selects the event.  It has an answer, and whatever answer the database
gives, read back it is the answer in memory, for all three kinds of columns. -/
theorem select_agrees {q : Query} {b : Bounds} {l : Ledger} {table : List TableRow}
    {snapshot : Option Int} (hb : Bounds.ofQuery q = .ok b)
    (hl : l.log.Pairwise (·.position < ·.position)) (ht : table.Perm (l.log.map Event.row))
    (hs : q.Snapshot table snapshot) :
    ∃ s, Select.read? (tokens (Statement.select (q.selection b snapshot)).fragments) = some s ∧
      (∀ e ∈ l.log, s.condition.holds e.row = q.selects e) ∧
      (∃ rows, s.Gives table rows) ∧
      ∀ rows, s.Gives table rows → Output.ofRows q.columns rows = .ok (l.select q) := by
  obtain rfl := Bounds.ofQuery_eq_ok hb
  have hproper := proper_selection q (Bounds.exact q) snapshot
  have hsnapshot := hs.le ht
  refine ⟨(q.selection (Bounds.exact q) snapshot).reading, Selection.read_fragments hproper, ?_, ?_, ?_⟩
  · intro e he
    rw [Selection.condition_reading, Selection.holds_condition hproper]
    exact holds_clauses (hsnapshot e he)
  · exact ⟨_, (Selection.gives_reading_iff hproper hl ht).mpr rfl⟩
  · intro rows hrows
    rw [(Selection.gives_reading_iff hproper hl ht).mp hrows, ← answer_selection hsnapshot]
    exact Selection.ofRows_rows (q.selection (Bounds.exact q) snapshot) l.log

/-! ### Two tenants -/

/-- The event that added an organisation. -/
def orgAdded (instanceId id name : String) (position : Nat) : Event where
  aggregate := { type := "org", id, instanceId, resourceOwner := id }
  type := "org.added"
  sequence := 1
  position
  creationDate := default
  editorUser := "alice"
  data := .obj [("name", .str name)]

/-- Two tenants with an organisation of one name each. -/
def twoTenants : Ledger where
  log := [orgAdded "t1" "org-1" "ACME" 1, orgAdded "t2" "org-2" "ACME" 2]

/-- The newest organisation of tenant `t1` under a name. -/
def newestNamed (name : String) : Query where
  limit := 1
  desc := true
  instanceId := some "t1"
  allowTimeTravel := true
  branches := [{ aggregateTypes := ["org"], data := some (.ofList [("name", .str name)]) }]

/-- Of two organisations with the same name, the tenant is given its own. -/
theorem select_agrees_twoTenants :
    ∃ s, Select.read? (tokens (Statement.select
        ((newestNamed "ACME").selection { limit := some 1 } (some 2))).fragments) = some s ∧
      ∀ rows, s.Gives (twoTenants.log.map Event.row).reverse rows →
        Output.ofRows .event rows = .ok (.events [orgAdded "t1" "org-1" "ACME" 1]) := by
  have hs : (newestNamed "ACME").Snapshot (twoTenants.log.map Event.row).reverse (some 2) :=
    ⟨.integer 2, .inr ⟨by decide, by decide⟩, .inr ⟨2, rfl, rfl⟩⟩
  obtain ⟨s, hread, -, -, hanswer⟩ := select_agrees (q := newestNamed "ACME") (l := twoTenants) rfl
    (by decide) (List.reverse_perm _) hs
  exact ⟨s, hread, fun rows h => (hanswer rows h).trans (by decide)⟩

end Query

end EventSourcing
