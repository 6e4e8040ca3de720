import EventSourcing.Proofs.Postgres.Agreement

/-!
# The PostgreSQL store — how far a read sees

A read may see the log up to a position and no further.  Whether a statement sets such a limit is read off
its condition, as it stands in the words and bound values that are sent.

* `Condition.positionLimits`: the limits that a condition sets, wherever they stand in it.
* `positionLimits_clauses`: the clauses of a query set one limit, or none.
* `seesUpTo_selection`: **the statement of a query sees up to its own position, else up to the snapshot, else
  everything.**
-/

namespace EventSourcing

open Sql

namespace Sql.Condition

/-- The values that bound a position from above, wherever they stand: all comparisons of the position but
`>`. -/
def positionLimits : Condition → List SqlValue
  | compare op (.column .position) (.value v) => if op = .greater then [] else [v]
  | and c d => c.positionLimits ++ d.positionLimits
  | or c d => c.positionLimits ++ d.positionLimits
  | _ => []

/-- Conditions joined one after another set the limits of each. -/
theorem positionLimits_foldl {α : Type} {join : Condition → Condition → Condition}
    (hjoin : ∀ c d, (join c d).positionLimits = c.positionLimits ++ d.positionLimits)
    (f : α → Condition) (l : List α) (c : Condition) :
    (l.foldl (fun c a => join c (f a)) c).positionLimits =
      c.positionLimits ++ l.flatMap fun a => (f a).positionLimits := by
  induction l generalizing c with
  | nil => exact (List.append_nil _).symm
  | cons a l ih => rw [List.foldl_cons, ih, hjoin, List.flatMap_cons, List.append_assoc]

end Sql.Condition

open Sql.Condition (positionLimits positionLimits_foldl)

/-! ### Branches -/

theorem Atom.positionLimits_of_mem_ofList {column : Column} {l : List String} {a : Atom}
    (h : a ∈ Atom.ofList column l) : a.reading.positionLimits = [] := by
  rw [ofList] at h
  split at h
  · cases h
  · rw [List.mem_singleton.mp h]
    rfl

/-- No branch says anything of positions. -/
theorem Branch.positionLimits_of_mem_atoms (b : Branch) {a : Atom} (h : a ∈ b.atoms) :
    a.reading.positionLimits = [] := by
  rw [atoms] at h
  simp only [List.mem_append] at h
  rcases h with ((h | h) | h) | h
  · exact Atom.positionLimits_of_mem_ofList h
  · exact Atom.positionLimits_of_mem_ofList h
  · exact Atom.positionLimits_of_mem_ofList h
  · obtain ⟨member, -, rfl⟩ := List.mem_map.mp h
    rfl

/-- Branches do not limit the position. -/
theorem Branch.positionLimits_reading (b : Branch) :
    (Clause.readingOfBranch b.atoms).positionLimits = [] := by
  rw [Clause.readingOfBranch, positionLimits_foldl (fun _ _ => rfl)]
  exact List.flatMap_eq_nil_iff.mpr fun a ha => b.positionLimits_of_mem_atoms ha

/-- Nor do alternatives of branches. -/
theorem Clause.positionLimits_anyOf (branches : List Branch) :
    (Clause.anyOf (branches.map Branch.atoms)).reading.positionLimits = [] := by
  cases branches with
  | nil => rfl
  | cons b bs =>
      rw [List.map_cons, reading, positionLimits_foldl (fun _ _ => rfl), b.positionLimits_reading,
        List.flatMap_map]
      exact List.flatMap_eq_nil_iff.mpr fun b _ => b.positionLimits_reading

/-! ### Queries -/

/-- A filter that says nothing of positions sets no limit, given or not. -/
theorem positionLimits_given {α : Type} (o : Option α) {clause : α → Clause}
    (h : ∀ a, (clause a).reading.positionLimits = []) :
    ((o.map clause).toList.flatMap fun c => c.reading.positionLimits) = [] := by
  cases o with
  | none => rfl
  | some a => exact (List.append_nil _).trans (h a)

/-- Read as SQL, the selection sets this limit on positions, or none, and no row beyond the limit meets its
condition. -/
def Selection.SeesUpTo (s : Selection) (limit : Option Int) : Prop :=
  ∃ select, Select.read? (tokens (Statement.select s).fragments) = some select ∧
    select.condition.positionLimits = limit.toList.map .integer ∧
    ∀ n ∈ limit, ∀ row, select.condition.holds row = true →
      ∃ p, row .position = .integer p ∧ p ≤ n

namespace Query

variable (q : Query) (b : Bounds) (snapshot : Option Int)

/-- **The clauses of a query set one limit**, or none. -/
theorem positionLimits_clauses :
    ((q.clauses b snapshot).flatMap fun c => c.reading.positionLimits) =
      (b.asOfPosition.or snapshot).toList.map .integer := by
  have hbranches : ((if q.branches.isEmpty then [] else
      [Clause.anyOf (q.branches.map Branch.atoms)]).flatMap fun c => c.reading.positionLimits) = [] := by
    split
    · rfl
    · exact (List.append_nil _).trans (Clause.positionLimits_anyOf q.branches)
  have hlimit : (((b.asOfPosition.or snapshot).map fun n =>
      Clause.atom (.compare .position .atMost (.integer n))).toList.flatMap
        fun c => c.reading.positionLimits) = (b.asOfPosition.or snapshot).toList.map .integer := by
    cases b.asOfPosition.or snapshot <;> rfl
  rw [clauses]
  simp only [List.flatMap_append, hbranches, hlimit]
  -- every other filter is one that sets no limit
  repeat rw [positionLimits_given _ fun _ => rfl]
  simp only [List.nil_append, List.append_nil]

/-- The clause that sets the limit holds for no row beyond it. -/
theorem position_le_of_holds {n : Int} (hn : n ∈ b.asOfPosition.or snapshot) {row : TableRow}
    (h : (q.clauses b snapshot).all (·.holds row) = true) :
    ∃ p, row .position = .integer p ∧ p ≤ n := by
  have hmem : Clause.atom (.compare .position .atMost (.integer n)) ∈ q.clauses b snapshot := by
    simp [clauses, Option.mem_def.mp hn]
  have hholds : Comparison.atMost.holds (row .position) (.integer n) = true :=
    List.all_eq_true.mp h _ hmem
  cases hp : row .position with
  | integer p =>
      rw [hp] at hholds
      exact ⟨p, rfl, compares_atMost_integer.mp hholds⟩
  | _ => rw [hp] at hholds; cases hholds

/-- **The statement of a query sees up to its own position**, else up to the snapshot, else everything. -/
theorem seesUpTo_selection : (q.selection b snapshot).SeesUpTo (b.asOfPosition.or snapshot) := by
  have hproper := q.proper_selection b snapshot
  refine ⟨_, Selection.read_fragments hproper, ?_, fun n hn row h => ?_⟩
  · rw [Selection.condition_reading, Selection.condition, positionLimits_foldl (fun _ _ => rfl)]
    exact q.positionLimits_clauses b snapshot
  · rw [Selection.condition_reading, Selection.holds_condition hproper] at h
    exact q.position_le_of_holds b snapshot hn h

end Query

end EventSourcing
