import EventSourcing.Proofs.Memory.Pages
import EventSourcing.Proofs.Query.Building

/-!
# Branches

The branches of a query are alternatives, and so they obey the laws of a disjunction, as long as there are any:
no branches at all let everything through, as does one branch that does not constrain.

* `Query.accepts_eq`, `Query.selects_eq`: a verdict is that of the top-level filters and that of the branches.
* `BranchLaws`: unions, members, branches that do not constrain, tighter branches and branches with longer lists.
* `branchLaws`: every verdict of this form obeys the laws, whichever way a query comes by its branches.
* `branch_algebra`: **the laws hold of candidates and of events, for branches that a query has and for branches
  that calls have written**, and a read of a union is the union of the reads.
-/

namespace EventSourcing

/-! ### One branch -/

/-- The field is not constrained in the branch. -/
def BranchSetting.Unset : BranchSetting → Branch → Prop
  | .aggregateTypes _, b => b.aggregateTypes = []
  | .aggregateIds _, b => b.aggregateIds = []
  | .eventTypes _, b => b.eventTypes = []
  | .data _, b => ∀ f ∈ b.data, f.isEmpty = true

/-- The fields that are lists. -/
def BranchSetting.lists : List (List String → BranchSetting) :=
  [.aggregateTypes, .aggregateIds, .eventTypes]

/-- A value is listed in two lists together if it is in one of them. -/
theorem listed_append {l₁ l₂ : List String} (h₁ : l₁ ≠ []) (h₂ : l₂ ≠ []) (s : String) :
    listed (l₁ ++ l₂) s = (listed l₁ s || listed l₂ s) := by
  rw [listed, listed, listed, List.isEmpty_eq_false_iff.mpr h₁, List.isEmpty_eq_false_iff.mpr h₂,
    List.isEmpty_eq_false_iff.mpr (List.append_ne_nil_of_left_ne_nil h₁ l₂), List.contains_append]
  rfl

namespace Branch

/-- No field of the branch constrains. -/
structure Unconstrained (b : Branch) : Prop where
  aggregateTypes : b.aggregateTypes = []
  aggregateIds : b.aggregateIds = []
  eventTypes : b.eventTypes = []
  data : ∀ f ∈ b.data, f.isEmpty = true

theorem data_all_of_isEmpty {data : Option DataFilter} (h : ∀ f ∈ data, f.isEmpty = true) (payload : Json) :
    data.all (·.accepts payload) = true := by
  cases data with
  | none => rfl
  | some f =>
      show (f.isEmpty || _) = true
      rw [h f rfl, Bool.true_or]

/-- A branch without constraints accepts everything. -/
theorem Unconstrained.accepts {b : Branch} (h : b.Unconstrained) (c : Candidate) : b.accepts c = true := by
  rw [Branch.accepts, h.aggregateTypes, h.aggregateIds, h.eventTypes, data_all_of_isEmpty h.data]
  rfl

/-- What a branch accepts once a field is constrained, it accepted before. -/
theorem accepts_of_accepts_set {b : Branch} {s : BranchSetting} (h : s.Unset b) {c : Candidate}
    (hset : (b.set s).accepts c = true) : b.accepts c = true := by
  rw [accepts, Bool.and_eq_true, Bool.and_eq_true, Bool.and_eq_true] at hset ⊢
  obtain ⟨⟨⟨htype, hid⟩, hevent⟩, hdata⟩ := hset
  cases s with
  | aggregateTypes l => exact ⟨⟨⟨by rw [show b.aggregateTypes = [] from h]; rfl, hid⟩, hevent⟩, hdata⟩
  | aggregateIds l => exact ⟨⟨⟨htype, by rw [show b.aggregateIds = [] from h]; rfl⟩, hevent⟩, hdata⟩
  | eventTypes l => exact ⟨⟨⟨htype, hid⟩, by rw [show b.eventTypes = [] from h]; rfl⟩, hdata⟩
  | data f => exact ⟨⟨⟨htype, hid⟩, hevent⟩, data_all_of_isEmpty h _⟩

/-- A branch with a longer list accepts what the branches with its two parts accept. -/
theorem accepts_set_append {field : List String → BranchSetting} (hfield : field ∈ BranchSetting.lists)
    (b : Branch) {l₁ l₂ : List String} (h₁ : l₁ ≠ []) (h₂ : l₂ ≠ []) (c : Candidate) :
    (b.set (field (l₁ ++ l₂))).accepts c =
      ((b.set (field l₁)).accepts c || (b.set (field l₂)).accepts c) := by
  simp only [BranchSetting.lists, List.mem_cons, List.not_mem_nil, or_false] at hfield
  rcases hfield with rfl | rfl | rfl
  · simp only [accepts, set, listed_append h₁ h₂, Bool.and_or_distrib_right]
  · simp only [accepts, set, listed_append h₁ h₂, Bool.and_or_distrib_right, Bool.and_or_distrib_left]
  · simp only [accepts, set, listed_append h₁ h₂, Bool.and_or_distrib_right, Bool.and_or_distrib_left]

end Branch

/-! ### Alternatives -/

/-- Whether one of some branches accepts a candidate, or there are none. -/
def anyAccepts (branches : List Branch) (c : Candidate) : Bool :=
  branches.isEmpty || branches.any (·.accepts c)

section

variable {A B : List Branch} {b b' : Branch} {c : Candidate}

theorem anyAccepts_eq_any (h : A ≠ []) (c : Candidate) : anyAccepts A c = A.any (·.accepts c) := by
  rw [anyAccepts, List.isEmpty_eq_false_iff.mpr h, Bool.false_or]

/-- Branches together accept what either part accepts. -/
theorem anyAccepts_append (hA : A ≠ []) (hB : B ≠ []) (c : Candidate) :
    anyAccepts (A ++ B) c = (anyAccepts A c || anyAccepts B c) := by
  rw [anyAccepts_eq_any hA, anyAccepts_eq_any hB, anyAccepts_eq_any (List.append_ne_nil_of_left_ne_nil hA B),
    List.any_append]

/-- Neither order nor repetition of branches matters. -/
theorem anyAccepts_congr (h : ∀ b, b ∈ A ↔ b ∈ B) (c : Candidate) : anyAccepts A c = anyAccepts B c := by
  have hempty : A.isEmpty = B.isEmpty := by
    rw [Bool.eq_iff_iff, List.isEmpty_iff, List.isEmpty_iff, List.eq_nil_iff_forall_not_mem,
      List.eq_nil_iff_forall_not_mem]
    exact forall_congr' fun b => not_congr (h b)
  have hany : A.any (·.accepts c) = B.any (·.accepts c) := by
    rw [Bool.eq_iff_iff, List.any_eq_true, List.any_eq_true]
    exact exists_congr fun b => and_congr_left fun _ => h b
  rw [anyAccepts, anyAccepts, hempty, hany]

theorem anyAccepts_of_unconstrained (hb : b ∈ A) (h : b.Unconstrained) (c : Candidate) :
    anyAccepts A c = true := by
  rw [anyAccepts_eq_any (List.ne_nil_of_mem hb), List.any_eq_true]
  exact ⟨b, hb, h.accepts c⟩

theorem anyAccepts_middle (A B : List Branch) (b : Branch) (c : Candidate) :
    anyAccepts (A ++ b :: B) c = (A.any (·.accepts c) || (b.accepts c || B.any (·.accepts c))) := by
  rw [anyAccepts_eq_any (List.append_ne_nil_of_right_ne_nil A (List.cons_ne_nil b B)), List.any_append,
    List.any_cons]

end

namespace Query

/-- The top-level filters of a query alone. -/
def filters (q : Query) : Query :=
  { q with
    columns := .event, limit := 0, offset := 0, desc := false, allowTimeTravel := false,
    awaitOpenTransactions := false, branches := [] }

/-- A query accepts what its filters and one of its branches accept. -/
theorem accepts_eq (q : Query) (c : Candidate) :
    q.accepts c = (q.filters.accepts c && anyAccepts q.branches c) := by
  have hfilters : q.filters.accepts c = (q.acceptsOwner c && q.acceptsInstance c && q.acceptsSequence c) :=
    Bool.and_true _
  rw [hfilters]
  rfl

/-- A query selects what its filters and one of its branches select. -/
theorem selects_eq (q : Query) (e : Event) :
    q.selects e = (q.filters.selects e && anyAccepts q.branches e.candidate) := by
  rw [selects, accepts_eq, ← Bool.and_assoc]
  rfl

theorem filters_resolve (q : Query) (ctx : Context) : (q.resolve ctx).filters = q.filters.resolve ctx :=
  (resolve_comm filters (fun _ _ => rfl) q ctx).symm

theorem branches_resolve (q : Query) (ctx : Context) : (q.resolve ctx).branches = q.branches := by
  obtain ⟨tenant, hq⟩ := q.exists_resolve ctx
  rw [hq]

/-- The query has these branches beside top-level filters. -/
structure HasBranches (filters : Query) (A : List Branch) (q : Query) : Prop where
  filters : q.filters = filters
  branches : q.branches = A

/-- The query was built by calls, whichever way they open, set and close these branches. -/
structure WritesBranches (filters : Query) (A : List Branch) (q : Query) : Prop where
  filters : q.filters = filters
  branches : ∃ columns calls d, (Draft.ofColumns columns).run calls = some d ∧ d.build = q ∧
    (Call.openings calls).map Branch.ofSettings = A

/-- What the builder writes is what the query has. -/
theorem WritesBranches.hasBranches {filters : Query} {A : List Branch} {q : Query}
    (h : WritesBranches filters A q) : HasBranches filters A q := by
  obtain ⟨columns, calls, d, hrun, rfl, rfl⟩ := h.branches
  exact ⟨h.filters, Draft.branches_build hrun⟩

theorem HasBranches.resolve {filters : Query} {A : List Branch} {q : Query} (h : HasBranches filters A q)
    (ctx : Context) : HasBranches (filters.resolve ctx) A (q.resolve ctx) :=
  ⟨by rw [filters_resolve, h.filters], (q.branches_resolve ctx).trans h.branches⟩

end Query

/-! ### The laws -/

/-- The laws of branches, for verdicts of queries that have branches beside the same top-level filters. -/
structure BranchLaws {γ : Type} (verdict : Query → γ → Bool) (has : List Branch → Query → Prop) : Prop where
  union : ∀ {A B : List Branch} {q qA qB : Query}, A ≠ [] → B ≠ [] →
    has (A ++ B) q → has A qA → has B qB → ∀ x, verdict q x = (verdict qA x || verdict qB x)
  /-- Neither the order of the branches counts nor how often one is repeated. -/
  members : ∀ {A B : List Branch} {q q' : Query}, (∀ b, b ∈ A ↔ b ∈ B) →
    has A q → has B q' → ∀ x, verdict q x = verdict q' x
  /-- A branch that does not constrain is as good as no branches. -/
  unconstrained : ∀ {A : List Branch} {b : Branch} {q q' : Query}, b ∈ A → b.Unconstrained →
    has [] q → has A q' → ∀ x, verdict q x = verdict q' x
  /-- A field that is constrained in addition lets nothing new through. -/
  tighten : ∀ {A B : List Branch} {b : Branch} {s : BranchSetting} {q q' : Query}, s.Unset b →
    has (A ++ b :: B) q → has (A ++ b.set s :: B) q' → ∀ x, verdict q' x = true → verdict q x = true
  /-- A list is as good as two branches with its parts. -/
  split : ∀ {field : List String → BranchSetting} {A B : List Branch} {b : Branch} {l₁ l₂ : List String}
    {q q' : Query}, field ∈ BranchSetting.lists → l₁ ≠ [] → l₂ ≠ [] →
    has (A ++ b.set (field (l₁ ++ l₂)) :: B) q →
    has (A ++ b.set (field l₁) :: b.set (field l₂) :: B) q' → ∀ x, verdict q x = verdict q' x

/-- **The laws hold** of verdicts that are those of the top-level filters and of the branches. -/
theorem branchLaws {γ : Type} {verdict : Query → γ → Bool} {candidate : γ → Candidate}
    (hverdict : ∀ q x, verdict q x = (verdict q.filters x && anyAccepts q.branches (candidate x)))
    {filters : Query} {has : List Branch → Query → Prop}
    (hhas : ∀ {A : List Branch} {q : Query}, has A q → Query.HasBranches filters A q) :
    BranchLaws verdict has := by
  have heq {A : List Branch} {q : Query} (h : has A q) (x : γ) :
      verdict q x = (verdict filters x && anyAccepts A (candidate x)) := by
    rw [hverdict, (hhas h).filters, (hhas h).branches]
  exact {
    union := fun hA hB h h₁ h₂ x => by
      rw [heq h, heq h₁, heq h₂, anyAccepts_append hA hB, Bool.and_or_distrib_left]
    members := fun hmem h h' x => by rw [heq h, heq h', anyAccepts_congr hmem]
    unconstrained := fun hb hfree h h' x => by
      rw [heq h, heq h', anyAccepts_of_unconstrained hb hfree]
      rfl
    tighten := fun hs h h' x hx => by
      rw [heq h', anyAccepts_middle, Bool.and_eq_true, Bool.or_eq_true, Bool.or_eq_true] at hx
      rw [heq h, anyAccepts_middle, Bool.and_eq_true, Bool.or_eq_true, Bool.or_eq_true]
      exact hx.imp_right (Or.imp_right (Or.imp_left (Branch.accepts_of_accepts_set hs)))
    split := fun hfield h₁ h₂ h h' x => by
      rw [heq h, heq h', anyAccepts_middle, anyAccepts_middle, List.any_cons,
        Branch.accepts_set_append hfield _ h₁ h₂, Bool.or_assoc] }

/-! ### Reads -/

/-- The query for all the events that it matches, in its order. -/
def Query.allEvents (q : Query) : Query :=
  { q.unpaged with columns := .event }

namespace Memory

/-- What three queries give without a page: the first gives what the others give, in the order of the log or the
opposite one. -/
structure Unites (m : Memory) (ctx : Context) (q qA qB : Query) (es esA esB : List Event) : Prop where
  query : m.query ctx q.allEvents = (.ok (.events es), m)
  left : m.query ctx qA.allEvents = (.ok (.events esA), m)
  right : m.query ctx qB.allEvents = (.ok (.events esB), m)
  mem_iff : ∀ e, e ∈ es ↔ e ∈ esA ∨ e ∈ esB
  ordered : es.Pairwise fun a b => if q.desc then b.Before a else a.Before b
  nodup : es.Nodup

theorem query_allEvents {ctx : Context} (hctx : ctx.interruption? = none) (q : Query) (m : Memory) :
    m.query ctx q.allEvents = (.ok (.events (m.ledger.events (q.allEvents.resolve ctx))), m) := by
  rw [query_ok hctx, Ledger.select_event _ (Query.columns_resolve _ ctx)]

/-- All events of a query are those that it selects. -/
theorem mem_allEvents {l : Ledger} {ctx : Context} {q : Query} {e : Event} :
    e ∈ l.events (q.allEvents.resolve ctx) ↔ e ∈ l.log ∧ (q.resolve ctx).selects e = true := by
  rw [Query.resolve_comm Query.allEvents fun _ _ => rfl, Ledger.mem_events_of_unpaged rfl rfl,
    Ledger.mem_matching]
  rfl

/-- Queries of which the first selects what one of the others selects are read so. -/
theorem exists_unites {m : Memory} (hm : m.Reachable) {ctx : Context} (hctx : ctx.interruption? = none)
    {q qA qB : Query} (h : ∀ e, (q.resolve ctx).selects e =
      ((qA.resolve ctx).selects e || (qB.resolve ctx).selects e)) :
    ∃ es esA esB, m.Unites ctx q qA qB es esA esB := by
  have hdesc : (q.allEvents.resolve ctx).desc = q.desc := by
    obtain ⟨tenant, hq⟩ := q.allEvents.exists_resolve ctx
    rw [hq]
    rfl
  have hordered := hm.consistent.pairwise_events (q.allEvents.resolve ctx)
  refine ⟨_, _, _, query_allEvents hctx q m, query_allEvents hctx qA m, query_allEvents hctx qB m,
    fun e => ?_, hdesc ▸ hordered, hordered.imp fun hab => ?_⟩
  · rw [mem_allEvents, mem_allEvents, mem_allEvents, h, Bool.or_eq_true, and_or_left]
  · rintro rfl
    split at hab
    · exact Nat.lt_irrefl _ hab.1
    · exact Nat.lt_irrefl _ hab.1

end Memory

/-! ### The algebra of branches -/

/-- The laws of branches, for what is asked of a query. -/
structure BranchAlgebra (has : List Branch → Query → Prop) : Prop where
  /-- Of candidates: commands and events. -/
  candidates : BranchLaws Query.accepts has
  events : BranchLaws Query.selects has
  reads : ∀ {A B : List Branch} {q qA qB : Query}, A ≠ [] → B ≠ [] →
    has (A ++ B) q → has A qA → has B qB → ∀ {m : Memory} {ctx : Context}, m.Reachable →
    ctx.interruption? = none → ∃ es esA esB, m.Unites ctx q qA qB es esA esB

theorem branchAlgebra {filters : Query} {has : List Branch → Query → Prop}
    (hhas : ∀ {A : List Branch} {q : Query}, has A q → Query.HasBranches filters A q) : BranchAlgebra has where
  candidates := branchLaws (fun q (c : Candidate) => q.accepts_eq c) hhas
  events := branchLaws Query.selects_eq hhas
  reads hA hB h h₁ h₂ _ ctx hm hctx := by
    -- a read resolves the tenant first, and does so beside the branches
    have hlaws : BranchLaws Query.selects (Query.HasBranches (filters.resolve ctx)) :=
      branchLaws Query.selects_eq id
    exact Memory.exists_unites hm hctx
      (hlaws.union hA hB ((hhas h).resolve ctx) ((hhas h₁).resolve ctx) ((hhas h₂).resolve ctx))

/-- **The algebra of branches.**  Beside the same top-level filters, branches obey the laws of a disjunction,
whether a query has them or calls have written them, in whichever way. -/
theorem branch_algebra (filters : Query) :
    BranchAlgebra (Query.HasBranches filters) ∧ BranchAlgebra (Query.WritesBranches filters) :=
  ⟨branchAlgebra id, branchAlgebra Query.WritesBranches.hasBranches⟩

/-- A store with three counters, each set once. -/
def threeCounters : Memory :=
  let command (id : String) : Command := { aggregate := { type := "counter", id }, type := "counter.set" }
  ({ clock := default } : Memory).acts [.push {} ⟨command "a", [command "b", command "c"]⟩]

/-- The branches for the first two of them, written one after the other and one by one. -/
theorem branch_algebra_threeCounters :
    let both : Query := { branches := [{ aggregateIds := ["a"] }, { aggregateIds := ["b"] }] }
    let first : Query := { limit := 1, branches := [{ aggregateIds := ["a"] }] }
    let second : Query := { columns := .maxSequence, offset := 1, branches := [{ aggregateIds := ["b"] }] }
    both.filters = {} ∧ threeCounters.Reachable ∧
    ∃ es esA esB, threeCounters.Unites {} both first second es esA esB ∧ es.length = 2 := by
  intro both first second
  have hboth : Query.WritesBranches {} ([{ aggregateIds := ["a"] }] ++ [{ aggregateIds := ["b"] }]) both :=
    ⟨rfl, .event, [.addBranch, .restrict (.aggregateIds ["a"]), .or, .restrict (.aggregateIds ["b"])], _,
      rfl, rfl, rfl⟩
  have hfirst : Query.WritesBranches {} [{ aggregateIds := ["a"] }] first :=
    ⟨rfl, .event, [.set (.limit 1), .addBranch, .restrict (.aggregateIds ["a"])], _, rfl, rfl, rfl⟩
  have hsecond : Query.WritesBranches {} [{ aggregateIds := ["b"] }] second :=
    ⟨rfl, .maxSequence,
      [.addBranch, .restrict (.aggregateIds ["c"]), .restrict (.aggregateIds ["b"]), .close, .set (.offset 1)], _,
      rfl, rfl, rfl⟩
  have hm : threeCounters.Reachable := ⟨default, _, rfl⟩
  have hctx : ({} : Context).interruption? = none := rfl
  obtain ⟨es, esA, esB, h⟩ := (branch_algebra {}).2.reads (List.cons_ne_nil _ _) (List.cons_ne_nil _ _)
    hboth hfirst hsecond hm hctx
  refine ⟨rfl, hm, es, esA, esB, h, ?_⟩
  cases congrArg Prod.fst h.query
  rfl

end EventSourcing
