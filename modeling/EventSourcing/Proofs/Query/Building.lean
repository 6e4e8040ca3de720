import EventSourcing.Proofs.Fields
import EventSourcing.Query.Builder

/-!
# Building queries — last writes

A query is built by calls that overwrite.  Which calls are accepted depends on where they stand alone: those
on the query while no branch is open, those on a branch while one is.  What is built depends, field by field,
on the last call that sets the field, and every branch on the calls that are made while it is open.

* `Setting.writes`, `BranchSetting.writes`: what each setting writes, and `Query.set_eq`, `Branch.set_eq`: it
  writes nothing else.
* `Draft.Step`: what a call does, and `Draft.exists_run_iff`: the series of calls that are accepted.
* `Draft.outcome`: the query that a draft becomes with the calls to come, which no call changes.
* `Draft.build_determined`: **a series of calls means its last writes**, and calls that set different fields of
  one level can be exchanged.
-/

namespace EventSourcing

/-! ### What a setting writes -/

/-- What is written into each field of a query. -/
structure Setting.Writes where
  columns : Option Columns := none
  limit : Option Nat := none
  offset : Option Nat := none
  desc : Option Bool := none
  resourceOwner : Option String := none
  instanceId : Option String := none
  editorUser : Option String := none
  allowTimeTravel : Bool := false
  asOfPosition : Option Nat := none
  positionAfter : Option Nat := none
  awaitOpenTransactions : Bool := false
  sequenceGreater : Option Nat := none
  creationDateAfter : Option Instant := none
  creationDateBefore : Option Instant := none

/-- A setting writes into its own field.  A position to read as of asks for time travel as well, and an instant
that is taken for unset is written nowhere. -/
def Setting.writes : Setting → Writes
  | .columns c => { columns := some c }
  | .limit n => { limit := some n }
  | .offset n => { offset := some n }
  | .order desc => { desc := some desc }
  | .resourceOwner s => { resourceOwner := some s }
  | .instanceId s => { instanceId := some s }
  | .editorUser s => { editorUser := some s }
  | .allowTimeTravel => { allowTimeTravel := true }
  | .asOfPosition n => { allowTimeTravel := true, asOfPosition := some n }
  | .positionAfter n => { positionAfter := some n }
  | .awaitOpenTransactions => { awaitOpenTransactions := true }
  | .sequenceGreater n => { sequenceGreater := some n }
  | .creationDateAfter t => { creationDateAfter := if t.isUnset then none else some t }
  | .creationDateBefore t => { creationDateBefore := if t.isUnset then none else some t }

/-- What is written into each field of a branch. -/
structure BranchSetting.Writes where
  aggregateTypes : Option (List AggregateType) := none
  aggregateIds : Option (List String) := none
  eventTypes : Option (List EventType) := none
  data : Option DataFilter := none

/-- The field that a setting writes, with its value. -/
def BranchSetting.writes : BranchSetting → Writes
  | .aggregateTypes l => { aggregateTypes := some l }
  | .aggregateIds l => { aggregateIds := some l }
  | .eventTypes l => { eventTypes := some l }
  | .data f => { data := some f }

namespace Query

/-- A setting writes what it says and nothing else. -/
theorem set_eq (q : Query) (s : Setting) : q.set s =
    { columns := s.writes.columns.getD q.columns
      limit := s.writes.limit.getD q.limit
      offset := s.writes.offset.getD q.offset
      desc := s.writes.desc.getD q.desc
      resourceOwner := s.writes.resourceOwner.getD q.resourceOwner
      instanceId := s.writes.instanceId.or q.instanceId
      editorUser := s.writes.editorUser.getD q.editorUser
      allowTimeTravel := s.writes.allowTimeTravel || q.allowTimeTravel
      asOfPosition := s.writes.asOfPosition.or q.asOfPosition
      positionAfter := s.writes.positionAfter.or q.positionAfter
      awaitOpenTransactions := s.writes.awaitOpenTransactions || q.awaitOpenTransactions
      sequenceGreater := s.writes.sequenceGreater.getD q.sequenceGreater
      creationDateAfter := s.writes.creationDateAfter.or q.creationDateAfter
      creationDateBefore := s.writes.creationDateBefore.or q.creationDateBefore
      branches := q.branches } := by
  cases s with
  | creationDateAfter t => rw [set_creationDateAfter, Setting.writes]; split <;> rfl
  | creationDateBefore t => rw [set_creationDateBefore, Setting.writes]; split <;> rfl
  | _ => rfl

/-- Settings leave the branches alone. -/
theorem set_branches (q : Query) (s : Setting) (branches : List Branch) :
    { q with branches }.set s = { q.set s with branches } := by
  rw [set_eq, set_eq q s]

theorem branches_foldl_set (settings : List Setting) :
    ∀ q : Query, (settings.foldl set q).branches = q.branches := by
  induction settings with
  | nil => exact fun _ => rfl
  | cons s settings ih => exact fun q => (ih _).trans (by rw [set_eq])

/-- Settings of different kinds write into different fields, or write the same. -/
theorem set_comm {s s' : Setting} (h : s.ctorIdx ≠ s'.ctorIdx) (q : Query) :
    (q.set s).set s' = (q.set s').set s := by
  rw [set_eq (q.set s), set_eq q s, set_eq (q.set s'), set_eq q s']
  cases s <;> cases s' <;> first | exact absurd rfl h | rfl

/-- Each field of the query holds what the last of some settings that writes into it has written, or what a new
query for these columns has. -/
structure HoldsLast (columns : Columns) (settings : List Setting) (q : Query) : Prop where
  columns : q.columns = (lastWrite (·.writes.columns) settings).getD columns
  limit : q.limit = (lastWrite (·.writes.limit) settings).getD 0
  offset : q.offset = (lastWrite (·.writes.offset) settings).getD 0
  desc : q.desc = (lastWrite (·.writes.desc) settings).getD false
  resourceOwner : q.resourceOwner = (lastWrite (·.writes.resourceOwner) settings).getD ""
  instanceId : q.instanceId = lastWrite (·.writes.instanceId) settings
  editorUser : q.editorUser = (lastWrite (·.writes.editorUser) settings).getD ""
  /-- Nothing takes time travel back. -/
  allowTimeTravel : q.allowTimeTravel = true ↔
    .allowTimeTravel ∈ settings ∨ ∃ n, .asOfPosition n ∈ settings
  asOfPosition : q.asOfPosition = lastWrite (·.writes.asOfPosition) settings
  positionAfter : q.positionAfter = lastWrite (·.writes.positionAfter) settings
  awaitOpenTransactions : q.awaitOpenTransactions = true ↔ .awaitOpenTransactions ∈ settings
  sequenceGreater : q.sequenceGreater = (lastWrite (·.writes.sequenceGreater) settings).getD 0
  creationDateAfter : q.creationDateAfter = lastWrite (·.writes.creationDateAfter) settings
  creationDateBefore : q.creationDateBefore = lastWrite (·.writes.creationDateBefore) settings

/-- What settings make of a new query. -/
theorem holdsLast_foldl (columns : Columns) (settings : List Setting) (branches : List Branch) :
    HoldsLast columns settings (settings.foldl set { columns, branches }) where
  columns := foldl_field Query.columns (fun q s => by rw [set_eq]) settings _
  limit := foldl_field Query.limit (fun q s => by rw [set_eq]) settings _
  offset := foldl_field Query.offset (fun q s => by rw [set_eq]) settings _
  desc := foldl_field Query.desc (fun q s => by rw [set_eq]) settings _
  resourceOwner := foldl_field Query.resourceOwner (fun q s => by rw [set_eq]) settings _
  instanceId := (foldl_field? Query.instanceId (fun q s => by rw [set_eq]) settings _).trans Option.or_none
  editorUser := foldl_field Query.editorUser (fun q s => by rw [set_eq]) settings _
  allowTimeTravel := by
    have hflag : (settings.foldl set { columns, branches }).allowTimeTravel =
        (settings.any (·.writes.allowTimeTravel) || false) :=
      foldl_flag Query.allowTimeTravel _ (fun q s => by rw [set_eq]) settings _
    rw [hflag, Bool.or_false, List.any_eq_true]
    constructor
    · rintro ⟨s, hs, hwrites⟩
      cases s with
      | allowTimeTravel => exact .inl hs
      | asOfPosition n => exact .inr ⟨n, hs⟩
      | _ => cases hwrites
    · rintro (hs | ⟨n, hs⟩)
      · exact ⟨_, hs, rfl⟩
      · exact ⟨_, hs, rfl⟩
  asOfPosition := (foldl_field? Query.asOfPosition (fun q s => by rw [set_eq]) settings _).trans Option.or_none
  positionAfter := (foldl_field? Query.positionAfter (fun q s => by rw [set_eq]) settings _).trans Option.or_none
  awaitOpenTransactions := by
    have hflag : (settings.foldl set { columns, branches }).awaitOpenTransactions =
        (settings.any (·.writes.awaitOpenTransactions) || false) :=
      foldl_flag Query.awaitOpenTransactions _ (fun q s => by rw [set_eq]) settings _
    rw [hflag, Bool.or_false, List.any_eq_true]
    constructor
    · rintro ⟨s, hs, hwrites⟩
      cases s with
      | awaitOpenTransactions => exact hs
      | _ => cases hwrites
    · exact fun hs => ⟨_, hs, rfl⟩
  sequenceGreater := foldl_field Query.sequenceGreater (fun q s => by rw [set_eq]) settings _
  creationDateAfter :=
    (foldl_field? Query.creationDateAfter (fun q s => by rw [set_eq]) settings _).trans Option.or_none
  creationDateBefore :=
    (foldl_field? Query.creationDateBefore (fun q s => by rw [set_eq]) settings _).trans Option.or_none

/-- Whoever gives a position to read as of has asked for time travel. -/
theorem HoldsLast.allowTimeTravel_of_asOfPosition {columns : Columns} {settings : List Setting} {q : Query}
    (h : HoldsLast columns settings q) (has : q.asOfPosition.isSome = true) : q.allowTimeTravel = true := by
  obtain ⟨n, hn⟩ := Option.isSome_iff_exists.mp has
  obtain ⟨s, hs, hwrites⟩ := mem_of_lastWrite (h.asOfPosition.symm.trans hn)
  cases s with
  | asOfPosition m => exact h.allowTimeTravel.mpr (.inr ⟨m, hs⟩)
  | _ => cases hwrites

end Query

namespace Branch

/-- A setting writes what it says and nothing else. -/
theorem set_eq (b : Branch) (s : BranchSetting) : b.set s =
    { aggregateTypes := s.writes.aggregateTypes.getD b.aggregateTypes
      aggregateIds := s.writes.aggregateIds.getD b.aggregateIds
      eventTypes := s.writes.eventTypes.getD b.eventTypes
      data := s.writes.data.or b.data } := by
  cases s <;> rfl

/-- Settings of different fields can change places. -/
theorem set_comm {s s' : BranchSetting} (h : s.ctorIdx ≠ s'.ctorIdx) (b : Branch) :
    (b.set s).set s' = (b.set s').set s := by
  cases s <;> cases s' <;> first | exact absurd rfl h | rfl

/-- The branch with some settings made. -/
def ofSettings (settings : List BranchSetting) : Branch :=
  settings.foldl set {}

/-- Each field of the branch holds what the last of some settings of the field has set, or does not constrain. -/
structure HoldsLast (settings : List BranchSetting) (b : Branch) : Prop where
  aggregateTypes : b.aggregateTypes = (lastWrite (·.writes.aggregateTypes) settings).getD []
  aggregateIds : b.aggregateIds = (lastWrite (·.writes.aggregateIds) settings).getD []
  eventTypes : b.eventTypes = (lastWrite (·.writes.eventTypes) settings).getD []
  data : b.data = lastWrite (·.writes.data) settings

theorem holdsLast_ofSettings (settings : List BranchSetting) : HoldsLast settings (ofSettings settings) where
  aggregateTypes := foldl_field Branch.aggregateTypes (fun b s => by rw [set_eq]) settings _
  aggregateIds := foldl_field Branch.aggregateIds (fun b s => by rw [set_eq]) settings _
  eventTypes := foldl_field Branch.eventTypes (fun b s => by rw [set_eq]) settings _
  data := (foldl_field? Branch.data (fun b s => by rw [set_eq]) settings _).trans Option.or_none

end Branch

/-! ### Where a call stands -/

namespace Call

/-- The setting of the query that a call makes. -/
def setting? : Call → Option Setting
  | .set s => some s
  | _ => none

/-- The setting of the open branch that a call makes. -/
def restriction? : Call → Option BranchSetting
  | .restrict s => some s
  | _ => none

/-- Whether a call is made while a branch is open.  The others are made while none is. -/
def needsBranch : Call → Bool
  | .restrict _ | .or | .close => true
  | .set _ | .addBranch => false

/-- Whether a call opens a branch. -/
def opens : Call → Bool
  | .addBranch | .or => true
  | _ => false

/-- Whether a call closes the open branch. -/
def closes : Call → Bool
  | .or | .close => true
  | _ => false

/-- Whether a branch is open after a call that opens or closes one. -/
def leaves? (x : Call) : Option Bool :=
  if x.opens then some true else if x.closes then some false else none

/-- The calls make settings of different fields of one level. -/
def Apart : Call → Call → Prop
  | .set s, .set s' => s.ctorIdx ≠ s'.ctorIdx
  | .restrict s, .restrict s' => s.ctorIdx ≠ s'.ctorIdx
  | _, _ => False

/-- Every call stands where it has a meaning: whether a branch is open is up to the last call before it that
opens or closes one. -/
def Legal (calls : List Call) : Prop :=
  ∀ before x after, calls = before ++ x :: after → x.needsBranch = (lastWrite leaves? before).getD false

/-- The settings that are made of a branch from the calls after the one that opens it. -/
def whileOpen (calls : List Call) : List BranchSetting :=
  (calls.takeWhile (!·.closes)).filterMap restriction?

/-- The settings of the branches that a series of calls opens, in the order in which it opens them. -/
def openings : List Call → List (List BranchSetting)
  | [] => []
  | x :: calls => if x.opens then whileOpen calls :: openings calls else openings calls

/-- A branch is begun by each call that opens one. -/
theorem length_openings (calls : List Call) : (openings calls).length = calls.countP opens := by
  induction calls with
  | nil => rfl
  | cons x calls ih =>
      rw [openings, List.countP_cons]
      split
      · rw [List.length_cons, ih]
      · exact ih

/-- Each branch holds what is set while it is open. -/
theorem getElem?_openings {x : Call} (hx : x.opens = true) (before after : List Call) :
    (openings (before ++ x :: after))[before.countP opens]? = some (whileOpen after) := by
  induction before with
  | nil => rw [List.nil_append, openings, if_pos hx]; rfl
  | cons y before ih =>
      rw [List.cons_append, openings, List.countP_cons]
      split
      · exact ih
      · exact ih

end Call

/-! ### What a draft becomes -/

namespace Draft

open Call

/-- **A call is legal** exactly if it finds a branch where it needs one. -/
theorem isSome_call (d : Draft) (x : Call) : (d.call x).isSome = true ↔ x.needsBranch = d.branch.isSome := by
  obtain ⟨q, b⟩ := d
  cases b <;> cases x <;> simp [call, needsBranch]

/-- What each call does where it has a meaning. -/
inductive Step : Draft → Call → Draft → Prop where
  | set (q : Query) (s : Setting) : Step ⟨q, none⟩ (.set s) ⟨q.set s, none⟩
  | addBranch (q : Query) : Step ⟨q, none⟩ .addBranch ⟨q, some {}⟩
  | restrict (q : Query) (b : Branch) (s : BranchSetting) : Step ⟨q, some b⟩ (.restrict s) ⟨q, some (b.set s)⟩
  | or (q : Query) (b : Branch) :
      Step ⟨q, some b⟩ .or ⟨{ q with branches := q.branches ++ [b] }, some {}⟩
  | close (q : Query) (b : Branch) :
      Step ⟨q, some b⟩ .close ⟨{ q with branches := q.branches ++ [b] }, none⟩

/-- What a call does is one of the steps. -/
theorem Step.of_call {d d' : Draft} {x : Call} (h : d.call x = some d') : Step d x d' := by
  obtain ⟨q, b⟩ := d
  cases b <;> cases x <;> cases h <;> constructor

theorem isSome_branch_call {d d' : Draft} {x : Call} (h : d.call x = some d') :
    d'.branch.isSome = x.leaves?.getD d.branch.isSome := by
  cases Step.of_call h <;> rfl

theorem run_cons_eq_some_iff {d d' : Draft} {x : Call} {calls : List Call} :
    d.run (x :: calls) = some d' ↔ ∃ d₁, d.call x = some d₁ ∧ d₁.run calls = some d' := by
  rw [run, List.foldlM_cons]
  exact Option.bind_eq_some_iff

/-- The calls that are accepted are those that stand where they have a meaning. -/
theorem exists_run_iff (calls : List Call) : ∀ d : Draft, (∃ d', d.run calls = some d') ↔
    ∀ before x after, calls = before ++ x :: after →
      x.needsBranch = (lastWrite leaves? before).getD d.branch.isSome := by
  induction calls with
  | nil => exact fun d => ⟨fun _ before x after h => by simp at h, fun _ => ⟨d, rfl⟩⟩
  | cons y calls ih =>
      intro d
      constructor
      · rintro ⟨d', hd'⟩ before x after hsplit
        obtain ⟨d₁, hcall, hrun⟩ := run_cons_eq_some_iff.mp hd'
        cases before with
        | nil =>
            obtain ⟨rfl, rfl⟩ := List.cons.inj hsplit
            exact (d.isSome_call _).mp (by rw [hcall]; rfl)
        | cons z before =>
            obtain ⟨rfl, hrest⟩ := List.cons.inj hsplit
            rw [(ih d₁).mp ⟨d', hrun⟩ before x after hrest, isSome_branch_call hcall, lastWrite_cons,
              Option.getD_or]
      · intro h
        obtain ⟨d₁, hcall⟩ := Option.isSome_iff_exists.mp ((d.isSome_call y).mpr (h [] y calls rfl))
        obtain ⟨d', hrun⟩ := (ih d₁).mpr fun before x after hsplit => by
          rw [h (y :: before) x after (by rw [hsplit]; rfl), isSome_branch_call hcall, lastWrite_cons,
            Option.getD_or]
        exact ⟨d', run_cons_eq_some_iff.mpr ⟨d₁, hcall, hrun⟩⟩

/-- The branches that a draft has in the end, with the calls to come. -/
def opened (d : Draft) (calls : List Call) : List Branch :=
  d.query.branches ++ (d.branch.map ((whileOpen calls).foldl Branch.set)).toList ++
    (openings calls).map Branch.ofSettings

/-- The query that a draft becomes with the calls to come. -/
def outcome (d : Draft) (calls : List Call) : Query :=
  (calls.filterMap setting?).foldl Query.set { d.query with branches := d.opened calls }

theorem outcome_nil (d : Draft) : d.outcome [] = d.build := by
  obtain ⟨q, b⟩ := d
  cases b with
  | none => simp [outcome, opened, openings, build, close]
  | some b => simp [outcome, opened, openings, whileOpen, build, close]

/-- Opening, restricting and closing a branch bring about what the calls to come say of it. -/
theorem opened_call {d d' : Draft} {x : Call} (h : d.call x = some d') (calls : List Call) :
    d'.opened calls = d.opened (x :: calls) := by
  cases Step.of_call h with
  | set q s => simp [opened, openings, opens, Query.set_eq]
  | addBranch q => simp [opened, openings, opens, Branch.ofSettings]
  | restrict q b s => simp [opened, openings, opens, whileOpen, closes, restriction?]
  | or q b => simp [opened, openings, opens, whileOpen, closes, Branch.ofSettings]
  | close q b => simp [opened, openings, opens, whileOpen, closes]

/-- **No call changes what a draft becomes**: it only moves what it says from the calls to come into the
draft. -/
theorem outcome_call {d d' : Draft} {x : Call} (h : d.call x = some d') (calls : List Call) :
    d'.outcome calls = d.outcome (x :: calls) := by
  rw [outcome, opened_call h, outcome]
  generalize d.opened (x :: calls) = branches
  cases Step.of_call h with
  | set q s =>
      show _ = (calls.filterMap setting?).foldl Query.set ({ q with branches }.set s)
      rw [q.set_branches s branches]
  | _ => rfl

/-- What a series of calls builds. -/
theorem build_run {d d' : Draft} {calls : List Call} (h : d.run calls = some d') :
    d'.build = d.outcome calls := by
  induction calls generalizing d with
  | nil =>
      cases h
      exact (outcome_nil _).symm
  | cons x calls ih =>
      obtain ⟨d₁, hcall, hrun⟩ := run_cons_eq_some_iff.mp h
      exact (ih hrun).trans (outcome_call hcall calls)

/-! ### Calls that can be exchanged -/

/-- Calls that are apart can change places. -/
theorem call_comm {x y : Call} (h : x.Apart y) (d : Draft) :
    (d.call x).bind (·.call y) = (d.call y).bind (·.call x) := by
  obtain ⟨q, b⟩ := d
  cases x with
  | set s =>
      cases y with
      | set s' => cases b <;> simp [call, Query.set_comm h]
      | _ => exact h.elim
  | restrict s =>
      cases y with
      | restrict s' => cases b <;> simp [call, Branch.set_comm h]
      | _ => exact h.elim
  | _ => exact h.elim

/-- Calls that are apart can change places in the midst of others. -/
theorem run_exchange {x y : Call} (h : x.Apart y) (d : Draft) (before after : List Call) :
    d.run (before ++ x :: y :: after) = d.run (before ++ y :: x :: after) := by
  have hrest (d : Draft) : d.run (x :: y :: after) = d.run (y :: x :: after) :=
    calc d.run (x :: y :: after)
      _ = ((d.call x).bind (·.call y)).bind (·.run after) := (Option.bind_assoc ..).symm
      _ = ((d.call y).bind (·.call x)).bind (·.run after) := by rw [call_comm h]
      _ = d.run (y :: x :: after) := Option.bind_assoc ..
  rw [run, List.foldlM_append, run, List.foldlM_append]
  exact congrArg _ (funext hrest)

end Draft

/-! ### The finished query -/

/-- The query is what some calls mean that are made of a new query for these columns. -/
structure Query.BuiltBy (columns : Columns) (calls : List Call) (q : Query) : Prop where
  settings : HoldsLast columns (calls.filterMap Call.setting?) q
  allowTimeTravel_of_asOfPosition : q.asOfPosition.isSome = true → q.allowTimeTravel = true
  length_branches : q.branches.length = calls.countP Call.opens
  /-- Each branch holds what the calls that are made while it is open have set last. -/
  branch : ∀ before x after, calls = before ++ x :: after → x.opens = true →
    ∃ b, q.branches[before.countP Call.opens]? = some b ∧ b.HoldsLast (Call.whileOpen after)

namespace Draft

theorem branches_build {columns : Columns} {calls : List Call} {d : Draft}
    (h : (ofColumns columns).run calls = some d) :
    d.build.branches = (Call.openings calls).map Branch.ofSettings :=
  (congrArg Query.branches (build_run h)).trans (Query.branches_foldl_set ..)

/-- **A query is determined by the calls that built it.** -/
theorem builtBy {columns : Columns} {calls : List Call} {d : Draft}
    (h : (ofColumns columns).run calls = some d) : d.build.BuiltBy columns calls := by
  have hsettings : d.build.HoldsLast columns (calls.filterMap Call.setting?) := by
    rw [build_run h]
    exact Query.holdsLast_foldl ..
  refine ⟨hsettings, hsettings.allowTimeTravel_of_asOfPosition, ?_, fun before x after hsplit hx => ?_⟩
  · rw [branches_build h, List.length_map, Call.length_openings]
  · refine ⟨_, ?_, Branch.holdsLast_ofSettings _⟩
    rw [branches_build h, hsplit, List.getElem?_map, Call.getElem?_openings hx]
    rfl

/-- **A series of calls means its last writes.**  It is accepted if each call stands where it has a meaning, then
each field of the query and of each branch holds what was written last into it, and calls that set different
fields of one level can be exchanged. -/
theorem build_determined (columns : Columns) (calls : List Call) :
    ((∃ d, (ofColumns columns).run calls = some d) ↔ Call.Legal calls) ∧
    (∀ d, (ofColumns columns).run calls = some d → d.build.BuiltBy columns calls) ∧
    ∀ before x y after, calls = before ++ x :: y :: after → x.Apart y →
      (ofColumns columns).run (before ++ y :: x :: after) = (ofColumns columns).run calls := by
  refine ⟨exists_run_iff calls _, fun d => builtBy, fun before x y after hsplit h => ?_⟩
  rw [hsplit, run_exchange h]

/-- A series of calls with two branches, each of which is set twice, and with settings before and after. -/
def twoBranches : List Call :=
  [.set (.limit 1), .addBranch, .restrict (.aggregateIds ["a"]), .restrict (.aggregateIds ["b"]), .or,
    .restrict (.eventTypes ["t"]), .close, .set (.limit 2), .set (.asOfPosition 7)]

/-- Two branches are built, with the settings of each. -/
theorem build_determined_twoBranches :
    ∃ d, (ofColumns .event).run twoBranches = some d ∧ d.build.BuiltBy .event twoBranches :=
  ⟨_, rfl, (build_determined .event twoBranches).2.1 _ rfl⟩

end Draft

end EventSourcing
