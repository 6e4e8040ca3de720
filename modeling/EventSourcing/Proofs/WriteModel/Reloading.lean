import EventSourcing.Proofs.Memory.Matching
import EventSourcing.Proofs.Memory.Optimistic
import EventSourcing.Proofs.WriteModel.Overwriting

/-!
# Write models — loading again

A client keeps a model, and loads it again whenever it may be behind: after a conflict, say.  All that the
model asks for is then folded once more, on top of what the model has folded before.

* `Register`: books alone, which are loaded from the events of any query.
* `Steady`: models that go on asking for the same, once they have been given what they ask for.
* `Stale`: what holds of a model however often it has been loaded.  It is what a single load made of it,
  from the first of the events that there are now.
* `stale_step`, `stale_run`: neither a load nor what others do to the store changes that.
* `reloading_heals`: **loading again heals staleness**.  An organisation, a key pair or mere books are
  brought to where a single load would have brought them.
-/

namespace EventSourcing

open Reducer (absorb replay)

/-! ### Mere books -/

/-- A write model that is nothing but books, of what a query selects. -/
structure Register where
  base : WriteModel := {}
  source : Query := {}

instance : QueryReducer Register where
  append events r := { r with base := Reducer.append events r.base }
  reduce r := ((Reducer.reduce r.base).1, { r with base := (Reducer.reduce r.base).2 })
  query r := r.source

instance : Bookkept Register := ⟨Register.base⟩

/-- A fold that does nothing for any event does nothing. -/
theorem foldEvents_skip {μ : Type} (x : μ) (events : List Event) :
    foldEvents (fun x _ => .ok x) x events = (.ok (), x) := by
  induction events with
  | nil => rfl
  | cons e es ih => exact ih

instance : Folding Register where
  applyEvent r _ := .ok r
  withBase base r := { r with base }
  base_withBase _ _ := rfl
  withBase_withBase _ _ _ := rfl
  withBase_base _ := rfl
  base_applyEvent r _ r' h := by cases h; rfl
  append_eq _ _ := rfl
  reduce_of_ok r r' h := by
    rw [foldEvents_skip] at h
    cases h
    rfl
  reduce_of_error r r' e h := by
    rw [foldEvents_skip] at h
    cases h

instance : Overwriting Register where
  Entry := Unit
  read _ := .ok ()
  write _ r := r
  applyEvent_eq _ _ := rfl
  write_withBase _ _ _ := rfl
  write_write _ _ := rfl
  write_write_write _ _ _ := rfl

/-! ### Steady models -/

/-- Models that go on asking for the same, once they have been given what they ask for. -/
class Steady (μ : Type) [QueryReducer μ] [Bookkept μ] : Prop where
  query_replay {x : μ} {ctx : Context} {events : List Event}
    (hsel : ∀ e ∈ events, ((QueryReducer.query x).resolve ctx).selects e = true)
    (hx : (Bookkept.base x).events = []) (hok : (replay events x).1 = .ok ()) :
    QueryReducer.query (replay events x).2 = QueryReducer.query x

instance : Steady Register where
  query_replay _ _ _ := rfl

theorem Query.Names.resolve {q : Query} {s : Stream} (h : q.Names s) (ctx : Context) :
    (q.resolve ctx).Names s := by
  obtain ⟨instanceId, hq⟩ := q.exists_resolve ctx
  rw [hq]
  exact ⟨h.nonempty, h.types, h.ids⟩

/-- Models that ask for their own stream, by its id, have that id already. -/
theorem Steady.of_names {μ : Type} [QueryReducer μ] [Bookkept μ] [LawfulBookkept μ]
    (type : AggregateType)
    (hnames : ∀ x : μ, (QueryReducer.query x).Names ⟨"", type, (Bookkept.base x).aggregateId⟩)
    (hquery : ∀ x y : μ, (Bookkept.base y).aggregateId = (Bookkept.base x).aggregateId →
      QueryReducer.query y = QueryReducer.query x) : Steady μ where
  query_replay {x ctx events} hsel hx hok := by
    refine hquery x _ ?_
    rw [LawfulBookkept.base_replay hok]
    refine WriteModel.aggregateId_reduce fun e he => ?_
    rw [WriteModel.append, hx, List.nil_append] at he
    exact (((hnames x).resolve ctx).of_selects (hsel e he)).2

/-- The query of an organisation names its stream. -/
theorem Org.names (o : Org) : o.query.Names ⟨"", "org", o.base.aggregateId⟩ :=
  ⟨List.cons_ne_nil _ _, by simp [query], by simp [query]⟩

instance : Steady Org :=
  .of_names "org" Org.names fun o o' (h : o'.base.aggregateId = o.base.aggregateId) => by
    show o'.query = o.query
    rw [Org.query, Org.query, h]

/-- The query of a key pair names its stream. -/
theorem KeyPair.names (k : KeyPair) : k.query.Names ⟨"", "key_pair", k.base.aggregateId⟩ :=
  ⟨List.cons_ne_nil _ _, by simp [query], by simp [query]⟩

instance : Steady KeyPair :=
  .of_names "key_pair" KeyPair.names fun k k' (h : k'.base.aggregateId = k.base.aggregateId) => by
    show k'.query = k.query
    rw [KeyPair.query, KeyPair.query, h]

/-! ### Stale models -/

section

variable {μ : Type} [QueryReducer μ]

/-- What model `x` is given in a context. -/
def Ledger.given (l : Ledger) (ctx : Context) (x : μ) : List Event :=
  l.events ((QueryReducer.query x).resolve ctx)

/-- Model `y` is `x` as it has been loaded, perhaps when there were only the first of the events that there
are now. -/
def Stale (ctx : Context) (x : μ) (l : Ledger) (y : μ) : Prop :=
  ∃ events, events <+: l.given ctx x ∧ absorb events x = (.ok (), y)

namespace Stale

variable {ctx : Context} {x y : μ} {l l' : Ledger}

/-- A model that has not been loaded is stale from the beginning. -/
theorem fresh (ctx : Context) (x : μ) (l : Ledger) : Stale ctx x l x :=
  ⟨[], List.nil_prefix, rfl⟩

/-- A stale model stays so while the store grows. -/
theorem of_grows (h : Stale ctx x l y) (hgiven : l.given ctx x <+: l'.given ctx x) : Stale ctx x l' y := by
  obtain ⟨events, hpre, hy⟩ := h
  exact ⟨events, hpre.trans hgiven, hy⟩

variable [Bookkept μ]

/-- A stale model asks what the fresh one asks. -/
theorem query_eq [Steady μ] (h : Stale ctx x l y) (hx : (Bookkept.base x).events = []) :
    QueryReducer.query y = QueryReducer.query x := by
  obtain ⟨events, hpre, hy⟩ := h
  cases events with
  | nil => cases hy; rfl
  | cons e es =>
      rw [absorb] at hy
      have hsel : ∀ f ∈ e :: es, ((QueryReducer.query x).resolve ctx).selects f = true :=
        fun f hf => (Ledger.selects_of_mem_events (hpre.subset hf)).2
      have hquery := Steady.query_replay hsel hx (by rw [hy])
      rwa [hy] at hquery

variable [Folding μ] [Overwriting μ]

/-- A stale model folds what there is now as a fresh one does. -/
theorem absorb_eq (h : Stale ctx x l y) (hx : (Bookkept.base x).events = []) :
    (absorb (l.given ctx x) y).1 = (absorb (l.given ctx x) x).1 ∧
      ((absorb (l.given ctx x) x).1 = .ok () →
        absorb (l.given ctx x) y = absorb (l.given ctx x) x) := by
  obtain ⟨events, hpre, hy⟩ := h
  cases events with
  | nil => cases hy; exact ⟨rfl, fun _ => rfl⟩
  | cons e es =>
      have hne : l.given ctx x ≠ [] := List.ne_nil_of_mem (hpre.subset List.mem_cons_self)
      rw [absorb] at hy
      have hagain := Overwriting.replay_again hx (List.cons_ne_nil e es) hpre (by rw [hy])
      rw [hy] at hagain
      rwa [Reducer.absorb_of_ne_nil hne, Reducer.absorb_of_ne_nil hne]

end Stale

end

/-! ### Loading again and again -/

/-- A model, and the store that it is loaded from. -/
structure Reloading (μ : Type) where
  store : Memory
  model : μ

namespace Reloading

/-- What happens between two looks at the model. -/
inductive Step where
  /-- Somebody uses the store. -/
  | act (a : Memory.Action)
  /-- The model is loaded. -/
  | load

variable {μ : Type} [QueryReducer μ]

/-- A step, unless it is a load that fails. -/
def step (ctx : Context) (r : Reloading μ) : Step → Except (ModelError Empty) (Reloading μ)
  | .act a => .ok { r with store := r.store.act a }
  | .load =>
    match Reducer.load ctx r.model r.store with
    | (.ok (), model, store) => .ok { store, model }
    | (.error e, _, _) => .error e

/-- A series of steps in which every load succeeds. -/
def run (ctx : Context) (r : Reloading μ) (steps : List Step) :
    Except (ModelError Empty) (Reloading μ) :=
  steps.foldlM (step ctx) r

/-- A load of `y` ends as a load of `x` does, and where it succeeds leaves the same. -/
def LoadsAs (ctx : Context) (m : Memory) (x y : μ) : Prop :=
  (Reducer.load ctx y m).1 = (Reducer.load ctx x m).1 ∧
    ((Reducer.load ctx x m).1 = .ok () → Reducer.load ctx y m = Reducer.load ctx x m)

/-- However often model `x` is loaded while others use the store, one more load does to it what it would do
to `x` itself. -/
def Heals (ctx : Context) (m : Memory) (x : μ) : Prop :=
  ∀ steps r, run ctx ⟨m, x⟩ steps = .ok r → LoadsAs ctx r.store x r.model

variable [Bookkept μ] {ctx : Context} {x : μ}

/-- The model asks for events from the start on, and has buffered none. -/
structure Starts (x : μ) : Prop where
  empty : (Bookkept.base x).events = []
  ascending : (QueryReducer.query x).desc = false
  fromStart : (QueryReducer.query x).offset = 0

/-- What a model is given only grows. -/
theorem Starts.given_prefix (hx : Starts x) (ctx : Context) {l l' : Ledger} (h : l.Grows l') :
    l.given ctx x <+: l'.given ctx x := by
  obtain ⟨instanceId, hq⟩ := (QueryReducer.query x).exists_resolve ctx
  rw [Ledger.given, Ledger.given, hq]
  exact h.events hx.ascending hx.fromStart

variable [Folding μ] [Overwriting μ] [Steady μ]

/-- **A load does to a stale model** what it does to the fresh one. -/
theorem load_stale (hx : Starts x) {m : Memory} {y : μ} (h : Stale ctx x m.ledger y) :
    LoadsAs ctx m x y := by
  rw [LoadsAs, Memory.load_eq, Memory.load_eq, h.query_eq hx.empty]
  cases hf : (EventStore.filter ctx (QueryReducer.query x) m).1 with
  | error e => exact ⟨rfl, fun hok => by cases hok⟩
  | ok events =>
      obtain ⟨-, -, rfl⟩ := Memory.filter_ok_iff.mp hf
      obtain ⟨hresult, hmodel⟩ := h.absorb_eq hx.empty
      rw [Ledger.given] at hresult hmodel
      dsimp only
      refine ⟨by rw [hresult], fun hok => ?_⟩
      rw [hmodel (mapError_eq_ok.mp hok)]

/-- **A step leaves a stale model stale.** -/
theorem stale_step (hx : Starts x) {r r' : Reloading μ} {s : Step}
    (h : Stale ctx x r.store.ledger r.model) (hs : step ctx r s = .ok r') :
    Stale ctx x r'.store.ledger r'.model := by
  cases s with
  | act a =>
      cases hs
      exact h.of_grows (hx.given_prefix ctx (Memory.grows_acts r.store [a]))
  | load =>
      obtain ⟨hresult, hmodel⟩ := load_stale hx h
      rcases hl : Reducer.load ctx r.model r.store with ⟨e | ⟨⟩, y, m⟩
      · rw [step, hl] at hs
        cases hs
      · rw [step, hl] at hs
        cases hs
        rw [hl] at hresult hmodel
        obtain ⟨events, hf, hok, hfresh⟩ := Memory.load_ok hresult.symm
        obtain ⟨-, -, rfl⟩ := Memory.filter_ok_iff.mp hf
        -- the model is now the fresh one, loaded from all the events that there are
        cases (hmodel hresult.symm).trans hfresh
        exact ⟨_, List.prefix_rfl, Prod.ext hok rfl⟩

/-- **A run leaves a stale model stale.** -/
theorem stale_run (hx : Starts x) (steps : List Step) :
    ∀ {r r' : Reloading μ}, Stale ctx x r.store.ledger r.model → run ctx r steps = .ok r' →
      Stale ctx x r'.store.ledger r'.model := by
  induction steps with
  | nil => intro r r' h hr; cases hr; exact h
  | cons s steps ih =>
      intro r r' h hr
      rw [run, List.foldlM_cons] at hr
      obtain ⟨r₁, hs, hr⟩ := bind_eq_ok.mp hr
      exact ih (stale_step hx h hs) hr

/-- **A load heals** whatever earlier loads have left. -/
theorem heals_of_starts (hx : Starts x) (m : Memory) : Heals ctx m x :=
  fun steps _ hr => load_stale hx (stale_run hx steps (Stale.fresh ctx x m.ledger) hr)

/-- **Loading again heals staleness.**  Let anybody use the store, and let a model be loaded in between, any
number of times and with success.  One more load succeeds then exactly if a first load of the model would,
as it was before all that, and leaves it equal to what that would leave. -/
theorem reloading_heals (m : Memory) (ctx : Context) :
    (∀ r : Register, r.base.events = [] → r.source.desc = false → r.source.offset = 0 →
      Heals ctx m r) ∧
    (∀ o : Org, o.base.events = [] → Heals ctx m o) ∧
    (∀ k : KeyPair, k.base.events = [] → Heals ctx m k) :=
  ⟨fun _ hempty hd ho => heals_of_starts ⟨hempty, hd, ho⟩ m,
    fun _ hempty => heals_of_starts ⟨hempty, rfl, rfl⟩ m,
    fun _ hempty => heals_of_starts ⟨hempty, rfl, rfl⟩ m⟩

/-- An organisation is added and renamed twice, and loaded in between. -/
def renames : List Step :=
  [.load,
    .act (.push (.forInstance "t1") ⟨Attempt.orgCommand "org-1" "org.added" "ACME", []⟩), .load,
    .act (.push (.forInstance "t1") ⟨Attempt.orgCommand "org-1" "org.changed" "ACME Corp", []⟩), .load,
    .act (.push (.forInstance "t1") ⟨Attempt.orgCommand "org-1" "org.changed" "ACME Inc", []⟩)]

/-- The model still has the first new name.  After one more load it has the second, and is what a fresh one
becomes. -/
theorem reloading_heals_renames :
    ∃ r : Reloading Org,
      run (.forInstance "t1") ⟨{ clock := default }, { base := { aggregateId := "org-1" } }⟩ renames =
        .ok r ∧
      r.model.name = "ACME Corp" ∧
      (Reducer.load (.forInstance "t1") r.model r.store).2.1.name = "ACME Inc" ∧
      Reducer.load (.forInstance "t1") r.model r.store =
        Reducer.load (.forInstance "t1") { base := { aggregateId := "org-1" } } r.store := by
  obtain ⟨-, hheals, -⟩ := reloading_heals { clock := default } (.forInstance "t1")
  exact ⟨_, rfl, rfl, rfl, (hheals { base := { aggregateId := "org-1" } } rfl renames _ rfl).2 rfl⟩

end Reloading

end EventSourcing
