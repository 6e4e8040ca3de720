import EventSourcing.Proofs.Memory.Pages
import EventSourcing.Proofs.Memory.Projections
import EventSourcing.Proofs.Postgres.Asking

/-!
# The PostgreSQL store — the page of a highest sequence

The highest sequence is taken over all that a query selects, and has no use for limit and offset.  In memory
they are not looked at.  Here they are left out of the statement, but not before they have been converted
with the other numbers of the query: a page that the database would not have heard of can still be refused.

* `ReadCall.dialogue_unpaged`: a read of the highest sequence that has begun goes on as if it had no page.
* `Query.asking_unpaged`: so does one that has not, if limit and offset fit the columns.
* `highest_on_pages`: **the highest sequence does not depend on the page**, in memory, nor here if the page
  fits; one that does not fit is refused.
-/

namespace EventSourcing

/-! ### Reads of the highest sequence -/

/-- Neither order nor page stands in the statement. -/
theorem Selection.fragments_maxSequence {s s' : Selection} (h : s.columns = .maxSequence)
    (hcolumns : s'.columns = s.columns) (hclauses : s'.clauses = s.clauses) :
    s.fragments = s'.fragments := by
  rw [fragments, fragments, hcolumns, hclauses, h]
  rfl

namespace ReadCall

/-- The read without limit and offset. -/
def unpaged (c : ReadCall) : ReadCall where
  query := c.query.unpaged
  bounds := { c.bounds with limit := none, offset := none }
  phase := c.phase

/-- The second read is the first, which reads the highest sequence, without its page. -/
def Unpages (c c' : ReadCall) : Prop :=
  c.query.columns = .maxSequence ∧ c' = c.unpaged

theorem unpages_resume {α : Type} {c : ReadCall} (h : c.query.columns = .maxSequence)
    (use : List Row → Except PostgresError α) (next : α → ReadPhase) (r : Response) :
    Unpages (c.resume use next r) (c.unpaged.resume use next r) := by
  rw [resume, resume]
  cases r.read use with
  | error e => exact ⟨h, rfl⟩
  | ok a => exact ⟨h, rfl⟩

/-- A read of the highest sequence says the same without its page, step by step. -/
theorem alike_step {c : ReadCall} (h : c.query.columns = .maxSequence) :
    (step c).Alike Unpages (step c.unpaged) := by
  rw [step, step, show c.unpaged.phase = c.phase from rfl]
  cases c.phase with
  | noting => exact .sent rfl fun r => unpages_resume h _ _ r
  | awaiting ids => exact .sent rfl fun r => unpages_resume h _ _ r
  | locating => exact .sent rfl fun r => unpages_resume h _ _ r
  | selecting snapshot =>
      exact .sent (Selection.fragments_maxSequence h rfl rfl) fun r => unpages_resume h _ _ r
  | ended result => exact .ended result

/-- **A read of the highest sequence that has begun** goes on as if it had no page. -/
theorem dialogue_unpaged {c : ReadCall} (h : c.query.columns = .maxSequence) (rs : List Response) :
    (Procedure.dialogue c rs).Alike (Procedure.dialogue c.unpaged rs) := by
  refine Procedure.dialogue_alike (R := Unpages) (fun p p' hp => ?_) ⟨h, rfl⟩ rs
  obtain ⟨hcolumns, rfl⟩ := hp
  exact alike_step hcolumns

end ReadCall

namespace Query

variable {q : Query} {ctx : Context} {reached : Except (StoreError PostgresError) Unit}

/-! ### Numbers of a page -/

/-- The limit is tested first. -/
theorem tooLarge?_of_limit (h : Nat.pow 2 63 ≤ q.limit) : q.tooLarge? = some (.limit, q.limit) := by
  rw [tooLarge?, quantities]
  exact List.find?_cons_of_pos (by simpa using h)

/-- The offset is tested second. -/
theorem tooLarge?_of_offset (hl : q.limit < Nat.pow 2 63) (ho : Nat.pow 2 63 ≤ q.offset) :
    q.tooLarge? = some (.offset, q.offset) := by
  rw [tooLarge?, quantities]
  exact (List.find?_cons_of_neg (by simpa using hl)).trans (List.find?_cons_of_pos (by simpa using ho))

/-- A page that fits makes no difference to the other numbers. -/
theorem tooLarge?_unpaged (hl : q.limit < Nat.pow 2 63) (ho : q.offset < Nat.pow 2 63) :
    q.tooLarge? = q.unpaged.tooLarge? := by
  have hskip (q : Query) (hl : q.limit < Nat.pow 2 63) (ho : q.offset < Nat.pow 2 63) :
      q.tooLarge? = (q.quantities.drop 2).find? fun x => Nat.pow 2 63 ≤ x.2 :=
    (List.find?_cons_of_neg (by simpa using hl)).trans (List.find?_cons_of_neg (by simpa using ho))
  rw [hskip q hl ho, hskip q.unpaged (Nat.pow_pos Nat.two_pos) (Nat.pow_pos Nat.two_pos)]
  rfl

/-! ### Asking -/

theorem resolve_unpaged (q : Query) (ctx : Context) : q.unpaged.resolve ctx = (q.resolve ctx).unpaged :=
  resolve_comm unpaged (fun _ _ => rfl) q ctx

/-- An interrupted read asks nothing. -/
theorem asking_interrupted {i : Interruption} (h : ctx.interruption? = some i) (q : Query)
    (rs : List Response) :
    q.asking ctx reached rs = { outcome := some (.error (.ofInterruption i)) } := by
  simp only [asking, admitted, Context.check, h]
  rfl

/-- Nor does a read with a number that does not fit. -/
theorem asking_tooLarge (hctx : ctx.interruption? = none) {quantity : Quantity} {n : Nat}
    (h : q.tooLarge? = some (quantity, n)) (rs : List Response) :
    q.asking ctx reached rs = { outcome := some (.error (.backend (.outOfRange quantity n))) } := by
  rw [asking, q.admitted_eq hctx, h]
  rfl

/-- **A query for the highest sequence asks as if it had no page**, if limit and offset fit. -/
theorem asking_unpaged (h : q.columns = .maxSequence) (hl : q.limit < Nat.pow 2 63)
    (ho : q.offset < Nat.pow 2 63) (rs : List Response) :
    (q.asking ctx reached rs).Alike (q.unpaged.asking ctx reached rs) := by
  cases hctx : ctx.interruption? with
  | some i =>
      rw [asking_interrupted hctx, asking_interrupted hctx]
      exact .refl _
  | none =>
      have hlarge := tooLarge?_unpaged hl ho
      rw [asking, asking, q.admitted_eq hctx, q.unpaged.admitted_eq hctx, ← hlarge]
      cases q.tooLarge? with
      | some x => exact .refl _
      | none =>
          cases reached with
          | error e => exact .refl _
          | ok _ =>
              have hcolumns : (q.resolve ctx).columns = .maxSequence := (q.columns_resolve ctx).trans h
              have hstart : ReadCall.start (q.unpaged.resolve ctx) (Bounds.exact q.unpaged) =
                  (ReadCall.start (q.resolve ctx) (Bounds.exact q)).unpaged := by
                rw [resolve_unpaged]
                rfl
              show Dialogue.Alike _
                (Procedure.dialogue (ReadCall.start (q.unpaged.resolve ctx) (Bounds.exact q.unpaged)) rs)
              rw [hstart]
              exact ReadCall.dialogue_unpaged hcolumns rs

/-! ### Whatever the page -/

/-- The query with this limit and this offset. -/
def onPage (q : Query) (limit offset : Nat) : Query :=
  { q with limit, offset }

/-- How the page of a query for the highest sequence is treated where the database may not be `reached`. -/
structure HighestOnPage (q : Query) (ctx : Context) (reached : Except (StoreError PostgresError) Unit) :
    Prop where
  /-- A page that fits the columns makes no difference. -/
  fitting : ∀ limit offset, limit < Nat.pow 2 63 → offset < Nat.pow 2 63 → ∀ rs,
    ((q.onPage limit offset).asking ctx reached rs).Alike (q.unpaged.asking ctx reached rs)
  /-- Neither does any page of a call that is interrupted before it says anything. -/
  interrupted : ctx.interruption? ≠ none → ∀ limit offset rs,
    (q.onPage limit offset).asking ctx reached rs = q.unpaged.asking ctx reached rs
  /-- Any other call is refused for a limit that does not fit, and nothing is said. -/
  limitRefused : ctx.interruption? = none → ∀ limit offset, Nat.pow 2 63 ≤ limit → ∀ rs,
    (q.onPage limit offset).asking ctx reached rs =
      { outcome := some (.error (.backend (.outOfRange .limit limit))) }
  /-- Else it is refused for an offset that does not. -/
  offsetRefused : ctx.interruption? = none → ∀ limit offset, limit < Nat.pow 2 63 →
    Nat.pow 2 63 ≤ offset → ∀ rs, (q.onPage limit offset).asking ctx reached rs =
      { outcome := some (.error (.backend (.outOfRange .offset offset))) }

/-- A read of the highest sequence goes by its page exactly where the page does not fit. -/
theorem highestOnPage (h : q.columns = .maxSequence) (ctx : Context)
    (reached : Except (StoreError PostgresError) Unit) : q.HighestOnPage ctx reached where
  fitting limit offset hl ho rs := asking_unpaged (q := q.onPage limit offset) h hl ho rs
  interrupted hctx limit offset rs := by
    obtain ⟨i, hi⟩ := Option.ne_none_iff_exists'.mp hctx
    rw [asking_interrupted hi, asking_interrupted hi]
  limitRefused hctx limit offset hl rs :=
    asking_tooLarge hctx (tooLarge?_of_limit (q := q.onPage limit offset) hl) rs
  offsetRefused hctx limit offset hl ho rs :=
    asking_tooLarge hctx (tooLarge?_of_offset (q := q.onPage limit offset) hl ho) rs

end Query

/-- In memory no page makes a difference. -/
theorem Memory.query_onPage {q : Query} (h : q.columns = .maxSequence) (ctx : Context) (m : Memory)
    (limit offset : Nat) : m.query ctx (q.onPage limit offset) = m.query ctx q := by
  have hcolumns : (q.resolve ctx).columns = .maxSequence := (q.columns_resolve ctx).trans h
  have hresolve : (q.onPage limit offset).resolve ctx = (q.resolve ctx).onPage limit offset :=
    Query.resolve_comm (·.onPage limit offset) (fun _ _ => rfl) q ctx
  have hpaged : ((q.resolve ctx).onPage limit offset).columns = .maxSequence := hcolumns
  rw [query, query, hresolve, Ledger.select_maxSequence _ hcolumns, Ledger.select_maxSequence _ hpaged]
  rfl

/-- **The highest sequence does not depend on the page**: in memory on none, and here on none that fits the
columns.  One that does not fit is refused, although the statement would not have mentioned it.  What a query
asks is what its read says on either kind of store. -/
theorem highest_on_pages {q : Query} (h : q.columns = .maxSequence) (ctx : Context) :
    (∀ (m : Memory) (limit offset : Nat), m.query ctx (q.onPage limit offset) = m.query ctx q) ∧
    (∀ p : PooledStore, q.HighestOnPage ctx p.acquire ∧ ∀ q' : Query, ∃ rs,
      (q'.asking ctx p.acquire rs).outcome = some (p.query ctx q').1 ∧ (p.query ctx q').2 =
        { p with connection := p.connection.sendAll ctx (q'.asking ctx p.acquire rs).statements }) ∧
    ∀ t : TransactionStore, q.HighestOnPage ctx (.ok ()) ∧ ∀ q' : Query, ∃ rs,
      (q'.asking ctx (.ok ()) rs).outcome = some (t.query ctx q').1 ∧ (t.query ctx q').2 =
        { connection := t.connection.sendAll ctx (q'.asking ctx (.ok ()) rs).statements } := by
  refine ⟨fun m => m.query_onPage h ctx, fun p => ⟨q.highestOnPage h ctx _, fun q' => ?_⟩,
    fun t => ⟨q.highestOnPage h ctx _, fun q' => ?_⟩⟩
  · obtain ⟨rs, -, houtcome, hend⟩ := p.query_asking ctx q'
    exact ⟨rs, houtcome, hend⟩
  · obtain ⟨rs, -, houtcome, hend⟩ := t.query_asking ctx q'
    exact ⟨rs, houtcome, hend⟩

/-! ### The highest sequence of all -/

/-- The highest sequence of all. -/
def highestOfAll : Query := { columns := .maxSequence }

/-- A limit of one is not heard of, and an offset that does not fit is refused. -/
theorem highest_on_pages_ofAll :
    highestOfAll.columns = .maxSequence ∧
    (∀ rs, ((highestOfAll.onPage 1 0).asking {} (.ok ()) rs).Alike
      (highestOfAll.asking {} (.ok ()) rs)) ∧
    ∀ rs, ((highestOfAll.onPage 1 (Nat.pow 2 63)).asking {} (.ok ()) rs).outcome =
      some (.error (.backend (.outOfRange .offset (Nat.pow 2 63)))) := by
  have hcolumns : highestOfAll.columns = .maxSequence := rfl
  obtain ⟨-, -, h⟩ := highest_on_pages hcolumns {}
  obtain ⟨hpages, -⟩ := h {}
  refine ⟨hcolumns, hpages.fitting 1 0 (by decide) (by decide), fun rs => ?_⟩
  rw [hpages.offsetRefused rfl 1 (Nat.pow 2 63) (by decide) (Nat.le_refl _)]

/-- So here it is not the same for every page that can be asked for. -/
theorem not_highest_alike :
    ¬ ∀ q : Query, q.columns = .maxSequence → ∀ ctx reached rs (limit offset : Nat),
      limit < Nat.pow 2 64 → offset < Nat.pow 2 64 →
      ((q.onPage limit offset).asking ctx reached rs).Alike (q.unpaged.asking ctx reached rs) := by
  intro h
  have houtcome := (h highestOfAll rfl {} (.ok ()) [] (Nat.pow 2 63) 0 (by decide) (by decide)).outcome
  have hwaits : (highestOfAll.unpaged.asking {} (.ok ()) []).outcome = none := rfl
  have hlarge := Query.tooLarge?_of_limit (q := highestOfAll.onPage (Nat.pow 2 63) 0) (Nat.le_refl _)
  rw [Query.asking_tooLarge rfl hlarge, hwaits] at houtcome
  cases houtcome

end EventSourcing
