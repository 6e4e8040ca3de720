import EventSourcing.Proofs.Dictionary
import EventSourcing.Proofs.Ledger.Agreement
import EventSourcing.Proofs.Memory.Matching

/-!
# The store in memory — isolation of tenants

A tenant sees the streams of its own instance and those of no instance.  What is pushed to the streams of
other tenants moves the positions and the dates of what it sees, and nothing else.

* `AgreeOn.select`: ledgers that agree on all that a query may select answer it alike.
* `agreeOn_push`, `agreeOn_push_left`: one push, in sight on both sides or out of sight on one.
* `agree_history`: the pushes out of sight can be left out of a run, and those in sight end as before.
* `tenant_isolated`: **a tenant cannot tell whether other tenants have pushed anything.**
-/

namespace EventSourcing

/-! ### Answers up to positions and dates -/

namespace Output

/-- The answer up to the positions and dates of its events. -/
def content : Output → Output
  | events l => .events (l.map Event.content)
  | maxSequence n => .maxSequence n
  | instanceIds l => .instanceIds l

/-- The instances that an answer tells of. -/
def instances : Output → List String
  | events l => l.map (·.aggregate.instanceId)
  | maxSequence _ => []
  | instanceIds l => l

end Output

/-- A query that asks nothing about positions and dates cannot tell them apart. -/
theorem Query.Timeless.selects_content {q : Query} (h : q.Timeless) (e : Event) :
    q.selects e.content = q.selects e := by
  rw [h.selects_eq, h.selects_eq]
  rfl

namespace Ledger

/-- An answer depends on what the query matches alone, up to positions and dates. -/
theorem content_select_eq {l l' : Ledger} {q : Query}
    (h : (l.matching q).map Event.content = (l'.matching q).map Event.content) :
    (l.select q).content = (l'.select q).content := by
  have hmap {α : Type} (f : Event → α) (hf : ∀ e : Event, f e.content = f e) :
      (l.matching q).map f = (l'.matching q).map f := by
    have hcongr := congrArg (List.map f) h
    rw [List.map_map, List.map_map] at hcongr
    rwa [show f ∘ Event.content = f from funext hf] at hcongr
  have hsequences := hmap Event.sequence fun _ => rfl
  have hinstances := hmap (·.aggregate.instanceId) fun _ => rfl
  simp only [matching] at h hsequences hinstances
  rw [select, select]
  cases q.columns with
  | event =>
      refine congrArg Output.events ?_
      rw [← Query.page_map, ← Query.page_map]
      cases q.desc with
      | true => simp only [if_pos, List.map_reverse, h]
      | false => simp only [Bool.false_eq_true, if_false, h]
  | maxSequence => exact congrArg (fun ns => Output.maxSequence ns.max?) hsequences
  | instanceIds => simp only [hinstances]

/-- **Ledgers that agree on all that a query may select answer it alike**, up to positions and
dates. -/
theorem AgreeOn.select {p : Stream → Bool} {l l' : Ledger} (h : l.AgreeOn p l') {q : Query}
    (hq : q.Timeless) (hp : ∀ e, q.selects e = true → p e.stream = true) :
    (l.select q).content = (l'.select q).content := by
  have hmatching (l : Ledger) : (l.matching q).map Event.content =
      ((l.log.filter fun e => p e.stream).map Event.content).filter q.selects := by
    rw [List.filter_map, show q.selects ∘ Event.content = q.selects from funext hq.selects_content,
      List.filter_filter, matching]
    refine congrArg _ (List.filter_congr fun e _ => ?_)
    cases hs : q.selects e with
    | true => rw [hp e hs]; rfl
    | false => rfl
  refine content_select_eq ?_
  rw [hmatching, hmatching, h.events]

/-- Of a tenant's query, an answer tells of no instance but the tenant's and the empty one. -/
theorem instances_select {l : Ledger} {q : Query} {t : String} (ht : t ≠ "")
    (hq : q.instanceId = some t) : ∀ i ∈ (l.select q).instances, i = t ∨ i = "" := by
  have hmatching : ∀ e ∈ l.log.filter q.selects,
      e.aggregate.instanceId = t ∨ e.aggregate.instanceId = "" := fun e he =>
    (Query.instanceId_of_selects ht hq (List.mem_filter.mp he).2).symm
  have hordered {α : Type} {xs : List α} {x : α}
      (hx : x ∈ q.page (if q.desc then xs.reverse else xs)) : x ∈ xs := by
    have hx := Query.mem_of_mem_page hx
    split at hx
    · exact List.mem_reverse.mp hx
    · exact hx
  intro i hi
  rw [select] at hi
  cases hc : q.columns <;> rw [hc] at hi
  · obtain ⟨e, he, rfl⟩ := List.mem_map.mp hi
    exact hmatching e (hordered he)
  · cases hi
  · obtain ⟨e, he, rfl⟩ := List.mem_map.mp (mem_sortedDistinct.mp (hordered hi))
    exact hmatching e he

end Ledger

/-! ### Runs of pushes -/

/-- A push that a client asks for. -/
structure Request where
  ctx : Context
  batch : Batch

namespace Request

/-- Every command goes to a stream of the tenant, or of no instance. -/
def Within (t : String) (r : Request) : Prop :=
  ∀ c ∈ (r.batch.scoped r.ctx).toList, c.aggregate.instanceId = t ∨ c.aggregate.instanceId = ""

/-- Every command goes to a stream of another tenant. -/
def Apart (t : String) (r : Request) : Prop :=
  ∀ c ∈ (r.batch.scoped r.ctx).toList, c.aggregate.instanceId ≠ t ∧ c.aggregate.instanceId ≠ ""

instance (t : String) (r : Request) : Decidable (r.Within t) :=
  inferInstanceAs (Decidable (∀ c ∈ (r.batch.scoped r.ctx).toList, _))

instance (t : String) (r : Request) : Decidable (r.Apart t) :=
  inferInstanceAs (Decidable (∀ c ∈ (r.batch.scoped r.ctx).toList, _))

/-- A batch holds a command, and that goes to one stream. -/
theorem Apart.not_within {t : String} {r : Request} (h : r.Apart t) : ¬ r.Within t := by
  intro hwithin
  have hfirst : (r.batch.scoped r.ctx).first ∈ (r.batch.scoped r.ctx).toList := List.mem_cons_self
  rcases hwithin _ hfirst with ht | hempty
  · exact (h _ hfirst).1 ht
  · exact (h _ hfirst).2 hempty

end Request

/-- The streams that a tenant sees: its own, and those of no instance. -/
def inSight (t : String) (s : Stream) : Bool :=
  s.instanceId = t || s.instanceId = ""

/-- A tenant sees its own aggregates and those of nobody. -/
theorem inSight_iff {t : String} {a : Aggregate} :
    inSight t a.stream = true ↔ a.instanceId = t ∨ a.instanceId = "" := by
  rw [inSight, Bool.or_eq_true, decide_eq_true_iff, decide_eq_true_iff]
  rfl

/-- How a push ended, up to positions and dates. -/
def untimed (x : Request × Except (StoreError Empty) (List Event)) :
    Request × Except (StoreError Empty) (List Event) :=
  (x.1, x.2.map (·.map Event.content))

namespace Memory

/-- The store after a series of pushes. -/
def pushAll (m : Memory) (requests : List Request) : Memory :=
  requests.foldl (fun m r => (m.push r.ctx r.batch).2) m

/-- Every push of a series with its outcome. -/
def history (m : Memory) : List Request → List (Request × Except (StoreError Empty) (List Event))
  | [] => []
  | r :: rs => (r, (m.push r.ctx r.batch).1) :: history (m.push r.ctx r.batch).2 rs

variable {p : Stream → Bool} {m m' : Memory} {ctx : Context} {b : Batch}

/-- A push in sight, on stores that agree on what is in sight. -/
theorem agreeOn_push (h : m.ledger.AgreeOn p m'.ledger)
    (hp : ∀ c ∈ (b.scoped ctx).toList, p c.stream = true) :
    (m.push ctx b).1.map (·.map Event.content) = (m'.push ctx b).1.map (·.map Event.content) ∧
      (m.push ctx b).2.ledger.AgreeOn p (m'.push ctx b).2.ledger := by
  have hcomm (x : Except Conflict (List Event)) :
      (x.mapError StoreError.conflict : Except (StoreError Empty) _).map (·.map Event.content) =
        (x.map (·.map Event.content)).mapError .conflict := by
    cases x <;> rfl
  obtain ⟨hresult, hledger⟩ := h.commit hp m.clock.next m'.clock.next
  simp only [push]
  cases ctx.check with
  | error e => exact ⟨rfl, h⟩
  | ok _ => exact ⟨by simp only [hcomm, hresult], hledger⟩

/-- A push out of sight, to one of the stores alone. -/
theorem agreeOn_push_left (h : m.ledger.AgreeOn p m'.ledger)
    (hp : ∀ c ∈ (b.scoped ctx).toList, p c.stream = false) :
    (m.push ctx b).2.ledger.AgreeOn p m'.ledger := by
  simp only [push]
  cases ctx.check with
  | error e => exact h
  | ok _ => exact h.commit_left hp m.clock.next

/-- **The pushes out of sight can be left out of a run.**  Those in sight end as before, and the stores
that come of it agree on what is in sight. -/
theorem agree_history {t : String} {requests : List Request}
    (hr : ∀ r ∈ requests, r.Within t ∨ r.Apart t)
    (h : m.ledger.AgreeOn (inSight t) m'.ledger) :
    ((m.history requests).filter fun x => x.1.Within t).map untimed =
        (m'.history (requests.filter fun r => r.Within t)).map untimed ∧
      (m.pushAll requests).ledger.AgreeOn (inSight t)
        (m'.pushAll (requests.filter fun r => r.Within t)).ledger := by
  induction requests generalizing m m' with
  | nil => exact ⟨rfl, h⟩
  | cons r rs ih =>
      obtain ⟨hfirst, hrest⟩ := List.forall_mem_cons.mp hr
      rcases hfirst with hwithin | hapart
      · -- both runs make this push, and it ends in the same way
        have hsight : ∀ c ∈ (r.batch.scoped r.ctx).toList, inSight t c.stream = true :=
          fun c hc => inSight_iff.mpr (hwithin c hc)
        obtain ⟨hresult, hafter⟩ := agreeOn_push h hsight
        obtain ⟨hhistory, hledger⟩ := ih hrest hafter
        rw [List.filter_cons_of_pos (by simpa using hwithin), history, history,
          List.filter_cons_of_pos (by simpa using hwithin), List.map_cons, List.map_cons, hhistory]
        exact ⟨congrArg (· :: _) (congrArg (Prod.mk r) hresult), hledger⟩
      · -- only the one run makes it
        have hnot := hapart.not_within
        have hsight : ∀ c ∈ (r.batch.scoped r.ctx).toList, inSight t c.stream = false :=
          fun c hc => Bool.eq_false_iff.mpr fun hs =>
            (inSight_iff.mp hs).elim (hapart c hc).1 (hapart c hc).2
        rw [List.filter_cons_of_neg (by simpa using hnot), history,
          List.filter_cons_of_neg (by simpa using hnot)]
        exact ih hrest (agreeOn_push_left h hsight)

/-- **A tenant cannot tell whether other tenants have pushed anything.**  Take any run of pushes from the
empty store of which each goes either to streams that the tenant sees or to streams that it does not
see.  Without the latter, the others end in the same way; and the tenant's queries about anything but
positions and dates are answered in the same way, up to positions and dates.  No answer tells of another
tenant's instance. -/
theorem tenant_isolated {t : String} (ht : t ≠ "") {requests : List Request}
    (hr : ∀ r ∈ requests, r.Within t ∨ r.Apart t) (clock clock' : Clock) :
    ((({ clock } : Memory).history requests).filter fun x => x.1.Within t).map untimed =
        (({ clock := clock' } : Memory).history (requests.filter fun r => r.Within t)).map untimed ∧
      ∀ q : Query, q.instanceId = none → q.Timeless → ∃ output output',
        ((({ clock } : Memory).pushAll requests).query (.forInstance t) q).1 = .ok output ∧
        ((({ clock := clock' } : Memory).pushAll (requests.filter fun r => r.Within t)).query
          (.forInstance t) q).1 = .ok output' ∧
        output.content = output'.content ∧ ∀ i ∈ output.instances, i = t ∨ i = "" := by
  have hempty : ({ clock } : Memory).ledger.AgreeOn (inSight t) ({ clock := clock' } : Memory).ledger :=
    Ledger.AgreeOn.refl _ _
  obtain ⟨hhistory, hledger⟩ := agree_history hr hempty
  refine ⟨hhistory, fun q hq htimeless => ?_⟩
  have htenant : (q.resolve (.forInstance t)).instanceId = some t := by
    simp [Query.resolve, hq, Context.forInstance, Query.nonEmpty?, ht]
  have hcontent := hledger.select (htimeless.resolve (.forInstance t)) fun e he =>
    inSight_iff.mpr (Query.instanceId_of_selects ht htenant he).symm
  exact ⟨_, _, rfl, rfl, hcontent, Ledger.instances_select ht htenant⟩

/-! ### Two tenants and one id -/

/-- Organisation `org-1` is added on behalf of a tenant, where it is expected to be new. -/
def founded (instanceId : String) : Request where
  ctx := .forInstance instanceId
  batch := ⟨{ aggregate := { type := "org", id := "org-1" }, type := "org.added", sequence := some 0 }, []⟩

/-- Two tenants use the same id; the first of them tries to use it twice. -/
def neighbours : List Request :=
  [founded "t2", founded "t1", founded "t2", founded "t1"]

/-- The last event of all that the tenant sees. -/
def newest : Query := { limit := 1, desc := true }

/-- What the neighbour pushes makes no difference to the tenant. -/
theorem tenant_isolated_neighbours :
    (∀ r ∈ neighbours, r.Within "t1" ∨ r.Apart "t1") ∧
      ((({ clock := default } : Memory).history neighbours).filter fun x => x.1.Within "t1").map
          untimed =
        (({ clock := default } : Memory).history [founded "t1", founded "t1"]).map untimed ∧
      ∃ output output',
        ((({ clock := default } : Memory).pushAll neighbours).query (.forInstance "t1") newest).1 =
          .ok output ∧
        ((({ clock := default } : Memory).pushAll [founded "t1", founded "t1"]).query
          (.forInstance "t1") newest).1 = .ok output' ∧
        output ≠ output' ∧ output.content = output'.content := by
  have hr : ∀ r ∈ neighbours, r.Within "t1" ∨ r.Apart "t1" := by decide
  obtain ⟨hhistory, hquery⟩ := tenant_isolated (t := "t1") (by decide) hr default default
  obtain ⟨output, output', h, h', hcontent, -⟩ := hquery newest rfl ⟨rfl, rfl, rfl, rfl⟩
  have hne : output ≠ output' := by
    cases h
    cases h'
    decide
  exact ⟨hr, hhistory, output, output', h, h', hne, hcontent⟩

end Memory

end EventSourcing
