import EventSourcing.Postgres.Store
import EventSourcing.Proofs.Postgres.Committing

/-!
# The PostgreSQL store — a push persists everything or nothing

A pooled push is a transaction of its own.  Whatever the database answers, and whenever the call is
interrupted, it sends the statements of one script and stops at the first that lets it down.  Only the
last of them is the commit, so a push that ends with any error of its own has persisted nothing.

* `uncommitted_of_isRetryable`: an error that is worth another try is none of the database.
* `idle_calls`: between the calls on a pool, nothing is owed on its connection.
* `push_pushing`: a push on an idle pool says what `PooledStore.pushing` says.
* `push_all_or_nothing`: for all responses, what is said is `AllOrNothing`, and the pool stays idle.
-/

namespace EventSourcing

/-- The statements of a push that commits, with the rows that it inserts. -/
def pushScript (commands : List Command) (staged : List Staged) : List Statement :=
  [.control .start false, .lock] ++ (streamsOf commands).map .head ++
    [.insert staged, .control .commit false]

/-- The errors of a push that has not sent its commit: all but the faults of the database. -/
def Uncommitted : StoreError PostgresError → Prop
  | .backend (.database _) => False
  | _ => True

/-- A push is worth another try only where nothing was committed. -/
theorem uncommitted_of_isRetryable {e : StoreError PostgresError} (h : e.isRetryable = true) :
    Uncommitted e := by
  cases e with
  | backend e => cases h
  | _ => exact trivial

/-- A dialogue in which a push of these commands persists all of them or none.  The push may send
statements once it is `ready`. -/
structure AllOrNothing (commands : List Command) (ready : Prop) (rs : List Response)
    (d : Dialogue (Except (StoreError PostgresError) (List Event))) : Prop where
  script : ∃ staged, staged.map Staged.command = commands ∧
    d.statements <+: pushScript commands staged
  /-- Every statement but the last has succeeded. -/
  answered : ∀ i, i + 1 < d.statements.length → ∃ r, rs[i]? = some r ∧ ∃ rows, r.Gives rows
  commits : .control .commit false ∈ d.statements ↔
    ready ∧ ∃ begun locked reads inserted rest heads,
      rs = begun :: locked :: (reads ++ inserted :: rest) ∧
      PushCall.Admitted commands heads begun locked reads inserted
  succeeds : (∃ events, d.outcome = some (.ok events)) ↔
    ∃ (i : Nat) (r : Response) (rows : List Row),
      d.statements[i]? = some (Statement.control .commit false) ∧ rs[i]? = some r ∧
      r.answer = .ok rows
  uncommitted : ∀ e, d.outcome = some (.error e) → Uncommitted e →
    .control .commit false ∉ d.statements
  refused : ∀ e, d.outcome = some (.error e) → Refuses e → ∀ staged, .insert staged ∉ d.statements

namespace PushCall

/-- A push that has yet to open its transaction. -/
theorem allOrNothing (commands : List Command) (rs : List Response) :
    AllOrNothing commands True rs (({ commands } : PushCall).answers rs) where
  script := statements_follow { commands } rs
  answered := answered_of_lt { commands } rs
  commits := (commits_iff commands false rs).trans (iff_of_eq (true_and _)).symm
  succeeds := ok_iff_committed { commands } rs (by rintro e ⟨⟩)
  uncommitted e he hu hs := by
    obtain ⟨fault, rfl⟩ := error_of_commit { commands } rs hs e he
    exact hu
  refused e he hr staged hs := not_refuses_of_insert { commands } rs hs e he hr

end PushCall

/-- Nor does a push that cannot start persist anything. -/
theorem allOrNothing_unready (commands : List Command) {ready : Prop} (hready : ¬ ready)
    (rs : List Response) (e : StoreError PostgresError) :
    AllOrNothing commands ready rs { outcome := some (.error e) } where
  script := ⟨_, map_command_stage (fun _ => none) commands, List.nil_prefix⟩
  answered _ h := absurd h (Nat.not_lt_zero _)
  commits := ⟨fun h => absurd h List.not_mem_nil, fun h => absurd h.1 hready⟩
  succeeds := by
    constructor
    · rintro ⟨events, h⟩
      cases h
    · rintro ⟨i, r, rows, h, -⟩
      cases h
  uncommitted _ _ _ := List.not_mem_nil
  refused _ _ _ _ := List.not_mem_nil

namespace PooledStore

/-- A push starts exactly if the call is not interrupted and the database can be reached. -/
theorem ready_iff {ctx : Context} {p : PooledStore} :
    (do ctx.check; p.acquire) = Except.ok () ↔ ctx.interruption? = none ∧ p.network = .up := by
  simp only [Context.check, acquire, Network.check]
  cases ctx.interruption? with
  | some i =>
      constructor
      · intro h
        cases h
      · rintro ⟨h, -⟩
        cases h
  | none =>
      cases p.network with
      | up => exact ⟨fun _ => ⟨rfl, rfl⟩, fun _ => rfl⟩
      | down reason =>
          constructor
          · intro h
            cases h
          · rintro ⟨-, h⟩
            cases h

/-- What a push says to a database that gives these responses, and what it comes to.  Before it says
anything, it looks for an interruption and takes a connection. -/
def pushing (ctx : Context) (b : Batch) (p : PooledStore) (rs : List Response) :
    Dialogue (Except (StoreError PostgresError) (List Event)) :=
  match (do ctx.check; p.acquire) with
  | .error e => { outcome := some (.error e) }
  | .ok () => ({ commands := (b.scoped ctx).toList } : PushCall).answers rs

/-- A push on a pool persists everything or nothing. -/
theorem allOrNothing_pushing (p : PooledStore) (ctx : Context) (b : Batch) (rs : List Response) :
    AllOrNothing (b.scoped ctx).toList (ctx.interruption? = none ∧ p.network = .up) rs
      (p.pushing ctx b rs) := by
  rw [pushing]
  rw [← ready_iff]
  cases hready : (do ctx.check; p.acquire) with
  | error e => exact allOrNothing_unready _ (by rintro ⟨⟩) rs e
  | ok _ =>
      have h := PushCall.allOrNothing (b.scoped ctx).toList rs
      exact { h with commits := h.commits.trans (and_congr_left' (iff_of_true trivial rfl)) }

/-! ### On the connection -/

/-- Nothing is owed on the connection. -/
def Idle (p : PooledStore) : Prop := p.connection.owed = none

/-- What a push is followed by: the rollback of a transaction that was opened and did not succeed. -/
def closing {α : Type} (result : Except (StoreError PostgresError) α) (rs : List Response) :
    List Statement :=
  match result, rs.map Response.answer with
  | .error _, .ok _ :: _ => [.control .rollback false]
  | _, _ => []

/-- A transaction is rolled back exactly if it was left open. -/
theorem closing_eq {c : PushCall} (hc : c.phase = .opening) {rs : List Response} {e : PushEnd}
    (h : (Procedure.dialogue c rs).outcome = some e) :
    closing e.result rs = if e.isOpen then [.control .rollback false] else [] := by
  have hopen := PushCall.isOpen_iff hc h
  simp only [closing]
  split
  · rename_i error rows answers hresult hanswers
    obtain ⟨r, rest, rfl, hrows, -⟩ := List.map_eq_cons_iff.mp hanswers
    rw [if_pos (hopen.mpr ⟨⟨error, hresult⟩, r, rest, rows, rfl, hrows⟩)]
  · rename_i hne
    rw [if_neg]
    intro ho
    obtain ⟨⟨error, hresult⟩, r, rest, rows, rfl, hrows⟩ := hopen.mp ho
    exact hne error rows (rest.map Response.answer) hresult (by rw [List.map_cons, hrows])

/-- **A push on an idle pool** says what `pushing` says, for the responses that the scripted database
gives to its statements. -/
theorem push_pushing {p : PooledStore} (h : p.Idle) (ctx : Context) (b : Batch) :
    ∃ rs, rs = p.connection.responses ctx (p.pushing ctx b rs).statements ∧
      (p.pushing ctx b rs).outcome = some (p.push ctx b).1 ∧
      (p.push ctx b).2.connection.received =
        p.connection.received ++ (p.pushing ctx b rs).statements ++ closing (p.push ctx b).1 rs := by
  simp only [pushing, push]
  cases hready : (do ctx.check; p.acquire) with
  | error e =>
      refine ⟨[], rfl, rfl, ?_⟩
      show p.connection.received = p.connection.received ++ [] ++ []
      rw [List.append_nil, List.append_nil]
  | ok _ =>
      obtain ⟨rs, hresponses, houtcome, hend⟩ := Connection.run_dialogue ctx
        ({ commands := (b.scoped ctx).toList } : PushCall) p.connection
      have hclosing := closing_eq rfl houtcome
      have hreceived : (p.connection.run ctx
          ({ commands := (b.scoped ctx).toList } : PushCall)).2.received =
            p.connection.received ++ _ := hend ▸ (Connection.sendAll_of_not_owed ctx _ h).2
      refine ⟨rs, hresponses, ?_, ?_⟩
      · show ((Procedure.dialogue _ rs).outcome.map PushEnd.result) = _
        rw [houtcome]
        rfl
      · dsimp only
        rw [hclosing]
        -- a transaction left open is rolled back at once
        split
        · show _ ++ [_] = _
          rw [hreceived]
          rfl
        · rw [hreceived, List.append_nil]
          rfl

/-- **A pool stays idle** from one call to the next. -/
theorem idle_calls {p : PooledStore} (h : p.Idle) (ctx ctx' : Context) (q : Query) (b : Batch) :
    (p.query ctx q).2.Idle ∧ (p.push ctx' b).2.Idle ∧ p.migrate.2.Idle := by
  refine ⟨?_, ?_, ?_⟩
  · rw [query]
    split
    · exact h
    · exact Connection.owed_run ctx _ h
  · rw [push]
    split
    · exact h
    · show Connection.owed (if _ then _ else _) = none
      split
      · exact Connection.owed_run ctx' _ h
      · exact Connection.owed_run ctx' _ h
  · rw [migrate]
    split
    · exact h
    · exact Connection.owed_run {} _ h

/-- **A push persists everything or nothing.**  Whatever a database responds, and whenever the call is
interrupted, the push keeps to its script and sends its commit exactly if the responses are admitted; where it
is worth another try, it has sent none.  On an idle pool, it is the dialogue with the responses that the
scripted database gives to it, and it leaves the pool idle for the next call. -/
theorem push_all_or_nothing (p : PooledStore) (ctx : Context) (b : Batch) :
    (∀ rs, AllOrNothing (b.scoped ctx).toList (ctx.interruption? = none ∧ p.network = .up) rs
      (p.pushing ctx b rs) ∧
      ∀ e, (p.pushing ctx b rs).outcome = some (.error e) → e.isRetryable = true →
        .control .commit false ∉ (p.pushing ctx b rs).statements) ∧
    (p.Idle →
      (∃ rs, rs = p.connection.responses ctx (p.pushing ctx b rs).statements ∧
        (p.pushing ctx b rs).outcome = some (p.push ctx b).1 ∧
        (p.push ctx b).2.connection.received =
          p.connection.received ++ (p.pushing ctx b rs).statements ++ closing (p.push ctx b).1 rs) ∧
      ∀ ctx' q, (p.query ctx' q).2.Idle ∧ (p.push ctx b).2.Idle ∧ p.migrate.2.Idle) := by
  refine ⟨fun rs => ?_, fun h => ⟨push_pushing h ctx b, fun ctx' q => idle_calls h ctx' ctx q b⟩⟩
  have hall := allOrNothing_pushing p ctx b rs
  exact ⟨hall, fun e he hretry => hall.uncommitted e he (uncommitted_of_isRetryable hretry)⟩

/-- An organisation is added and renamed, where there was none. -/
def founding : Batch :=
  ⟨{ aggregate := { type := "org", id := "org-1" }, type := "org.added", sequence := some 0 },
    [{ aggregate := { type := "org", id := "org-1" }, type := "org.changed" }]⟩

/-- Responses that let the push commit.  The rows are given back out of order. -/
def founded : List Response :=
  [{ answer := .ok [] }, { answer := .ok [[.null]] }, { answer := .ok [[.integer 0]] },
    { answer := .ok [[.integer 8, .timestamp default], [.integer 7, .timestamp default]] }]

/-- With these responses the push commits, and it is what the push on a fresh pool says. -/
theorem push_all_or_nothing_founding :
    ({} : PooledStore).Idle ∧
      .control .commit false ∈
        (({} : PooledStore).pushing (.forInstance "t1") founding founded).statements ∧
      ∃ rs, (({} : PooledStore).pushing (.forInstance "t1") founding rs).outcome =
        some (({} : PooledStore).push (.forInstance "t1") founding).1 := by
  obtain ⟨hall, hpush⟩ := push_all_or_nothing {} (.forInstance "t1") founding
  obtain ⟨⟨rs, -, houtcome, -⟩, -⟩ := hpush rfl
  have hstreams : streamsOf (founding.scoped (.forInstance "t1")).toList =
      [⟨"t1", "org", "org-1"⟩] := by decide
  refine ⟨rfl, (hall founded).1.commits.mpr ⟨⟨rfl, rfl⟩, _, _, [_], _, [], fun _ => none, rfl, ?_⟩, rs,
    houtcome⟩
  exact {
    begun := ⟨_, rfl, rfl⟩
    locked := ⟨_, rfl, rfl⟩
    read := hstreams ▸ .cons ⟨_, ⟨rfl, rfl⟩, rfl⟩ .nil
    fits := ⟨by decide, by decide⟩
    inserted := ⟨_, ⟨rfl, rfl⟩, _, rfl, rfl, by decide⟩ }

end PooledStore

end EventSourcing
