import EventSourcing.Postgres.Store

/-!
# Dialogues — a call and any database

What a database answers is not up to a call, and neither is when the call is interrupted.  A `Dialogue`
is what a call says for given responses, whatever they are: the statements it sends, and how it ends if
the responses bring it to an end.

* `Procedure.dialogue_alike`: calls that take their steps alike hold dialogues that are alike.
* `Connection.run_dialogue`: a run on a connection is a dialogue with the responses that the scripted
  database happens to give.
-/

namespace EventSourcing

/-- What a call says, and how it ends. -/
structure Dialogue (ρ : Type) where
  /-- The statements sent, the last of which may still wait for its response. -/
  statements : List Statement := []
  outcome : Option ρ

namespace Dialogue

variable {ρ σ : Type}

/-- The dialogue with a statement before it. -/
def after (s : Statement) (d : Dialogue ρ) : Dialogue ρ where
  statements := s :: d.statements
  outcome := d.outcome

/-- The dialogue with what it comes to taken further. -/
def map (f : ρ → σ) (d : Dialogue ρ) : Dialogue σ where
  statements := d.statements
  outcome := d.outcome.map f

end Dialogue

namespace Procedure

variable {π ρ : Type} [Procedure π ρ]

/-- The dialogue of a call that finds these responses.  A call that runs out of them waits. -/
def dialogue (p : π) : List Response → Dialogue ρ
  | [] =>
    match step p with
    | .ended result => { outcome := some result }
    | .sent s _ => { statements := [s], outcome := none }
  | r :: rs =>
    match step p with
    | .ended result => { outcome := some result }
    | .sent s resume => (dialogue (resume r) rs).after s

/-- A procedure that has ended says nothing. -/
theorem dialogue_ended {p : π} {result : ρ} (h : step p = .ended result) (rs : List Response) :
    dialogue p rs = { outcome := some result } := by
  cases rs with
  | nil => rw [dialogue, h]
  | cons r rs => rw [dialogue, h]

/-- Without a response, a procedure waits after its statement. -/
theorem dialogue_nil {p : π} {s : Statement} {resume : Response → π} (h : step p = .sent s resume) :
    dialogue p [] = { statements := [s], outcome := none } := by
  rw [dialogue, h]

/-- A response lets a procedure go on. -/
theorem dialogue_cons {p : π} {s : Statement} {resume : Response → π} (h : step p = .sent s resume)
    (r : Response) (rs : List Response) :
    dialogue p (r :: rs) = (dialogue (resume r) rs).after s := by
  rw [dialogue, h]

/-- A call that keeps to an invariant from one statement to the next ends in a state that satisfies
it. -/
theorem exists_ended (I : π → Prop)
    (hstep : ∀ p s resume, I p → step p = .sent s resume → ∀ r, I (resume r)) {p : π} {result : ρ}
    {rs : List Response} (hp : I p) (h : (dialogue p rs).outcome = some result) :
    ∃ q, I q ∧ step q = .ended result := by
  induction rs generalizing p with
  | nil =>
      cases hs : step p with
      | ended result' =>
          rw [dialogue_ended hs] at h
          cases h
          exact ⟨p, hp, hs⟩
      | sent s resume =>
          rw [dialogue_nil hs] at h
          cases h
  | cons r rs ih =>
      cases hs : step p with
      | ended result' =>
          rw [dialogue_ended hs] at h
          cases h
          exact ⟨p, hp, hs⟩
      | sent s resume =>
          rw [dialogue_cons hs] at h
          exact ih (hstep p s resume hp hs r) h

end Procedure

/-! ### Dialogues that are alike -/

namespace Dialogue

variable {ρ : Type}

/-- What the database hears: one text after another, each with its bound values. -/
def heard (d : Dialogue ρ) : List (String × List SqlValue) :=
  d.statements.map fun s => (s.text, s.values)

/-- The same is heard in both dialogues, and they end the same. -/
structure Alike (d d' : Dialogue ρ) : Prop where
  heard : d.heard = d'.heard
  outcome : d.outcome = d'.outcome

theorem Alike.refl (d : Dialogue ρ) : d.Alike d :=
  ⟨rfl, rfl⟩

theorem Alike.after {d d' : Dialogue ρ} {s s' : Statement} (hs : s.fragments = s'.fragments)
    (h : d.Alike d') : (d.after s).Alike (d'.after s') where
  heard := by
    show (s.text, s.values) :: d.heard = (s'.text, s'.values) :: d'.heard
    rw [Statement.text, Statement.values, hs, h.heard]
    rfl
  outcome := h.outcome

end Dialogue

/-- Both calls end the same, or both say the same and go on with related states. -/
inductive Step.Alike {π ρ : Type} (R : π → π → Prop) : Step π ρ → Step π ρ → Prop where
  | ended (result : ρ) : Alike R (.ended result) (.ended result)
  | sent {s s' : Statement} {resume resume' : Response → π} (hs : s.fragments = s'.fragments)
      (h : ∀ r, R (resume r) (resume' r)) : Alike R (.sent s resume) (.sent s' resume')

/-- **Calls that take their steps alike** hold dialogues that are alike, whatever the responses. -/
theorem Procedure.dialogue_alike {π ρ : Type} [Procedure π ρ] {R : π → π → Prop}
    (hR : ∀ p p', R p p' → (step p).Alike R (step p')) {p p' : π} (h : R p p') (rs : List Response) :
    (dialogue p rs).Alike (dialogue p' rs) := by
  induction rs generalizing p p' with
  | nil =>
      have hstep := hR p p' h
      rw [dialogue, dialogue]
      generalize step p = next, step p' = next' at hstep
      cases hstep with
      | ended result => exact .refl _
      | sent hs _ => exact Dialogue.Alike.after hs (.refl { outcome := none })
  | cons r rs ih =>
      have hstep := hR p p' h
      rw [dialogue, dialogue]
      generalize step p = next, step p' = next' at hstep
      cases hstep with
      | ended result => exact .refl _
      | sent hs hresume => exact (ih (hresume r)).after hs

/-! ### On a connection -/

namespace Connection

/-- The connection after these statements of a call. -/
def sendAll (ctx : Context) (statements : List Statement) (c : Connection) : Connection :=
  statements.foldl (fun c s => (c.send ctx s).2) c

/-- The responses to these statements of a call, one after another. -/
def responses (ctx : Context) : List Statement → Connection → List Response
  | [], _ => []
  | s :: statements, c => (c.send ctx s).1 :: responses ctx statements (c.send ctx s).2

/-- Nothing is owed on a connection that has settled, and without a debt nothing goes out before a
statement. -/
theorem send_of_not_owed {c : Connection} (h : c.owed = none) (ctx : Context) (s : Statement) :
    (c.send ctx s).2.owed = none ∧ (c.send ctx s).2.received = c.received ++ [s] := by
  have hsettle : c.settle = c := by
    rw [settle]
    rw [h]
  rw [send]
  rw [hsettle]
  exact ⟨h, rfl⟩

/-- Where nothing is owed, the database receives the statements alone. -/
theorem sendAll_of_not_owed (ctx : Context) (statements : List Statement) {c : Connection}
    (h : c.owed = none) :
    (c.sendAll ctx statements).owed = none ∧
      (c.sendAll ctx statements).received = c.received ++ statements := by
  induction statements generalizing c with
  | nil => exact ⟨h, (List.append_nil _).symm⟩
  | cons s statements ih =>
      obtain ⟨howed, hreceived⟩ := send_of_not_owed h ctx s
      obtain ⟨howed', hreceived'⟩ := ih howed
      refine ⟨howed', hreceived'.trans ?_⟩
      rw [hreceived, List.append_assoc]
      rfl

/-- **A run is a dialogue** with the responses that the scripted database gives to its statements. -/
theorem run_dialogue {π ρ : Type} [Procedure π ρ] (ctx : Context) (p : π) (c : Connection) :
    ∃ rs, rs = c.responses ctx (Procedure.dialogue p rs).statements ∧
      (Procedure.dialogue p rs).outcome = some (c.run ctx p).1 ∧
      (c.run ctx p).2 = c.sendAll ctx (Procedure.dialogue p rs).statements := by
  fun_induction run ctx p c with
  | case1 p c result hstep =>
      refine ⟨[], ?_, ?_, ?_⟩ <;> rw [Procedure.dialogue_ended hstep] <;> rfl
  | case2 p c s resume hstep ih =>
      obtain ⟨rs, hresponses, houtcome, hend⟩ := ih
      refine ⟨(c.send ctx s).1 :: rs, ?_, ?_, ?_⟩
      · rw [Procedure.dialogue_cons hstep]
        exact congrArg _ hresponses
      · rw [Procedure.dialogue_cons hstep]
        exact houtcome
      · rw [Procedure.dialogue_cons hstep]
        exact hend

/-- A run on a connection that owes nothing leaves none owed either. -/
theorem owed_run {π ρ : Type} [Procedure π ρ] (ctx : Context) (p : π) {c : Connection}
    (h : c.owed = none) : (c.run ctx p).2.owed = none := by
  obtain ⟨rs, -, -, hend⟩ := run_dialogue ctx p c
  rw [hend]
  exact (sendAll_of_not_owed ctx _ h).1

end Connection

end EventSourcing
