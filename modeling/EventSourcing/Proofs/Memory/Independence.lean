import EventSourcing.Proofs.Ledger.Batches
import EventSourcing.Proofs.Memory.Isolation

/-!
# The store in memory — pushes to different streams

Two pushes that write to no stream in common have the log in common, its positions and its dates.  Neither
sees what the other does to these.  So it makes no difference which comes first, but for the positions and
dates of the single events.

* `TimedRequest.spares`: the streams that a push leaves alone.  On these, the stores before and after it
  agree.
* `agreeOn_serve`: after the one push, the other ends as it does without it.
* `ledger_exchange`: what is alike in both orders once both are appended is alike however they end.
* `Memory.pushes_independent`: **pushes to different streams can change places**, and each ends as it does on
  its own.
-/

namespace EventSourcing

/-- A push that a client asks for, and what it reads off the clock. -/
structure TimedRequest extends Request where
  reading : Instant

namespace TimedRequest

/-- The commands as they are pushed, in the client's tenant. -/
def commands (r : TimedRequest) : List Command :=
  (r.batch.scoped r.ctx).toList

/-- No command goes to the stream. -/
def spares (r : TimedRequest) (s : Stream) : Bool :=
  r.commands.all fun c => c.stream ≠ s

/-- No stream gets commands from both. -/
def Separate (r r' : TimedRequest) : Prop :=
  ∀ c ∈ r.commands, ∀ d ∈ r'.commands, c.stream ≠ d.stream

instance (r r' : TimedRequest) : Decidable (r.Separate r') :=
  inferInstanceAs (Decidable (∀ c ∈ r.commands, ∀ d ∈ r'.commands, c.stream ≠ d.stream))

theorem commands_ne_nil (r : TimedRequest) : r.commands ≠ [] :=
  Batch.toList_ne_nil _

variable {r r' : TimedRequest}

/-- A request spares the streams that none of its commands goes to. -/
theorem spares_iff {s : Stream} : r.spares s = true ↔ ∀ c ∈ r.commands, c.stream ≠ s := by
  simp [spares]

theorem not_spares_of_mem {c : Command} (hc : c ∈ r.commands) : r.spares c.stream = false :=
  Bool.eq_false_iff.mpr fun h => spares_iff.mp h c hc rfl

theorem Separate.symm (h : r.Separate r') : r'.Separate r :=
  fun d hd c hc heq => h c hc d hd heq.symm

/-- Requests that are separate spare each other's streams. -/
theorem Separate.spares (h : r.Separate r') {d : Command} (hd : d ∈ r'.commands) :
    r.spares d.stream = true :=
  spares_iff.mpr fun c hc => h c hc d hd

/-- The ledger with the commands at its end. -/
def appendTo (r : TimedRequest) (l : Ledger) : Ledger :=
  l.appendAll (l.dateAt r.reading) r.commands

@[simp] theorem lastPosition_appendTo (r : TimedRequest) (l : Ledger) :
    (r.appendTo l).lastPosition = l.lastPosition + r.commands.length :=
  l.lastPosition_appendAll

@[simp] theorem lastDate_appendTo (r : TimedRequest) (l : Ledger) :
    (r.appendTo l).lastDate = some (l.dateAt r.reading) :=
  Ledger.lastDate_appendAll r.commands_ne_nil l

/-- Each stream is left alone by one of two pushes that are separate. -/
theorem Separate.spares_or (h : r.Separate r') (s : Stream) :
    r.spares s = true ∨ r'.spares s = true := by
  by_cases hs : r.spares s = true
  · exact .inl hs
  · obtain ⟨c, hc, rfl⟩ : ∃ c ∈ r.commands, c.stream = s := by
      simpa [TimedRequest.spares] using hs
    exact .inr (spares_iff.mpr fun d hd => (h c hc d hd).symm)

end TimedRequest

namespace Memory

/-- A push that a client asks for. -/
def serve (m : Memory) (r : TimedRequest) : Except (StoreError Empty) (List Event) × Memory :=
  m.pushAt r.reading r.ctx r.batch

/-- How the push ends, up to positions and dates. -/
def outcome (m : Memory) (r : TimedRequest) : Except (StoreError Empty) (List Event) :=
  (m.serve r).1.map (·.map Event.content)

variable {r r' : TimedRequest} {s : Stream}

/-- A push that fails leaves the ledger as it is, and any other one appends its commands. -/
theorem ledger_serve (m : Memory) (r : TimedRequest) :
    (m.serve r).2.ledger = (m.outcome r).toOption.elim m.ledger fun _ => r.appendTo m.ledger := by
  rw [outcome, serve, pushAt]
  obtain ⟨i, -, hp⟩ | ⟨conflict, -, -, hp⟩ | ⟨-, -, hp⟩ :=
    push_cases r.ctx r.batch { m with clock := ⟨r.reading, []⟩ }
  all_goals
    rw [hp]
    rfl

/-! ### Outcomes and streams -/

/-- What a push leaves alone is the same before and after it. -/
theorem agreeOn_spared (m : Memory) (r : TimedRequest) :
    (m.serve r).2.ledger.AgreeOn r.spares m.ledger :=
  agreeOn_push_left (m := { m with clock := ⟨r.reading, []⟩ }) (Ledger.AgreeOn.refl _ _)
    fun _ hc => TimedRequest.not_spares_of_mem hc

/-- After a push to other streams, a push ends as it does without it, and leaves what it leaves without it
on all streams that the other one spares. -/
theorem agreeOn_serve (h : r.Separate r') (m : Memory) :
    (m.serve r).2.outcome r' = m.outcome r' ∧
      ((m.serve r).2.serve r').2.ledger.AgreeOn r.spares (m.serve r').2.ledger := by
  let before : Memory := { (m.serve r).2 with clock := ⟨r'.reading, []⟩ }
  let without : Memory := { m with clock := ⟨r'.reading, []⟩ }
  have hspared : before.ledger.AgreeOn r.spares without.ledger := agreeOn_spared m r
  exact agreeOn_push hspared fun _ hc => h.spares hc

/-- Whichever comes first, the streams that one of them spares are the same. -/
theorem agreeOn_exchange (h : r.Separate r') (m : Memory) :
    ((m.serve r).2.serve r').2.ledger.AgreeOn r.spares ((m.serve r').2.serve r).2.ledger :=
  (agreeOn_serve h m).2.trans (agreeOn_spared (m.serve r').2 r).symm

/-! ### Heads and the end of the log -/

/-- What the appended commands of both leave alike in either order, both pushes do. -/
theorem ledger_exchange (h : r.Separate r') (m : Memory) {α : Type} (f : Ledger → α)
    (hf : f (r'.appendTo (r.appendTo m.ledger)) = f (r.appendTo (r'.appendTo m.ledger))) :
    f ((m.serve r).2.serve r').2.ledger = f ((m.serve r').2.serve r).2.ledger := by
  simp only [ledger_serve, (agreeOn_serve h m).1, (agreeOn_serve h.symm m).1]
  cases (m.outcome r).toOption with
  | none => cases (m.outcome r').toOption <;> rfl
  | some events =>
      cases (m.outcome r').toOption with
      | none => rfl
      | some events' => exact hf

/-- What one push makes of a head that the other one spares depends on that head alone. -/
theorem heads_exchange (h : r.Separate r') (m : Memory) (hs : r.spares s = true) :
    ((m.serve r).2.serve r').2.ledger.heads s = ((m.serve r').2.serve r).2.ledger.heads s := by
  have hspared (l : Ledger) : (r.appendTo l).heads s = l.heads s :=
    l.heads_appendAll_other (TimedRequest.spares_iff.mp hs)
  refine ledger_exchange h m (fun l => l.heads s) ?_
  rw [hspared]
  exact Ledger.heads_appendAll_congr (hspared m.ledger)

/-- Each push adds as many positions as it has events. -/
theorem lastPosition_exchange (h : r.Separate r') (m : Memory) :
    ((m.serve r).2.serve r').2.ledger.lastPosition =
      ((m.serve r').2.serve r).2.ledger.lastPosition := by
  refine ledger_exchange h m Ledger.lastPosition ?_
  simp only [TimedRequest.lastPosition_appendTo]
  omega

/-- The later of the two readings counts, unless the last date is later still. -/
theorem lastDate_exchange (h : r.Separate r') (m : Memory) :
    ((m.serve r).2.serve r').2.ledger.lastDate = ((m.serve r').2.serve r).2.ledger.lastDate := by
  refine ledger_exchange h m Ledger.lastDate ?_
  simp only [TimedRequest.lastDate_appendTo, Ledger.dateAt_eq]
  cases m.ledger.lastDate with
  | none => exact congrArg some (Instant.max_comm _ _)
  | some last => exact congrArg some (Instant.max_right_comm _ _ _)

/-! ### Both pushes -/

/-- It makes no difference which of two pushes comes first, but for positions and dates. -/
structure Independent (m : Memory) (r r' : TimedRequest) : Prop where
  /-- Each ends after the other as it does before it. -/
  first : (m.serve r').2.outcome r = m.outcome r
  second : (m.serve r).2.outcome r' = m.outcome r'
  heads : ((m.serve r).2.serve r').2.ledger.heads = ((m.serve r').2.serve r).2.ledger.heads
  lastPosition : ((m.serve r).2.serve r').2.ledger.lastPosition =
    ((m.serve r').2.serve r).2.ledger.lastPosition
  lastDate : ((m.serve r).2.serve r').2.ledger.lastDate =
    ((m.serve r').2.serve r).2.ledger.lastDate
  streams : ∀ s, (((m.serve r).2.serve r').2.ledger.eventsOf s).map Event.content =
    (((m.serve r').2.serve r).2.ledger.eventsOf s).map Event.content

/-- **Pushes to different streams can change places.**  In every state, whatever the contexts of two pushes
and whatever the clock says at each, if no stream gets commands from both then each ends before the other as
it does after it: with the same error, or with the same events up to positions and dates.  In both orders
they leave the same heads, the same last position and date, and the same events in every stream, up to
positions and dates. -/
theorem pushes_independent {r r' : TimedRequest} (h : r.Separate r') (m : Memory) :
    m.Independent r r' where
  first := (agreeOn_serve h.symm m).1
  second := (agreeOn_serve h m).1
  heads := by
    funext s
    rcases h.spares_or s with hs | hs
    · exact heads_exchange h m hs
    · exact (heads_exchange h.symm m hs).symm
  lastPosition := lastPosition_exchange h m
  lastDate := lastDate_exchange h m
  streams s := by
    rcases h.spares_or s with hs | hs
    · exact (agreeOn_exchange h m).eventsOf hs
    · exact ((agreeOn_exchange h.symm m).eventsOf hs).symm

/-! ### Two tenants with the same names -/

/-- The first organisation of a tenant is added when the clock says `t`, unless there is one. -/
def foundedAt (t : Instant) (instanceId : String) : TimedRequest where
  toRequest := founded instanceId
  reading := t

/-- The organisation of a tenant is renamed when the clock says `t`, unless it has changed before. -/
def renamedAt (t : Instant) (instanceId : String) : TimedRequest where
  ctx := .forInstance instanceId
  batch := ⟨{ aggregate := { type := "org", id := "org-1" }, type := "org.changed", sequence := some 1 }, []⟩
  reading := t

/-- One tenant has an organisation. -/
def oneTenant : Memory :=
  (({ clock := default } : Memory).serve (foundedAt .zero "t1")).2

/-- One tenant's organisation is renamed and another one's is added, in either order; and an organisation
that is there already is refused before and after. -/
theorem pushes_independent_tenants :
    (renamedAt .unixEpoch "t1").Separate (foundedAt .zero "t2") ∧
    ((oneTenant.serve (renamedAt .unixEpoch "t1")).2.serve (foundedAt .zero "t2")).2.ledger.log ≠
      ((oneTenant.serve (foundedAt .zero "t2")).2.serve (renamedAt .unixEpoch "t1")).2.ledger.log ∧
    ((oneTenant.serve (renamedAt .unixEpoch "t1")).2.serve (foundedAt .zero "t2")).2.ledger.heads =
      ((oneTenant.serve (foundedAt .zero "t2")).2.serve (renamedAt .unixEpoch "t1")).2.ledger.heads ∧
    ((oneTenant.serve (foundedAt .zero "t2")).2.serve (renamedAt .unixEpoch "t1")).2.ledger.lastDate =
      some .unixEpoch ∧
    (foundedAt .zero "t1").Separate (foundedAt .zero "t2") ∧
    (oneTenant.serve (foundedAt .zero "t2")).2.outcome (foundedAt .zero "t1") =
      .error (.conflict ⟨"org", "org-1", 0, 1⟩) := by
  have hboth : (renamedAt .unixEpoch "t1").Separate (foundedAt .zero "t2") := by decide
  have hagain : (foundedAt .zero "t1").Separate (foundedAt .zero "t2") := by decide
  have hind := pushes_independent hboth oneTenant
  refine ⟨hboth, by decide, hind.heads, hind.lastDate.symm.trans rfl, hagain, ?_⟩
  exact (pushes_independent hagain oneTenant).first.trans rfl

end Memory

end EventSourcing
