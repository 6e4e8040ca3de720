import EventSourcing.Proofs.Memory.Reads
import EventSourcing.Proofs.Postgres.Pushing

/-!
# Reads — what they fail with, and in which order

A typed read first refuses a query for other columns.  Then the store looks for an interruption, and only
then for anything else.  A store that answers in the shape that its queries ask for leaves a typed read
nothing to refuse afterwards.

* `EventStore.read_refused`: no store is asked for other columns than those of the read.
* `EventStore.Orderly.keepsOrder`: a store that looks for an interruption first, and whose answers fit, has
  each typed read give what the store gives.
* `ReadCall.fits_of_dialogue`: **whatever a database responds**, the answer to a query has the shape of its
  columns.
* `reads_keep_order`: **all reads of both stores fail in one order**, and never for the shape of an answer.
-/

namespace EventSourcing

/-- A call for these columns may end so: with an answer in their shape, or with an error that does not say
that the call could never succeed. -/
structure Output.Fits {ε : Type} (columns : Columns) (result : Except (StoreError ε) Output) : Prop where
  shape : ∀ output, result = .ok output → output.columns = columns
  admitted : ∀ e, result ≠ .error (.invalidArgument e)

theorem Output.Fits.of_ok {ε : Type} {columns : Columns} {output : Output} (h : output.columns = columns) :
    Fits columns (.ok output : Except (StoreError ε) Output) where
  shape := by rintro _ ⟨⟩; exact h
  admitted _ he := by cases he

theorem Output.Fits.of_error {ε : Type} {columns : Columns} {error : StoreError ε}
    (h : ∀ e, error ≠ .invalidArgument e) :
    Fits columns (.error error : Except (StoreError ε) Output) where
  shape _ ho := by cases ho
  admitted e he := h e (Except.error.inj he)

/-- An interruption is not blamed on the query. -/
theorem StoreError.ofInterruption_ne_invalidArgument {ε : Type} (i : Interruption) (e : QueryError) :
    (ofInterruption i : StoreError ε) ≠ .invalidArgument e := by
  cases i <;> rintro ⟨⟩

/-! ### Any store -/

namespace EventStore

variable {σ ε α : Type} [EventStore σ ε] {s : σ} {ctx : Context} {q : Query}

/-- A state in which the store looks for an interruption before anything else, and in which its answers fit
the queries. -/
structure Orderly (s : σ) : Prop where
  interrupted : ∀ {ctx i}, ctx.interruption? = some i →
    ∀ q, query ctx q s = (.error (.ofInterruption i), s)
  fits : ∀ ctx q, Output.Fits q.columns (query ctx q s).1

/-- What a typed read for some columns gives and leaves.  A value that it gives is put back into an answer
by `wrap`. -/
structure KeepsOrder (columns : Columns) (wrap : α → Output) (ctx : Context) (q : Query) (s : σ)
    (read : Except (StoreError ε) α × σ) : Prop where
  /-- Other columns are refused whatever the context says. -/
  refused : q.columns ≠ columns →
    read = (.error (.invalidArgument (.columnsMismatch columns q.columns)), s)
  cancelled : q.columns = columns → ctx.cancelled = true → read = (.error .cancelled, s)
  late : q.columns = columns → ctx.cancelled = false → ctx.deadline = some .passed →
    read = (.error .deadlineExceeded, s)
  shape : ∀ output, (query ctx q s).1 = .ok output → output.columns = q.columns
  /-- The answer of the store or its error is handed on, and so is the state that the store leaves. -/
  handedOn : q.columns = columns → (read.1.map wrap, read.2) = query ctx q s
  /-- Behind the store nothing more is refused. -/
  admitted : q.columns = columns → ∀ e, read.1 ≠ .error (.invalidArgument e)

/-- Each typed read of the query keeps to the order. -/
structure ReadsKeepOrder (s : σ) (ctx : Context) (q : Query) : Prop where
  filter : KeepsOrder .event .events ctx q s (filter ctx q s)
  latestSequence : KeepsOrder .maxSequence .maxSequence ctx q s (latestSequence ctx q s)
  instanceIds : KeepsOrder .instanceIds .instanceIds ctx q s (instanceIds ctx q s)

variable {columns : Columns} {take : Output → Option α} {wrap : α → Output}

/-- No store is asked for other columns than those of the read. -/
theorem read_refused (h : q.columns ≠ columns) (take : Output → Option α) (ctx : Context) (s : σ) :
    read columns take ctx q s = (.error (.invalidArgument (.columnsMismatch columns q.columns)), s) := by
  rw [read, Query.expectColumns, if_neg h]

/-- A read whose shape is that of the answer hands on what the store gives. -/
theorem map_read (hq : q.columns = columns)
    (htake : ∀ output, output.columns = columns → ∃ a, take output = some a ∧ wrap a = output)
    (hshape : ∀ output, (query ctx q s).1 = .ok output → output.columns = columns) :
    ((read columns take ctx q s).1.map wrap, (read columns take ctx q s).2) = query ctx q s := by
  rw [read, Query.expectColumns, if_pos hq]
  dsimp only
  rcases hr : query ctx q s with ⟨e | output, s'⟩
  · rfl
  · obtain ⟨a, ha, rfl⟩ := htake output (hshape output (congrArg Prod.fst hr))
    simp only [ha]
    rfl

/-- **An orderly store has a typed read keep to the order.** -/
theorem Orderly.keepsOrder (h : Orderly s)
    (htake : ∀ output, output.columns = columns → ∃ a, take output = some a ∧ wrap a = output)
    (ctx : Context) (q : Query) : KeepsOrder columns wrap ctx q s (read columns take ctx q s) := by
  have hmap : q.columns = columns → _ := fun hq =>
    map_read hq htake (hq ▸ (h.fits ctx q).shape)
  -- an error of the store is the error of the read
  have herror : ∀ {e}, q.columns = columns → query ctx q s = (.error e, s) →
      read columns take ctx q s = (.error e, s) := by
    intro e hq he
    obtain ⟨hresult, hstate⟩ := Prod.mk.inj ((hmap hq).trans he)
    exact Prod.ext (map_eq_error.mp hresult) hstate
  exact {
    refused := fun hq => read_refused hq take ctx s
    cancelled := fun hq hc => herror hq (h.interrupted (Context.interruption?_of_cancelled hc) q)
    late := fun hq hc hd => herror hq (h.interrupted (Context.interruption?_of_late hc hd) q)
    shape := (h.fits ctx q).shape
    handedOn := hmap
    admitted := fun hq e he => (h.fits ctx q).admitted e (by rw [← hmap hq, he]; rfl) }

theorem Orderly.readsKeepOrder (h : Orderly s) (ctx : Context) (q : Query) : ReadsKeepOrder s ctx q where
  filter := h.keepsOrder (by rintro (l | n | l) ⟨⟩; exact ⟨l, rfl, rfl⟩) ctx q
  latestSequence := h.keepsOrder (by rintro (l | n | l) ⟨⟩; exact ⟨n, rfl, rfl⟩) ctx q
  instanceIds := h.keepsOrder (by rintro (l | n | l) ⟨⟩; exact ⟨l, rfl, rfl⟩) ctx q

end EventStore

/-! ### In memory -/

theorem Ledger.columns_select (l : Ledger) (q : Query) : (l.select q).columns = q.columns := by
  rw [select]
  cases q.columns <;> rfl

/-- The store in memory looks for interruptions first. -/
theorem Memory.orderly (m : Memory) : EventStore.Orderly m where
  interrupted {ctx i} h q := by
    show m.query ctx q = _
    simp only [query, Context.check, h]
    rfl
  fits ctx q := by
    show Output.Fits q.columns (m.query ctx q).1
    cases hi : ctx.interruption? with
    | some i =>
        simp only [query, Context.check, hi]
        exact .of_error (StoreError.ofInterruption_ne_invalidArgument i)
    | none =>
        rw [query_ok hi]
        exact .of_ok ((m.ledger.columns_select _).trans (q.columns_resolve ctx))

/-! ### In PostgreSQL -/

/-- Rows are read as what the query asks for. -/
theorem Output.columns_ofRows {columns : Columns} {rows : List Row} {output : Output}
    (h : Output.ofRows columns rows = .ok output) : output.columns = columns := by
  cases columns with
  | event | instanceIds =>
      obtain ⟨_, -, rfl⟩ := map_eq_ok.mp h
      rfl
  | maxSequence =>
      obtain ⟨value, -, h⟩ := bind_eq_ok.mp h
      split at h
      · cases h; rfl
      · obtain ⟨_, -, h⟩ := bind_eq_ok.mp h
        obtain ⟨_, -, h⟩ := bind_eq_ok.mp h
        cases h; rfl

/-- No response says that the call could never succeed. -/
theorem Response.read_ne_invalidArgument {α : Type} (r : Response)
    (use : List Row → Except PostgresError α) (e : QueryError) :
    r.read use ≠ .error (.invalidArgument e) := by
  intro h
  rcases read_eq_error_iff.mp h with hrows | ⟨_, _, -, -, he⟩
  · rcases rows_eq_error_iff.mp hrows with ⟨i, -, he⟩ | ⟨-, _, -, he⟩
    · exact StoreError.ofInterruption_ne_invalidArgument i e he.symm
    · cases he
  · cases he

namespace ReadCall

variable {columns : Columns}

/-- A read for these columns that has not ended, or whose end fits. -/
structure Fitting (columns : Columns) (c : ReadCall) : Prop where
  query : c.query.columns = columns
  ended : ∀ result, c.phase = .ended result → Output.Fits columns result

theorem Fitting.resume {c : ReadCall} (h : c.Fitting columns) {α : Type}
    {use : List Row → Except PostgresError α} {next : α → ReadPhase}
    (hnext : ∀ rows a, use rows = .ok a →
      ∀ result, next a = .ended result → Output.Fits columns result) (r : Response) :
    (c.resume use next r).Fitting columns := by
  rw [ReadCall.resume]
  split
  · rename_i e he
    refine ⟨h.query, ?_⟩
    rintro _ ⟨⟩
    exact .of_error fun e' heq => r.read_ne_invalidArgument use e' (heq ▸ he)
  · rename_i a ha
    obtain ⟨rows, -, hu⟩ := Response.read_eq_ok ha
    exact ⟨h.query, hnext rows a hu⟩

theorem afterWait_ne_ended (q : Query) (b : Bounds) (result : Except (StoreError PostgresError) Output) :
    afterWait q b ≠ .ended result := by
  rw [afterWait]
  split <;> rintro ⟨⟩

/-- From one statement to the next a read stays fitting. -/
theorem Fitting.next (c : ReadCall) (s : Statement) (resume : Response → ReadCall)
    (h : c.Fitting columns) (hs : Procedure.step c = .sent s resume) (r : Response) :
    (resume r).Fitting columns := by
  replace hs : c.step = .sent s resume := hs
  rw [step] at hs
  split at hs
  · cases hs
    refine h.resume (fun _ ids _ result hp => ?_) r
    split at hp
    · exact absurd hp (afterWait_ne_ended _ _ _)
    · cases hp
  · cases hs
    refine h.resume (fun _ n _ result hp => ?_) r
    split at hp
    · exact absurd hp (afterWait_ne_ended _ _ _)
    · cases hp
  · cases hs
    exact h.resume (fun _ _ _ _ hp => by cases hp) r
  · cases hs
    refine h.resume (fun rows output ho _ hp => ?_) r
    cases hp
    exact .of_ok ((Output.columns_ofRows ho).trans h.query)
  · cases hs

/-- A read that is about to begin fits its query. -/
theorem fitting_start (q : Query) (b : Bounds) : (start q b).Fitting q.columns := by
  refine ⟨rfl, fun result hp => ?_⟩
  rw [start] at hp
  dsimp only at hp
  split at hp
  · cases hp
  · exact absurd hp (afterWait_ne_ended _ _ _)

/-- **The answer to a query has the shape of its columns**, whatever the database responds. -/
theorem fits_of_dialogue {q : Query} {b : Bounds} {rs : List Response}
    {result : Except (StoreError PostgresError) Output}
    (h : (Procedure.dialogue (start q b) rs).outcome = some result) : Output.Fits q.columns result := by
  obtain ⟨c, hc, hs⟩ := Procedure.exists_ended (Fitting q.columns) Fitting.next (fitting_start q b) h
  replace hs : c.step = .ended result := hs
  rw [step] at hs
  split at hs
  all_goals cases hs
  exact hc.ended _ ‹_›

end ReadCall

/-- An interrupted query is not admitted. -/
theorem Query.admitted_of_interruption {ctx : Context} {i : Interruption} (h : ctx.interruption? = some i)
    (q : Query) : q.admitted ctx = .error (.ofInterruption i) := by
  simp only [admitted, Context.check, h]
  rfl

theorem Query.columns_admitted {q q' : Query} {ctx : Context} {b : Bounds}
    (h : q.admitted ctx = .ok (q', b)) : q'.columns = q.columns := by
  obtain ⟨_, -, h⟩ := bind_eq_ok.mp h
  obtain ⟨_, -, h⟩ := bind_eq_ok.mp h
  cases h
  exact q.columns_resolve ctx

theorem Query.admitted_ne_invalidArgument (q : Query) (ctx : Context) (e : QueryError) :
    q.admitted ctx ≠ .error (.invalidArgument e) := by
  intro h
  rcases bind_eq_error.mp h with hc | ⟨-, -, h⟩
  · rw [Context.check] at hc
    split at hc
    · exact StoreError.ofInterruption_ne_invalidArgument _ e (Except.error.inj hc)
    · cases hc
  · rcases bind_eq_error.mp h with hb | ⟨_, -, h⟩
    · obtain ⟨_, -, he⟩ := mapError_eq_error.mp hb
      cases he
    · cases h

/-- What a read gives on a connection fits its query. -/
theorem Connection.fits_run {q : Query} (ctx : Context) (b : Bounds) (c : Connection) :
    Output.Fits q.columns (c.run ctx (ReadCall.start q b)).1 := by
  obtain ⟨rs, -, hresult, -⟩ := c.run_dialogue ctx (ReadCall.start q b)
  exact ReadCall.fits_of_dialogue hresult

/-- The store in PostgreSQL looks for interruptions first as well. -/
theorem PooledStore.orderly (p : PooledStore) : EventStore.Orderly p where
  interrupted {ctx i} h q := by
    show p.query ctx q = _
    simp only [query, Query.admitted_of_interruption h]
    rfl
  fits ctx q := by
    show Output.Fits q.columns (p.query ctx q).1
    rw [query]
    split
    · rename_i error he
      refine .of_error fun e h => ?_
      rcases bind_eq_error.mp (h ▸ he) with hq | ⟨_, -, h⟩
      · exact q.admitted_ne_invalidArgument ctx e hq
      · rcases bind_eq_error.mp h with ha | ⟨_, -, h⟩
        · obtain ⟨_, -, he⟩ := mapError_eq_error.mp ha
          cases he
        · cases h
    · rename_i q' b hok
      obtain ⟨admitted, hq, h⟩ := bind_eq_ok.mp hok
      obtain ⟨_, -, h⟩ := bind_eq_ok.mp h
      cases h
      rw [← Query.columns_admitted hq]
      exact p.connection.fits_run ctx b

/-! ### Both stores -/

/-- **All reads of both stores fail in one order, and never for the shape of an answer.**  A query for other
columns is refused by every store, without the store.  Then an interruption ends the read before anything is
sent.  Otherwise the read hands on what the store gives, in the shape that the query asks for, whatever
responses a database comes up with. -/
theorem reads_keep_order (ctx : Context) (q : Query) :
    (∀ m : Memory, EventStore.ReadsKeepOrder m ctx q) ∧
    (∀ p : PooledStore, EventStore.ReadsKeepOrder p ctx q) ∧
    (∀ {σ ε α : Type} [EventStore σ ε] (s : σ) (columns : Columns) (take : Output → Option α),
      q.columns ≠ columns → EventStore.read columns take ctx q s =
        (.error (.invalidArgument (.columnsMismatch columns q.columns)), s)) ∧
    (∀ (b : Bounds) (rs : List Response) (output : Output),
      (Procedure.dialogue (ReadCall.start q b) rs).outcome = some (.ok output) →
        output.columns = q.columns) :=
  ⟨fun m => m.orderly.readsKeepOrder ctx q, fun p => p.orderly.readsKeepOrder ctx q,
    fun s _ take h => EventStore.read_refused h take ctx s,
    fun _ _ output h => (ReadCall.fits_of_dialogue h).shape output rfl⟩

/-- Skips more events than a signed column can count. -/
def skipMost : Query := { offset := Nat.pow 2 63 }

/-- The order of errors, one less at a time. -/
theorem reads_keep_order_skipMost :
    (EventStore.latestSequence { cancelled := true } skipMost ({} : PooledStore)).1 =
      .error (.invalidArgument (.columnsMismatch .maxSequence .event)) ∧
    (EventStore.filter { cancelled := true, deadline := some .passed } skipMost ({} : PooledStore)).1 =
      .error .cancelled ∧
    (EventStore.filter { deadline := some .passed } skipMost ({} : PooledStore)).1 =
      .error .deadlineExceeded ∧
    (EventStore.filter {} skipMost ({} : PooledStore)).1 =
      .error (.backend (.outOfRange .offset (Nat.pow 2 63))) := by
  have hcancelled := (reads_keep_order { cancelled := true } skipMost).2.1 {}
  have hboth := (reads_keep_order { cancelled := true, deadline := some .passed } skipMost).2.1 {}
  have hlate := (reads_keep_order { deadline := some .passed } skipMost).2.1 {}
  refine ⟨?_, ?_, ?_, rfl⟩
  · rw [hcancelled.latestSequence.refused (by decide)]
    rfl
  · rw [hboth.filter.cancelled rfl rfl]
  · rw [hlate.filter.late rfl rfl rfl]

end EventSourcing
