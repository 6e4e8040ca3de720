import EventSourcing.Proofs.Postgres.Limits
import EventSourcing.Proofs.Postgres.Pushing

/-!
# The PostgreSQL store — what a read says

A read may wait for the transactions in progress, then it may fix the end of the log, and then it selects.
How long it waits is up to the database.

* `Query.Waits`, `Query.Locates`, `Query.Sends`: the exchanges of a read, and the statement that follows
  them.
* `ReadCall.step_follows`: a response ends the read, or brings it to the next statement.
* `ReadCall.runs`: so it goes on for any responses.
* `reads_by_script`: **a read says what its query asks for**, and nothing after a failure.
-/

namespace EventSourcing

/-! ### The script -/

/-- A statement that has succeeded, with its rows. -/
abbrev Exchange := Statement × List Row

/-- Some of the transactions that were asked about are in progress still. -/
def Pending (rows : List Row) : Prop :=
  ∃ n, firstInteger rows = .ok n ∧ n ≠ 0

/-- Polls for some transactions, with the rows of each. -/
def polls (ids : List String) (answers : List (List Row)) : List Exchange :=
  answers.map fun rows => (.stillOpen ids, rows)

/-- One more answer is one more poll. -/
theorem polls_concat (ids : List String) (answers : List (List Row)) (rows : List Row) :
    polls ids (answers ++ [rows]) = polls ids answers ++ [(.stillOpen ids, rows)] :=
  List.map_append

/-- Every poll asks about the transactions that were noted first. -/
theorem fst_of_mem_polls {ids : List String} {answers : List (List Row)} {x : Exchange}
    (h : x ∈ polls ids answers) : x.1 = .stillOpen ids := by
  obtain ⟨rows, -, rfl⟩ := List.mem_map.mp h
  rfl

namespace Query

variable {q : Query}

/-- The exchanges in which a read waits. -/
inductive Waits (q : Query) : List Exchange → Prop where
  /-- The query does not ask to wait. -/
  | skipped : q.awaitOpenTransactions = false → Waits q []
  /-- No transaction is in progress. -/
  | idle {captured : List Row} : q.awaitOpenTransactions = true → textColumn captured = .ok [] →
      Waits q [(.openTransactions, captured)]
  /-- The transactions in progress are asked about until none of them is. -/
  | awaited {captured last : List Row} {pending : List (List Row)} {ids : List String} :
      q.awaitOpenTransactions = true → textColumn captured = .ok ids → ids ≠ [] →
      (∀ rows ∈ pending, Pending rows) → firstInteger last = .ok 0 →
      Waits q ((.openTransactions, captured) :: polls ids (pending ++ [last]))

/-- The exchanges in which a read finds the position up to which it sees the log. -/
inductive Locates (q : Query) : List Exchange → Option Int → Prop where
  /-- The query names the position. -/
  | named {n : Nat} : q.asOfPosition = some n → Locates q [] (some n)
  /-- The read travels to the end of the log. -/
  | travels {rows : List Row} {n : Int} : q.asOfPosition = none → q.allowTimeTravel = true →
      firstInteger rows = .ok n → Locates q [(.latestPosition, rows)] (some n)
  /-- The read sees everything. -/
  | unlimited : q.asOfPosition = none → q.allowTimeTravel = false → Locates q [] none

/-- After these exchanges, the read sends this statement. -/
inductive Sends (q : Query) : List Exchange → Statement → Prop where
  | capture : q.awaitOpenTransactions = true → Sends q [] .openTransactions
  | poll {captured : List Row} {pending : List (List Row)} {ids : List String} :
      q.awaitOpenTransactions = true → textColumn captured = .ok ids → ids ≠ [] →
      (∀ rows ∈ pending, Pending rows) →
      Sends q ((.openTransactions, captured) :: polls ids pending) (.stillOpen ids)
  | locate {waited : List Exchange} : Waits q waited → q.asOfPosition = none →
      q.allowTimeTravel = true → Sends q waited .latestPosition
  | select {waited located : List Exchange} {limit : Option Int} {s : Selection} : Waits q waited →
      Locates q located limit → s.columns = q.columns → s.SeesUpTo limit →
      Sends q (waited ++ located) (.select s)

/-- A wait ends with a poll that counts no transaction. -/
theorem Waits.settled {waited : List Exchange} {ids : List String} {rows : List Row}
    (h : q.Waits (waited ++ [(.stillOpen ids, rows)])) : firstInteger rows = .ok 0 := by
  generalize hall : waited ++ [(Statement.stillOpen ids, rows)] = all at h
  have hlast : all.getLast? = some (.stillOpen ids, rows) := by rw [← hall, List.getLast?_concat]
  cases h with
  | skipped | idle => cases hlast
  | awaited _ _ _ _ hzero =>
      rw [polls_concat, ← List.cons_append, List.getLast?_concat] at hlast
      cases hlast
      exact hzero

/-- Nothing is selected during the wait. -/
theorem Waits.not_select {waited : List Exchange} (h : q.Waits waited) (s : Selection) :
    ∀ x ∈ waited, x.1 ≠ .select s := by
  intro x hx
  cases h with
  | skipped => cases hx
  | idle => rw [List.mem_singleton.mp hx]; rintro ⟨⟩
  | awaited =>
      rcases List.mem_cons.mp hx with rfl | hx
      · rintro ⟨⟩
      · rw [fst_of_mem_polls hx]; rintro ⟨⟩

/-- No selection is followed by another statement. -/
theorem Sends.not_select {said : List Exchange} {next : Statement} (h : q.Sends said next)
    (s : Selection) : ∀ x ∈ said, x.1 ≠ .select s := by
  intro x hx
  cases h with
  | capture => cases hx
  | poll =>
      rcases List.mem_cons.mp hx with rfl | hx
      · rintro ⟨⟩
      · rw [fst_of_mem_polls hx]; rintro ⟨⟩
  | locate hw => exact hw.not_select s x hx
  | select hw hl =>
      rcases List.mem_append.mp hx with hx | hx
      · exact hw.not_select s x hx
      · cases hl with
        | named | unlimited => cases hx
        | travels => rw [List.mem_singleton.mp hx]; rintro ⟨⟩

/-- A selection comes after a poll only if that counted no transaction. -/
theorem Sends.settled {said : List Exchange} {s : Selection} {ids : List String} {rows : List Row}
    (h : q.Sends (said ++ [(.stillOpen ids, rows)]) (.select s)) : firstInteger rows = .ok 0 := by
  generalize hall : said ++ [(Statement.stillOpen ids, rows)] = all at h
  cases h with
  | @select waited located _ _ hw hl =>
      cases hl with
      | named | unlimited =>
          rw [List.append_nil] at hall
          exact Waits.settled (hall ▸ hw)
      | travels =>
          cases (List.append_inj' hall rfl).2

end Query

/-! ### Ends -/

/-- The rows of the statement are not what a read for these columns can use. -/
def Statement.Garbled (columns : Columns) (rows : List Row) (fault : PostgresError) : Statement → Prop
  | .openTransactions => textColumn rows = .error fault
  | .stillOpen _ => firstInteger rows = .error fault
  | .latestPosition => firstInteger rows = .error fault
  | .select _ => Output.ofRows columns rows = .error fault
  | _ => False

/-- The response to the statement lets the read down. -/
inductive Statement.Fails (columns : Columns) (s : Statement) (r : Response) :
    StoreError PostgresError → Prop where
  | interrupted {i : Interruption} : r.interruption = some i → Fails columns s r (.ofInterruption i)
  | refused {fault : DatabaseFault} : r.interruption = none → r.answer = .error fault →
      Fails columns s r (.backend (.database fault))
  | garbled {rows : List Row} {fault : PostgresError} : r.Gives rows → s.Garbled columns rows fault →
      Fails columns s r (.backend fault)

/-- What becomes of the last statement that a read sends. -/
inductive Query.Stops (q : Query) (s : Statement) :
    List Response → Option (Except (StoreError PostgresError) Output) → Prop where
  /-- It has no response yet. -/
  | waits : Stops q s [] none
  | fails {r : Response} {later : List Response} {e : StoreError PostgresError} :
      s.Fails q.columns r e → Stops q s (r :: later) (some (.error e))
  | answers {r : Response} {later : List Response} {selection : Selection} {rows : List Row}
      {output : Output} : s = .select selection → r.Gives rows →
      Output.ofRows q.columns rows = .ok output → Stops q s (r :: later) (some (.ok output))

/-- After the exchanges `said`, a read that finds these responses says the rest of its script. -/
def Query.Runs (q : Query) (said : List Exchange) (rs : List Response)
    (d : Dialogue (Except (StoreError PostgresError) Output)) : Prop :=
  ∃ (answered : List Exchange) (next : Statement) (heard later : List Response),
    d.statements = answered.map Prod.fst ++ [next] ∧ q.Sends (said ++ answered) next ∧
    rs = heard ++ later ∧ List.Forall₂ (fun (x : Exchange) r => r.Gives x.2) answered heard ∧
    q.Stops next later d.outcome

/-- A dialogue in which a read of the query keeps to its script. -/
structure ReadsByScript (q : Query) (rs : List Response)
    (d : Dialogue (Except (StoreError PostgresError) Output)) : Prop where
  runs : q.Runs [] rs d
  /-- Every statement but the last has succeeded. -/
  answered : ∀ i, i + 1 < d.statements.length → ∃ r, rs[i]? = some r ∧ ∃ rows, r.Gives rows
  /-- Only the last statement is a selection. -/
  last : ∀ i s, d.statements[i]? = some (.select s) → i + 1 = d.statements.length
  /-- A selection that follows a poll follows one that counted no transaction. -/
  settled : ∀ i ids s, d.statements[i]? = some (.stillOpen ids) →
    d.statements[i + 1]? = some (.select s) →
    ∃ r rows, rs[i]? = some r ∧ r.Gives rows ∧ firstInteger rows = .ok 0

/-- An exchange is with the response of its place. -/
theorem exists_gives_of_getElem? {answered : List Exchange} {heard : List Response}
    (h : List.Forall₂ (fun (x : Exchange) r => r.Gives x.2) answered heard) {i : Nat} {x : Exchange}
    (hx : answered[i]? = some x) : ∃ r, heard[i]? = some r ∧ r.Gives x.2 := by
  induction h generalizing i with
  | nil => cases hx
  | cons hr _ ih =>
      cases i with
      | zero => cases hx; exact ⟨_, rfl, hr⟩
      | succ i => exact ih hx

theorem Query.Runs.readsByScript {q : Query} {rs : List Response}
    {d : Dialogue (Except (StoreError PostgresError) Output)} (h : q.Runs [] rs d) :
    ReadsByScript q rs d := by
  have hruns := h
  obtain ⟨answered, next, heard, later, hstatements, hnext, rfl, hgives, -⟩ := h
  rw [List.nil_append] at hnext
  have hlength : d.statements.length = answered.length + 1 := by
    rw [hstatements, List.length_append, List.length_map, List.length_singleton]
  -- a statement before the last one is that of an exchange
  have hexchange : ∀ i, i < answered.length → ∃ x r, answered[i]? = some x ∧
      d.statements[i]? = some x.1 ∧ (heard ++ later)[i]? = some r ∧ r.Gives x.2 := by
    intro i hi
    have hx : answered[i]? = some answered[i] := List.getElem?_eq_getElem hi
    obtain ⟨r, hr, hrows⟩ := exists_gives_of_getElem? hgives hx
    refine ⟨_, r, hx, ?_, ?_, hrows⟩
    · rw [hstatements, List.getElem?_append_left (by simpa using hi), List.getElem?_map, hx]
      rfl
    · rw [List.getElem?_append_left (List.getElem?_eq_some_iff.mp hr).1, hr]
  have hlast : ∀ i s, d.statements[i]? = some (.select s) → i + 1 = d.statements.length := by
    intro i s hs
    have hi := (List.getElem?_eq_some_iff.mp hs).1
    by_contra hne
    obtain ⟨x, -, hx, hsx, -⟩ := hexchange i (by omega)
    exact hnext.not_select s x (List.mem_of_getElem? hx) (Option.some.inj (hsx.symm.trans hs))
  refine ⟨hruns, fun i hi => ?_, hlast, fun i ids s hpoll hs => ?_⟩
  · obtain ⟨x, r, -, -, hr, hrows⟩ := hexchange i (by omega)
    exact ⟨r, hr, x.2, hrows⟩
  · -- the poll is the last exchange, and the selection comes next
    have hi := hlast (i + 1) s hs
    obtain ⟨⟨_, rows⟩, r, hx, hsx, hr, hrows⟩ := hexchange i (by omega)
    cases hsx.symm.trans hpoll
    have hsplit : answered = answered.take i ++ [(.stillOpen ids, rows)] := by
      have htake := List.take_add_one (l := answered) (i := i)
      rwa [hx, List.take_of_length_le (by omega)] at htake
    have hselect : next = .select s := by
      rw [hstatements, List.getElem?_append_right (by simp; omega), List.length_map,
        show i + 1 - answered.length = 0 by omega] at hs
      exact Option.some.inj hs
    rw [hsplit, hselect] at hnext
    exact ⟨r, rows, hr, hrows, hnext.settled⟩

/-! ### One statement -/

namespace ReadCall

/-- A read goes on with what it makes of the rows, or ends. -/
theorem resume_cases {α : Type} (c : ReadCall) (use : List Row → Except PostgresError α)
    (next : α → ReadPhase) (r : Response) :
    (∃ e, r.read use = .error e ∧ c.resume use next r = { c with phase := .ended (.error e) }) ∨
      ∃ rows a, r.Gives rows ∧ use rows = .ok a ∧ c.resume use next r = { c with phase := next a } := by
  cases h : r.read use with
  | error e => exact .inl ⟨e, rfl, by rw [resume, h]⟩
  | ok a =>
      obtain ⟨rows, hrows, hu⟩ := Response.read_eq_ok_iff.mp h
      exact .inr ⟨rows, a, hrows, hu, by rw [resume, h]⟩

end ReadCall

/-- An error that a read is left with is that of its last statement. -/
theorem Query.Stops.of_error {q : Query} {s : Statement} {α : Type}
    {use : List Row → Except PostgresError α} {r : Response} {e : StoreError PostgresError}
    (h : r.read use = .error e)
    (huse : ∀ rows fault, use rows = .error fault → s.Garbled q.columns rows fault)
    (later : List Response) : q.Stops s (r :: later) (some (.error e)) := by
  refine .fails ?_
  rcases Response.read_eq_error_iff.mp h with hrows | ⟨rows, fault, hrows, hfault, rfl⟩
  · rcases Response.rows_eq_error_iff.mp hrows with ⟨i, hi, rfl⟩ | ⟨hi, fault, ha, rfl⟩
    · exact .interrupted hi
    · exact .refused hi ha
  · exact .garbled hrows (huse rows fault hfault)

/-- A read of the query stands here after these exchanges. -/
def ReadPhase.Follows (q : Query) (said : List Exchange) : ReadPhase → Prop
  | .noting => q.awaitOpenTransactions = true ∧ said = []
  | .awaiting ids => ∃ captured pending, q.awaitOpenTransactions = true ∧
      textColumn captured = .ok ids ∧ ids ≠ [] ∧ (∀ rows ∈ pending, Pending rows) ∧
      said = (.openTransactions, captured) :: polls ids pending
  | .locating => q.Waits said ∧ q.asOfPosition = none ∧ q.allowTimeTravel = true
  | .selecting snapshot => ∃ waited located, said = waited ++ located ∧ q.Waits waited ∧
      q.Locates located ((Bounds.exact q).asOfPosition.or snapshot)
  | .ended _ => False

namespace ReadCall

variable {q : Query} {said : List Exchange}

/-- After the wait the read finds the position up to which it sees the log, or needs not look for it. -/
theorem follows_afterWait (h : q.Waits said) : (afterWait q (Bounds.exact q)).Follows q said := by
  have hexact : (Bounds.exact q).asOfPosition = q.asOfPosition.map fun n => (n : Int) := rfl
  have hselecting (hl : q.Locates [] (q.asOfPosition.map fun n => (n : Int))) :
      (ReadPhase.selecting none).Follows q said :=
    ⟨said, [], (List.append_nil _).symm, h, by rw [hexact, Option.or_none]; exact hl⟩
  rw [afterWait, hexact]
  cases hp : q.asOfPosition with
  | some n =>
      rw [hp] at hselecting
      simpa using hselecting (.named hp)
  | none =>
      rw [hp] at hselecting
      cases ht : q.allowTimeTravel with
      | true => exact ⟨h, hp, ht⟩
      | false => exact hselecting (.unlimited hp ht)

/-- A read that is about to begin follows the script. -/
theorem follows_start (q : Query) : (start q (Bounds.exact q)).phase.Follows q [] := by
  rw [start]
  dsimp only
  cases hw : q.awaitOpenTransactions with
  | true => exact ⟨hw, rfl⟩
  | false => exact follows_afterWait (.skipped hw)

/-- **A response ends a read, or brings it to the next statement.** -/
theorem step_follows {phase : ReadPhase} (h : phase.Follows q said) :
    ∃ s resume, Procedure.step (⟨q, Bounds.exact q, phase⟩ : ReadCall) = .sent s resume ∧
      q.Sends said s ∧ ∀ r,
        (∃ result, resume r = ⟨q, Bounds.exact q, .ended result⟩ ∧
          ∀ later, q.Stops s (r :: later) (some result)) ∨
        ∃ rows phase', r.Gives rows ∧ resume r = ⟨q, Bounds.exact q, phase'⟩ ∧
          phase'.Follows q (said ++ [(s, rows)]) := by
  cases phase with
  | noting =>
      obtain ⟨hwait, rfl⟩ := h
      refine ⟨_, _, rfl, .capture hwait, fun r => ?_⟩
      rcases resume_cases _ textColumn _ r with ⟨e, he, hr⟩ | ⟨rows, ids, hrows, hids, hr⟩
      · exact .inl ⟨_, hr, .of_error he fun _ _ hfault => hfault⟩
      · refine .inr ⟨rows, _, hrows, hr, ?_⟩
        split
        · rename_i hnil
          exact follows_afterWait (.idle hwait (List.isEmpty_iff.mp hnil ▸ hids))
        · rename_i hne
          exact ⟨rows, [], hwait, hids, fun hnil => hne (List.isEmpty_iff.mpr hnil), by simp, rfl⟩
  | awaiting ids =>
      obtain ⟨captured, pending, hwait, hids, hne, hpending, rfl⟩ := h
      refine ⟨_, _, rfl, .poll hwait hids hne hpending, fun r => ?_⟩
      rcases resume_cases _ firstInteger _ r with ⟨e, he, hr⟩ | ⟨rows, n, hrows, hn, hr⟩
      · exact .inl ⟨_, hr, .of_error he fun _ _ hfault => hfault⟩
      · refine .inr ⟨rows, _, hrows, hr, ?_⟩
        rw [List.cons_append, ← polls_concat]
        split
        · rename_i hzero
          exact follows_afterWait (.awaited hwait hids hne hpending (hzero ▸ hn))
        · rename_i hnonzero
          refine ⟨captured, pending ++ [rows], hwait, hids, hne, fun rows' h => ?_, rfl⟩
          rcases List.mem_append.mp h with h | h
          · exact hpending rows' h
          · exact ⟨n, List.mem_singleton.mp h ▸ hn, hnonzero⟩
  | locating =>
      obtain ⟨hwaits, hp, ht⟩ := h
      refine ⟨_, _, rfl, .locate hwaits hp ht, fun r => ?_⟩
      rcases resume_cases _ firstInteger _ r with ⟨e, he, hr⟩ | ⟨rows, n, hrows, hn, hr⟩
      · exact .inl ⟨_, hr, .of_error he fun _ _ hfault => hfault⟩
      · refine .inr ⟨rows, _, hrows, hr, said, [(.latestPosition, rows)], rfl, hwaits, ?_⟩
        rw [Bounds.exact, hp]
        exact .travels hp ht hn
  | selecting snapshot =>
      obtain ⟨waited, located, rfl, hwaits, hlocates⟩ := h
      have hsees := q.seesUpTo_selection (Bounds.exact q) snapshot
      refine ⟨_, _, rfl, .select hwaits hlocates rfl hsees, fun r => .inl ?_⟩
      rcases resume_cases _ (Output.ofRows q.columns) _ r with
        ⟨e, he, hr⟩ | ⟨rows, output, hrows, ho, hr⟩
      · exact ⟨_, hr, .of_error he fun _ _ hfault => hfault⟩
      · exact ⟨_, hr, fun _ => .answers rfl hrows ho⟩
  | ended result => exact h.elim

/-! ### All responses -/

/-- **From where a read stands, it says the rest of its script.** -/
theorem runs (rs : List Response) {phase : ReadPhase} (h : phase.Follows q said) :
    q.Runs said rs (Procedure.dialogue (⟨q, Bounds.exact q, phase⟩ : ReadCall) rs) := by
  induction rs generalizing said phase with
  | nil =>
      obtain ⟨s, resume, hstep, hsends, -⟩ := step_follows h
      rw [Procedure.dialogue_nil hstep]
      exact ⟨[], s, [], [], rfl, (List.append_nil said).symm ▸ hsends, rfl, .nil, .waits⟩
  | cons r rs ih =>
      obtain ⟨s, resume, hstep, hsends, hresume⟩ := step_follows h
      rw [Procedure.dialogue_cons hstep]
      rcases hresume r with ⟨result, hr, hstops⟩ | ⟨rows, phase', hrows, hr, hfollows⟩
      · rw [hr, Procedure.dialogue_ended rfl]
        exact ⟨[], s, [], r :: rs, rfl, (List.append_nil said).symm ▸ hsends, rfl, .nil, hstops rs⟩
      · rw [hr]
        obtain ⟨answered, next, heard, later, hstatements, hnext, rfl, hgives, hstops⟩ := ih hfollows
        rw [List.append_assoc] at hnext
        exact ⟨(s, rows) :: answered, next, r :: heard, later, congrArg (s :: ·) hstatements, hnext, rfl,
          .cons hrows hgives, hstops⟩

/-- **A read says what its query asks for.**  Whatever a database responds, and whenever the call is
interrupted, the read waits for the transactions that it noted and for no others, fixes the end of the log
where it travels to it, and selects up to the position that it then knows; after a failure it says nothing
more.  On a connection that owes nothing, the database receives these statements and no others. -/
theorem reads_by_script {q : Query} {b : Bounds} (hb : Bounds.ofQuery q = .ok b) :
    (∀ rs, ReadsByScript q rs (Procedure.dialogue (start q b) rs)) ∧
    ∀ (ctx : Context) (c : Connection), c.owed = none →
      ∃ rs, rs = c.responses ctx (Procedure.dialogue (start q b) rs).statements ∧
        (Procedure.dialogue (start q b) rs).outcome = some (c.run ctx (start q b)).1 ∧
        (c.run ctx (start q b)).2.received =
          c.received ++ (Procedure.dialogue (start q b) rs).statements := by
  obtain rfl := Bounds.ofQuery_eq_ok hb
  refine ⟨fun rs => (runs rs (follows_start q)).readsByScript, fun ctx c howed => ?_⟩
  obtain ⟨rs, hresponses, houtcome, hend⟩ := c.run_dialogue ctx (start q (Bounds.exact q))
  refine ⟨rs, hresponses, houtcome, ?_⟩
  rw [hend]
  exact (Connection.sendAll_of_not_owed ctx _ howed).2

/-! ### A read that waits and travels -/

/-- Everything, as it stands once the open transactions have ended. -/
def settledLog : Query where
  awaitOpenTransactions := true
  allowTimeTravel := true

/-- Two transactions are in progress, then one of them, then none; the log ends at position 5. -/
def settling : List Response :=
  [{ answer := .ok [[.text "7"], [.text "9"]] }, { answer := .ok [[.integer 1]] },
    { answer := .ok [[.integer 0]] }, { answer := .ok [[.integer 5]] }, { answer := .ok [] }]

/-- Two transactions are waited for, and the second poll finds them closed. -/
theorem reads_by_script_settledLog :
    ReadsByScript settledLog settling (Procedure.dialogue (start settledLog {}) settling) ∧
    (Procedure.dialogue (start settledLog {}) settling).statements =
      [.openTransactions, .stillOpen ["7", "9"], .stillOpen ["7", "9"], .latestPosition,
        .select (settledLog.selection {} (some 5))] ∧
    (Procedure.dialogue (start settledLog {}) settling).outcome = some (.ok (.events [])) :=
  ⟨(reads_by_script rfl).1 settling, rfl, rfl⟩

end ReadCall

end EventSourcing
