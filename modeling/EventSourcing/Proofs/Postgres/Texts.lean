import EventSourcing.Proofs.Postgres.Agreement
import EventSourcing.Proofs.Postgres.Deciding
import EventSourcing.Proofs.Postgres.Shape
import EventSourcing.Proofs.Sql.Insert

/-!
# The PostgreSQL store — texts hold no data

What a caller has chosen reaches the database as bound values and never as text.

* `Selection.spelled`, `Statement.spelled_insert`: the fragments of both statements are spelled, so that
  their placeholders are found again in the texts.
* `Statement.Says`: what a database makes of a text and the values bound to it.
* `Query.says`, `Statement.says_insert`: a query says its own conditions, an insertion its own rows.
* `texts_without_data`: **texts depend on shapes alone, and every value is bound where it belongs.**
-/

namespace EventSourcing

open Sql

/-! ### Spelled statements -/

theorem joint_and : Joint " AND " := ⟨by decide, rfl, rfl⟩

theorem joint_or : Joint " OR " := ⟨by decide, rfl, rfl⟩

theorem joint_comma : Joint ", " := ⟨by decide, rfl, rfl⟩

theorem joint_limit : Joint " LIMIT " := ⟨by decide, rfl, rfl⟩

theorem joint_offset : Joint " OFFSET " := ⟨by decide, rfl, rfl⟩

theorem spelled_close : Spelled [.fixed ")"] := .fixed (by decide) (.inr trivial) .nil

/-- No name of a column looks like a placeholder. -/
theorem Column.plain_name (column : Column) : '$' ∉ column.name.toList := by
  cases column <;> decide

theorem Column.plain_list (columns : List Column) : '$' ∉ (Column.list columns).toList := by
  rw [Column.list]
  induction columns with
  | nil => decide
  | cons column columns ih =>
      cases columns with
      | nil => exact column.plain_name
      | cons next columns =>
          rw [List.map_cons, List.map_cons, String.intercalate_cons_cons]
          exact plain_append (plain_append column.plain_name (by decide)) ih

theorem Comparison.plain_symbol (op : Comparison) : '$' ∉ op.symbol.toList := by
  cases op <;> decide

/-- Atoms are spelled so that they can be read back. -/
theorem Atom.spelled (a : Atom) : Spelled a.fragments := by
  cases a with
  | compare column op value =>
      have hplain : '$' ∉ (column.name ++ " " ++ op.symbol ++ " ").toList :=
        plain_append (plain_append (plain_append column.plain_name (by decide)) op.plain_symbol)
          (by decide)
      exact .fixed hplain (.inl (closes_append (by rfl))) (.bound trivial .nil)
  | blank column =>
      exact .fixed (plain_append column.plain_name (by decide)) (.inr trivial) .nil
  | oneOf column texts =>
      exact .fixed (plain_append column.plain_name (by decide)) (.inl (closes_append (by rfl)))
        (.bound rfl spelled_close)
  | member key value =>
      have hvalue : Spelled [.fixed " = ", .bound (.json value)] :=
        .fixed (by decide) (.inl rfl) (.bound trivial .nil)
      exact .fixed (plain_append (Column.plain_name _) (by decide)) (.inl (closes_append (by rfl)))
        (.bound rfl hvalue)

theorem Clause.spelled_conjunction (atoms : List Atom) : Spelled (conjunction atoms) := by
  obtain ⟨hspelled, hopens⟩ := Spelled.joined joint_and (l := atoms) fun a _ => a.spelled
  exact .fixed (by decide) (.inr (hopens.append rfl)) (hspelled.append spelled_close rfl)

/-- Clauses are spelled so that they can be read back. -/
theorem Clause.spelled (c : Clause) : Spelled c.fragments := by
  have hwithin {fs : List Fragment} (h : Spelled fs) :
      Spelled (.fixed "(" :: (fs ++ [.fixed ")"])) :=
    .fixed (by decide) (.inl rfl) (h.append spelled_close rfl)
  cases c with
  | atom a => exact a.spelled
  | either a b =>
      have hchoice : Spelled (a.fragments ++ .fixed " OR " :: b.fragments) :=
        a.spelled.append (.fixed (by decide) (.inl rfl) b.spelled) rfl
      have hfragments : (either a b).fragments =
          .fixed "(" :: ((a.fragments ++ .fixed " OR " :: b.fragments) ++ [.fixed ")"]) := by
        simp [fragments]
      rw [hfragments]
      exact hwithin hchoice
  | anyOf branches =>
      refine hwithin (Spelled.separated joint_or fun fs hfs => ?_)
      obtain ⟨atoms, -, rfl⟩ := List.mem_map.mp hfs
      exact spelled_conjunction atoms

/-- What the order, the limit and the offset add begins a word of its own. -/
theorem Page.spelled (p : Page) (key : Column) :
    Spelled (p.fragments key) ∧ Opens (p.fragments key) := by
  have hbound {keyword : String} (h : Joint keyword) (o : Option Int) :
      Spelled (o.elim [] fun n => [.fixed keyword, .bound (.integer n)]) ∧
        Opens (o.elim [] fun n => [.fixed keyword, .bound (.integer n)]) := by
    cases o with
    | none => exact ⟨.nil, trivial⟩
    | some n => exact ⟨.fixed h.plain (.inl h.closes) (.bound trivial .nil), h.opens⟩
  obtain ⟨hlimit, hlimit'⟩ := hbound joint_limit p.limit
  obtain ⟨hoffset, hoffset'⟩ := hbound joint_offset p.offset
  have hdirection : '$' ∉ (if p.desc then " DESC" else " ASC" : String).toList := by
    split <;> decide
  have horder : '$' ∉ (" ORDER BY " ++ key.name ++ (if p.desc then " DESC" else " ASC")).toList :=
    plain_append (plain_append (by decide) key.plain_name) hdirection
  rw [fragments, List.append_assoc]
  refine ⟨.fixed horder (.inr (hlimit'.append hoffset')) (hlimit.append hoffset hoffset'), ?_⟩
  exact opens_append (opens_append rfl)

theorem Selection.plain_target (columns : Columns) : '$' ∉ (target columns).toList := by
  cases columns with
  | event => exact Column.plain_list _
  | maxSequence => exact plain_append (plain_append (by decide) (Column.plain_name _)) (by decide)
  | instanceIds => exact plain_append (by decide) (Column.plain_name _)

/-- Selections are spelled so that they can be read back. -/
theorem Selection.spelled (s : Selection) : Spelled s.fragments := by
  obtain ⟨hclauses, hopens⟩ := Spelled.joined joint_and (l := s.clauses) fun c _ => c.spelled
  have htarget : '$' ∉ ("SELECT " ++ target s.columns ++ " FROM strata_events WHERE TRUE").toList :=
    plain_append (plain_append (by decide) (plain_target s.columns)) (by decide)
  obtain ⟨hpage, hpage'⟩ : Spelled ((key? s.columns).elim [] s.page.fragments) ∧
      Opens ((key? s.columns).elim [] s.page.fragments) := by
    cases key? s.columns with
    | none => exact ⟨.nil, trivial⟩
    | some key => exact s.page.spelled key
  rw [fragments, List.append_assoc]
  exact .fixed htarget (.inr (hopens.append hpage')) (hclauses.append hpage hpage')

theorem Statement.spelled_tuple (s : Staged) : Spelled (tuple s) := by
  have hvalues : Spelled (Fragment.separated ", " (s.values.map fun v => [.bound v])) := by
    refine Spelled.separated joint_comma fun fs hfs => ?_
    obtain ⟨v, -, rfl⟩ := List.mem_map.mp hfs
    exact .bound trivial .nil
  exact .fixed (by decide) (.inl rfl) (hvalues.append spelled_close rfl)

/-- Insertions are spelled so that they can be read back. -/
theorem Statement.spelled_insert (staged : List Staged) :
    Spelled (Statement.insert staged).fragments := by
  have htuples : Spelled (Fragment.separated ", " (staged.map tuple)) := by
    refine Spelled.separated joint_comma fun fs hfs => ?_
    obtain ⟨s, -, rfl⟩ := List.mem_map.mp hfs
    exact spelled_tuple s
  have hreturning : Spelled [.fixed (" RETURNING " ++ Column.list Column.generated)] :=
    .fixed (plain_append (by decide) (Column.plain_list _)) (.inr trivial) .nil
  have hcolumns : '$' ∉
      ("INSERT INTO strata_events (" ++ Column.list Column.inserted ++ ") VALUES ").toList :=
    plain_append (plain_append (by decide) (Column.plain_list _)) (by decide)
  exact .fixed hcolumns (.inl (closes_append (by rfl)))
    (htuples.append hreturning (opens_append (by rfl)))

/-! ### What the statements say -/

/-- Read from its text and its bound values, the statement says `a`.  The placeholders of the text are
`$1`, `$2` and so on, each once and in this order, one for each value. -/
structure Statement.Says {α : Type} (s : Statement) (read? : List Token → Option α) (a : α) :
    Prop where
  placeholders : Sql.placeholders s.text.toList = (List.range' 1 s.values.length).map toString
  read : read? (tokensIn s.values s.text) = some a

/-- A text that is well spelled says what its words say. -/
theorem Statement.says_of_spelled {α : Type} {s : Statement} {read? : List Token → Option α} {a : α}
    (hs : Spelled s.fragments) (hread : read? (tokens s.fragments) = some a) : s.Says read? a where
  placeholders := placeholders_text hs
  read := by
    rw [Statement.text, Statement.values, tokensIn_text hs]
    exact hread

/-- **A query says its own conditions**, each with its own value. -/
theorem Query.says (q : Query) (b : Bounds) (snapshot : Option Int) :
    (Statement.select (q.selection b snapshot)).Says Select.read?
      (q.selection b snapshot).reading :=
  Statement.says_of_spelled (Selection.spelled _)
    (Selection.read_fragments (q.proper_selection b snapshot))

/-- **An insertion says its own rows.** -/
theorem Statement.says_insert {staged : List Staged} (h : staged ≠ []) :
    (Statement.insert staged).Says Insert.read? {
      columns := Column.inserted
      rows := staged.map Staged.values
      returning := Column.generated } :=
  says_of_spelled (spelled_insert staged) (read_insert h)

/-! ### The statements of a push -/

/-- A push of the batch sends this insertion, as it is answered in some way. -/
def Batch.Inserts (b : Batch) (ctx : Context) (staged : List Staged) : Prop :=
  ∃ nested rs, .insert staged ∈
    (({ commands := (b.scoped ctx).toList, nested } : PushCall).answers rs).statements

/-- The rows that a push inserts are those of its commands, in their order. -/
theorem Batch.Inserts.commands {b : Batch} {ctx : Context} {staged : List Staged}
    (h : b.Inserts ctx staged) : staged.map Staged.command = (b.scoped ctx).toList := by
  obtain ⟨nested, rs, hmem⟩ := h
  obtain ⟨staged', hcommands, hpre⟩ :=
    PushCall.statements_follow { commands := (b.scoped ctx).toList, nested } rs
  have hsent := hpre.subset hmem
  rw [PushCall.remaining] at hsent
  obtain rfl : staged = staged' := by simpa using hsent
  exact hcommands

/-- **Texts hold no data.**  The text of a query depends on the shape of the query alone, and the text of
an insertion on the number of commands that are pushed.  Read from their texts and their bound values,
every query says its own conditions and every push its own rows: tuple by tuple, the values of its
commands in the order of the columns. -/
theorem texts_without_data :
    (∀ (q q' : Query) (b b' : Bounds) (snapshot snapshot' : Option Int),
      q.shape b snapshot = q'.shape b' snapshot' →
        (Statement.select (q.selection b snapshot)).text =
          (Statement.select (q'.selection b' snapshot')).text) ∧
    (∀ (q : Query) (b : Bounds) (snapshot : Option Int),
      (Statement.select (q.selection b snapshot)).Says Select.read?
        (q.selection b snapshot).reading) ∧
    (∀ (b b' : Batch) (ctx ctx' : Context) (staged staged' : List Staged),
      b.Inserts ctx staged → b'.Inserts ctx' staged' → b.toList.length = b'.toList.length →
        (Statement.insert staged).text = (Statement.insert staged').text) ∧
    ∀ (b : Batch) (ctx : Context) (staged : List Staged), b.Inserts ctx staged →
      staged.map Staged.command = (b.scoped ctx).toList ∧
      ∀ position date, (Statement.insert staged).Says Insert.read? {
        columns := Column.inserted
        rows := staged.map fun s => Column.inserted.map (s.event position date).row
        returning := Column.generated } := by
  have hscoped (b : Batch) (ctx : Context) : (b.scoped ctx).toList.length = b.toList.length := by
    rw [Batch.scoped, Batch.toList_map, List.length_map]
  refine ⟨fun q q' b b' snapshot snapshot' h => Query.text_of_shape h, Query.says,
    fun b b' ctx ctx' staged staged' h h' hlength => text_insert ?_, fun b ctx staged h => ?_⟩
  · rw [← List.length_map (f := Staged.command), h.commands, hscoped, hlength,
      ← hscoped b' ctx', ← h'.commands, List.length_map]
  · refine ⟨h.commands, fun position date => Statement.says_insert ?_⟩
    rintro rfl
    cases h.commands

/-- The organisation of this name. -/
def named (name : String) : Query where
  instanceId := some "t1"
  branches := [{ aggregateTypes := ["org"], data := some (.ofList [("name", .str name)]) }]

/-- An organisation is added under this name. -/
def adding (name : String) : Batch :=
  ⟨{ aggregate := { type := "org", id := name }, type := "org.added" }, []⟩

/-- The command is inserted as the first event of its stream. -/
theorem adding_inserts (name : String) : (adding name).Inserts {} [⟨(adding name).first, 1⟩] := by
  have hbegun : ∃ rows, ({ answer := .ok [] } : Response).Gives rows := ⟨_, rfl, rfl⟩
  have hreads : List.Forall₂ (PushCall.TellsHead fun _ => none)
      (streamsOf ((adding name).scoped {}).toList) [{ answer := .ok [[.integer 0]] }] :=
    .cons ⟨_, ⟨rfl, rfl⟩, rfl⟩ .nil
  exact ⟨false, _, (PushCall.insert_mem_iff _ false hbegun hbegun hreads [] _).mpr rfl⟩

/-- A name that is SQL of its own is a value like any other. -/
theorem texts_without_data_quoted :
    (Statement.select ((named "'); DROP TABLE strata_events; --").selection
        { positionAfter := some 7 } none)).text =
      (Statement.select ((named "$1").selection { positionAfter := some 0 } none)).text ∧
    placeholders (Statement.select ((named "$1").selection
      { positionAfter := some 0 } none)).text.toList = ["1", "2", "3", "4", "5"] ∧
    (Statement.insert [⟨(adding "'); DROP TABLE strata_events; --").first, 1⟩]).text =
      (Statement.insert [⟨(adding "$1").first, 1⟩]).text ∧
    placeholders (Statement.insert [⟨(adding "$1").first, 1⟩]).text.toList =
      ["1", "2", "3", "4", "5", "6", "7", "8"] := by
  obtain ⟨hqueries, hselect, hpushes, hinsert⟩ := texts_without_data
  have hsaid := (hinsert _ _ _ (adding_inserts "$1")).2 0 default
  exact ⟨hqueries _ _ _ _ _ _ rfl, (hselect _ _ _).placeholders.trans rfl,
    hpushes _ _ _ _ _ _ (adding_inserts _) (adding_inserts _) rfl, hsaid.placeholders.trans rfl⟩

end EventSourcing
