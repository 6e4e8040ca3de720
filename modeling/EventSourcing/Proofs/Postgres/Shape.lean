import Mathlib.Logic.Function.Basic
import EventSourcing.Proofs.Sql.Text
import EventSourcing.Postgres.Statement

/-!
# The PostgreSQL store — shapes

The shape of a query is which of its filters and bounds are set, and how many branches and payload keys
it has: all that is left of it when its strings, numbers, dates and JSON values are gone.

* `Fragment.outline`: fragments without the values that are bound in them.
* `text_of_outline`: fragments with the same outline have the same text.
* `Query.text_of_shape`: **the text of a query depends on its shape alone.**
* `text_insert`: **the text of an insertion depends on the number of its rows alone.**
-/

namespace EventSourcing

/-! ### Outlines -/

namespace Fragment

/-- The fixed text of a fragment, and nothing for a bound value. -/
def fixed? : Fragment → Option String
  | fixed s => some s
  | bound _ => none

/-- What fragments say apart from their values. -/
def outline (fs : List Fragment) : List (Option String) :=
  fs.map fixed?

theorem outline_append (fs gs : List Fragment) : outline (fs ++ gs) = outline fs ++ outline gs :=
  List.map_append

/-- What has the same outlines in its parts has the same outline, with `s` before each part. -/
theorem outline_flatMap {α β : Type} (s : String) {f : α → List Fragment} {g : β → List Fragment}
    {l : List α} {l' : List β} (h : l.map (fun a => outline (f a)) = l'.map fun b => outline (g b)) :
    outline (l.flatMap fun a => .fixed s :: f a) = outline (l'.flatMap fun b => .fixed s :: g b) := by
  have hparts := congrArg (List.map (some s :: ·)) h
  rw [List.map_map, List.map_map] at hparts
  rw [outline, outline, List.map_flatMap, List.map_flatMap, List.flatMap_def, List.flatMap_def]
  exact congrArg List.flatten hparts

/-- The outline of a list is that of its members. -/
theorem outline_separated (separator : String) {l l' : List (List Fragment)}
    (h : l.map outline = l'.map outline) :
    outline (separated separator l) = outline (separated separator l') := by
  cases l with
  | nil =>
      obtain rfl := List.map_eq_nil_iff.mp h.symm
      rfl
  | cons fs l =>
      cases l' with
      | nil => cases h
      | cons fs' l' =>
          obtain ⟨hfirst, hrest⟩ := List.cons.inj h
          rw [Sql.separated_cons, Sql.separated_cons, outline_append, outline_append, hfirst]
          exact congrArg (_ ++ ·) (outline_flatMap separator hrest)

/-- The outline alone makes the text, placeholders included. -/
theorem textFrom_of_outline {fs gs : List Fragment} (h : outline fs = outline gs) (n : Nat) :
    textFrom n fs = textFrom n gs := by
  induction fs generalizing gs n with
  | nil =>
      obtain rfl := List.map_eq_nil_iff.mp h.symm
      rfl
  | cons f fs ih =>
      cases gs with
      | nil => cases h
      | cons g gs =>
          obtain ⟨hfirst, hrest⟩ := List.cons.inj h
          cases f with
          | fixed s =>
              cases g with
              | fixed t =>
                  obtain rfl := Option.some.inj hfirst
                  rw [textFrom, textFrom, ih hrest]
              | bound w => cases hfirst
          | bound v =>
              cases g with
              | fixed t => cases hfirst
              | bound w => rw [textFrom, textFrom, ih hrest]

/-- Fragments with the same outline have the same text. -/
theorem text_of_outline {fs gs : List Fragment} (h : outline fs = outline gs) : text fs = text gs :=
  textFrom_of_outline h 1

end Fragment

open Fragment

/-! ### Shapes -/

/-- Which fields a branch sets, and how many payload keys it names. -/
structure Branch.Shape where
  aggregateTypes : Bool
  aggregateIds : Bool
  eventTypes : Bool
  keys : Nat
deriving DecidableEq

/-- The shape of a branch. -/
def Branch.shape (b : Branch) : Branch.Shape where
  aggregateTypes := !b.aggregateTypes.isEmpty
  aggregateIds := !b.aggregateIds.isEmpty
  eventTypes := !b.eventTypes.isEmpty
  keys := (b.data.elim [] DataFilter.toList).length

/-- What a query asks for and in which direction, which filters and bounds it has, and the shapes of its
branches. -/
structure Query.Shape where
  columns : Columns
  desc : Bool
  instanceId : Bool
  resourceOwner : Bool
  editorUser : Bool
  creationDateAfter : Bool
  creationDateBefore : Bool
  positionAfter : Bool
  /-- Whether there is a last position, be it of the query or of a snapshot. -/
  asOfPosition : Bool
  sequenceGreater : Bool
  limit : Bool
  offset : Bool
  branches : List Branch.Shape
deriving DecidableEq

/-- The shape of a query, with the bounds and the snapshot that its statement is made with. -/
def Query.shape (q : Query) (b : Bounds) (snapshot : Option Int) : Query.Shape where
  columns := q.columns
  desc := q.desc
  instanceId := (q.instanceId.bind nonEmpty?).isSome
  resourceOwner := q.resourceOwner?.isSome
  editorUser := q.editorUser?.isSome
  creationDateAfter := q.creationDateAfter.isSome
  creationDateBefore := q.creationDateBefore.isSome
  positionAfter := b.positionAfter.isSome
  asOfPosition := (b.asOfPosition.or snapshot).isSome
  sequenceGreater := b.sequenceGreater.isSome
  limit := b.limit.isSome
  offset := b.offset.isSome
  branches := q.branches.map Branch.shape

/-! ### The text of a query -/

/-- What is made of an optional value has an outline that tells only whether the value is given. -/
theorem map_of_isSome {α β γ : Type} {o o' : Option α} {f : α → β} {g : β → γ}
    (h : o.isSome = o'.isSome) (hg : ∀ a a', g (f a) = g (f a')) :
    (o.map f).toList.map g = (o'.map f).toList.map g := by
  cases o with
  | none =>
      cases o' with
      | none => rfl
      | some a' => cases h
  | some a =>
      cases o' with
      | none => cases h
      | some a' => exact congrArg ([·]) (hg a a')

theorem Atom.outline_ofList {column : Column} {l l' : List String} (h : l.isEmpty = l'.isEmpty) :
    (Atom.ofList column l).map (outline ·.fragments) =
      (Atom.ofList column l').map (outline ·.fragments) := by
  rw [ofList, ofList, h]
  split <;> rfl

/-- Branches of one shape have the same outlines. -/
theorem Branch.outline_atoms {b b' : Branch} (h : b.shape = b'.shape) :
    b.atoms.map (outline ·.fragments) = b'.atoms.map (outline ·.fragments) := by
  obtain ⟨htypes, hids, hevents, hkeys⟩ := Branch.Shape.mk.inj h
  have hmembers (l : List (String × Json)) :
      (l.map fun m => Atom.member m.1 m.2).map (outline ·.fragments) =
        List.replicate l.length (outline (Atom.member "" .null).fragments) := by
    rw [List.map_map]
    exact List.map_eq_replicate_iff.mpr fun _ _ => rfl
  rw [atoms, atoms]
  simp only [List.map_append]
  rw [Atom.outline_ofList (Bool.not_inj htypes), Atom.outline_ofList (Bool.not_inj hids),
    Atom.outline_ofList (Bool.not_inj hevents), hmembers, hmembers, hkeys]

/-- Whatever depends on the shapes of branches alone is the same for lists of the same shapes. -/
theorem Branch.map_of_shape {α : Type} {f : Branch → List α} {l l' : List Branch}
    (hf : ∀ b b' : Branch, b.shape = b'.shape → f b = f b')
    (h : l.map Branch.shape = l'.map Branch.shape) : l.map f = l'.map f := by
  have hfactors : f.FactorsThrough Branch.shape := fun b b' => hf b b'
  rw [← hfactors.extend_comp (fun _ => []), ← List.map_map, ← List.map_map, h]

theorem Clause.outline_conjunction {atoms atoms' : List Atom}
    (h : atoms.map (outline ·.fragments) = atoms'.map (outline ·.fragments)) :
    outline (conjunction atoms) = outline (conjunction atoms') := by
  rw [conjunction, conjunction, outline_append, outline_append, outline_append, outline_append,
    outline_flatMap " AND " h]

theorem Clause.outline_anyOf {l l' : List Branch} (h : l.map Branch.shape = l'.map Branch.shape) :
    outline (anyOf (l.map Branch.atoms)).fragments =
      outline (anyOf (l'.map Branch.atoms)).fragments := by
  have hbranches : ((l.map Branch.atoms).map conjunction).map outline =
      ((l'.map Branch.atoms).map conjunction).map outline := by
    rw [List.map_map, List.map_map, List.map_map, List.map_map]
    exact Branch.map_of_shape (fun b b' h => outline_conjunction (Branch.outline_atoms h)) h
  rw [fragments, fragments, outline_append, outline_append, outline_append, outline_append,
    outline_separated " OR " hbranches]

/-- Pages that bound the same have the same outline. -/
theorem Page.outline_fragments {p p' : Page} (hdesc : p.desc = p'.desc)
    (hlimit : p.limit.isSome = p'.limit.isSome) (hoffset : p.offset.isSome = p'.offset.isSome)
    (key : Column) : outline (p.fragments key) = outline (p'.fragments key) := by
  have hbound (keyword : String) {o o' : Option Int} (h : o.isSome = o'.isSome) :
      outline (o.elim [] fun n => [.fixed keyword, .bound (.integer n)]) =
        outline (o'.elim [] fun n => [.fixed keyword, .bound (.integer n)]) := by
    cases o with
    | none => cases o' with
      | none => rfl
      | some n' => cases h
    | some n => cases o' with
      | none => cases h
      | some n' => rfl
  rw [fragments, fragments]
  simp only [outline_append]
  rw [hdesc, hbound " LIMIT " hlimit, hbound " OFFSET " hoffset]

namespace Query

variable {q q' : Query} {b b' : Bounds} {snapshot snapshot' : Option Int}

/-- Queries of one shape have clauses of the same outlines. -/
theorem outline_clauses (h : q.shape b snapshot = q'.shape b' snapshot') :
    (q.clauses b snapshot).map (outline ·.fragments) =
      (q'.clauses b' snapshot').map (outline ·.fragments) := by
  obtain ⟨-, -, hinstance, howner, heditor, hafter, hbefore, hposition, hasOf, hsequence, -, -,
    hbranches⟩ := Query.Shape.mk.inj h
  rw [clauses, clauses]
  simp only [List.map_append]
  rw [map_of_isSome hinstance fun _ _ => rfl, map_of_isSome howner fun _ _ => rfl,
    map_of_isSome heditor fun _ _ => rfl, map_of_isSome hafter fun _ _ => rfl,
    map_of_isSome hbefore fun _ _ => rfl, map_of_isSome hposition fun _ _ => rfl,
    map_of_isSome hasOf fun _ _ => rfl, map_of_isSome hsequence fun _ _ => rfl]
  have hnone : q.branches.isEmpty = q'.branches.isEmpty := by
    have hlength := congrArg List.length hbranches
    rw [List.length_map, List.length_map] at hlength
    rw [Bool.eq_iff_iff, List.isEmpty_iff_length_eq_zero, List.isEmpty_iff_length_eq_zero, hlength]
  congr 1
  rw [hnone]
  split
  · rfl
  · exact congrArg ([·]) (Clause.outline_anyOf hbranches)

/-- **The text of a query depends on its shape alone.** -/
theorem text_of_shape (h : q.shape b snapshot = q'.shape b' snapshot') :
    (Statement.select (q.selection b snapshot)).text =
      (Statement.select (q'.selection b' snapshot')).text := by
  have hclauses := outline_flatMap " AND " (outline_clauses h)
  obtain ⟨hcolumns, hdesc, -, -, -, -, -, -, -, -, hlimit, hoffset, -⟩ := Query.Shape.mk.inj h
  have hcolumns : (q.selection b snapshot).columns = (q'.selection b' snapshot').columns := hcolumns
  have hpage (columns : Columns) :
      outline ((Selection.key? columns).elim [] (q.selection b snapshot).page.fragments) =
        outline ((Selection.key? columns).elim [] (q'.selection b' snapshot').page.fragments) := by
    cases Selection.key? columns with
    | none => rfl
    | some key => exact Page.outline_fragments hdesc hlimit hoffset key
  refine text_of_outline ?_
  show outline (Selection.fragments _) = outline (Selection.fragments _)
  rw [Selection.fragments, Selection.fragments]
  simp only [outline_append]
  rw [hcolumns, hpage]
  exact congrArg (_ ++ · ++ _) hclauses

end Query

/-! ### The text of an insertion -/

/-- **The text of an insertion depends on the number of its rows alone.** -/
theorem text_insert {staged staged' : List Staged} (h : staged.length = staged'.length) :
    (Statement.insert staged).text = (Statement.insert staged').text := by
  have htuples : (staged.map Statement.tuple).map outline =
      (staged'.map Statement.tuple).map outline := by
    refine List.ext_getElem (by simp only [List.length_map, h]) fun i _ _ => ?_
    simp only [List.getElem_map]
    -- every tuple binds as many values
    rfl
  refine text_of_outline ?_
  simp only [Statement.fragments, outline_append]
  rw [outline_separated ", " htuples]

end EventSourcing
