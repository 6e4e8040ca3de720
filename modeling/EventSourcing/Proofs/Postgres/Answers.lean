import Mathlib.Data.List.Nodup
import EventSourcing.Postgres.Read
import EventSourcing.Proofs.Dictionary
import EventSourcing.Proofs.Postgres.Reading
import EventSourcing.Proofs.Results

/-!
# The PostgreSQL store — answers to a selection

A table is a list of rows in no order, and still the database has only one answer to a selection: the
events have different positions, and an answer is ordered by them or by the distinct values it holds.

* `gives_reading_iff`: the rows that answer a selection are `Selection.rows`, and no others.
* `ofRows_rows`: read back, they are `Selection.answer`.
-/

namespace EventSourcing

open Sql

/-! ### Rows read back -/

/-- A row is the same row when it has been selected. -/
theorem TableRow.ofValues_map (row : TableRow) :
    ofValues Column.ofEvent (Column.ofEvent.map row) = row := by
  funext column
  cases column <;> rfl

/-- An event is read back from its row. -/
theorem Event.ofRow_self (e : Event) : Event.ofRow e.row = .ok e := by
  rw [Event.ofRow]
  simp [Event.row, SqlValue.toText, SqlValue.toInteger, SqlValue.toInstant, SqlValue.toJson,
    sequenceOf, positionOf, bind, Except.bind, pure, Except.pure]

/-- An event is read back from the values of its columns. -/
theorem Event.ofRow_row (e : Event) :
    Event.ofRow (TableRow.ofValues Column.ofEvent (Column.ofEvent.map e.row)) = .ok e := by
  rw [TableRow.ofValues_map]
  exact e.ofRow_self

namespace Selection

/-- The rows that answer a selection from the rows of a log in the order of positions. -/
def rows (s : Selection) (log : List Event) : List Row :=
  let selected := log.filter s.accepts
  match s.columns with
  | .event => (s.page.cut selected).map fun e => Column.ofEvent.map e.row
  | .maxSequence => [[(selected.map Event.sequence).max?.elim .null fun n => .integer n]]
  | .instanceIds =>
    (s.page.cut (sortedDistinct (selected.map (·.aggregate.instanceId)))).map ([.text ·])

/-- **Read back, the rows are the answer.** -/
theorem ofRows_rows (s : Selection) (log : List Event) :
    Output.ofRows s.columns (s.rows log) = .ok (s.answer log) := by
  simp only [rows, answer, Output.ofRows]
  cases s.columns with
  | event =>
      simp only
      have hrows := mapM_map_ok (f := fun row => Event.ofRow (TableRow.ofValues Column.ofEvent row))
        Event.ofRow_row (s.page.cut (log.filter s.accepts))
      rw [hrows]
      rfl
  | maxSequence =>
      simp only
      cases (List.map Event.sequence (List.filter s.accepts log)).max? with
      | none => rfl
      | some n => simp [firstValue, SqlValue.toInteger, sequenceOf, bind, Except.bind, pure, Except.pure]
  | instanceIds =>
      simp only
      have hrows := mapM_map_ok (f := fun row : Row => (row.headD .null).toText) (g := ([.text ·]))
        (fun _ => rfl)
        (s.page.cut (sortedDistinct ((log.filter s.accepts).map (·.aggregate.instanceId))))
      rw [textColumn, hrows]
      rfl

end Selection

/-! ### One answer -/

/-- A list in ascending order, brought into the order of a page. -/
def Page.arrange {α : Type} (p : Page) (l : List α) : List α :=
  if p.desc then l.reverse else l

/-- Arranging changes the order alone. -/
theorem Page.arrange_perm {α : Type} (p : Page) (l : List α) : (p.arrange l).Perm l := by
  rw [arrange]
  split
  · exact List.reverse_perm l
  · exact List.Perm.refl l

namespace Sql

theorem Select.slice_map {α β : Type} (s : Select) (f : α → β) (l : List α) :
    s.slice (l.map f) = (s.slice l).map f := by
  simp only [slice]
  cases s.limit with
  | none => exact List.map_drop.symm
  | some n => simp only [Option.elim_some, ← List.map_drop, ← List.map_take]

/-- An ascending list is sorted in the order of any page. -/
theorem sorted_arrange {α : Type} {key : α → SqlValue} {l : List α} (p : Page)
    (h : l.Pairwise fun a b => compares .atMost (key a) (key b)) :
    Sorted p.desc ((p.arrange l).map key) := by
  rw [Sorted, Page.arrange]
  rw [List.pairwise_map]
  cases p.desc with
  | false => exact h
  | true => exact List.pairwise_reverse.mpr h

/-- Two orders of the same things are the same, where only equal things can change places. -/
theorem eq_of_sorted {α : Type} {k : α → SqlValue} {desc : Bool} {l l' : List α}
    (hp : l.Perm l') (hs : Sorted desc (l.map k)) (hs' : Sorted desc (l'.map k))
    (heq : ∀ a ∈ l', ∀ b ∈ l', compares .atMost (k a) (k b) → compares .atMost (k b) (k a) →
      a = b) : l = l' := by
  rw [Sorted] at hs hs'
  rw [List.pairwise_map] at hs hs'
  refine hp.eq_of_pairwise (fun a b ha hb hab hba => ?_) hs hs'
  have ha' := hp.mem_iff.mp ha
  cases desc with
  | false => exact heq a ha' b hb hab hba
  | true => exact heq a ha' b hb hba hab

theorem compares_atMost_integer {m n : Int} :
    compares .atMost (.integer m) (.integer n) = true ↔ m ≤ n := by
  simp [compares, Comparison.holds, Comparison.ofOrder, Int.le_iff_lt_or_eq, or_comm]

theorem compares_atMost_text {s t : String} :
    compares .atMost (.text s) (.text t) = true ↔ s = t ∨ s < t := by
  simp [compares, Comparison.holds, Comparison.ofOrder]

/-- The highest of some numbers is their maximum. -/
theorem isHighest_iff {values : List SqlValue} {ns : List Nat}
    (h : values.Perm (ns.map fun n : Nat => .integer n)) (v : SqlValue) :
    IsHighest v values ↔ v = ns.max?.elim .null fun n : Nat => .integer n := by
  have hmem : ∀ w, w ∈ values ↔ ∃ n ∈ ns, .integer (n : Int) = w := fun w =>
    h.mem_iff.trans List.mem_map
  cases hmax : ns.max? with
  | none =>
      have hns : ns = [] := List.max?_eq_none_iff.mp hmax
      have hvalues : values = [] := by rw [hns] at h; exact h.eq_nil
      simp [IsHighest, hvalues]
  | some m =>
      obtain ⟨hm, hle⟩ := List.max?_eq_some_iff.mp hmax
      constructor
      · rintro (⟨rfl, rfl⟩ | ⟨hv, hmaximal⟩)
        · exact absurd ((hmem _).mpr ⟨m, hm, rfl⟩) List.not_mem_nil
        · obtain ⟨n, hn, rfl⟩ := (hmem v).mp hv
          have hmn := compares_atMost_integer.mp (hmaximal _ ((hmem _).mpr ⟨m, hm, rfl⟩))
          rw [Nat.le_antisymm (hle n hn) (Int.ofNat_le.mp hmn)]
          rfl
      · rintro rfl
        refine .inr ⟨(hmem _).mpr ⟨m, hm, rfl⟩, fun w hw => ?_⟩
        obtain ⟨n, hn, rfl⟩ := (hmem w).mp hw
        exact compares_atMost_integer.mpr (Int.ofNat_le.mpr (hle n hn))

end Sql

namespace Selection

/-- What the page of a selection cuts out is a slice of the list in the order of the page. -/
theorem slice_reading {α : Type} {s : Selection} {key : Column} (h : key? s.columns = some key)
    (l : List α) : s.reading.slice (s.page.arrange l) = s.page.cut l := by
  rw [reading]
  rw [h]
  rfl

/-- The rows that meet the condition are those of the events that the selection accepts. -/
theorem matching_perm {s : Selection} (hs : s.Proper) {log : List Event} {table : List TableRow}
    (ht : table.Perm (log.map Event.row)) :
    (s.reading.matching table).Perm ((log.filter s.accepts).map Event.row) := by
  have hfilter : (log.map Event.row).filter (fun row => s.condition.holds row) =
      (log.filter s.accepts).map Event.row := by
    rw [List.filter_map]
    congr 1
    exact List.filter_congr fun e _ => holds_condition hs e.row
  rw [Select.matching]
  rw [condition_reading, ← hfilter]
  exact ht.filter _

section

variable {s : Selection} {log : List Event} {table : List TableRow} {rows : List Row}

/-- A selection of events gives the rows of a page, in the order of positions, and nothing else. -/
theorem gives_event_iff (hc : s.columns = .event) (hs : s.Proper)
    (hlog : log.Pairwise (·.position < ·.position)) (ht : table.Perm (log.map Event.row)) :
    s.reading.Gives table rows ↔ rows = s.rows log := by
  have hkey : key? s.columns = some .position := by rw [hc]; rfl
  have htarget : s.reading.target = .columns Column.ofEvent := by
    unfold reading; rw [hkey, hc]; rfl
  have horder : s.reading.order = some ⟨.position, s.page.desc⟩ := by
    unfold reading; rw [hkey]
  have hnodup : (log.map Event.position).Nodup :=
    List.pairwise_map.mpr (hlog.imp fun h => Nat.ne_of_lt h)
  have hsorted : Sorted s.page.desc
      (((s.page.arrange (log.filter s.accepts)).map Event.row).map (· .position)) := by
    rw [List.map_map]
    refine sorted_arrange s.page ((hlog.filter _).imp fun h => ?_)
    exact compares_atMost_integer.mpr (Int.ofNat_le.mpr (Nat.le_of_lt h))
  have hperm : ((s.page.arrange (log.filter s.accepts)).map Event.row).Perm
      (s.reading.matching table) :=
    ((s.page.arrange_perm _).map _).trans (matching_perm hs ht).symm
  have hrows : s.rows log = s.reading.slice
      (((s.page.arrange (log.filter s.accepts)).map Event.row).map fun row =>
        Column.ofEvent.map row) := by
    rw [List.map_map, Select.slice_map, slice_reading hkey, Selection.rows, hc]
    rfl
  rw [Select.Gives]
  rw [htarget, horder, hrows]
  constructor
  · rintro ⟨l, hl, ho, rfl⟩
    -- two selected rows with one position are the row of one event
    have heq : l = (s.page.arrange (log.filter s.accepts)).map Event.row := by
      refine eq_of_sorted (hl.trans hperm.symm) (ho _ rfl) hsorted ?_
      intro a ha b hb hab hba
      obtain ⟨e, he, rfl⟩ := List.mem_map.mp ha
      obtain ⟨f, hf, rfl⟩ := List.mem_map.mp hb
      have hmem : ∀ g ∈ s.page.arrange (log.filter s.accepts), g ∈ log := fun g hg =>
        (List.mem_filter.mp ((s.page.arrange_perm _).mem_iff.mp hg)).1
      have hposition : e.position = f.position := Int.ofNat_inj.mp
        (Int.le_antisymm (compares_atMost_integer.mp hab) (compares_atMost_integer.mp hba))
      rw [List.inj_on_of_nodup_map hnodup (hmem e he) (hmem f hf) hposition]
    rw [heq]
  · rintro rfl
    exact ⟨_, hperm, fun o ho => by cases ho; exact hsorted, rfl⟩

/-- A selection of the highest sequence gives one row. -/
theorem gives_maxSequence_iff (hc : s.columns = .maxSequence) (hs : s.Proper)
    (ht : table.Perm (log.map Event.row)) :
    s.reading.Gives table rows ↔ rows = s.rows log := by
  have hreading : s.reading = { target := .highest .sequence, condition := s.condition } := by
    unfold reading; rw [hc]; rfl
  have hvalues : ((s.reading.matching table).map (· .sequence)).Perm
      (((log.filter s.accepts).map Event.sequence).map fun n : Nat => .integer n) := by
    refine ((matching_perm hs ht).map _).trans ?_
    rw [List.map_map, List.map_map]
    exact List.Perm.refl _
  rw [hreading] at hvalues ⊢
  rw [Select.Gives]
  rw [Selection.rows, hc]
  constructor
  · rintro ⟨-, v, hv, rfl⟩
    rw [(isHighest_iff hvalues v).mp hv]
    rfl
  · rintro rfl
    exact ⟨rfl, _, (isHighest_iff hvalues _).mpr rfl, rfl⟩

/-- A selection of tenants gives each of them once, in ascending order. -/
theorem gives_instanceIds_iff (hc : s.columns = .instanceIds) (hs : s.Proper)
    (ht : table.Perm (log.map Event.row)) :
    s.reading.Gives table rows ↔ rows = s.rows log := by
  have hkey : key? s.columns = some .instanceId := by rw [hc]; rfl
  have htarget : s.reading.target = .distinct .instanceId := by
    unfold reading; rw [hkey, hc]; rfl
  have horder : s.reading.order = some ⟨.instanceId, s.page.desc⟩ := by
    unfold reading; rw [hkey]
  let ids := sortedDistinct ((log.filter s.accepts).map (·.aggregate.instanceId))
  have hids : ids.Pairwise (· < ·) := sorted_sortedDistinct _
  have hmem : ∀ v, v ∈ (s.page.arrange ids).map SqlValue.text ↔
      v ∈ (s.reading.matching table).map (· .instanceId) := by
    have hselected : ((log.filter s.accepts).map Event.row).map (· .instanceId) =
        ((log.filter s.accepts).map (·.aggregate.instanceId)).map SqlValue.text := by
      rw [List.map_map, List.map_map]
      rfl
    intro v
    rw [((matching_perm hs ht).map _).mem_iff, hselected, ((s.page.arrange_perm ids).map _).mem_iff]
    simp only [List.mem_map, ids, mem_sortedDistinct]
  have hnodup : ((s.page.arrange ids).map SqlValue.text).Nodup := by
    refine (((s.page.arrange_perm ids).map _).nodup_iff).mpr (List.pairwise_map.mpr ?_)
    refine hids.imp fun {i j} hij heq => ?_
    rw [SqlValue.text.inj heq] at hij
    exact String.lt_irrefl j hij
  have hsorted : Sorted s.page.desc ((s.page.arrange ids).map SqlValue.text) :=
    sorted_arrange s.page (hids.imp fun h => compares_atMost_text.mpr (.inr h))
  have hrows : s.rows log =
      s.reading.slice (((s.page.arrange ids).map SqlValue.text).map ([·])) := by
    rw [List.map_map, Select.slice_map, slice_reading hkey, Selection.rows, hc]
    rfl
  rw [Select.Gives]
  rw [htarget, horder, hrows]
  constructor
  · rintro ⟨l, hl, hlmem, ho, rfl⟩
    have hperm : l.Perm ((s.page.arrange ids).map SqlValue.text) :=
      (List.perm_ext_iff_of_nodup hl hnodup).mpr fun v => (hlmem v).trans (hmem v).symm
    -- of two texts neither of which is greater, both are the same
    have heq : l = (s.page.arrange ids).map SqlValue.text := by
      refine eq_of_sorted (k := id) hperm (by rw [List.map_id]; exact (ho _ rfl).2)
        (by rw [List.map_id]; exact hsorted) ?_
      intro a ha b hb hab hba
      obtain ⟨i, -, rfl⟩ := List.mem_map.mp ha
      obtain ⟨j, -, rfl⟩ := List.mem_map.mp hb
      rcases compares_atMost_text.mp hab with rfl | hij
      · rfl
      · rcases compares_atMost_text.mp hba with rfl | hji
        · rfl
        · exact absurd (String.lt_trans hij hji) (String.lt_irrefl i)
    rw [heq]
  · rintro rfl
    exact ⟨_, hnodup, hmem, fun o ho => by cases ho; exact ⟨rfl, hsorted⟩, rfl⟩

/-- **The database has one answer to a selection.** -/
theorem gives_reading_iff (hs : s.Proper) (hlog : log.Pairwise (·.position < ·.position))
    (ht : table.Perm (log.map Event.row)) : s.reading.Gives table rows ↔ rows = s.rows log := by
  cases hc : s.columns with
  | event => exact gives_event_iff hc hs hlog ht
  | maxSequence => exact gives_maxSequence_iff hc hs ht
  | instanceIds => exact gives_instanceIds_iff hc hs ht

end

end Selection

end EventSourcing
