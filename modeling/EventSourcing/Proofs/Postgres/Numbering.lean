import Mathlib.Data.List.Forall2
import EventSourcing.Proofs.Ledger.Consistent
import EventSourcing.Proofs.Postgres.Database
import EventSourcing.Proofs.Postgres.Staging

/-!
# The PostgreSQL store — the numbering of the table

Rows carry the sequences that were staged for them.  Whether these continue their streams depends on the
heads that they were staged on.

* `headIn_eq`: the head of a numbered stream is its length.
* `Numbered.append`: rows staged on the heads of a numbered table leave it numbered.
* `Numbered.sequence_lt_iff`: in a numbered table, the rows of a stream are ordered alike by their
  sequences and by anything else that ascends.
-/

namespace EventSourcing

/-- Every stream is numbered from one without gaps. -/
def Numbered (rows : List Event) : Prop :=
  ∀ s, (rowsOf rows s).map Event.sequence = List.range' 1 (rowsOf rows s).length

theorem numbered_nil : Numbered [] := fun _ => rfl

theorem mem_rowsOf {rows : List Event} {s : Stream} {e : Event} :
    e ∈ rowsOf rows s ↔ e ∈ rows ∧ e.stream = s := by
  simp [rowsOf]

/-- The head of a numbered stream is its length. -/
theorem headIn_eq {rows : List Event} (h : Numbered rows) (s : Stream) :
    headIn rows s = (rowsOf rows s).length := by
  rw [headIn, h s]
  cases hn : (rowsOf rows s).length with
  | zero => rfl
  | succ n =>
      have hmax : (List.range' 1 (n + 1)).max? = some (n + 1) := by
        refine List.max?_eq_some_iff.mpr ⟨List.mem_range'_1.mpr (by omega), fun m hm => ?_⟩
        have := List.mem_range'_1.mp hm
        omega
      rw [hmax]
      rfl

/-! ### Rows at the end -/

/-- A row is added to its stream. -/
theorem rowsOf_concat_self (rows : List Event) (e : Event) :
    rowsOf (rows ++ [e]) e.stream = rowsOf rows e.stream ++ [e] := by
  simp [rowsOf, List.filter_append]

/-- It leaves all other streams alone. -/
theorem rowsOf_concat_other {s : Stream} (rows : List Event) {e : Event} (hne : s ≠ e.stream) :
    rowsOf (rows ++ [e]) s = rowsOf rows s := by
  simp [rowsOf, List.filter_append, hne.symm]

/-- A row with the sequence after the head of its stream keeps the table numbered. -/
theorem Numbered.concat {rows : List Event} (h : Numbered rows) {e : Event}
    (he : e.sequence = headIn rows e.stream + 1) : Numbered (rows ++ [e]) := by
  intro s
  by_cases hs : s = e.stream
  · subst hs
    rw [rowsOf_concat_self]
    exact Ledger.Consistent.numbered_concat (h e.stream) (he.trans (by rw [headIn_eq h]))
  · rw [rowsOf_concat_other rows hs]
    exact h s

/-- The heads of the table follow those that a batch is staged on. -/
theorem headIn_concat {rows : List Event} (h : Numbered rows) {e : Event}
    (he : e.sequence = headIn rows e.stream + 1) {heads : Heads}
    (hheads : ∀ s, heads.head s = headIn rows s) (s : Stream) :
    (heads.set e.stream e.sequence).head s = headIn (rows ++ [e]) s := by
  rw [headIn_eq (h.concat he)]
  by_cases hs : s = e.stream
  · rw [hs, Heads.head_set_self, rowsOf_concat_self, List.length_append, ← headIn_eq h]
    exact he
  · rw [Heads.head_set_other _ _ hs, rowsOf_concat_other rows hs, ← headIn_eq h]
    exact hheads s

namespace Staged.Fills

variable {s : Staged} {e : Event}

/-- A row that fills in what was staged belongs to the stream of its command. -/
theorem stream (h : s.Fills e) : e.stream = s.command.stream := by
  simp only [Fills, Column.inserted, Staged.values, List.map_cons, List.cons.injEq, Event.row,
    SqlValue.text.injEq] at h
  obtain ⟨hinstance, htype, hid, -⟩ := h
  simp only [Event.stream, Command.stream, Aggregate.stream, hinstance, htype, hid]

/-- It has the sequence that it was staged with. -/
theorem sequence (h : s.Fills e) : e.sequence = s.sequence := by
  simp only [Fills, Column.inserted, Staged.values, List.map_cons, List.cons.injEq, Event.row,
    SqlValue.integer.injEq] at h
  exact Int.ofNat.inj h.2.2.2.1

end Staged.Fills

/-- **Rows staged on the heads of a numbered table leave it numbered.** -/
theorem Numbered.append {rows new : List Event} {heads : Heads} {commands : List Command}
    (h : Numbered rows) (hheads : ∀ s, heads.head s = headIn rows s)
    (hnew : List.Forall₂ Staged.Fills (stage heads commands) new) : Numbered (rows ++ new) := by
  -- command by command, with the row of each put at the end of the table and its head set
  induction commands generalizing heads rows new with
  | nil =>
      cases hnew
      rwa [List.append_nil]
  | cons c cs ih =>
      obtain _ | ⟨hfills, hnew⟩ := hnew
      rename_i e new
      have hstream : e.stream = c.stream := hfills.stream
      have hsequence : e.sequence = heads.head c.stream + 1 := hfills.sequence
      have he : e.sequence = headIn rows e.stream + 1 := by rw [hsequence, hstream, hheads]
      rw [← hsequence, ← hstream] at hnew
      have := ih (h.concat he) (headIn_concat h he hheads) hnew
      rwa [List.append_assoc] at this

/-! ### The order of the rows -/

/-- In a numbered table, what ascends along the table orders the rows of a stream as their sequences do. -/
theorem Numbered.sequence_lt_iff {rows : List Event} (h : Numbered rows) {f : Event → Nat}
    (hf : rows.Pairwise fun a b => f a < f b) {a b : Event} (ha : a ∈ rows) (hb : b ∈ rows)
    (hs : a.stream = b.stream) : a.sequence < b.sequence ↔ f a < f b := by
  have hsequence : (rowsOf rows b.stream).Pairwise fun a b => a.sequence < b.sequence := by
    rw [← List.pairwise_map, h b.stream]
    exact List.pairwise_lt_range'
  have hboth := hsequence.and (hf.filter fun e => e.stream = b.stream)
  -- of two rows of the stream one comes first in the table, unless they are the same
  have hrel := List.Pairwise.forall_of_forall_of_flip
    (R := fun a b => a.sequence < b.sequence ↔ f a < f b)
    (fun a _ => iff_of_false (Nat.lt_irrefl _) (Nat.lt_irrefl _))
    (hboth.imp fun h => iff_of_true h.1 h.2)
    (hboth.imp fun h => iff_of_false (Nat.lt_asymm h.1) (Nat.lt_asymm h.2))
  exact hrel (mem_rowsOf.mpr ⟨ha, hs⟩) (mem_rowsOf.mpr ⟨hb, rfl⟩)

end EventSourcing
