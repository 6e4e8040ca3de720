import Mathlib.Data.List.Basic
import Mathlib.Data.List.Induction
import EventSourcing.Postgres.Push
import EventSourcing.Proofs.Results
import EventSourcing.Proofs.Ledger.Streams

/-!
# The PostgreSQL store — between the statements of a push

What a push computes from one response to the next: the streams whose heads it reads, the rows that it
inserts, and the events that it makes of the rows given back.

* `pairwise_streamsOf`: the heads of a batch are read in the order in which its streams first occur.
* `stageChecked_eq_ok_iff`: a batch is staged exactly if it `Fits` the heads.
* `insertedEvents_iff`: which rows an insertion may give back.
* `Blameless`: what is made of rows never fails for what the database was asked.
-/

namespace EventSourcing

/-! ### The streams of a batch -/

/-- The streams of commands are those that they go to. -/
theorem mem_streamsOf {commands : List Command} {s : Stream} :
    s ∈ streamsOf commands ↔ ∃ c ∈ commands, c.stream = s := by
  rw [streamsOf]
  rw [List.mem_eraseDups, List.mem_map]

/-- Erasing duplicates keeps the first occurrences, in their order. -/
theorem pairwise_idxOf_eraseDups {α : Type} [DecidableEq α] (l : List α) :
    l.eraseDups.Pairwise fun a b => l.idxOf a < l.idxOf b := by
  induction l using List.reverseRecOn with
  | nil => exact List.Pairwise.nil
  | append_singleton l x ih =>
      rw [List.eraseDups_append, List.pairwise_append]
      refine ⟨ih.imp_of_mem fun ha hb h => ?_, ?_, fun a ha b hb => ?_⟩
      · rw [List.mem_eraseDups] at ha hb
        rw [List.idxOf_append_of_mem ha, List.idxOf_append_of_mem hb]
        exact h
      · by_cases hx : x ∈ l
        · simp [List.removeAll, hx]
        · simp [List.removeAll, hx, List.eraseDups_cons]
      · -- a member that is new comes after all of `l`
        rw [List.mem_eraseDups] at ha hb
        obtain ⟨-, hbl⟩ := List.mem_filter.mp hb
        have hnew : b ∉ l := by simpa using hbl
        rw [List.idxOf_append_of_mem ha, List.idxOf_append_of_notMem hnew]
        exact Nat.lt_of_lt_of_le (List.idxOf_lt_length_of_mem ha) (Nat.le_add_right _ _)

/-- **Every stream comes where it first occurs.**  In particular it comes only once. -/
theorem pairwise_streamsOf (commands : List Command) :
    (streamsOf commands).Pairwise fun s t =>
      (commands.map Command.stream).idxOf s < (commands.map Command.stream).idxOf t :=
  pairwise_idxOf_eraseDups _

/-- Each stream is read once. -/
theorem nodup_streamsOf (commands : List Command) : (streamsOf commands).Nodup :=
  (pairwise_streamsOf commands).imp fun {s t} h (he : s = t) =>
    absurd (he ▸ h) (Nat.lt_irrefl ((commands.map Command.stream).idxOf t))

/-! ### Staging -/

/-- What is staged are the commands, in their order. -/
theorem map_command_stage (heads : Heads) (commands : List Command) :
    (stage heads commands).map Staged.command = commands := by
  induction commands generalizing heads with
  | nil => rfl
  | cons command commands ih => rw [stage, List.map_cons, ih]

theorem length_stage (heads : Heads) (commands : List Command) :
    (stage heads commands).length = commands.length := by
  rw [← List.length_map (f := Staged.command), map_command_stage]

/-- Staging looks at no head but those of the batch's own streams. -/
theorem stage_congr {heads heads' : Heads} {commands : List Command}
    (h : ∀ c ∈ commands, heads.head c.stream = heads'.head c.stream) :
    stage heads commands = stage heads' commands := by
  induction commands generalizing heads heads' with
  | nil => rfl
  | cons c cs ih =>
      rw [stage, stage, h c List.mem_cons_self]
      refine congrArg (_ :: ·) (ih fun d hd => ?_)
      by_cases hs : d.stream = c.stream
      · rw [hs, Heads.head_set_self, Heads.head_set_self]
      · rw [Heads.head_set_other _ _ hs, Heads.head_set_other _ _ hs]
        exact h d (List.mem_cons_of_mem c hd)

/-- Once the head of the next stream is put in, the heads of all streams but the later ones are known. -/
theorem known_set {heads : Heads} {f : Stream → Nat} {streams later : List Stream} {next : Stream}
    (h : ∀ s ∈ streams, s ∉ next :: later → heads.head s = f s) :
    ∀ s ∈ streams, s ∉ later → (heads.set next (f next)).head s = f s := by
  intro s hs hlater
  by_cases hne : s = next
  · rw [hne, Heads.head_set_self]
  · rw [Heads.head_set_other _ _ hne]
    exact h s hs (List.not_mem_cons_of_ne_of_not_mem hne hlater)

/-- The commands expect these heads, and no sequence that follows is too large for the database. -/
structure Fits (heads : Heads) (commands : List Command) : Prop where
  expected : ∀ c ∈ commands, ∀ n, c.sequence = some n → n = heads.head c.stream
  inRange : ∀ s ∈ stage heads commands, s.sequence < Nat.pow 2 63

/-- **A batch is staged** exactly if it fits the heads. -/
theorem stageChecked_eq_ok_iff {heads : Heads} {commands : List Command} {staged : List Staged} :
    stageChecked heads commands = .ok staged ↔
      Fits heads commands ∧ staged = stage heads commands := by
  have hrange : (stage heads commands).findSome? (fun s =>
      if s.sequence < Nat.pow 2 63 then none else some s.sequence) = none ↔
      ∀ s ∈ stage heads commands, s.sequence < Nat.pow 2 63 := by
    rw [List.findSome?_eq_none_iff]
    refine forall_congr' fun s => forall_congr' fun _ => ?_
    split
    · rename_i h
      exact ⟨fun _ => h, fun _ => rfl⟩
    · rename_i h
      constructor
      · intro he
        cases he
      · intro hlt
        exact absurd hlt h
  rw [stageChecked]
  constructor
  · intro h
    split at h
    · cases h
    · rename_i hconflict
      dsimp only at h
      split at h
      · cases h
      · rename_i hfind
        cases h
        exact ⟨⟨Heads.conflict?_eq_none_iff.mp hconflict, hrange.mp hfind⟩, rfl⟩
  · rintro ⟨⟨hexpected, hinRange⟩, rfl⟩
    rw [Heads.conflict?_eq_none_iff.mpr hexpected]
    dsimp only
    rw [hrange.mpr hinRange]

/-- Only the heads of its own streams matter to a batch. -/
theorem Fits.congr {heads heads' : Heads} {commands : List Command}
    (h : ∀ c ∈ commands, heads.head c.stream = heads'.head c.stream) (hfits : Fits heads commands) :
    Fits heads' commands where
  expected c hc n hn := (hfits.expected c hc n hn).trans (h c hc)
  inRange := stage_congr h ▸ hfits.inRange

/-! ### The rows given back -/

/-- Positions are not negative. -/
theorem positionOf_iff {n : Int} : (∃ position, positionOf n = .ok position) ↔ 0 ≤ n := by
  rw [positionOf]
  split
  · rename_i h
    exact ⟨fun _ => h, fun _ => ⟨_, rfl⟩⟩
  · rename_i h
    constructor
    · rintro ⟨position, he⟩
      cases he
    · intro hn
      exact absurd hn h

/-- An event is read back exactly if its position is not negative. -/
theorem event_iff {s : Staged} {g : Int × Instant} :
    (∃ e : Event, (do return s.event (← positionOf g.1) g.2) = Except.ok e) ↔ 0 ≤ g.1 := by
  rw [← positionOf_iff]
  constructor
  · rintro ⟨e, he⟩
    obtain ⟨position, hposition, -⟩ := bind_eq_ok.mp he
    exact ⟨position, hposition⟩
  · rintro ⟨position, hposition⟩
    exact ⟨s.event position g.2, by rw [hposition]; rfl⟩

/-- One row for each of `n` commands, and no position among them is negative. -/
def Returned (n : Nat) (rows : List Row) : Prop :=
  ∃ generated, rows.mapM generatedOf = .ok generated ∧ rows.length = n ∧ ∀ g ∈ generated, 0 ≤ g.1

/-- **An insertion is read back** exactly if it gave one row per staged command, and no position among
them is negative. -/
theorem insertedEvents_iff {staged : List Staged} {rows : List Row} :
    (∃ events, insertedEvents staged rows = .ok events) ↔ Returned staged.length rows := by
  rw [insertedEvents, Returned]
  simp only [bind_eq_ok]
  rw [exists_comm]
  refine exists_congr fun generated => ?_
  rw [exists_and_left]
  refine and_congr_right fun hgenerated => ?_
  -- rows that are read are as many as were returned
  rw [← length_of_mapM_eq_ok hgenerated]
  have hperm : (generated.mergeSort fun a b => a.1 ≤ b.1).Perm generated := List.mergeSort_perm _ _
  by_cases hlength : generated.length = staged.length
  · -- every row is paired with a command, so its position is read
    have hzip : (staged.zip (generated.mergeSort fun a b => a.1 ≤ b.1)).map Prod.snd = _ :=
      List.map_snd_zip (Nat.le_of_eq (hperm.length_eq.trans hlength))
    rw [if_neg (not_not.mpr hlength), exists_mapM_eq_ok_iff, and_iff_right hlength]
    constructor
    · intro h g hg
      obtain ⟨x, hx, rfl⟩ := List.mem_map.mp (hzip ▸ hperm.mem_iff.mpr hg)
      exact event_iff.mp (h x hx)
    · intro h x hx
      exact event_iff.mpr (h x.2 (hperm.mem_iff.mp (List.of_mem_zip hx).2))
  · rw [if_pos hlength]
    constructor
    · rintro ⟨events, h⟩
      cases h
    · rintro ⟨h, -⟩
      exact absurd h hlength

/-- The errors of a push that finds its batch unfit before it inserts anything. -/
def Refuses : StoreError PostgresError → Prop
  | .conflict _ | .backend (.outOfRange _ _) => True
  | _ => False

/-! ### What the rows are blamed for -/

section

variable {α β : Type}

/-- What goes wrong is not the fault of what the database was asked. -/
def Blameless (x : Except PostgresError α) : Prop :=
  ∀ e, x = .error e → ¬ Refuses (.backend e)

/-- Steps that are blameless are so together. -/
theorem Blameless.bind {x : Except PostgresError α} {f : α → Except PostgresError β} (hx : Blameless x)
    (hf : ∀ a, Blameless (f a)) : Blameless (x >>= f) := by
  intro e he
  rcases bind_eq_error.mp he with h | ⟨a, -, h⟩
  · exact hx e h
  · exact hf a e h

theorem Blameless.map {x : Except PostgresError α} (hx : Blameless x) (f : α → β) : Blameless (x.map f) :=
  fun e he => hx e (map_eq_error.mp he)

theorem Blameless.mapM {f : α → Except PostgresError β} (hf : ∀ a, Blameless (f a)) (l : List α) :
    Blameless (l.mapM f) := by
  intro e he
  obtain ⟨a, -, ha⟩ := exists_of_mapM_eq_error he
  exact hf a e ha

theorem blameless_ok (a : α) : Blameless (.ok a) := by
  rintro e ⟨⟩

end

theorem blameless_toInteger (v : SqlValue) : Blameless v.toInteger := by
  cases v <;> rintro e ⟨⟩ <;> exact id

theorem blameless_toInstant (v : SqlValue) : Blameless v.toInstant := by
  cases v <;> rintro e ⟨⟩ <;> exact id

theorem blameless_positionOf (n : Int) : Blameless (positionOf n) := by
  rw [positionOf]
  split <;> rintro e ⟨⟩
  exact id

theorem blameless_generatedOf (row : Row) : Blameless (generatedOf row) :=
  (blameless_toInteger _).bind fun _ => (blameless_toInstant _).bind fun _ => blameless_ok _

/-- **What an insertion gives back never refuses the batch.** -/
theorem blameless_insertedEvents (staged : List Staged) (rows : List Row) :
    Blameless (insertedEvents staged rows) := by
  refine (Blameless.mapM blameless_generatedOf rows).bind fun generated => ?_
  split
  · rintro e ⟨⟩
    exact id
  · exact .mapM (fun _ => (blameless_positionOf _).bind fun _ => blameless_ok _) _

end EventSourcing
