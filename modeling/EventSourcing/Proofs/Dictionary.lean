import Mathlib.Data.List.Nodup
import EventSourcing.Dictionary
import EventSourcing.Proofs.Fields

/-!
# Dictionaries — what they hold

A dictionary is determined by what it holds under each key, and one that is made by a series of insertions
holds what each key was given last.  `sortedDistinct` goes by way of a dictionary: what it gives is in
strictly ascending code-point order and has the members of the list.

* `Dictionary.ext_get?`: dictionaries that hold the same under every key are equal.
* `Dictionary.get?_ofList`: the last insertion under a key counts.
* `Dictionary.mem_keys_ofList`: the keys of a dictionary are those that were inserted.
* `mem_sortedDistinct`, `sorted_sortedDistinct`: each value of a list once, in ascending order.
-/

namespace EventSourcing

/-- What a key is given last in a list of pairs. -/
def lastGiven {α : Type} (l : List (String × α)) (key : String) : Option α :=
  lastWrite (fun e => if e.1 = key then some e.2 else none) l

namespace Dictionary

variable {α : Type}

/-! ### Entries and values -/

/-- In ascending order no key stands twice, and so every entry is found under its key. -/
theorem lookup_eq_some_iff {l : List (String × α)} (h : l.Pairwise fun a b => a.1 < b.1) {key : String}
    {value : α} : l.lookup key = some value ↔ (key, value) ∈ l := by
  induction l with
  | nil => simp
  | cons e l ih =>
      obtain ⟨k, v⟩ := e
      obtain ⟨hlt, hl⟩ := List.pairwise_cons.mp h
      rw [List.lookup_cons]
      by_cases hk : key = k
      · subst hk
        -- a second entry under this key would stand after itself
        have hnot : (key, value) ∉ l := fun hmem => absurd (hlt _ hmem) (Std.lt_irrefl)
        simp [hnot, eq_comm]
      · simp [beq_eq_false_iff_ne.mpr hk, hk, ih hl]

theorem get?_eq_some_iff {d : Dictionary α} {key : String} {value : α} :
    d.get? key = some value ↔ (key, value) ∈ d.entries :=
  lookup_eq_some_iff d.sorted

/-- No entry stands twice. -/
theorem nodup_entries (d : Dictionary α) : d.entries.Nodup :=
  d.sorted.imp fun hlt heq => absurd (heq ▸ hlt) (Std.lt_irrefl)

/-- **A dictionary is what it holds.** -/
theorem ext_get? {d e : Dictionary α} (h : ∀ key, d.get? key = e.get? key) : d = e := by
  have hmem : ∀ entry, entry ∈ d.entries ↔ entry ∈ e.entries := by
    rintro ⟨key, value⟩
    rw [← get?_eq_some_iff, ← get?_eq_some_iff, h]
  have hperm : d.entries.Perm e.entries :=
    (List.perm_ext_iff_of_nodup d.nodup_entries e.nodup_entries).mpr hmem
  refine Dictionary.ext (hperm.eq_of_pairwise (fun a b _ _ hab hba => ?_) d.sorted e.sorted)
  exact absurd (Std.lt_trans hab hba) (Std.lt_irrefl)

/-! ### Insertions -/

/-- **The last insertion under a key counts.** -/
theorem get?_ofList (l : List (String × α)) (key : String) :
    (ofList l).get? key = lastGiven l key := by
  have hstep : ∀ (d : Dictionary α) (e : String × α),
      (d.insert e.1 e.2).get? key = (if e.1 = key then some e.2 else none).or (d.get? key) := by
    intro d e
    rw [get?_insert]
    by_cases hk : e.1 = key
    · rw [if_pos hk.symm, if_pos hk]; rfl
    · rw [if_neg (Ne.symm hk), if_neg hk]; rfl
  rw [ofList, foldl_field? (fun d : Dictionary α => d.get? key) hstep, get?_empty, Option.or_none]
  rfl

/-- The entries of a dictionary are what its keys were given last. -/
theorem mem_entries_ofList {l : List (String × α)} {key : String} {value : α} :
    (key, value) ∈ (ofList l).entries ↔ lastGiven l key = some value := by
  rw [← get?_eq_some_iff, get?_ofList]

/-- Two series of insertions make the same dictionary if each key is given the same last. -/
theorem ofList_eq_iff {l l' : List (String × α)} :
    ofList l = ofList l' ↔ ∀ key, lastGiven l key = lastGiven l' key := by
  refine ⟨fun h key => ?_, fun h => ext_get? fun key => ?_⟩
  · rw [← get?_ofList, ← get?_ofList, h]
  · rw [get?_ofList, get?_ofList, h]

/-- Insertions add their keys and remove none. -/
theorem mem_keys_foldl {l : List (String × α)} {d : Dictionary α} {key : String} :
    key ∈ (l.foldl (fun d e => d.insert e.1 e.2) d).entries.map Prod.fst ↔
      key ∈ d.entries.map Prod.fst ∨ key ∈ l.map Prod.fst := by
  induction l generalizing d with
  | nil => rw [List.foldl_nil, List.map_nil]; exact (or_iff_left List.not_mem_nil).symm
  | cons e l ih =>
      rw [List.foldl_cons, ih, insert, mem_keys_insertEntry, List.map_cons, List.mem_cons,
        or_comm (a := key = e.1), or_assoc]

/-- The keys of a dictionary are those that were inserted. -/
theorem mem_keys_ofList {l : List (String × α)} {key : String} :
    key ∈ (ofList l).entries.map Prod.fst ↔ key ∈ l.map Prod.fst :=
  mem_keys_foldl.trans (or_iff_right List.not_mem_nil)

end Dictionary

/-! ### The last values of keys -/

section LastGiven

variable {α : Type} {l l' : List (String × α)} {key : String}

/-- What comes later counts, wherever it gives the key anything. -/
theorem lastGiven_append (l l' : List (String × α)) (key : String) :
    lastGiven (l ++ l') key = (lastGiven l' key).or (lastGiven l key) := by
  rw [lastGiven, lastWrite, List.filterMap_append, List.getLast?_append]
  rfl

/-- What a key is given last stands in the list. -/
theorem mem_of_lastGiven {value : α} (h : lastGiven l key = some value) : (key, value) ∈ l := by
  obtain ⟨⟨k, v⟩, he, hwrite⟩ := mem_of_lastWrite h
  by_cases hk : k = key
  · rw [if_pos hk] at hwrite
    cases hwrite
    exact hk ▸ he
  · rw [if_neg hk] at hwrite
    cases hwrite

/-- A key is given nothing if it does not stand in the list. -/
theorem lastGiven_eq_none_iff : lastGiven l key = none ↔ key ∉ l.map Prod.fst := by
  rw [lastGiven, lastWrite, List.getLast?_eq_none_iff, List.filterMap_eq_nil_iff]
  constructor
  · intro h hmem
    obtain ⟨e, he, rfl⟩ := List.mem_map.mp hmem
    exact absurd (h e he) (by simp)
  · intro h e he
    refine if_neg fun hk : e.1 = key => h ?_
    rw [← hk]
    exact List.mem_map_of_mem he

/-- Where no key stands twice, a key is given what stands beside it. -/
theorem lastGiven_eq_some_iff (h : (l.map Prod.fst).Nodup) {value : α} :
    lastGiven l key = some value ↔ (key, value) ∈ l := by
  refine ⟨mem_of_lastGiven, fun hmem => ?_⟩
  obtain ⟨v, hv⟩ : ∃ v, lastGiven l key = some v := by
    refine Option.ne_none_iff_exists'.mp fun hnone => ?_
    exact lastGiven_eq_none_iff.mp hnone (List.mem_map_of_mem hmem)
  -- what is given last stands beside the key as well, and the key stands there once
  have heq := List.inj_on_of_nodup_map h (mem_of_lastGiven hv) hmem rfl
  rw [hv, (Prod.mk.inj heq).2]

/-- The order of pairs with different keys does not matter. -/
theorem lastGiven_of_perm (h : l.Perm l') (hkeys : (l.map Prod.fst).Nodup) (key : String) :
    lastGiven l' key = lastGiven l key := by
  have hkeys' : (l'.map Prod.fst).Nodup := (h.map Prod.fst).nodup_iff.mp hkeys
  refine Option.ext fun value => ?_
  rw [lastGiven_eq_some_iff hkeys', lastGiven_eq_some_iff hkeys]
  exact h.symm.mem_iff

end LastGiven

/-- Every value of the list is listed, and no other. -/
theorem mem_sortedDistinct {l : List String} {s : String} : s ∈ sortedDistinct l ↔ s ∈ l := by
  rw [sortedDistinct, Dictionary.mem_keys_ofList, List.map_map]
  exact Iff.of_eq (congrArg (s ∈ ·) (List.map_id l))

/-- The values are listed once, in ascending order. -/
theorem sorted_sortedDistinct (l : List String) : (sortedDistinct l).Pairwise (· < ·) :=
  List.pairwise_map.mpr (Dictionary.ofList _).sorted

end EventSourcing
