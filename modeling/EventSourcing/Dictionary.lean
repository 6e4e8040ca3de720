/-!
# Dictionaries

A `Dictionary` is a finite map from strings, kept as its entries in the code-point order of the
keys.  Equal maps are equal values: the entries depend only on what is stored under each key, not on
the order of the insertions.  An insertion under a key that is present replaces its value.
-/

namespace EventSourcing

/-- A finite map from strings, as its entries in ascending order of the keys. -/
structure Dictionary (α : Type) where
  entries : List (String × α) := []
  sorted : entries.Pairwise (fun a b => a.1 < b.1) := by simp
deriving DecidableEq

namespace Dictionary

variable {α : Type}

instance : EmptyCollection (Dictionary α) := ⟨{}⟩

instance : Inhabited (Dictionary α) := ⟨∅⟩

@[ext] theorem ext {d e : Dictionary α} (h : d.entries = e.entries) : d = e := by
  cases d; cases e; congr

/-- Puts an entry into its place, or replaces the value that stands there. -/
def insertEntry (key : String) (value : α) : List (String × α) → List (String × α)
  | [] => [(key, value)]
  | (k, v) :: rest =>
    if key < k then (key, value) :: (k, v) :: rest
    else if key = k then (key, value) :: rest
    else (k, v) :: insertEntry key value rest

/-- An insertion adds its key and keeps all others. -/
theorem mem_keys_insertEntry {key k : String} {value : α} {l : List (String × α)} :
    k ∈ (insertEntry key value l).map Prod.fst ↔ k = key ∨ k ∈ l.map Prod.fst := by
  fun_induction insertEntry key value l with
  | case1 => simp
  | case2 => simp
  | case3 => simp_all
  | case4 k' v rest _ _ ih => simp only [List.map_cons, List.mem_cons, ih]; grind

/-- An insertion keeps the order of the keys. -/
theorem sorted_insertEntry {key : String} {value : α} {l : List (String × α)}
    (h : l.Pairwise (fun a b => a.1 < b.1)) :
    (insertEntry key value l).Pairwise (fun a b => a.1 < b.1) := by
  fun_induction insertEntry key value l with
  | case1 => simp
  | case2 k v rest hlt =>
    refine List.pairwise_cons.2 ⟨fun b hb => ?_, h⟩
    rcases List.mem_cons.1 hb with rfl | hb
    · exact hlt
    · exact String.lt_trans hlt ((List.pairwise_cons.1 h).1 b hb)
  | case3 v rest _ =>
    exact List.pairwise_cons.2 ⟨(List.pairwise_cons.1 h).1, (List.pairwise_cons.1 h).2⟩
  | case4 k v rest hlt hne ih =>
    refine List.pairwise_cons.2 ⟨fun b hb => ?_, ih (List.pairwise_cons.1 h).2⟩
    have hk : b.1 ∈ (insertEntry key value rest).map Prod.fst := List.mem_map_of_mem hb
    rcases mem_keys_insertEntry.1 hk with heq | hmem
    · rw [heq]
      exact Std.lt_of_le_of_ne (Std.not_lt.1 hlt) (fun e => hne e.symm)
    · obtain ⟨c, hc, hce⟩ := List.mem_map.1 hmem
      rw [← hce]
      exact (List.pairwise_cons.1 h).1 c hc

/-- The dictionary with a value under a key, in place of what was there. -/
def insert (d : Dictionary α) (key : String) (value : α) : Dictionary α where
  entries := insertEntry key value d.entries
  sorted := sorted_insertEntry d.sorted

/-- The map that these insertions make, in their order: of two with one key the later one counts. -/
def ofList (l : List (String × α)) : Dictionary α :=
  l.foldl (fun d e => d.insert e.1 e.2) ∅

/-- The value under a key. -/
def get? (d : Dictionary α) (key : String) : Option α :=
  d.entries.lookup key

/-- Whether nothing is held under any key. -/
def isEmpty (d : Dictionary α) : Bool :=
  d.entries.isEmpty

/-- An insertion changes what is found under its own key. -/
theorem lookup_insertEntry {key k : String} {value : α} {l : List (String × α)} :
    (insertEntry key value l).lookup k = if k = key then some value else l.lookup k := by
  fun_induction insertEntry key value l with
  | case1 => simp only [List.lookup_cons, List.lookup_nil]; grind
  | case2 => simp only [List.lookup_cons]; grind
  | case3 => simp only [List.lookup_cons]; grind
  | case4 k' v rest _ _ ih => simp only [List.lookup_cons, ih]; grind

@[simp] theorem get?_insert (d : Dictionary α) (key k : String) (value : α) :
    (d.insert key value).get? k = if k = key then some value else d.get? k :=
  lookup_insertEntry

@[simp] theorem get?_empty (k : String) : (∅ : Dictionary α).get? k = none := rfl

end Dictionary

/-- The values of a list in ascending order, each once. -/
def sortedDistinct (l : List String) : List String :=
  (Dictionary.ofList (l.map fun s => (s, ()))).entries.map Prod.fst

end EventSourcing
