import Mathlib.Data.List.Basic
import EventSourcing.Proofs.Dictionary
import EventSourcing.Query.DataFilter

/-!
# Queries — payload filters

A payload filter is the conjunction of its fields, and a field is what its key was given last.

* `DataFilter.all_toList`: a filter tests every field that it lists, against payloads of any kind.
* `DataFilter.accepts_ofList_iff`: a payload is accepted if it holds each key with the value given last.
* `DataFilter.filter_conjunction`: **a payload filter is the conjunction of the fields written last**.  Both
  ways of building it agree, its fields are listed in the order of their keys, pairs with different keys can
  change places, and filters without a common key are joined by "and".
-/

namespace EventSourcing

/-- The payload has a member under this key, and its value equals the given one. -/
def Json.Holds (payload : Json) (key : String) (value : Json) : Prop :=
  ∃ found, payload.get? key = some found ∧ found.same value = true

/-- Only objects hold anything. -/
theorem Json.Holds.exists_members {payload : Json} {key : String} {value : Json}
    (h : payload.Holds key value) : ∃ members, payload = .obj members := by
  obtain ⟨found, hfound, -⟩ := h
  cases payload with
  | obj members => exact ⟨members, rfl⟩
  | _ => cases hfound

namespace DataFilter

/-- The test of an empty filter passes, as no test is made; that of any other fails on what is no object,
as nothing is found. -/
theorem all_toList (f : DataFilter) (payload : Json) :
    (f.toList.all fun member => (payload.get? member.1).any (·.same member.2)) =
      f.accepts payload := by
  simp only [accepts]
  cases hf : f.isEmpty with
  | true =>
      have hnil : f.toList = [] := List.isEmpty_iff.mp hf
      rw [hnil]
      rfl
  | false =>
      cases payload with
      | obj members =>
          rw [Bool.false_or]
          refine List.all_congr rfl fun member => ?_
          simp only [Json.get?]
          cases members.lookup member.1 <;> rfl
      | _ =>
          -- a filter that demands something demands it of a member that is not there
          cases htoList : f.toList with
          | nil => exact absurd (List.isEmpty_iff.mpr htoList) (Bool.eq_false_iff.mp hf)
          | cons member rest => rfl

/-- A filter accepts the payloads that hold all its fields. -/
theorem accepts_iff (f : DataFilter) (payload : Json) :
    f.accepts payload = true ↔ ∀ field ∈ f.toList, payload.Holds field.1 field.2 := by
  rw [← all_toList, List.all_eq_true]
  refine forall₂_congr fun field _ => ?_
  rw [Option.any_eq_true]
  rfl

/-! ### Filters of lists -/

variable {l l' : List (String × Json)}

/-- Filters are equal if each key is given the same last. -/
theorem ofList_eq_iff : ofList l = ofList l' ↔ ∀ key, lastGiven l key = lastGiven l' key := by
  rw [← Dictionary.ofList_eq_iff, ofList, ofList, mk.injEq]

/-- One demand after the other makes the filter of them all. -/
theorem foldl_field_eq (l : List (String × Json)) :
    ∀ f : DataFilter, l.foldl (fun f e => f.field e.1 e.2) f =
      ⟨l.foldl (fun d e => d.insert e.1 e.2) f.fields⟩ := by
  induction l with
  | nil => exact fun _ => rfl
  | cons e l ih => exact fun f => ih (f.field e.1 e.2)

/-- A filter lists what its keys are given last. -/
theorem mem_toList_ofList {key : String} {value : Json} :
    (key, value) ∈ (ofList l).toList ↔ lastGiven l key = some value :=
  Dictionary.mem_entries_ofList

/-- **A payload is accepted** if it holds each key with the value given last. -/
theorem accepts_ofList_iff (l : List (String × Json)) (payload : Json) :
    (ofList l).accepts payload = true ↔
      ∀ key value, lastGiven l key = some value → payload.Holds key value := by
  rw [accepts_iff, Prod.forall]
  exact forall₂_congr fun key value => by rw [mem_toList_ofList]

/-- Of a filter that demands anything, only objects pass. -/
theorem exists_members_of_accepts (hl : l ≠ []) {payload : Json}
    (h : (ofList l).accepts payload = true) : ∃ members, payload = .obj members := by
  obtain ⟨e, he⟩ := List.exists_mem_of_ne_nil l hl
  obtain ⟨value, hvalue⟩ : ∃ value, lastGiven l e.1 = some value :=
    Option.ne_none_iff_exists'.mp fun hnone =>
      lastGiven_eq_none_iff.mp hnone (List.mem_map_of_mem he)
  exact ((accepts_ofList_iff l payload).mp h _ _ hvalue).exists_members

/-- Demands on different keys are joined by "and". -/
theorem accepts_append (h : (l.map Prod.fst).Disjoint (l'.map Prod.fst)) (payload : Json) :
    (ofList (l ++ l')).accepts payload =
      ((ofList l).accepts payload && (ofList l').accepts payload) := by
  rw [Bool.eq_iff_iff, Bool.and_eq_true]
  simp only [accepts_ofList_iff, lastGiven_append, Option.or_eq_some_iff]
  constructor
  · refine fun hall => ⟨fun key value hkey => hall key value (.inr ⟨?_, hkey⟩),
      fun key value hkey => hall key value (.inl hkey)⟩
    -- a key of the first list is none of the second
    have hmem := List.mem_map_of_mem (f := Prod.fst) (mem_of_lastGiven hkey)
    exact lastGiven_eq_none_iff.mpr fun hmem' => h hmem hmem'
  · rintro ⟨hl, hl'⟩ key value (hkey | ⟨-, hkey⟩)
    · exact hl' key value hkey
    · exact hl key value hkey

/-- What the filter made of a list of pairs is, and what it accepts. -/
structure Conjunction (l : List (String × Json)) : Prop where
  /-- Demanding one value after the other makes the same filter as collecting them. -/
  chained : l.foldl (fun f e => f.field e.1 e.2) {} = ofList l
  /-- Nothing but the last value of each key counts. -/
  determined : ∀ l', ofList l' = ofList l ↔ ∀ key, lastGiven l' key = lastGiven l key
  /-- Each key is listed once, in code-point order. -/
  ordered : ((ofList l).toList.map Prod.fst).Pairwise (· < ·)
  keys : ∀ key, key ∈ (ofList l).toList.map Prod.fst ↔ key ∈ l.map Prod.fst
  values : ∀ key value, (key, value) ∈ (ofList l).toList ↔ lastGiven l key = some value
  /-- Without a demand everything passes, and else only objects that meet every demand. -/
  matched : ∀ payload, (ofList l).accepts payload = true ↔
    l = [] ∨ ∃ members, payload = .obj members ∧ ∀ key value, lastGiven l key = some value →
      ∃ found, members.lookup key = some found ∧ found.same value = true
  reordered : ∀ l', l.Perm l' → (l.map Prod.fst).Nodup → ofList l' = ofList l
  joined : ∀ l', (l.map Prod.fst).Disjoint (l'.map Prod.fst) → ∀ payload,
    (ofList (l ++ l')).accepts payload = ((ofList l).accepts payload && (ofList l').accepts payload)

/-- **A payload filter is the conjunction of the fields written last.** -/
theorem filter_conjunction (l : List (String × Json)) : Conjunction l where
  chained := foldl_field_eq l {}
  determined _ := ofList_eq_iff
  ordered := List.pairwise_map.mpr (ofList l).fields.sorted
  keys _ := Dictionary.mem_keys_ofList
  values _ _ := mem_toList_ofList
  matched payload := by
    constructor
    · intro h
      by_cases hl : l = []
      · exact .inl hl
      · obtain ⟨members, rfl⟩ := exists_members_of_accepts hl h
        exact .inr ⟨members, rfl, (accepts_ofList_iff l _).mp h⟩
    · rintro (rfl | ⟨members, rfl, h⟩)
      · rfl
      · exact (accepts_ofList_iff l _).mpr h
  reordered _ h hkeys := ofList_eq_iff.mpr (lastGiven_of_perm h hkeys)
  joined _ h payload := accepts_append h payload

example : (ofList [("b", .int 1), ("a", .null), ("b", .int 2)]).toList =
    [("a", .null), ("b", .int 2)] := by decide

end DataFilter

end EventSourcing
