import EventSourcing.Aggregate
import EventSourcing.Proofs.Results

/-!
# JSON — records that are read back

A record is written as an object with all its fields.  It reads as what it was once each of its members reads
as the field that it is.

* `Json.natural_eq_ok_iff`: numbers read from integers within their range, and from nothing else.
* `Json.Record.checkMember_of_read`, `Json.Record.members_obj`: an object whose members read passes the tests
  of a record.
* `Aggregate.ofJson_toJson`: aggregates are read back.
-/

namespace EventSourcing

namespace Json

/-- **Numbers are read** from integers within their range, and from nothing else. -/
theorem natural_eq_ok_iff {bits n : Nat} {type : String} {v : Json} :
    natural bits type v = .ok n ↔ v = .int n ∧ n < Nat.pow 2 bits := by
  cases v with
  | int i =>
      simp only [natural, int.injEq]
      split <;> rename_i h
      · rw [Except.ok.injEq]
        omega
      · simp only [reduceCtorEq, false_iff]
        omega
  | _ => simp [natural]

theorem natural_int {bits n : Nat} {type : String} (h : n < Nat.pow 2 bits) :
    natural bits type (.int n) = .ok n :=
  natural_eq_ok_iff.mpr ⟨rfl, h⟩

namespace Record

variable {r : Record} {ms : List (String × Json)}

/-- A member that its field reads passes the test of the field. -/
theorem checkMember_of_read {α : Type} (read : Json → Except ShapeError α) {name : String} {v : Json}
    {a : α} (hfield : r.fields.find? (·.name = name) = some (.of name read)) (hread : read v = .ok a) :
    r.checkMember (name, v) = .ok () := by
  rw [checkMember, hfield]
  show (read v).map _ = _
  rw [hread]
  rfl

/-- An object passes whole if every member passes. -/
theorem members_obj (h : ∀ m ∈ ms, r.checkMember m = .ok ()) : r.members (.obj ms) = .ok ms := by
  rw [members, forM_eq_ok_of_forall h]
  rfl

end Record

/-- A field is read from the member under its name. -/
theorem required_of_lookup {α : Type} {read : Json → Except ShapeError α} {ms : List (String × Json)}
    {name : String} {v : Json} {a : α} (hlookup : ms.lookup name = some v) (hread : read v = .ok a) :
    required read ms name = .ok a := by
  rw [required, hlookup]
  exact hread

end Json

/-- **Aggregates are read back.** -/
theorem Aggregate.ofJson_toJson (a : Aggregate) : Aggregate.ofJson a.toJson = .ok a := by
  refine bind_eq_ok.mpr ⟨_, Json.Record.members_obj ?_, ?_⟩
  · simp only [List.forall_mem_cons, List.not_mem_nil, false_imp_iff, implies_true, and_true]
    refine ⟨?_, ?_, ?_, ?_⟩ <;> exact Json.Record.checkMember_of_read Json.text rfl rfl
  · rfl

end EventSourcing
