/-!
# Fields that are overwritten

A state that is folded over a list holds in each of its fields what the last member that writes into the field
has written, if what a member writes depends on the member alone.

* `foldl_field`, `foldl_field?`: such a field, and one that is empty before the first write.
* `foldl_flag`: a flag that is only ever raised.
-/

namespace EventSourcing

variable {σ α β : Type}

/-- What the last member of a list that writes anything writes. -/
def lastWrite (write : β → Option α) (xs : List β) : Option α :=
  (xs.filterMap write).getLast?

/-- The first write counts if there is no later one. -/
theorem lastWrite_cons (write : β → Option α) (x : β) (xs : List β) :
    lastWrite write (x :: xs) = (lastWrite write xs).or (write x) := by
  rw [lastWrite, lastWrite, List.filterMap_cons]
  cases write x with
  | none => exact Option.or_none.symm
  | some a =>
      rw [List.getLast?_cons]
      cases (xs.filterMap write).getLast? <;> rfl

/-- The last write has been made. -/
theorem mem_of_lastWrite {write : β → Option α} {xs : List β} {a : α} (h : lastWrite write xs = some a) :
    ∃ x ∈ xs, write x = some a :=
  List.mem_filterMap.mp (List.mem_of_getLast? h)

section

variable {step : σ → β → σ} {write : β → Option α}

/-- A field that each step overwrites or keeps holds the last write, or what it held before. -/
theorem foldl_field? (get : σ → Option α) (h : ∀ s x, get (step s x) = (write x).or (get s))
    (xs : List β) : ∀ s, get (xs.foldl step s) = (lastWrite write xs).or (get s) := by
  induction xs with
  | nil => exact fun _ => rfl
  | cons x xs ih =>
      intro s
      calc get ((x :: xs).foldl step s)
        _ = get (xs.foldl step (step s x)) := rfl
        _ = (lastWrite write xs).or ((write x).or (get s)) := by rw [ih, h]
        _ = (lastWrite write (x :: xs)).or (get s) := by rw [lastWrite_cons, Option.or_assoc]

/-- **A field holds the last write.** -/
theorem foldl_field (get : σ → α) (h : ∀ s x, get (step s x) = (write x).getD (get s)) (xs : List β)
    (s : σ) : get (xs.foldl step s) = (lastWrite write xs).getD (get s) := by
  have hsome : some (get (xs.foldl step s)) = (lastWrite write xs).or (some (get s)) :=
    foldl_field? (fun s => some (get s)) (fun s x => by rw [h, Option.or_some]) xs s
  rw [Option.or_some] at hsome
  exact Option.some.inj hsome

/-- A flag that is raised stays so. -/
theorem foldl_flag (get : σ → Bool) (raises : β → Bool) (h : ∀ s x, get (step s x) = (raises x || get s))
    (xs : List β) : ∀ s, get (xs.foldl step s) = (xs.any raises || get s) := by
  induction xs with
  | nil => exact fun _ => rfl
  | cons x xs ih =>
      intro s
      rw [List.foldl_cons, ih, h, List.any_cons, ← Bool.or_assoc, Bool.or_comm (xs.any raises)]

end

end EventSourcing
