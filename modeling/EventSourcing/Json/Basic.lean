import EventSourcing.Dictionary
import EventSourcing.Number.Binary64

/-!
# JSON values

Payloads are arbitrary JSON.  Integers and floating-point numbers are different values: an integer
never equals a float, whatever their magnitudes.  The members of an object stand in the order of
their keys, each key once; `Json.object` brings any list of members into that form.

Two equalities are kept apart.  Equality of values, which `DecidableEq Json` decides, tells the two
zeros apart; `Json.same` compares floats as numbers, and is the equality that filters use.
-/

namespace EventSourcing

/-- A JSON value.  Integers lie between `-2 ^ 63` and `2 ^ 64 - 1`. -/
inductive Json where
  | null
  | bool (b : Bool)
  | int (n : Int)
  | float (x : Binary64)
  | str (s : String)
  | arr (elements : List Json)
  | obj (members : List (String × Json))

namespace Json

instance : Inhabited Json := ⟨null⟩

/-- The object that holds these members; of two with one key the later one counts. -/
def object (members : List (String × Json)) : Json :=
  obj (Dictionary.ofList members).entries

/-- The value of a member of an object. -/
def get? : Json → String → Option Json
  | obj members, key => members.lookup key
  | _, _ => none

/-! ### Equality -/

mutual

/-- Structural agreement of two values, with floats compared by `sameFloat`. -/
def agree (sameFloat : Binary64 → Binary64 → Bool) : Json → Json → Bool
  | null, null => true
  | bool a, bool b => a == b
  | int m, int n => m == n
  | float x, float y => sameFloat x y
  | str s, str t => s == t
  | arr as, arr bs => agreeElements sameFloat as bs
  | obj as, obj bs => agreeMembers sameFloat as bs
  | _, _ => false

/-- Whether two arrays agree, element by element. -/
def agreeElements (sameFloat : Binary64 → Binary64 → Bool) : List Json → List Json → Bool
  | [], [] => true
  | a :: as, b :: bs => agree sameFloat a b && agreeElements sameFloat as bs
  | _, _ => false

/-- Whether two objects agree, member by member. -/
def agreeMembers (sameFloat : Binary64 → Binary64 → Bool) :
    List (String × Json) → List (String × Json) → Bool
  | [], [] => true
  | (k, a) :: as, (l, b) :: bs => k == l && agree sameFloat a b && agreeMembers sameFloat as bs
  | _, _ => false

end

/-- Equality as filters see it: floats are compared as numbers. -/
def same : Json → Json → Bool :=
  agree Binary64.same

mutual

/-- A value agrees with itself, if floats do. -/
theorem agree_self {sameFloat : Binary64 → Binary64 → Bool} (h : ∀ x, sameFloat x x = true) :
    ∀ a : Json, agree sameFloat a a = true
  | null => rfl
  | bool _ => by simp [agree]
  | int _ => by simp [agree]
  | float x => by simp [agree, h x]
  | str _ => by simp [agree]
  | arr as => by simp only [agree, agreeElements_self h as]
  | obj as => by simp only [agree, agreeMembers_self h as]

theorem agreeElements_self {sameFloat : Binary64 → Binary64 → Bool}
    (h : ∀ x, sameFloat x x = true) : ∀ as : List Json, agreeElements sameFloat as as = true
  | [] => rfl
  | a :: as => by simp only [agreeElements, agree_self h a, agreeElements_self h as, Bool.and_self]

theorem agreeMembers_self {sameFloat : Binary64 → Binary64 → Bool}
    (h : ∀ x, sameFloat x x = true) :
    ∀ as : List (String × Json), agreeMembers sameFloat as as = true
  | [] => rfl
  | (k, a) :: as => by
    simp only [agreeMembers, agree_self h a, agreeMembers_self h as, beq_self_eq_true, Bool.and_self]

end

mutual

/-- Values that agree are equal, if floats that count as the same are. -/
theorem eq_of_agree {sameFloat : Binary64 → Binary64 → Bool}
    (h : ∀ {x y}, sameFloat x y = true → x = y) :
    ∀ {a b : Json}, agree sameFloat a b = true → a = b
  | null, b, e => by cases b <;> simp_all [agree]
  | bool _, b, e => by cases b <;> simp_all [agree]
  | int _, b, e => by cases b <;> simp_all [agree]
  | float _, b, e => by
    cases b with
    | float y => exact congrArg float (h (by simpa only [agree] using e))
    | _ => simp [agree] at e
  | str _, b, e => by cases b <;> simp_all [agree]
  | arr as, b, e => by
    cases b with
    | arr bs => exact congrArg arr (eq_of_agreeElements h (by simpa only [agree] using e))
    | _ => simp [agree] at e
  | obj as, b, e => by
    cases b with
    | obj bs => exact congrArg obj (eq_of_agreeMembers h (by simpa only [agree] using e))
    | _ => simp [agree] at e

theorem eq_of_agreeElements {sameFloat : Binary64 → Binary64 → Bool}
    (h : ∀ {x y}, sameFloat x y = true → x = y) :
    ∀ {as bs : List Json}, agreeElements sameFloat as bs = true → as = bs
  | [], [], _ => rfl
  | a :: as, b :: bs, e => by
    simp only [agreeElements, Bool.and_eq_true] at e
    rw [eq_of_agree h e.1, eq_of_agreeElements h e.2]
  | [], _ :: _, e => by simp [agreeElements] at e
  | _ :: _, [], e => by simp [agreeElements] at e

theorem eq_of_agreeMembers {sameFloat : Binary64 → Binary64 → Bool}
    (h : ∀ {x y}, sameFloat x y = true → x = y) :
    ∀ {as bs : List (String × Json)}, agreeMembers sameFloat as bs = true → as = bs
  | [], [], _ => rfl
  | (k, a) :: as, (l, b) :: bs, e => by
    simp only [agreeMembers, Bool.and_eq_true, beq_iff_eq] at e
    rw [e.1.1, eq_of_agree h e.1.2, eq_of_agreeMembers h e.2]
  | [], _ :: _, e => by simp [agreeMembers] at e
  | _ :: _, [], e => by simp [agreeMembers] at e

end

/-- Agreement under equality of floats decides equality. -/
theorem agree_eq_true_iff {a b : Json} : agree (fun x y => decide (x = y)) a b = true ↔ a = b :=
  ⟨eq_of_agree (fun h => of_decide_eq_true h), fun h => h ▸ agree_self (fun _ => by simp) a⟩

instance : DecidableEq Json := fun a b =>
  decidable_of_iff (agree (fun x y => decide (x = y)) a b = true) agree_eq_true_iff

end Json

end EventSourcing
