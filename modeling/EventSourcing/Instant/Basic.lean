import EventSourcing.Instant.Date

/-!
# Instants

An `Instant` is a point of universal time: a Unix second and the nanoseconds past it.  During a leap
second the second before it goes on, so nanoseconds may reach beyond a thousand million.  Nothing keeps
a second from going on that is not the last one of a minute.  Instants lie in the years -262143 to
262142 and are ordered by second, then by nanosecond.
-/

namespace EventSourcing

/-- A point of universal time. -/
structure Instant where
  /-- Seconds since 1970-01-01T00:00:00Z, leap seconds not counted. -/
  second : Int
  /-- Nanoseconds past the second. -/
  nano : Nat
  nano_lt : nano < 2000000000 := by decide
  /-- The first second of the year -262143. -/
  min_le : -8334601228800 ≤ second := by decide
  /-- The last second of the year 262142. -/
  le_max : second ≤ 8210266876799 := by decide
deriving DecidableEq

namespace Instant

@[ext] theorem ext {a b : Instant} (hs : a.second = b.second) (hn : a.nano = b.nano) : a = b := by
  cases a; cases b; simp_all

/-- The instant with these parts, if there is one. -/
def ofUnix? (second : Int) (nano : Nat) : Option Instant :=
  if h : nano < 2000000000 ∧ -8334601228800 ≤ second ∧ second ≤ 8210266876799 then
    some ⟨second, nano, h.1, h.2.1, h.2.2⟩
  else none

/-- The parts of an instant make it up again. -/
theorem ofUnix?_self (t : Instant) : ofUnix? t.second t.nano = some t := by
  simp only [ofUnix?, dif_pos (⟨t.nano_lt, t.min_le, t.le_max⟩ :
    t.nano < 2000000000 ∧ -8334601228800 ≤ t.second ∧ t.second ≤ 8210266876799)]

/-- An instant has the parts that it is made of. -/
theorem of_ofUnix? {second : Int} {nano : Nat} {t : Instant} (h : ofUnix? second nano = some t) :
    t.second = second ∧ t.nano = nano := by
  unfold ofUnix? at h
  split at h
  · cases h
    exact ⟨rfl, rfl⟩
  · cases h

/-- The first instant of 1970. -/
def unixEpoch : Instant := { second := 0, nano := 0 }

/-- The first instant of the year 1. -/
def zero : Instant := { second := -62135596800, nano := 0 }

instance : Inhabited Instant := ⟨unixEpoch⟩

/-! ### Order -/

instance : LE Instant where
  le a b := a.second < b.second ∨ (a.second = b.second ∧ a.nano ≤ b.nano)

instance : LT Instant where
  lt a b := a.second < b.second ∨ (a.second = b.second ∧ a.nano < b.nano)

theorem le_def {a b : Instant} :
    a ≤ b ↔ a.second < b.second ∨ (a.second = b.second ∧ a.nano ≤ b.nano) := Iff.rfl

instance (a b : Instant) : Decidable (a ≤ b) :=
  inferInstanceAs (Decidable (_ ∨ (_ ∧ _)))

instance (a b : Instant) : Decidable (a < b) :=
  inferInstanceAs (Decidable (_ ∨ (_ ∧ _)))

instance : Max Instant := maxOfLe

theorem le_refl (a : Instant) : a ≤ a := by
  simp [le_def]

theorem le_trans {a b c : Instant} (h₁ : a ≤ b) (h₂ : b ≤ c) : a ≤ c := by
  simp only [le_def] at *; omega

theorem le_antisymm {a b : Instant} (h₁ : a ≤ b) (h₂ : b ≤ a) : a = b := by
  simp only [le_def] at *; ext <;> omega

theorem le_total (a b : Instant) : a ≤ b ∨ b ≤ a := by
  simp only [le_def]; omega

theorem max_def (a b : Instant) : max a b = if a ≤ b then b else a := rfl

theorem le_max_left (a b : Instant) : a ≤ max a b := by
  rw [max_def]; split
  · assumption
  · exact le_refl a

theorem le_max_right (a b : Instant) : b ≤ max a b := by
  rw [max_def]; split
  · exact le_refl b
  · exact (le_total b a).resolve_right (by assumption)

theorem max_le {a b c : Instant} (h₁ : a ≤ c) (h₂ : b ≤ c) : max a b ≤ c := by
  rw [max_def]; split <;> assumption

theorem max_eq_left {a b : Instant} (h : b ≤ a) : max a b = a :=
  le_antisymm (max_le (le_refl a) h) (le_max_left a b)

theorem max_comm (a b : Instant) : max a b = max b a :=
  le_antisymm (max_le (le_max_right b a) (le_max_left b a))
    (max_le (le_max_right a b) (le_max_left a b))

theorem max_right_comm (a b c : Instant) : max (max a b) c = max (max a c) b := by
  have hle (b c : Instant) : max (max a b) c ≤ max (max a c) b :=
    max_le (max_le (le_trans (le_max_left a c) (le_max_left _ b)) (le_max_right _ b))
      (le_trans (le_max_right a c) (le_max_left _ b))
  exact le_antisymm (hle b c) (hle c b)

/-! ### Microseconds -/

/-- Whole microseconds counted from 2000-01-01, a remainder cut off toward that day. -/
def micros2000 (t : Instant) : Int :=
  Int.tdiv ((t.second - 946684800) * 1000000000 + t.nano) 1000

/-- The instant of a number of microseconds counted from 2000-01-01. -/
def ofMicros2000? (micros : Int) : Option Instant :=
  ofUnix? (946684800 + micros / 1000000) ((micros % 1000000).toNat * 1000)

/-- The instant as far as whole microseconds tell it. -/
def truncated (t : Instant) : Instant :=
  (ofMicros2000? t.micros2000).getD t

end Instant

end EventSourcing
