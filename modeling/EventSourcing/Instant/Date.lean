/-!
# Dates of the Gregorian calendar

A `Date` is a day of the Gregorian calendar, continued in both directions; the year before year 1 is
year 0.  Days are counted from 1970-01-01.  The main statement is `Date.toDays_ofDays`: every day
number is the number of the date computed from it.
-/

namespace EventSourcing

/-- Whether a year has a 29th of February, by the Gregorian rule for all years. -/
def isLeapYear (year : Int) : Bool :=
  year % 4 = 0 && (year % 100 ≠ 0 || year % 400 = 0)

/-- The lengths of the twelve months. -/
def monthLengths (leap : Bool) : List Nat :=
  [31, if leap then 29 else 28, 31, 30, 31, 30, 31, 31, 30, 31, 30, 31]

/-- The number of leap years among the years 1 to `year`. -/
def leapYearsThrough (year : Int) : Int :=
  year / 4 - year / 100 + year / 400

/-- The day number of the first of January. -/
def daysBeforeYear (year : Int) : Int :=
  365 * (year - 1970) + leapYearsThrough (year - 1) - 477

/-- A date by year, month and day, the latter two counted from one. -/
structure Date where
  year : Int
  month : Nat
  day : Nat
deriving DecidableEq, Repr

namespace Date

/-- The month and day of a day of the year counted from zero, among months of these lengths. -/
def splitDay (month : Nat) : List Nat → Nat → Nat × Nat
  | [], n => (month, n + 1)
  | length :: rest, n => if n < length then (month, n + 1) else splitDay (month + 1) rest (n - length)

/-- The year that a day number falls into: an estimate, corrected by at most one. -/
def yearOfDays (days : Int) : Int :=
  let guess := 1970 + days * 400 / 146097
  if days < daysBeforeYear guess then guess - 1
  else if daysBeforeYear (guess + 1) ≤ days then guess + 1
  else guess

/-- The date of a day number. -/
def ofDays (days : Int) : Date :=
  let year := yearOfDays days
  let (month, day) := splitDay 1 (monthLengths (isLeapYear year)) (days - daysBeforeYear year).toNat
  ⟨year, month, day⟩

/-- The length of some months together. -/
def sum : List Nat → Nat
  | [] => 0
  | length :: rest => length + sum rest

/-- The day number of a date. -/
def toDays (d : Date) : Int :=
  daysBeforeYear d.year + sum ((monthLengths (isLeapYear d.year)).take (d.month - 1)) + d.day - 1

/-- Whether the month has that day. -/
def IsValid (d : Date) : Prop :=
  1 ≤ d.month ∧ 1 ≤ d.day ∧ d.day ≤ (monthLengths (isLeapYear d.year)).getD (d.month - 1) 0

instance (d : Date) : Decidable d.IsValid :=
  inferInstanceAs (Decidable (_ ∧ _ ∧ _))

/-! ### The year of a day number -/

/-- A year has 366 days if it is a leap year, and else 365. -/
theorem daysBeforeYear_succ (year : Int) :
    daysBeforeYear (year + 1) = daysBeforeYear year + if isLeapYear year then 366 else 365 := by
  simp only [daysBeforeYear, leapYearsThrough, isLeapYear, Int.add_sub_cancel]
  by_cases h4 : year % 4 = 0 <;> by_cases h100 : year % 100 = 0 <;>
    by_cases h400 : year % 400 = 0 <;> simp [h4, h100, h400] <;> omega

/-- The year of a day begins no later than the day, and ends after it. -/
theorem daysBeforeYear_yearOfDays (days : Int) :
    daysBeforeYear (yearOfDays days) ≤ days ∧ days < daysBeforeYear (yearOfDays days + 1) := by
  simp only [yearOfDays]
  generalize hg : 1970 + days * 400 / 146097 = guess
  split
  · rename_i h
    refine ⟨?_, by rwa [Int.sub_add_cancel]⟩
    simp only [daysBeforeYear, leapYearsThrough] at *
    omega
  · split
    · refine ⟨by assumption, ?_⟩
      simp only [daysBeforeYear, leapYearsThrough, Int.add_sub_cancel] at *
      omega
    · omega

/-! ### Month and day -/

/-- Days are counted on from the given month. -/
theorem splitDay_month (month : Nat) (l : List Nat) (n : Nat) : month ≤ (splitDay month l n).1 := by
  induction l generalizing month n with
  | nil => exact Nat.le_refl _
  | cons a l ih =>
    simp only [splitDay]
    split
    · exact Nat.le_refl _
    · exact Nat.le_trans (Nat.le_succ _) (ih _ _)

/-- The months before and the days before make up the day of the year. -/
theorem sum_splitDay (month : Nat) (l : List Nat) (n : Nat) :
    sum (l.take ((splitDay month l n).1 - month)) + (splitDay month l n).2 = n + 1 := by
  induction l generalizing month n with
  | nil => simp [splitDay, sum]
  | cons a l ih =>
    simp only [splitDay]
    split
    · simp [sum]
    · have hm := splitDay_month (month + 1) l (n - a)
      have := ih (month + 1) (n - a)
      rw [show (splitDay (month + 1) l (n - a)).1 - month
        = ((splitDay (month + 1) l (n - a)).1 - (month + 1)) + 1 by omega]
      simp only [List.take_succ_cons, sum]
      omega

/-- A day within the year falls into a month that has it. -/
theorem splitDay_le (month : Nat) (l : List Nat) (n : Nat) (h : n < sum l) :
    1 ≤ (splitDay month l n).2 ∧
      (splitDay month l n).2 ≤ l.getD ((splitDay month l n).1 - month) 0 := by
  induction l generalizing month n with
  | nil => simp [sum] at h
  | cons a l ih =>
    simp only [splitDay]
    split
    · simp; omega
    · have hm := splitDay_month (month + 1) l (n - a)
      have := ih (month + 1) (n - a) (by simp only [sum] at h; omega)
      rw [show (splitDay (month + 1) l (n - a)).1 - month
        = ((splitDay (month + 1) l (n - a)).1 - (month + 1)) + 1 by omega]
      simpa using this

/-- The months make up the year. -/
theorem sum_monthLengths (leap : Bool) :
    sum (monthLengths leap) = if leap then 366 else 365 := by
  cases leap <;> rfl

/-! ### Dates and day numbers -/

/-- Every day number is the number of its date. -/
theorem toDays_ofDays (days : Int) : (ofDays days).toDays = days := by
  have h := daysBeforeYear_yearOfDays days
  have hs := sum_splitDay 1 (monthLengths (isLeapYear (yearOfDays days)))
    (days - daysBeforeYear (yearOfDays days)).toNat
  simp only [ofDays, toDays]
  omega

/-- The date of a day number exists. -/
theorem isValid_ofDays (days : Int) : (ofDays days).IsValid := by
  have h := daysBeforeYear_yearOfDays days
  rw [daysBeforeYear_succ] at h
  have hlt : (days - daysBeforeYear (yearOfDays days)).toNat
      < sum (monthLengths (isLeapYear (yearOfDays days))) := by
    rw [sum_monthLengths]
    split at h <;> simp_all <;> omega
  have hm := splitDay_month 1 (monthLengths (isLeapYear (yearOfDays days)))
    (days - daysBeforeYear (yearOfDays days)).toNat
  have hd := splitDay_le 1 _ _ hlt
  exact ⟨hm, hd.1, hd.2⟩

end Date

end EventSourcing
