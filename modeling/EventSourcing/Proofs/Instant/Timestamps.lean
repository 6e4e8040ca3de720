import Mathlib.Tactic.ByContra
import EventSourcing.Proofs.Instant.Leaps

/-!
# Timestamps — what is written is read back

The writer varies the width of the fraction, signs long years and years before year 0, and writes a leap second
as second 60.  The reader takes each of these forms apart again, part by part.

* `readYear_writeYear`, `readDate_writeDate`: years with and without a sign, and dates.
* `readFraction_writeFraction`, `readTime_writeTime`: fractions of every width, and times with their leap second.
* `Date.year_ofDays`: the days of all instants lie in the years that there are.
* `Timestamp.read_write`: an instant that leaps in the last second of a minute only is read back.
* `Instant.parse_render`: **every timestamp reads as the instant that a clock shows**.
-/

namespace EventSourcing

/-! ### Dates -/

namespace Date

/-- There are twelve months, of at most 31 days. -/
theorem IsValid.le {d : Date} (h : d.IsValid) : d.month ≤ 12 ∧ d.day ≤ 31 := by
  obtain ⟨-, hday, hle⟩ := h
  have hmonth : d.month - 1 < 12 := by
    by_contra hlate
    -- a month after the twelfth has no days
    have hnone : (monthLengths (isLeapYear d.year))[d.month - 1]? = none :=
      List.getElem?_eq_none (Nat.not_lt.mp hlate)
    rw [List.getD_eq_getElem?_getD, hnone] at hle
    exact Nat.not_lt.mpr hle hday
  have hlengths : ∀ leap, ∀ m < 12, (monthLengths leap).getD m 0 ≤ 31 := by decide
  exact ⟨by omega, Nat.le_trans hle (hlengths _ _ hmonth)⟩

/-- Later years begin later. -/
theorem daysBeforeYear_mono {year year' : Int} (h : year ≤ year') :
    daysBeforeYear year ≤ daysBeforeYear year' := by
  simp only [daysBeforeYear, leapYearsThrough]
  omega

/-- The days of the years from -262143 to 262142 lie in these years. -/
theorem year_ofDays (days : Int) (hlow : -96465292 ≤ days) (hhigh : days ≤ 95026236) :
    -262143 ≤ (ofDays days).year ∧ (ofDays days).year ≤ 262142 := by
  obtain ⟨hle, hlt⟩ := daysBeforeYear_yearOfDays days
  have hmin : daysBeforeYear (-262143) = -96465292 := by decide
  have hmax : daysBeforeYear 262143 = 95026237 := by decide
  show -262143 ≤ yearOfDays days ∧ yearOfDays days ≤ 262142
  constructor
  · by_contra hyear
    have hmono := daysBeforeYear_mono (show yearOfDays days + 1 ≤ -262143 by omega)
    omega
  · by_contra hyear
    have hmono := daysBeforeYear_mono (show 262143 ≤ yearOfDays days by omega)
    omega

end Date

namespace Timestamp

/-- A sign is followed by any number of digits. -/
theorem readDigits_signed (n : Nat) {cs : List Char} (hcs : Stops cs) :
    readDigits (padded 4 n ++ cs).length (padded 4 n ++ cs) = .ok (padded 4 n, cs) :=
  readDigits_append (padded_ne_nil 4 n) (fun _ => isDigit_of_mem_padded)
    (by rw [List.length_append]; exact Nat.le_add_right _ _) (.inr hcs)

/-- **Years are read back**, with and without a sign, before whatever is no digit. -/
theorem readYear_writeYear {year : Int} (hlow : -2147483648 ≤ year) (hhigh : year ≤ 2147483647)
    {cs : List Char} (hcs : Stops cs) : readYear (writeYear year ++ cs) = .ok (year, cs) := by
  by_cases hfour : 0 ≤ year ∧ year ≤ 9999
  · -- four digits, of which the first is no sign
    have hplaces : year.toNat < 10000 := by omega
    have hdigits : readDigits 4 (padded 4 year.toNat ++ cs) = .ok (padded 4 year.toNat, cs) :=
      readDigits_padded (by decide) hplaces cs
    rw [writeYear, if_pos hfour, readYear, skipBlanks_padded]
    split
    · rename_i heq
      exact absurd heq (padded_append_ne_cons (by decide) _ _ _ _)
    · rename_i heq
      exact absurd heq (padded_append_ne_cons (by decide) _ _ _ _)
    · refine bind_eq_ok.mpr ⟨_, hdigits, ?_⟩
      simp only [value_padded]
      rw [Int.toNat_of_nonneg hfour.1]
  · have hdigits := readDigits_signed year.natAbs hcs
    rw [writeYear, if_neg hfour, List.cons_append, readYear]
    by_cases hneg : year < 0
    · rw [if_pos hneg, Text.skipBlanks_cons (by decide)]
      refine bind_eq_ok.mpr ⟨_, hdigits, ?_⟩
      have hyear : -(year.natAbs : Int) = year := by omega
      simp only [value_padded, if_true, hyear]
      exact if_pos ⟨hlow, hhigh⟩
    · rw [if_neg hneg, Text.skipBlanks_cons (by decide)]
      refine bind_eq_ok.mpr ⟨_, hdigits, ?_⟩
      have hyear : (year.natAbs : Int) = year := by omega
      simp only [value_padded, Bool.false_eq_true, if_false, hyear]
      exact if_pos ⟨hlow, hhigh⟩

/-- Blanks may stand before a separator, but do not have to. -/
theorem expect_skipBlanks {c : Char} (h : Text.isBlank c = false) (cs : List Char) :
    expect c (Text.skipBlanks (c :: cs)) = .ok cs := by
  rw [Text.skipBlanks_cons h]
  exact if_pos rfl

/-- **Dates are read back.** -/
theorem readDate_writeDate {d : Date} (hd : d.IsValid) (hlow : -2147483648 ≤ d.year)
    (hhigh : d.year ≤ 2147483647) (cs : List Char) :
    readDate (writeDate d ++ cs) = .ok (d, cs) := by
  obtain ⟨hmonth, hday⟩ := hd.le
  have hdash : Text.isBlank '-' = false := by decide
  simp only [writeDate, List.append_assoc, List.cons_append]
  refine bind_eq_ok.mpr ⟨_, readYear_writeYear hlow hhigh (stops_cons (by decide) _), ?_⟩
  refine bind_eq_ok.mpr ⟨_, expect_skipBlanks hdash _, ?_⟩
  refine bind_eq_ok.mpr ⟨_, readField_padded hd.1 hmonth (by omega) _, ?_⟩
  refine bind_eq_ok.mpr ⟨_, expect_skipBlanks hdash _, ?_⟩
  exact bind_eq_ok.mpr ⟨_, readField_padded hd.2.1 hday (by omega) _, rfl⟩

/-! ### Times -/

/-- A fraction of some places, in nanoseconds. -/
theorem readFraction_padded {width n : Nat} (hwidth : 0 < width) (hnine : width ≤ 9) (h : n < Nat.pow 10 width)
    {cs : List Char} (hcs : Stops cs) :
    readFraction ('.' :: padded width n ++ cs) = .ok (n * Nat.pow 10 (9 - width), cs) := by
  have hlength := length_padded hwidth h
  have hdigits : readDigits 9 (padded width n ++ cs) = .ok (padded width n, cs) :=
    readDigits_append (padded_ne_nil width n) (fun _ => isDigit_of_mem_padded)
      (by rw [hlength]; exact hnine) (.inr hcs)
  refine bind_eq_ok.mpr ⟨_, hdigits, ?_⟩
  simp only [value_padded, hlength, dropWhile_of_stops hcs]

/-- **Fractions are read back**, in each of their four widths. -/
theorem readFraction_writeFraction {nano : Nat} (h : nano < 1000000000) (cs : List Char) :
    readFraction (writeFraction nano ++ 'Z' :: cs) = .ok (nano, 'Z' :: cs) := by
  have hcs : Stops ('Z' :: cs) := stops_cons (by decide) cs
  rw [writeFraction]
  split
  · rename_i hnone
    rw [hnone]
    rfl
  · split
    · rename_i hmilli
      have hwhole : nano / 1000000 * Nat.pow 10 (9 - 3) = nano :=
        Nat.div_mul_cancel (Nat.dvd_of_mod_eq_zero hmilli)
      have hplaces : nano / 1000000 < 1000 := by omega
      rw [readFraction_padded (by decide) (by decide) hplaces hcs, hwhole]
    · split
      · rename_i hmicro
        have hwhole : nano / 1000 * Nat.pow 10 (9 - 6) = nano :=
          Nat.div_mul_cancel (Nat.dvd_of_mod_eq_zero hmicro)
        have hplaces : nano / 1000 < 1000000 := by omega
        rw [readFraction_padded (by decide) (by decide) hplaces hcs, hwhole]
      · have hwhole : nano * Nat.pow 10 (9 - 9) = nano := Nat.mul_one nano
        rw [readFraction_padded (by decide) (by decide) h hcs, hwhole]

/-- Second 60 is second 59 gone on for another thousand million nanoseconds. -/
theorem readTime_writeTime {secondOfDay nano : Nat} (hday : secondOfDay < 86400)
    (hnano : nano < 2000000000) (hleap : 1000000000 ≤ nano → secondOfDay % 60 = 59) (cs : List Char) :
    readTime (writeTime secondOfDay nano ++ 'Z' :: cs) = .ok ((secondOfDay, nano), 'Z' :: cs) := by
  have hhour : secondOfDay / 3600 ≤ 23 := by omega
  have hsecond : secondOfDay % 60 + nano / 1000000000 ≤ 60 := by omega
  have hcolon : Text.isBlank ':' = false := by decide
  simp only [writeTime, List.append_assoc, List.cons_append]
  refine bind_eq_ok.mpr ⟨_, readField_padded (Nat.zero_le _) hhour (by omega) _, ?_⟩
  refine bind_eq_ok.mpr ⟨_, expect_skipBlanks hcolon _, ?_⟩
  refine bind_eq_ok.mpr ⟨_, readField_padded (Nat.zero_le _) (by omega) (by omega) _, ?_⟩
  refine bind_eq_ok.mpr ⟨_, expect_skipBlanks hcolon _, ?_⟩
  refine bind_eq_ok.mpr ⟨_, readField_padded (Nat.zero_le _) hsecond (by omega) _, ?_⟩
  refine bind_eq_ok.mpr ⟨_, readFraction_writeFraction (Nat.mod_lt _ (by decide)) cs, ?_⟩
  -- the sixtieth second is reached in a leap second, and only there
  have hleap' : (secondOfDay % 60 + nano / 1000000000) / 60 = nano / 1000000000 := by omega
  have hday' : secondOfDay / 3600 * 3600 + secondOfDay / 60 % 60 * 60 +
      (secondOfDay % 60 + nano / 1000000000 - nano / 1000000000) = secondOfDay := by omega
  simp only [hleap', hday', Nat.mod_add_div']

/-- **What is written is read back**, unless it goes on beyond a second within a minute. -/
theorem read_write {t : Instant} (hlast : t.LeapsLast) : read (write t) = .ok t := by
  have hlow := t.min_le
  have hhigh := t.le_max
  have hyear := Date.year_ofDays (t.second / 86400) (by omega) (by omega)
  have hvalid := Date.isValid_ofDays (t.second / 86400)
  have hleap : 1000000000 ≤ t.nano → (t.second % 86400).toNat % 60 = 59 := fun h => by
    have hminute := hlast h
    omega
  simp only [write, List.append_assoc, List.cons_append]
  refine bind_eq_ok.mpr ⟨_, readDate_writeDate hvalid (by omega) (by omega) _, ?_⟩
  refine bind_eq_ok.mpr ⟨_, rfl, ?_⟩
  refine bind_eq_ok.mpr ⟨_, readTime_writeTime (by omega) t.nano_lt hleap [], ?_⟩
  refine bind_eq_ok.mpr ⟨((0 : Int), []), rfl, ?_⟩
  -- nothing is left, the date exists, and the parts make up the instant
  have hrange : yearInRange (Date.ofDays (t.second / 86400)).year = true := by
    simp [yearInRange, hyear]
  have hsecond : (Date.ofDays (t.second / 86400)).toDays * 86400 + ((t.second % 86400).toNat : Int) - 0 =
      t.second := by
    rw [Date.toDays_ofDays]
    omega
  have hleft : (Text.skipBlanks []).isEmpty = true := rfl
  simp only [hleft, hrange, hvalid, hsecond, Instant.ofUnix?_self, decide_true, Bool.and_true,
    Bool.not_true, Bool.false_eq_true, if_false]
  rfl

end Timestamp

/-- **Every timestamp reads as the instant that a clock shows.** -/
theorem Instant.parse_render (t : Instant) : Instant.parse t.render = .ok t.carried := by
  rw [parse, render, String.toList_ofList, ← Timestamp.write_carried]
  exact Timestamp.read_write t.leapsLast_carried

end EventSourcing
