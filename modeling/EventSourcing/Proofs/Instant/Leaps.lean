import EventSourcing.Proofs.Instant.Numerals

/-!
# Timestamps — seconds that go on

A clock shows a second that goes on as second 60 if it is the last one of its minute, and else as the second
that follows it.  Instants that `LeapsLast` have timestamps of their own; any other has the timestamp of the
instant that it is `carried` to.

* `Instant.leapsLast_carried`, `Instant.carried_eq_self_iff`: carrying gives an instant with a timestamp of its
  own, and changes none that has one.
* `Timestamp.write_carried`: an instant is written as the one that it is carried to.
* `Timestamp.leapsLast_of_read`: **what is read from a timestamp** leaps in the last second of a minute only.
-/

namespace EventSourcing

namespace Instant

/-- The nanoseconds reach beyond the second in no second but the last one of a minute. -/
def LeapsLast (t : Instant) : Prop :=
  1000000000 ≤ t.nano → t.second % 60 = 59

instance (t : Instant) : Decidable t.LeapsLast :=
  inferInstanceAs (Decidable (_ → _))

/-- The instant that a clock shows.  Where the second goes on but is not the last one of its minute, that is
the second after it. -/
def carried (t : Instant) : Instant :=
  if h : 1000000000 ≤ t.nano ∧ t.second % 60 ≠ 59 then
    { second := t.second + 1
      nano := t.nano - 1000000000
      nano_lt := by have := t.nano_lt; omega
      min_le := by have := t.min_le; omega
      -- the last second that there is ends a minute
      le_max := by have := t.le_max; omega }
  else t

/-- Nothing is carried from the last second of a minute. -/
theorem carried_of_leapsLast {t : Instant} (h : t.LeapsLast) : t.carried = t :=
  dif_neg fun hlate => hlate.2 (h hlate.1)

/-- From any other second, a thousand million nanoseconds are carried to the next. -/
theorem carried_of_not_leapsLast {t : Instant} (h : ¬ t.LeapsLast) :
    t.carried.second = t.second + 1 ∧ t.carried.nano + 1000000000 = t.nano ∧ t.second % 60 ≠ 59 := by
  obtain ⟨hnano, hlast⟩ : 1000000000 ≤ t.nano ∧ t.second % 60 ≠ 59 := Classical.not_imp.mp h
  rw [carried, dif_pos ⟨hnano, hlast⟩]
  exact ⟨rfl, Nat.sub_add_cancel hnano, hlast⟩

/-- What has been carried leaps in the last second of a minute only. -/
theorem leapsLast_carried (t : Instant) : t.carried.LeapsLast := by
  by_cases h : t.LeapsLast
  · rw [carried_of_leapsLast h]
    exact h
  · obtain ⟨-, hnano, -⟩ := carried_of_not_leapsLast h
    have hlt := t.nano_lt
    intro hlate
    omega

/-- **What is carried** is what does not leap in the last second of a minute. -/
theorem carried_eq_self_iff {t : Instant} : t.carried = t ↔ t.LeapsLast :=
  ⟨fun h => h ▸ t.leapsLast_carried, carried_of_leapsLast⟩

end Instant

namespace Timestamp

/-! ### Writing -/

/-- **An instant is written as the one that it is carried to.** -/
theorem write_carried (t : Instant) : write t.carried = write t := by
  by_cases h : t.LeapsLast
  · rw [Instant.carried_of_leapsLast h]
  · obtain ⟨hsecond, hnano, hlast⟩ := Instant.carried_of_not_leapsLast h
    have hlt := t.nano_lt
    -- the day, the hour and the minute stay, and the second takes up what is beyond it
    have hday : t.carried.second / 86400 = t.second / 86400 := by omega
    have htime : (t.carried.second % 86400).toNat = (t.second % 86400).toNat + 1 := by omega
    have hhour : ((t.second % 86400).toNat + 1) / 3600 = (t.second % 86400).toNat / 3600 := by omega
    have hminute : ((t.second % 86400).toNat + 1) / 60 = (t.second % 86400).toNat / 60 := by omega
    have hmoment : ((t.second % 86400).toNat + 1) % 60 + t.carried.nano / 1000000000 =
        (t.second % 86400).toNat % 60 + t.nano / 1000000000 := by omega
    have hfraction : t.carried.nano % 1000000000 = t.nano % 1000000000 := by omega
    simp only [write, writeTime, hday, htime, hhour, hminute, hmoment, hfraction]

/-! ### Reading -/

variable {cs rest : List Char}

/-- Fractions are shorter than a second. -/
theorem lt_of_readFraction {nano : Nat} (h : readFraction cs = .ok (nano, rest)) : nano < 1000000000 := by
  unfold readFraction at h
  split at h
  · obtain ⟨⟨ds, rest'⟩, hdigits, h⟩ := bind_eq_ok.mp h
    obtain ⟨hds, hlength⟩ := digits_of_readDigits hdigits
    cases h
    calc value ds * Nat.pow 10 (9 - ds.length)
        < Nat.pow 10 ds.length * Nat.pow 10 (9 - ds.length) :=
          Nat.mul_lt_mul_of_pos_right (value_lt hds) (Nat.pow_pos (by decide))
      _ = Nat.pow 10 (ds.length + (9 - ds.length)) := (Nat.pow_add 10 _ _).symm
      _ = Nat.pow 10 9 := by rw [Nat.add_sub_cancel' hlength]
  · cases h
    decide

/-- A time goes on beyond its second in second 59 only. -/
theorem last_of_readTime {secondOfDay nano : Nat} (h : readTime cs = .ok ((secondOfDay, nano), rest))
    (hleap : 1000000000 ≤ nano) : secondOfDay % 60 = 59 := by
  obtain ⟨⟨hour, cs₁⟩, -, h⟩ := bind_eq_ok.mp h
  obtain ⟨cs₂, -, h⟩ := bind_eq_ok.mp h
  obtain ⟨⟨minute, cs₃⟩, -, h⟩ := bind_eq_ok.mp h
  obtain ⟨cs₄, -, h⟩ := bind_eq_ok.mp h
  obtain ⟨⟨second, cs₅⟩, hsecond, h⟩ := bind_eq_ok.mp h
  obtain ⟨⟨fraction, cs₆⟩, hfraction, h⟩ := bind_eq_ok.mp h
  have hlt := lt_of_readFraction hfraction
  obtain ⟨-, hle⟩ := le_of_readField hsecond
  cases h
  -- only second 60 adds to the fraction, and it is written for second 59
  obtain rfl : second = 60 := by omega
  omega

/-- Offsets are whole minutes. -/
theorem minutes_of_readOffset {offset : Int} (h : readOffset cs = .ok (offset, rest)) : offset % 60 = 0 := by
  obtain ⟨⟨negative, cs₁⟩, -, h⟩ := bind_eq_ok.mp h
  obtain ⟨⟨⟨a, b⟩, cs₂⟩, -, h⟩ := bind_eq_ok.mp h
  obtain ⟨-, h⟩ := guard_eq_ok.mp h
  obtain ⟨⟨⟨c, d⟩, cs₃⟩, -, h⟩ := bind_eq_ok.mp h
  obtain ⟨-, h⟩ := guard_eq_ok.mp h
  obtain ⟨-, h⟩ := guard_eq_ok.mp h
  cases h
  split <;> omega

/-- So is every zone a number of whole minutes. -/
theorem minutes_of_readZone {offset : Int} (h : readZone cs = .ok (offset, rest)) : offset % 60 = 0 := by
  unfold readZone at h
  split at h
  · cases h
    rfl
  · cases h
    rfl
  · split at h
    · cases h
      rfl
    · exact minutes_of_readOffset h
  · exact minutes_of_readOffset h

/-- **What is read from a timestamp** leaps in the last second of a minute only. -/
theorem leapsLast_of_read {t : Instant} (h : read cs = .ok t) : t.LeapsLast := by
  obtain ⟨⟨date, cs₁⟩, -, h⟩ := bind_eq_ok.mp h
  obtain ⟨cs₂, -, h⟩ := bind_eq_ok.mp h
  obtain ⟨⟨⟨second, nano⟩, cs₃⟩, htime, h⟩ := bind_eq_ok.mp h
  obtain ⟨⟨offset, cs₄⟩, hzone, h⟩ := bind_eq_ok.mp h
  obtain ⟨-, h⟩ := guard_eq_ok.mp h
  obtain ⟨-, h⟩ := guard_eq_ok.mp h
  obtain ⟨-, h⟩ := guard_eq_ok.mp h
  have hlast := last_of_readTime htime
  have hminutes := minutes_of_readZone hzone
  split at h
  · rename_i t' ht
    cases h
    obtain ⟨hsecond, hnano⟩ := Instant.of_ofUnix? ht
    intro hleap
    have := hlast (hnano ▸ hleap)
    omega
  · cases h

end Timestamp

end EventSourcing
