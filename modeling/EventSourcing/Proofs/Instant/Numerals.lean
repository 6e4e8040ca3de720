import EventSourcing.Instant.Timestamp
import EventSourcing.Proofs.Results

/-!
# Timestamps — numerals

The numbers of a timestamp are written in a fixed number of places, and each of its readers takes digits up to
a width.  A numeral is read back if it fills the width, or if what follows it is no digit.

* `value_padded`, `length_padded`: the number and the width of a numeral.
* `value_lt`: digits write a number of no more places than they are.
* `readDigits_append`, `digits_of_readDigits`: digits are read off the head of a text, and nothing else is.
* `readField_padded`, `le_of_readField`: a field of two places is read back, and lies between its bounds.
-/

namespace EventSourcing

namespace Text

/-- What begins with something else than a blank has no blanks to skip. -/
theorem skipBlanks_cons {c : Char} (h : isBlank c = false) (cs : List Char) :
    skipBlanks (c :: cs) = c :: cs :=
  List.dropWhile_cons_of_neg (by simp [h])

/-- Digits are not skipped as blanks. -/
theorem isBlank_of_isDigit {c : Char} (h : c.isDigit = true) : isBlank c = false := by
  obtain ⟨hlow, hhigh⟩ : 0x30 ≤ c.toNat ∧ c.toNat ≤ 0x39 := Char.isDigit_iff_toNat.mp h
  simp only [isBlank, Bool.or_eq_false_iff, Bool.and_eq_false_iff, decide_eq_false_iff_not]
  omega

end Text

namespace Timestamp

/-! ### Writing numerals -/

/-- A numeral is made of digits. -/
theorem isDigit_of_mem_padded {width n : Nat} {c : Char} (h : c ∈ padded width n) :
    c.isDigit = true := by
  rcases List.mem_append.mp h with h | h
  · rw [List.eq_of_mem_replicate h]
    rfl
  · exact Nat.isDigit_of_mem_toDigits (by decide) (by decide) h

/-- A number that fits the places takes all of them. -/
theorem length_padded {width n : Nat} (hwidth : 0 < width) (h : n < Nat.pow 10 width) :
    (padded width n).length = width := by
  have hle : (Nat.toDigits 10 n).length ≤ width :=
    (Nat.length_toDigits_le_iff (by decide) hwidth).mpr h
  simp only [padded, List.length_append, List.length_replicate]
  omega

theorem padded_ne_nil (width n : Nat) : padded width n ≠ [] :=
  List.append_ne_nil_of_right_ne_nil _ Nat.toDigits_ne_nil

/-- The value of digits is that of the standard library. -/
theorem value_eq_ofDigitChars (ds : List Char) : value ds = Nat.ofDigitChars 10 ds 0 := by
  rw [value, Nat.ofDigitChars_eq_foldl]
  simp only [Nat.mul_comm]

/-- Leading zeros do not count. -/
theorem value_padded (width n : Nat) : value (padded width n) = n := by
  rw [value_eq_ofDigitChars, padded]
  rw [Nat.ofDigitChars_append, Nat.ofDigitChars_replicate_zero, Nat.mul_zero]
  exact Nat.ofDigitChars_ten_toDigits

/-- The first digit counts by the number of those that follow. -/
theorem value_cons (c : Char) (ds : List Char) :
    value (c :: ds) = Nat.pow 10 ds.length * (c.toNat - '0'.toNat) + value ds := by
  rw [value_eq_ofDigitChars, Nat.ofDigitChars_cons, Nat.ofDigitChars_eq_ofDigitChars_zero,
    ← value_eq_ofDigitChars, Nat.mul_zero, Nat.zero_add]
  rfl

/-- Digits write a number of no more places than they are. -/
theorem value_lt {ds : List Char} (h : ∀ c ∈ ds, c.isDigit = true) : value ds < Nat.pow 10 ds.length := by
  induction ds with
  | nil => decide
  | cons c ds ih =>
      obtain ⟨hc, hds⟩ := List.forall_mem_cons.mp h
      have hdigit : c.toNat - '0'.toNat ≤ 9 := by
        have hhigh : c.toNat ≤ '0'.toNat + 9 := (Char.isDigit_iff_toNat.mp hc).2
        omega
      calc value (c :: ds)
          = Nat.pow 10 ds.length * (c.toNat - '0'.toNat) + value ds := value_cons c ds
        _ < Nat.pow 10 ds.length * 9 + Nat.pow 10 ds.length :=
            Nat.add_lt_add_of_le_of_lt (Nat.mul_le_mul_left _ hdigit) (ih hds)
        _ = Nat.pow 10 (ds.length + 1) := rfl

/-! ### Reading numerals -/

/-- The text does not begin with a digit. -/
def Stops (cs : List Char) : Prop :=
  ∀ c ∈ cs.head?, c.isDigit = false

theorem stops_cons {c : Char} (h : c.isDigit = false) (cs : List Char) : Stops (c :: cs) := by
  rintro _ ⟨⟩
  exact h

/-- From such a text no digits are taken. -/
theorem takeWhile_of_stops {cs : List Char} (h : Stops cs) (k : Nat) :
    (cs.take k).takeWhile Char.isDigit = [] := by
  cases cs with
  | nil => simp
  | cons c cs =>
      cases k with
      | zero => rfl
      | succ k => exact List.takeWhile_cons_of_neg (by simp [h c rfl])

theorem dropWhile_of_stops {cs : List Char} (h : Stops cs) : cs.dropWhile Char.isDigit = cs := by
  cases cs with
  | nil => rfl
  | cons c cs => exact List.dropWhile_cons_of_neg (by simp [h c rfl])

/-- **Digits are read off the head of a text**, as many as the width admits, or fewer where they stop. -/
theorem readDigits_append {width : Nat} {ds cs : List Char} (hne : ds ≠ [])
    (hds : ∀ c ∈ ds, c.isDigit = true) (hwidth : ds.length ≤ width)
    (hstops : ds.length = width ∨ Stops cs) : readDigits width (ds ++ cs) = .ok (ds, cs) := by
  have htake : ((ds ++ cs).take width).takeWhile Char.isDigit = ds := by
    rw [List.take_append, List.take_of_length_le hwidth, List.takeWhile_append_of_pos hds]
    rcases hstops with hfull | hstops
    · rw [hfull, Nat.sub_self, List.take_zero, List.takeWhile_nil, List.append_nil]
    · rw [takeWhile_of_stops hstops, List.append_nil]
  obtain ⟨d, ds, rfl⟩ := List.exists_cons_of_ne_nil hne
  simp only [readDigits, htake]
  show Except.ok (d :: ds, (d :: ds ++ cs).drop (d :: ds).length) = _
  rw [List.drop_left]

/-- What is read are digits, as many as the width admits. -/
theorem digits_of_readDigits {width : Nat} {cs ds rest : List Char}
    (h : readDigits width cs = .ok (ds, rest)) : (∀ c ∈ ds, c.isDigit = true) ∧ ds.length ≤ width := by
  have hds : ds = (cs.take width).takeWhile Char.isDigit := by
    simp only [readDigits] at h
    split at h
    · cases h
    · cases h
    · cases h
      rfl
  subst hds
  refine ⟨List.all_eq_true.mp List.all_takeWhile, ?_⟩
  exact Nat.le_trans (List.takeWhile_prefix _).length_le (List.length_take_le _ _)

/-- A numeral that fills the width is read back. -/
theorem readDigits_padded {width n : Nat} (hwidth : 0 < width) (h : n < Nat.pow 10 width) (cs : List Char) :
    readDigits width (padded width n ++ cs) = .ok (padded width n, cs) :=
  have hlength := length_padded hwidth h
  readDigits_append (padded_ne_nil width n) (fun _ => isDigit_of_mem_padded) (Nat.le_of_eq hlength)
    (.inl hlength)

/-- A numeral begins with a digit. -/
theorem exists_digit_padded (width n : Nat) :
    ∃ d ds, padded width n = d :: ds ∧ d.isDigit = true := by
  obtain ⟨d, ds, hd⟩ := List.exists_cons_of_ne_nil (padded_ne_nil width n)
  exact ⟨d, ds, hd, isDigit_of_mem_padded (hd ▸ List.mem_cons_self)⟩

/-- A text that begins with a numeral begins with nothing else. -/
theorem padded_append_ne_cons {c : Char} (hc : c.isDigit = false) (width n : Nat) (cs cs' : List Char) :
    padded width n ++ cs ≠ c :: cs' := by
  obtain ⟨d, ds, hd, hdigit⟩ := exists_digit_padded width n
  rw [hd, List.cons_append]
  rintro ⟨⟩
  simp [hc] at hdigit

/-- No blanks are skipped before a numeral. -/
theorem skipBlanks_padded (width n : Nat) (cs : List Char) :
    Text.skipBlanks (padded width n ++ cs) = padded width n ++ cs := by
  obtain ⟨d, ds, hd, hdigit⟩ := exists_digit_padded width n
  rw [hd, List.cons_append, Text.skipBlanks_cons (Text.isBlank_of_isDigit hdigit)]

/-- A field lies between its bounds. -/
theorem le_of_readField {low high n : Nat} {cs rest : List Char}
    (h : readField low high cs = .ok (n, rest)) : low ≤ n ∧ n ≤ high := by
  obtain ⟨⟨ds, rest'⟩, -, h⟩ := bind_eq_ok.mp h
  dsimp only at h
  split at h
  · rename_i hbounds
    cases h
    exact hbounds
  · cases h

/-- A field of two places is read back. -/
theorem readField_padded {low high n : Nat} (hlow : low ≤ n) (hhigh : n ≤ high) (hn : n < 100)
    (cs : List Char) : readField low high (padded 2 n ++ cs) = .ok (n, cs) := by
  rw [readField, skipBlanks_padded]
  refine bind_eq_ok.mpr ⟨_, readDigits_padded (by decide) hn cs, ?_⟩
  simp only [value_padded]
  exact if_pos ⟨hlow, hhigh⟩

end Timestamp

end EventSourcing
