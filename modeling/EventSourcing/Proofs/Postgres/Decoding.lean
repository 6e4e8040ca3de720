import EventSourcing.Proofs.Postgres.Answers

/-!
# The PostgreSQL store — rows decoded

The database gives each column a value of its type, but its integers are signed.  A row whose sequence or
position is negative is no event, and one such row fails a whole read.

* `Event.ofRow_of_sound`, `Event.ofRow_of_faulty`: how one row is decoded.
* `decodesRows`: **rows are decoded in their order**, up to the first that is faulty.
-/

namespace EventSourcing

/-- The column takes a value like this one. -/
def Column.Takes : Column → SqlValue → Prop
  | .sequence, v => ∃ n, v = .integer n
  | .position, v => ∃ n, v = .integer n
  | .creationDate, v => ∃ t, v = .timestamp t
  | .data, v => ∃ payload, v = .json payload
  | _, v => ∃ s, v = .text s

namespace TableRow

/-- Every column holds a value that it takes. -/
def Typed (row : TableRow) : Prop :=
  ∀ column : Column, column.Takes (row column)

/-- Neither the sequence nor the position is negative. -/
def Sound (row : TableRow) : Prop :=
  ∀ n, row .sequence = .integer n ∨ row .position = .integer n → 0 ≤ n

/-- What is wrong with a row: its sequence, or else its position. -/
inductive Faulty (row : TableRow) : PostgresError → Prop where
  | sequence {n : Int} : row .sequence = .integer n → n < 0 → Faulty row (.invalidSequence n)
  | position {n m : Int} : row .sequence = .integer n → 0 ≤ n → row .position = .integer m → m < 0 →
      Faulty row (.invalidPosition m)

variable {row : TableRow}

/-- A row with values of the right types is sound, or has a fault. -/
theorem Typed.sound_or_faulty (h : row.Typed) : row.Sound ∨ ∃ fault, row.Faulty fault := by
  obtain ⟨n, hn⟩ := h .sequence
  obtain ⟨m, hm⟩ := h .position
  rcases Int.lt_or_le n 0 with hneg | hnonneg
  · exact .inr ⟨_, .sequence hn hneg⟩
  · rcases Int.lt_or_le m 0 with hneg | hnonneg'
    · exact .inr ⟨_, .position hn hnonneg hm hneg⟩
    · refine .inl ?_
      rintro k (hk | hk)
      · cases hn.symm.trans hk
        exact hnonneg
      · cases hm.symm.trans hk
        exact hnonneg'

end TableRow

/-! ### One row -/

section Row

variable {row : TableRow}

/-- Of a typed row, only the signs of its two numbers are left to look at. -/
theorem Event.ofRow_of_typed (h : row.Typed) {n m : Int} (hn : row .sequence = .integer n)
    (hm : row .position = .integer m) :
    ∃ e : Event, Event.ofRow row = (do
        let sequence ← sequenceOf n
        let position ← positionOf m
        return { e with sequence, position }) ∧
      ∀ k l : Nat, n = k → m = l → { e with sequence := k, position := l }.row = row := by
  obtain ⟨instanceId, hinstance⟩ := h .instanceId
  obtain ⟨type, htype⟩ := h .aggregateType
  obtain ⟨id, hid⟩ := h .aggregateId
  obtain ⟨resourceOwner, howner⟩ := h .resourceOwner
  obtain ⟨eventType, hevent⟩ := h .eventType
  obtain ⟨creationDate, hdate⟩ := h .creationDate
  obtain ⟨editorUser, heditor⟩ := h .editorUser
  obtain ⟨data, hdata⟩ := h .data
  refine ⟨{
    aggregate := { type, id, instanceId, resourceOwner }
    type := eventType, sequence := 0, position := 0, creationDate, editorUser, data }, ?_, ?_⟩
  · rw [Event.ofRow, hinstance, htype, hid, howner, hevent, hn, hm, hdate, heditor, hdata]
    rfl
  · rintro k l rfl rfl
    funext column
    cases column <;> simp only [Event.row, hinstance, htype, hid, howner, hevent, hn, hm, hdate, heditor,
      hdata]

/-- A sound row is an event. -/
theorem Event.ofRow_of_sound (h : row.Typed) (hs : row.Sound) :
    ∃ e : Event, Event.ofRow row = .ok e ∧ e.row = row := by
  obtain ⟨n, hn⟩ := h .sequence
  obtain ⟨m, hm⟩ := h .position
  obtain ⟨k, rfl⟩ := Int.eq_ofNat_of_zero_le (hs n (.inl hn))
  obtain ⟨l, rfl⟩ := Int.eq_ofNat_of_zero_le (hs m (.inr hm))
  obtain ⟨e, he, hrow⟩ := Event.ofRow_of_typed h hn hm
  exact ⟨_, he, hrow k l rfl rfl⟩

/-- A faulty row is decoded no further than to its fault. -/
theorem Event.ofRow_of_faulty (h : row.Typed) {fault : PostgresError} (hf : row.Faulty fault) :
    Event.ofRow row = .error fault := by
  cases hf with
  | sequence hn hneg =>
      obtain ⟨m, hm⟩ := h .position
      obtain ⟨e, he, -⟩ := Event.ofRow_of_typed h hn hm
      rw [he, sequenceOf, if_neg (Int.not_le.mpr hneg)]
      rfl
  | position hn hnonneg hm hneg =>
      obtain ⟨e, he, -⟩ := Event.ofRow_of_typed h hn hm
      rw [he, sequenceOf, if_pos hnonneg, positionOf, if_neg (Int.not_le.mpr hneg)]
      rfl

/-- Exactly the sound rows are read. -/
theorem Event.ofRow_eq_ok_iff (h : row.Typed) : (∃ e, Event.ofRow row = .ok e) ↔ row.Sound := by
  constructor
  · rintro ⟨e, he⟩
    rcases h.sound_or_faulty with hs | ⟨fault, hf⟩
    · exact hs
    · rw [Event.ofRow_of_faulty h hf] at he
      cases he
  · intro hs
    obtain ⟨e, he, -⟩ := Event.ofRow_of_sound h hs
    exact ⟨e, he⟩

/-- All others end with their fault. -/
theorem Event.ofRow_eq_error_iff (h : row.Typed) {fault : PostgresError} :
    Event.ofRow row = .error fault ↔ row.Faulty fault := by
  refine ⟨fun he => ?_, Event.ofRow_of_faulty h⟩
  rcases h.sound_or_faulty with hs | ⟨fault', hf⟩
  · obtain ⟨e, hok, -⟩ := Event.ofRow_of_sound h hs
    rw [hok] at he
    cases he
  · cases (Event.ofRow_of_faulty h hf).symm.trans he
    exact hf

end Row

/-! ### All rows -/

/-- What the rows of whole events are decoded as. -/
structure DecodesRows (rows : List TableRow) (result : Except PostgresError Output) : Prop where
  succeeds : (∃ output, result = .ok output) ↔ ∀ row ∈ rows, row.Sound
  /-- The events have the rows that were decoded, in their order. -/
  events : ∀ output, result = .ok output →
    ∃ events, output = .events events ∧ events.map Event.row = rows
  /-- The first row that is not sound says what is wrong. -/
  fails : ∀ fault, result = .error fault ↔ ∃ before row after, rows = before ++ row :: after ∧
    (∀ row' ∈ before, row'.Sound) ∧ row.Faulty fault

/-- Events are read row by row. -/
theorem Output.ofRows_event (rows : List TableRow) :
    Output.ofRows .event (rows.map fun row => Column.ofEvent.map row) =
      (rows.mapM Event.ofRow).map .events := by
  rw [Output.ofRows, List.mapM_map]
  simp only [Function.comp_def, TableRow.ofValues_map]

/-- **Rows are decoded in their order**, up to the first that is faulty. -/
theorem decodesRows {rows : List TableRow} (h : ∀ row ∈ rows, row.Typed) :
    DecodesRows rows (Output.ofRows .event (rows.map fun row => Column.ofEvent.map row)) := by
  rw [Output.ofRows_event]
  refine ⟨?_, fun output ho => ?_, fun fault => ?_⟩
  · calc (∃ output, (rows.mapM Event.ofRow).map Output.events = .ok output)
        ↔ ∃ events, rows.mapM Event.ofRow = .ok events := by simp [map_eq_ok]
      _ ↔ ∀ row ∈ rows, ∃ e, Event.ofRow row = .ok e := exists_mapM_eq_ok_iff
      _ ↔ ∀ row ∈ rows, row.Sound := forall₂_congr fun row hrow => Event.ofRow_eq_ok_iff (h row hrow)
  · obtain ⟨events, hevents, rfl⟩ := map_eq_ok.mp ho
    refine ⟨events, rfl, map_of_mapM_eq_ok hevents fun row hrow e he => ?_⟩
    have hsound := (Event.ofRow_eq_ok_iff (h row hrow)).mp ⟨e, he⟩
    obtain ⟨e', he', hrow'⟩ := Event.ofRow_of_sound (h row hrow) hsound
    cases he.symm.trans he'
    exact hrow'
  · rw [map_eq_error, mapM_eq_error_iff]
    refine exists_congr fun before => exists_congr fun row => exists_congr fun after =>
      and_congr_right fun hrows => ?_
    subst hrows
    rw [Event.ofRow_eq_error_iff (h row (by simp))]
    refine and_congr_left' (forall₂_congr fun row' hrow' => ?_)
    exact Event.ofRow_eq_ok_iff (h row' (by simp [hrow']))

end EventSourcing
