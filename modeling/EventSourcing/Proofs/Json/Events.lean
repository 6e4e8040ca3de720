import EventSourcing.Event
import EventSourcing.Proofs.Instant.Timestamps
import EventSourcing.Proofs.Json.Records

/-!
# JSON — events that are read back

An event is written with all its fields: its aggregate as a record within the record, its creation date as a
timestamp, and its payload as it is.  A timestamp tells second 60 of a minute from the second after it, but no
other second that goes on: an event with such a date comes back with the date that a clock shows.

* `Event.ofJson_toJson`: an event whose numbers fit 64 bits is read back, its date carried.
* `Event.fits_of_ofJson`: the numbers of an event that has been read fit, and its date has a timestamp of its
  own.
* `Event.json_faithful`: **which events come back as they were**, and that all that have been read do.
* `Event.not_json_faithful_pastNoon`: not every event does.
-/

namespace EventSourcing

namespace Json

/-- A timestamp reads as the instant that a clock shows. -/
theorem instant_render (t : Instant) : instant (.str t.render) = .ok t.carried := by
  rw [instant, Instant.parse_render]
  rfl

/-- An instant that has been read from a timestamp has one of its own. -/
theorem leapsLast_of_instant {v : Json} {t : Instant} (h : instant v = .ok t) : t.LeapsLast := by
  cases v with
  | str s => exact Timestamp.leapsLast_of_read (mapError_eq_ok.mp h)
  | _ => cases h

/-- What a required field reads is the value of a member. -/
theorem exists_of_required {α : Type} {read : Json → Except ShapeError α} {ms : List (String × Json)}
    {name : String} {a : α} (h : required read ms name = .ok a) : ∃ v, read v = .ok a := by
  rw [required] at h
  split at h
  · exact ⟨_, h⟩
  · cases h

/-- Numbers of 64 bits are read within their range. -/
theorem lt_of_required_word64 {ms : List (String × Json)} {name : String} {n : Nat}
    (h : required word64 ms name = .ok n) : n < Nat.pow 2 64 := by
  obtain ⟨v, hv⟩ := exists_of_required h
  exact (natural_eq_ok_iff.mp hv).2

end Json

namespace Event

open Json

/-- Every member of a written event passes the test of its field. -/
theorem members_toJson {e : Event} (hs : e.sequence < Nat.pow 2 64) (hp : e.position < Nat.pow 2 64) :
    record.members e.toJson = .ok [("aggregate", e.aggregate.toJson),
      ("creation_date", .str e.creationDate.render), ("data", e.data), ("editor_user", .str e.editorUser),
      ("event_type", .str e.type), ("position", .int e.position), ("sequence", .int e.sequence)] := by
  refine Record.members_obj ?_
  simp only [List.forall_mem_cons, List.not_mem_nil, false_imp_iff, implies_true, and_true]
  refine ⟨?aggregate, ?creationDate, ?data, ?editorUser, ?type, ?position, ?sequence⟩
  case aggregate => exact Record.checkMember_of_read Aggregate.ofJson rfl e.aggregate.ofJson_toJson
  case creationDate => exact Record.checkMember_of_read instant rfl (instant_render e.creationDate)
  case data => exact Record.checkMember_of_read (fun v => .ok v) rfl rfl
  case editorUser => exact Record.checkMember_of_read text rfl rfl
  case type => exact Record.checkMember_of_read text rfl rfl
  case position => exact Record.checkMember_of_read word64 rfl (natural_int hp)
  case sequence => exact Record.checkMember_of_read word64 rfl (natural_int hs)

/-- **An event whose numbers fit 64 bits is read back**, with the date that a clock shows. -/
theorem ofJson_toJson {e : Event} (hs : e.sequence < Nat.pow 2 64) (hp : e.position < Nat.pow 2 64) :
    ofJson e.toJson = .ok { e with creationDate := e.creationDate.carried } := by
  refine bind_eq_ok.mpr ⟨_, members_toJson hs hp, ?_⟩
  refine bind_eq_ok.mpr ⟨_, required_of_lookup rfl e.aggregate.ofJson_toJson, ?_⟩
  refine bind_eq_ok.mpr ⟨e.type, rfl, ?_⟩
  refine bind_eq_ok.mpr ⟨_, required_of_lookup rfl (natural_int hs), ?_⟩
  refine bind_eq_ok.mpr ⟨_, required_of_lookup rfl (natural_int hp), ?_⟩
  refine bind_eq_ok.mpr ⟨_, required_of_lookup rfl (instant_render e.creationDate), ?_⟩
  refine bind_eq_ok.mpr ⟨e.editorUser, rfl, ?_⟩
  exact bind_eq_ok.mpr ⟨e.data, rfl, rfl⟩

/-- **What has been read as an event** has numbers that fit 64 bits, and a date with a timestamp of its own. -/
theorem fits_of_ofJson {v : Json} {e : Event} (h : ofJson v = .ok e) :
    e.sequence < Nat.pow 2 64 ∧ e.position < Nat.pow 2 64 ∧ e.creationDate.LeapsLast := by
  obtain ⟨ms, -, h⟩ := bind_eq_ok.mp h
  obtain ⟨aggregate, -, h⟩ := bind_eq_ok.mp h
  obtain ⟨type, -, h⟩ := bind_eq_ok.mp h
  obtain ⟨sequence, hs, h⟩ := bind_eq_ok.mp h
  obtain ⟨position, hp, h⟩ := bind_eq_ok.mp h
  obtain ⟨creationDate, hdate, h⟩ := bind_eq_ok.mp h
  obtain ⟨editorUser, -, h⟩ := bind_eq_ok.mp h
  obtain ⟨data, -, h⟩ := bind_eq_ok.mp h
  obtain ⟨text, htext⟩ := exists_of_required hdate
  cases h
  exact ⟨lt_of_required_word64 hs, lt_of_required_word64 hp, leapsLast_of_instant htext⟩

/-- **What the JSON form of events keeps.**  Whatever its texts, its numbers of 64 bits and its payload, what
is written for an event reads as the event with the date that a clock shows.  So the event itself comes back
exactly if its date reaches beyond a second in no second but the last one of a minute.  What has been read as
an event, its creation date with any offset, gives the same event once it is written and read again. -/
theorem json_faithful :
    (∀ e : Event, e.sequence < Nat.pow 2 64 → e.position < Nat.pow 2 64 →
      ofJson e.toJson = .ok { e with creationDate := e.creationDate.carried } ∧
        (ofJson e.toJson = .ok e ↔ e.creationDate.LeapsLast)) ∧
      ∀ v e, ofJson v = .ok e → ofJson e.toJson = .ok e := by
  have hback {e : Event} (hs : e.sequence < Nat.pow 2 64) (hp : e.position < Nat.pow 2 64) :
      ofJson e.toJson = .ok e ↔ e.creationDate.LeapsLast := by
    rw [ofJson_toJson hs hp, Except.ok.injEq, ← Instant.carried_eq_self_iff]
    exact ⟨congrArg creationDate, fun h => by rw [h]⟩
  refine ⟨fun e hs hp => ⟨ofJson_toJson hs hp, hback hs hp⟩, fun v e h => ?_⟩
  obtain ⟨hs, hp, hdate⟩ := fits_of_ofJson h
  exact (hback hs hp).mpr hdate

/-- An event in a leap second before 1970, with the largest numbers and a payload of its own. -/
def inLeapSecond : Event where
  aggregate := { type := "org", id := "ö", instanceId := "", resourceOwner := "org-1" }
  type := "org.noted"
  sequence := 18446744073709551615
  position := 18446744073709551615
  creationDate := { second := -1, nano := 1000000001 }
  editorUser := ""
  data := .obj [("creation_date", .arr [.null, .int (-1), .str "1969"])]

/-- An event as another program may have written it: its date is in the year 10000 east of universal time, and a
member is none of an event's. -/
def foreignForm : Json :=
  .obj [("aggregate", .arr [.str "org", .str "org-1", .str "", .str ""]),
    ("creation_date", .str "+10000-01-01t00:30:00.25+00:45"), ("data", .null), ("editor_user", .str "u"),
    ("event_type", .str "org.noted"), ("extra", .null), ("position", .int 2), ("sequence", .int 1)]

/-- The two of them, written and read again. -/
theorem json_faithful_leapSecond :
    inLeapSecond.creationDate.render = "1969-12-31T23:59:60.000000001Z" ∧
      inLeapSecond.creationDate.LeapsLast ∧ ofJson inLeapSecond.toJson = .ok inLeapSecond ∧
      ∃ e, ofJson foreignForm = .ok e ∧ e.creationDate.render = "9999-12-31T23:45:00.250Z" ∧
        ofJson e.toJson = .ok e := by
  have hread : ∃ e, ofJson foreignForm = .ok e ∧ e.creationDate.render = "9999-12-31T23:45:00.250Z" :=
    ⟨_, rfl, rfl⟩
  obtain ⟨e, he, hdate⟩ := hread
  have hlast : inLeapSecond.creationDate.LeapsLast := by decide
  exact ⟨rfl, hlast, (json_faithful.1 inLeapSecond (by decide) (by decide)).2.mpr hlast, e, he, hdate,
    json_faithful.2 foreignForm e he⟩

/-- An event at noon of the first day, whose second has gone on for half a second more. -/
def pastNoon : Event where
  aggregate := { type := "org", id := "org-1" }
  type := "org.noted"
  sequence := 1
  position := 1
  creationDate := { second := 43200, nano := 1500000000 }
  editorUser := ""
  data := .null

/-- Its date is written like that of the second after noon, which is what it comes back with. -/
theorem not_json_faithful_pastNoon :
    pastNoon.creationDate.render = "1970-01-01T12:00:01.500Z" ∧
      ofJson pastNoon.toJson =
        .ok { pastNoon with creationDate := { second := 43201, nano := 500000000 } } ∧
      ofJson pastNoon.toJson ≠ .ok pastNoon := by
  have hread : ofJson pastNoon.toJson =
      .ok { pastNoon with creationDate := { second := 43201, nano := 500000000 } } := rfl
  refine ⟨rfl, hread, fun h => ?_⟩
  have hdate : (43201 : Int) = 43200 :=
    congrArg (fun e => e.creationDate.second) (Except.ok.inj (hread.symm.trans h))
  exact absurd hdate (by decide)

end Event

end EventSourcing
