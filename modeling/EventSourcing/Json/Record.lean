import EventSourcing.Json.Basic
import EventSourcing.Number.Shortest
import EventSourcing.Text.Quoted
import EventSourcing.Instant.Timestamp

/-!
# Records read from JSON

A record is written as an object.  It is read from an object, whose unknown members are passed over,
or from an array that holds its fields in their order.  Of several faults the one reported is the
first member of an object, in the order of the keys, that does not read; where all members read, the
first field that is missing.

A `Record` lists the fields with what each has to look like; `Record.members` runs these tests and
gives the members by name, so that the fields can be taken out one by one with `required` and
`optional`.
-/

namespace EventSourcing

/-- Why a JSON value does not have the expected shape. -/
inductive ShapeError where
  /-- A field is missing. -/
  | missing (field : String)
  /-- A value is of another kind than expected. -/
  | wrongKind (found : Json) (expected : String)
  /-- An integer does not fit the expected type. -/
  | outOfRange (n : Int) (expected : String)
  /-- An array holds fewer elements than the record has fields. -/
  | tooFew (count : Nat) (record : String) (fields : Nat)
  /-- An array holds more elements than the record has fields. -/
  | tooMany (count : Nat)
  /-- A text is not a timestamp. -/
  | timestamp (e : TimestampError)
deriving DecidableEq

namespace ShapeError

/-- A value as error texts name it. -/
def describe : Json → String
  | .null => "null"
  | .bool b => "boolean `" ++ (if b then "true" else "false") ++ "`"
  | .int n => "integer `" ++ toString n ++ "`"
  | .float x => "floating point `" ++ x.text ++ "`"
  | .str s => "string " ++ Text.quoted s
  | .arr _ => "sequence"
  | .obj _ => "map"

/-- What a user is told: what was found and what was expected. -/
def message : ShapeError → String
  | missing field => "missing field `" ++ field ++ "`"
  | wrongKind found expected => "invalid type: " ++ describe found ++ ", expected " ++ expected
  | outOfRange n expected => "invalid value: integer `" ++ toString n ++ "`, expected " ++ expected
  | tooFew count record fields =>
    "invalid length " ++ toString count ++ ", expected struct " ++ record ++ " with " ++
      toString fields ++ (if fields = 1 then " element" else " elements")
  | tooMany count => "invalid length " ++ toString count ++ ", expected fewer elements in array"
  | timestamp e => e.message

end ShapeError

namespace Json

/-! ### Single values -/

/-- A text. -/
def text : Json → Except ShapeError String
  | str s => .ok s
  | v => .error (.wrongKind v "a string")

/-- A natural number below `2 ^ bits`. -/
def natural (bits : Nat) (type : String) : Json → Except ShapeError Nat
  | int n => if 0 ≤ n ∧ n < Nat.pow 2 bits then .ok n.toNat else .error (.outOfRange n type)
  | v => .error (.wrongKind v type)

/-- A natural number of 8 bits. -/
def word8 : Json → Except ShapeError Nat := natural 8 "u8"

/-- A natural number of 64 bits. -/
def word64 : Json → Except ShapeError Nat := natural 64 "u64"

/-- An instant, written as a timestamp. -/
def instant : Json → Except ShapeError Instant
  | str s => (Instant.parse s).mapError .timestamp
  | v => .error (.wrongKind v "an RFC 3339 formatted date and time string")

/-- A list, all of whose elements have to read. -/
def listOf {α : Type} (read : Json → Except ShapeError α) : Json → Except ShapeError (List α)
  | arr xs => xs.mapM read
  | v => .error (.wrongKind v "a sequence")

/-- A value, or nothing in place of `null`. -/
def nullable {α : Type} (read : Json → Except ShapeError α) : Json → Except ShapeError (Option α)
  | null => .ok none
  | v => (read v).map some

/-! ### Records -/

/-- What a field has to look like. -/
structure Field where
  name : String
  check : Json → Except ShapeError Unit

/-- A field that `read` accepts. -/
def Field.of {α : Type} (name : String) (read : Json → Except ShapeError α) : Field where
  name := name
  check v := (read v).map fun _ => ()

/-- The name of a record and its fields in their order. -/
structure Record where
  name : String
  fields : List Field

namespace Record

/-- Tests one member of an object; members that are no fields pass. -/
def checkMember (r : Record) (member : String × Json) : Except ShapeError Unit :=
  match r.fields.find? (·.name = member.1) with
  | some f => f.check member.2
  | none => .ok ()

/-- The members of a record by name, each tested. -/
def members (r : Record) : Json → Except ShapeError (List (String × Json))
  | obj ms => do
    ms.forM r.checkMember
    .ok ms
  | arr xs => do
    (r.fields.zip xs).forM fun (f, v) => f.check v
    if xs.length < r.fields.length then .error (.tooFew xs.length r.name r.fields.length)
    else if r.fields.length < xs.length then .error (.tooMany xs.length)
    else .ok ((r.fields.map Field.name).zip xs)
  | v => .error (.wrongKind v ("struct " ++ r.name))

end Record

/-- A field that has to be there. -/
def required {α : Type} (read : Json → Except ShapeError α) (ms : List (String × Json))
    (name : String) : Except ShapeError α :=
  match ms.lookup name with
  | some v => read v
  | none => .error (.missing name)

/-- A field that may be missing or `null`. -/
def optional {α : Type} (read : Json → Except ShapeError α) (ms : List (String × Json))
    (name : String) : Except ShapeError (Option α) :=
  match ms.lookup name with
  | some v => nullable read v
  | none => .ok none

/-- Absent values are written as `null`. -/
def ofOption {α : Type} (write : α → Json) : Option α → Json
  | some a => write a
  | none => null

end Json

end EventSourcing
