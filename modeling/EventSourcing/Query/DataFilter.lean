import EventSourcing.Json.Basic

/-!
# Payload filters

A payload filter demands values for some of the top-level keys of a payload.  A filter that demands
nothing accepts every payload; any other accepts only objects that hold each key with an equal value.
-/

namespace EventSourcing

/-- Values demanded of the top-level keys of a payload. -/
structure DataFilter where
  fields : Dictionary Json := ∅
deriving DecidableEq, Inhabited

namespace DataFilter

/-- Demands a value for a key, in place of any demanded before. -/
def field (f : DataFilter) (key : String) (value : Json) : DataFilter where
  fields := f.fields.insert key value

/-- The filter that demands all these values; of two for one key the later one counts. -/
def ofList (l : List (String × Json)) : DataFilter where
  fields := .ofList l

/-- The demanded values in the order of their keys. -/
def toList (f : DataFilter) : List (String × Json) :=
  f.fields.entries

/-- Whether the filter demands nothing. -/
def isEmpty (f : DataFilter) : Bool :=
  f.fields.isEmpty

/-- Whether a payload holds every key with an equal value. -/
def accepts (f : DataFilter) (payload : Json) : Bool :=
  f.isEmpty ||
    match payload with
    | .obj members => f.toList.all fun (key, expected) =>
      match members.lookup key with
      | some found => found.same expected
      | none => false
    | _ => false

end DataFilter

end EventSourcing
