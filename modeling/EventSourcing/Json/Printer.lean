import EventSourcing.Json.Basic
import EventSourcing.Number.Shortest

/-!
# Writing JSON text

`Json.render` writes a value without blanks, its floats in their shortest form.
-/

namespace EventSourcing.Json

/-- Quotes, backslashes and control characters are escaped; all else stands as it is. -/
def escapeChar (c : Char) : String :=
  if c = '"' then "\\\""
  else if c = '\\' then "\\\\"
  else if c.toNat < 0x20 then
    "\\u00" ++ (Nat.digitChar (c.toNat / 16)).toString ++ (Nat.digitChar (c.toNat % 16)).toString
  else c.toString

/-- A text between double quotes, escaped as JSON has it. -/
def quote (s : String) : String :=
  s.foldl (fun acc c => acc ++ escapeChar c) "\"" ++ "\""

mutual

/-- Appends the text of a value. -/
def write (acc : String) : Json → String
  | null => acc ++ "null"
  | bool b => acc ++ (if b then "true" else "false")
  | int n => acc ++ toString n
  | float x => acc ++ x.text
  | str s => acc ++ quote s
  | arr xs => writeElements (acc ++ "[") true xs ++ "]"
  | obj ms => writeMembers (acc ++ "\x7b") true ms ++ "\x7d"

/-- Appends the elements of an array, with commas between them. -/
def writeElements (acc : String) (first : Bool) : List Json → String
  | [] => acc
  | x :: xs => writeElements (write (if first then acc else acc ++ ",") x) false xs

/-- Appends the members of an object, with commas between them. -/
def writeMembers (acc : String) (first : Bool) : List (String × Json) → String
  | [] => acc
  | (key, x) :: ms =>
    writeMembers (write ((if first then acc else acc ++ ",") ++ quote key ++ ":") x) false ms

end

/-- The text of a value. -/
def render (v : Json) : String :=
  write "" v

end EventSourcing.Json
