/-!
# Located texts

What is wrong with a document is often said together with the place, as in
`no such key at line 3 column 7`.  A `Located` text keeps the two apart: `Located.ofText` takes the place
off the end of a text, and `Located.toText` writes it back with numbers in their plain form.  Lines
count from one, so a place in line zero is no place and goes unsaid.
-/

namespace EventSourcing.Text

/-- A position in a document. -/
structure Place where
  line : Nat
  column : Nat
deriving DecidableEq, Repr

/-- A text and the place it speaks of, if it names one. -/
structure Located where
  text : String
  place : Option Place := none
deriving DecidableEq, Repr

namespace Located

/-- What follows a word at the head of a text. -/
def after? (word : List Char) (cs : List Char) : Option (List Char) :=
  if word.isPrefixOf cs then some (cs.drop word.length) else none

/-- A number of one digit or more that fits 64 bits. -/
def number? (cs : List Char) : Option Nat :=
  let n := cs.foldl (fun n c => n * 10 + (c.toNat - '0'.toNat)) 0
  if !cs.isEmpty && cs.all Char.isDigit && n < UInt64.size then some n else none

/-- Reads a text that is a line number, the word `column` and a column number. -/
def place? (cs : List Char) : Option Place := do
  let line ← number? (cs.takeWhile Char.isDigit)
  let rest ← after? " column ".toList (cs.dropWhile Char.isDigit)
  return ⟨line, ← number? rest⟩

/-- A text without the place at its end, and that place.  At most one of its tails is a place, because
no place holds another. -/
def split : List Char → List Char × Option Place
  | [] => ([], none)
  | c :: cs =>
    match (after? " at line ".toList (c :: cs)).bind place? with
    | some p => ([], some p)
    | none => let (text, p) := split cs; (c :: text, p)

/-- Takes the place at the end of a text apart from the rest.  A place in line 0 is dropped. -/
def ofText (s : String) : Located :=
  let (text, place) := split s.toList
  { text := String.ofList text, place := place.filter fun p => p.line ≠ 0 }

/-- The text with its place written at its end. -/
def toText (l : Located) : String :=
  match l.place with
  | none => l.text
  | some p => l.text ++ " at line " ++ toString p.line ++ " column " ++ toString p.column

end Located

end EventSourcing.Text
