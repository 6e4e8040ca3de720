import EventSourcing.Instant.Basic

/-!
# Timestamps

The text form of instants in the manner of RFC 3339.  `Instant.render` writes universal time with
the fewest of 0, 3, 6 or 9 digits after the second that lose nothing; a leap second is second 60,
and a year that does not have four digits carries a sign.

`Instant.parse` is more liberal: blanks may stand before every part of the date and the time, a `T`,
`t` or a space parts date from time, the year may carry a sign and then have any number of digits,
and the time ends in an offset, which is taken off.  Each field is checked as it is read; whether the
date exists and lies within range is checked once the text has been read to its end.
-/

namespace EventSourcing

namespace Text

/-- The 25 characters with the property White_Space. -/
def isBlank (c : Char) : Bool :=
  let n := c.toNat
  (0x09 ≤ n && n ≤ 0x0D) || n = 0x20 || n = 0x85 || n = 0xA0 || n = 0x1680 ||
    (0x2000 ≤ n && n ≤ 0x200A) || n = 0x2028 || n = 0x2029 || n = 0x202F || n = 0x205F || n = 0x3000

/-- What follows the blanks at the head of a text. -/
def skipBlanks (cs : List Char) : List Char :=
  cs.dropWhile isBlank

end Text

/-- Why a text is not a timestamp. -/
inductive TimestampError where
  /-- A field or the whole lies outside its range. -/
  | outOfRange
  /-- The offset moves the instant out of the years that there are. -/
  | impossible
  /-- A character does not belong where it stands. -/
  | invalid
  /-- The text ends too early. -/
  | tooShort
  /-- The text goes on after its end. -/
  | tooLong
deriving DecidableEq, Repr

/-- What a user is told. -/
def TimestampError.message : TimestampError → String
  | .outOfRange => "input is out of range"
  | .impossible => "no possible date and time matching input"
  | .invalid => "input contains invalid characters"
  | .tooShort => "premature end of input"
  | .tooLong => "trailing input"

namespace Timestamp

/-! ### Writing -/

/-- The decimal digits of a number, in at least `width` places. -/
def padded (width n : Nat) : List Char :=
  let ds := Nat.toDigits 10 n
  List.replicate (width - ds.length) '0' ++ ds

/-- A year in four digits, or with a sign where these do not tell it. -/
def writeYear (year : Int) : List Char :=
  if 0 ≤ year ∧ year ≤ 9999 then padded 4 year.toNat
  else (if year < 0 then '-' else '+') :: padded 4 year.natAbs

/-- A date in its three parts. -/
def writeDate (d : Date) : List Char :=
  writeYear d.year ++ '-' :: padded 2 d.month ++ '-' :: padded 2 d.day

/-- The digits after the second, a point before them. -/
def writeFraction (nano : Nat) : List Char :=
  if nano = 0 then []
  else if nano % 1000000 = 0 then '.' :: padded 3 (nano / 1000000)
  else if nano % 1000 = 0 then '.' :: padded 6 (nano / 1000)
  else '.' :: padded 9 nano

/-- The time of a second of the day and the nanoseconds past it. -/
def writeTime (secondOfDay nano : Nat) : List Char :=
  let leap := nano / 1000000000
  padded 2 (secondOfDay / 3600) ++ ':' :: padded 2 (secondOfDay / 60 % 60) ++
    ':' :: padded 2 (secondOfDay % 60 + leap) ++ writeFraction (nano % 1000000000)

/-- An instant as a date and a time of day, in universal time. -/
def write (t : Instant) : List Char :=
  writeDate (Date.ofDays (t.second / 86400)) ++
    'T' :: writeTime (t.second % 86400).toNat t.nano ++ ['Z']

/-! ### Reading -/

/-- What follows a character that has to stand here. -/
def expect (c : Char) : List Char → Except TimestampError (List Char)
  | [] => .error .tooShort
  | d :: rest => if d = c then .ok rest else .error .invalid

/-- The number that digits write. -/
def value (ds : List Char) : Nat :=
  ds.foldl (fun n c => n * 10 + (c.toNat - '0'.toNat)) 0

/-- At least one digit at the head of a text, at most `width` of them. -/
def readDigits (width : Nat) (cs : List Char) : Except TimestampError ((List Char) × List Char) :=
  let ds := (cs.take width).takeWhile Char.isDigit
  match cs, ds with
  | [], _ => .error .tooShort
  | _, [] => .error .invalid
  | cs, ds => .ok (ds, cs.drop ds.length)

/-- A number of at most two digits that has to lie between two bounds, after any blanks. -/
def readField (low high : Nat) (cs : List Char) : Except TimestampError (Nat × List Char) := do
  let (ds, rest) ← readDigits 2 (Text.skipBlanks cs)
  if low ≤ value ds ∧ value ds ≤ high then .ok (value ds, rest) else .error .outOfRange

/-- A year of at most four digits, or with a sign and any number of digits. -/
def readYear (cs : List Char) : Except TimestampError (Int × List Char) :=
  let signed (negative : Bool) (rest : List Char) : Except TimestampError (Int × List Char) := do
    let (ds, rest) ← readDigits rest.length rest
    let year : Int := if negative then -(value ds : Int) else value ds
    if -2147483648 ≤ year ∧ year ≤ 2147483647 then .ok (year, rest) else .error .outOfRange
  match Text.skipBlanks cs with
  | '-' :: rest => signed true rest
  | '+' :: rest => signed false rest
  | cs => do
    let (ds, rest) ← readDigits 4 cs
    .ok ((value ds : Int), rest)

/-- Year, month and day, each within its bounds.  Whether the month has the day is left open. -/
def readDate (cs : List Char) : Except TimestampError (Date × List Char) := do
  let (year, cs) ← readYear cs
  let cs ← expect '-' (Text.skipBlanks cs)
  let (month, cs) ← readField 1 12 cs
  let cs ← expect '-' (Text.skipBlanks cs)
  let (day, cs) ← readField 1 31 cs
  .ok (⟨year, month, day⟩, cs)

/-- What follows the character between date and time. -/
def readSeparator : List Char → Except TimestampError (List Char)
  | [] => .error .tooShort
  | c :: rest => if c = 'T' ∨ c = 't' ∨ c = ' ' then .ok rest else .error .invalid

/-- Nanoseconds after a point, or none; digits beyond the ninth are passed over. -/
def readFraction : List Char → Except TimestampError (Nat × List Char)
  | '.' :: cs => do
    let (ds, rest) ← readDigits 9 cs
    .ok (value ds * Nat.pow 10 (9 - ds.length), rest.dropWhile Char.isDigit)
  | cs => .ok (0, cs)

/-- The second of the day and the nanoseconds past it. -/
def readTime (cs : List Char) : Except TimestampError ((Nat × Nat) × List Char) := do
  let (hour, cs) ← readField 0 23 cs
  let cs ← expect ':' (Text.skipBlanks cs)
  let (minute, cs) ← readField 0 59 cs
  let cs ← expect ':' (Text.skipBlanks cs)
  let (second, cs) ← readField 0 60 cs
  let (nano, cs) ← readFraction cs
  -- second 60 is second 59 gone on for another thousand million nanoseconds
  let leap := second / 60
  .ok ((hour * 3600 + minute * 60 + (second - leap), nano + leap * 1000000000), cs)

/-- Two characters, of which a lone one of several bytes takes the place. -/
def readPair : List Char → Except TimestampError ((Char × Char) × List Char)
  | a :: b :: rest => .ok ((a, b), rest)
  | [a] => .error (if 1 < a.utf8Size then .invalid else .tooShort)
  | [] => .error .tooShort

/-- Whether an offset is negative: it begins with a plus, a hyphen or a minus sign. -/
def readSign : List Char → Except TimestampError (Bool × List Char)
  | '+' :: rest => .ok (false, rest)
  | '-' :: rest => .ok (true, rest)
  | '\u2212' :: rest => .ok (true, rest)
  | [] => .error .tooShort
  | _ => .error .invalid

/-- A signed offset: two digits of hours and two of minutes, with colons and blanks between them. -/
def readOffset (cs : List Char) : Except TimestampError (Int × List Char) := do
  let (negative, cs) ← readSign cs
  let ((a, b), cs) ← readPair cs
  if !(a.isDigit && b.isDigit) then .error .invalid
  let hours := value [a, b]
  let cs := cs.dropWhile fun c => c = ':' || Text.isBlank c
  let ((a, b), cs) ← readPair cs
  if !(a.isDigit && b.isDigit) then .error .invalid
  let minutes := value [a, b]
  if 59 < minutes then .error .outOfRange
  let seconds : Int := hours * 3600 + minutes * 60
  .ok (if negative then -seconds else seconds, cs)

/-- The zone at the end of a time, in seconds east of universal time. -/
def readZone (cs : List Char) : Except TimestampError (Int × List Char) :=
  match Text.skipBlanks cs with
  | 'Z' :: rest => .ok (0, rest)
  | 'z' :: rest => .ok (0, rest)
  | u :: t :: c :: rest =>
    if u.toUpper = 'U' ∧ t.toUpper = 'T' ∧ c.toUpper = 'C' then .ok (0, rest)
    else readOffset (u :: t :: c :: rest)
  | cs => readOffset cs

/-- Whether a year is one of those that instants lie in. -/
def yearInRange (year : Int) : Bool :=
  -262143 ≤ year ∧ year ≤ 262142

/-- A timestamp, read to its end. -/
def read (cs : List Char) : Except TimestampError Instant := do
  let (date, cs) ← readDate cs
  let cs ← readSeparator cs
  let ((second, nano), cs) ← readTime cs
  let (offset, cs) ← readZone cs
  if !(Text.skipBlanks cs).isEmpty then .error .tooLong
  if !(yearInRange date.year && decide date.IsValid) then .error .outOfRange
  if 86400 ≤ offset.natAbs then .error .outOfRange
  match Instant.ofUnix? (date.toDays * 86400 + second - offset) nano with
  | some t => .ok t
  | none => .error .impossible

end Timestamp

namespace Instant

/-- The timestamp of an instant. -/
def render (t : Instant) : String :=
  String.ofList (Timestamp.write t)

/-- The instant that a timestamp stands for. -/
def parse (s : String) : Except TimestampError Instant :=
  Timestamp.read s.toList

instance : ToString Instant := ⟨render⟩

end Instant

end EventSourcing
