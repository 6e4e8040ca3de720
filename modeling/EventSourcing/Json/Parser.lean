import EventSourcing.Json.Basic

/-!
# Reading JSON text

`Json.parse?` reads one JSON value that fills its text, blanks around it apart.  Containers nest at
most 127 deep.  A numeral without fraction and exponent is an integer as long as it fits 64 bits,
signed or unsigned; every other numeral, `-0` among them, is a float, and one that is too large to be
finite is refused.  Escaped surrogates have to come in pairs.

An object can stand for another value by carrying its text: where the first key of an object is
`embeddedKey`, the object must have no other member, and it reads as the value written in the string
under that key.
-/

namespace EventSourcing.Json

/-- What follows the blanks that may stand between tokens. -/
def skipBlanks (cs : List Char) : List Char :=
  cs.dropWhile fun c => c = ' ' || c = '\n' || c = '\t' || c = '\r'

/-! ### Strings -/

/-- The value of a hexadecimal digit in either case. -/
def hexDigit? (c : Char) : Option Nat :=
  if c.isDigit then some (c.toNat - '0'.toNat)
  else if 'a' ≤ c ∧ c ≤ 'f' then some (c.toNat - 'a'.toNat + 10)
  else if 'A' ≤ c ∧ c ≤ 'F' then some (c.toNat - 'A'.toNat + 10)
  else none

/-- The code unit that four hexadecimal digits write. -/
def codeUnit? (a b c d : Char) : Option Nat := do
  return (((← hexDigit? a) * 16 + (← hexDigit? b)) * 16 + (← hexDigit? c)) * 16 + (← hexDigit? d)

/-- The character that another one stands for after a backslash. -/
def simpleEscape? : Char → Option Char
  | '"' => some '"'
  | '\\' => some '\\'
  | '/' => some '/'
  | 'b' => some '\x08'
  | 'f' => some '\x0c'
  | 'n' => some '\n'
  | 'r' => some '\r'
  | 't' => some '\t'
  | _ => none

/-- The characters of a string up to its closing quote, and what follows it. -/
def stringRest : List Char → Option (List Char × List Char)
  | [] => none
  | '"' :: rest => some ([], rest)
  | '\\' :: 'u' :: a :: b :: c :: d :: rest => do
    let unit ← codeUnit? a b c d
    if 0xD800 ≤ unit ∧ unit < 0xDC00 then
      match rest with
      | '\\' :: 'u' :: e :: f :: g :: h :: rest =>
        let low ← codeUnit? e f g h
        if 0xDC00 ≤ low ∧ low < 0xE000 then
          let (cs, rest) ← stringRest rest
          some (Char.ofNat (0x10000 + (unit - 0xD800) * 0x400 + (low - 0xDC00)) :: cs, rest)
        else none
      | _ => none
    else if 0xDC00 ≤ unit ∧ unit < 0xE000 then none
    else
      let (cs, rest) ← stringRest rest
      some (Char.ofNat unit :: cs, rest)
  | '\\' :: c :: rest => do
    let c ← simpleEscape? c
    let (cs, rest) ← stringRest rest
    some (c :: cs, rest)
  | c :: rest =>
    if c.toNat < 0x20 || c = '\\' then none
    else do
      let (cs, rest) ← stringRest rest
      some (c :: cs, rest)

/-! ### Numerals -/

/-- The digits at the head of a text by their values, and what follows them. -/
def digits (cs : List Char) : List Nat × List Char :=
  ((cs.takeWhile Char.isDigit).map fun c => c.toNat - '0'.toNat, cs.dropWhile Char.isDigit)

/-- The number that these decimal digits write. -/
def ofDecimalDigits (ds : List Nat) : Nat :=
  ds.foldl (fun n d => n * 10 + d) 0

/-- The digits after a point; `none` where there is no point. -/
def fraction? : List Char → Option (Option (List Nat) × List Char)
  | '.' :: rest =>
    match digits rest with
    | ([], _) => none
    | (ds, rest) => some (some ds, rest)
  | rest => some (none, rest)

/-- The digits of an exponent, of which there has to be one. -/
def exponentDigits? (cs : List Char) : Option (Nat × List Char) :=
  match digits cs with
  | ([], _) => none
  | (ds, rest) => some (ofDecimalDigits ds, rest)

/-- The exponent after an `e`; `none` where there is no exponent. -/
def exponent? : List Char → Option (Option Int × List Char)
  | c :: rest =>
    if c = 'e' || c = 'E' then
      match rest with
      | '+' :: rest => (exponentDigits? rest).map fun (n, rest) => (some (n : Int), rest)
      | '-' :: rest => (exponentDigits? rest).map fun (n, rest) => (some (-n : Int), rest)
      | rest => (exponentDigits? rest).map fun (n, rest) => (some (n : Int), rest)
    else some (none, c :: rest)
  | [] => some (none, [])

/-- A numeral without point and exponent: an integer where it fits, a float otherwise. -/
def ofWhole? (negative : Bool) (whole : List Nat) : Option Json :=
  let n := ofDecimalDigits whole
  let asFloat := (Binary64.ofDecimal? negative (Decimal.ofDigits whole [] 0)).map float
  if negative then
    if 0 < n ∧ n ≤ Nat.pow 2 63 then some (int (-n)) else asFloat
  else if n < UInt64.size then some (int n) else asFloat

/-- A numeral after its sign.  No digit follows a leading zero.  Without a fraction and an exponent it is a
whole number. -/
def unsignedNumeral? (negative : Bool) (cs : List Char) : Option (Json × List Char) := do
  let (whole, rest) := digits cs
  if whole.isEmpty || (whole.head? = some 0 && 1 < whole.length) then none
  let (fraction, rest) ← fraction? rest
  let (exponent, rest) ← exponent? rest
  match fraction, exponent with
  | none, none => return (← ofWhole? negative whole, rest)
  | _, _ =>
    let d := Decimal.ofDigits whole (fraction.getD []) (exponent.getD 0)
    return (float (← Binary64.ofDecimal? negative d), rest)

/-- A numeral with or without a minus. -/
def numeral? : List Char → Option (Json × List Char)
  | '-' :: cs => unsignedNumeral? true cs
  | cs => unsignedNumeral? false cs

/-! ### Values -/

/-- How deep containers may nest. -/
def maxDepth : Nat := 127

/-- The key of an object that carries the text of another value. -/
def embeddedKey : String :=
  "$serde_json::private::RawValue"

/-- What stands between the braces of an object. -/
inductive Contents where
  | members (ms : List (String × Json))
  /-- The text of another value. -/
  | embedded (text : String)

/-- Tells members from an embedded text; `none` where an object starts like the one and goes on like the
other. -/
def contents? : List (String × Json) → Option Contents
  | (key, v) :: ms =>
    if key = embeddedKey then
      match v, ms with
      | .str text, [] => some (.embedded text)
      | _, _ => none
    else some (.members ((key, v) :: ms))
  | [] => some (.members [])

mutual

/-- One value at the head of the text, and what follows it.  The fuel bounds the number of calls. -/
def value? (fuel depth : Nat) (cs : List Char) : Option (Json × List Char) :=
  match fuel with
  | 0 => none
  | fuel + 1 =>
    match skipBlanks cs with
    | 'n' :: 'u' :: 'l' :: 'l' :: rest => some (null, rest)
    | 't' :: 'r' :: 'u' :: 'e' :: rest => some (bool true, rest)
    | 'f' :: 'a' :: 'l' :: 's' :: 'e' :: rest => some (bool false, rest)
    | '"' :: rest => (stringRest rest).map fun (s, rest) => (str (String.ofList s), rest)
    | '[' :: rest =>
      if depth = 0 then none
      else
        match skipBlanks rest with
        | ']' :: rest => some (arr [], rest)
        | rest => (elements? fuel (depth - 1) rest).map fun (xs, rest) => (arr xs, rest)
    | '{' :: rest =>
      if depth = 0 then none
      else
        match skipBlanks rest with
        | '}' :: rest => some (obj [], rest)
        | rest => do
          let (ms, rest) ← members? fuel (depth - 1) rest
          match ← contents? ms with
          | .members ms => some (object ms, rest)
          | .embedded text =>
            let (v, tail) ← value? fuel maxDepth text.toList
            if (skipBlanks tail).isEmpty then some (v, rest) else none
    | rest => numeral? rest

/-- The elements of an array that is not empty, up to its bracket. -/
def elements? (fuel depth : Nat) (cs : List Char) : Option (List Json × List Char) :=
  match fuel with
  | 0 => none
  | fuel + 1 => do
    let (x, rest) ← value? fuel depth cs
    match skipBlanks rest with
    | ',' :: rest =>
      let (xs, rest) ← elements? fuel depth rest
      some (x :: xs, rest)
    | ']' :: rest => some ([x], rest)
    | _ => none

/-- The members of an object that is not empty, up to its brace. -/
def members? (fuel depth : Nat) (cs : List Char) : Option (List (String × Json) × List Char) :=
  match fuel with
  | 0 => none
  | fuel + 1 =>
    match skipBlanks cs with
    | '"' :: rest => do
      let (key, rest) ← stringRest rest
      match skipBlanks rest with
      | ':' :: rest =>
        let (x, rest) ← value? fuel depth rest
        match skipBlanks rest with
        | ',' :: rest =>
          let (ms, rest) ← members? fuel depth rest
          some ((String.ofList key, x) :: ms, rest)
        | '}' :: rest => some ([(String.ofList key, x)], rest)
        | _ => none
      | _ => none
    | _ => none

end

/-- The value that fills the text.  Every two calls consume a character, and an embedded text is shorter
than what writes it, which bounds the fuel. -/
def parse? (text : String) : Option Json :=
  let cs := text.toList
  match value? (2 * cs.length + 2) maxDepth cs with
  | some (v, rest) => if (skipBlanks rest).isEmpty then some v else none
  | none => none

end EventSourcing.Json
