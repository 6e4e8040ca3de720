import EventSourcing.Number.Binary64

/-!
# Shortest decimal text of a double

`Binary64.shortest` finds the decimal with the fewest digits among those that read back to the
number, and of those the nearest one.  The decimals that read back form an interval around the
number, so on each grid of decimals only the two neighbours of the number have to be tried.  All
tests compare natural numbers.

`Binary64.text` lays the digits out: positionally from `0.00001` up to below `10 ^ 16`, always with
a point, and otherwise with a signed exponent.
-/

namespace EventSourcing.Binary64

/-- A positive number with the ends of the interval of decimals that read back to it, all three as
multiples of one power of two. -/
structure Rounding where
  low : Nat
  mid : Nat
  high : Nat
  /-- The power of two. -/
  scale : Int
  /-- Whether the ends themselves read back. -/
  closed : Bool

/-- Half a gap on either side; below a power of two the gap is half as wide. -/
def rounding (x : Binary64) : Rounding :=
  let m := x.significand
  let narrow := x.fraction = 0 ∧ 1 < x.exponentField
  { low := 4 * m - (if narrow then 1 else 2)
    mid := 4 * m
    high := 4 * m + 2
    scale := x.scale - 2
    closed := m % 2 = 0 }

namespace Rounding

/-- What to multiply a bound by before comparing it with a multiple of `10 ^ k`. -/
def boundFactor (r : Rounding) (k : Int) : Nat :=
  Nat.pow 2 r.scale.toNat * Nat.pow 10 (-k).toNat

/-- What to multiply a multiple of `10 ^ k` by before comparing it with a bound. -/
def gridFactor (r : Rounding) (k : Int) : Nat :=
  Nat.pow 10 k.toNat * Nat.pow 2 (-r.scale).toNat

/-- Whether `d · 10 ^ k` reads back. -/
def contains (r : Rounding) (d : Nat) (k : Int) : Bool :=
  let b := r.boundFactor k
  let g := d * r.gridFactor k
  if r.closed then r.low * b ≤ g ∧ g ≤ r.high * b else r.low * b < g ∧ g < r.high * b

/-- The nearest multiple of `10 ^ k` that reads back, if there is one. -/
def onGrid? (r : Rounding) (k : Int) : Option Nat :=
  let v := r.mid * r.boundFactor k
  let g := r.gridFactor k
  let d := v / g
  match r.contains d k, r.contains (d + 1) k with
  | true, true =>
    if 2 * v < (2 * d + 1) * g then some d
    else if (2 * d + 1) * g < 2 * v then some (d + 1)
    else some (if d % 2 = 0 then d else d + 1)
  | true, false => some d
  | false, true => some (d + 1)
  | false, false => none

/-- The least `n` with the number below `10 ^ n`. -/
def magnitude (r : Rounding) : Int :=
  let shift := 400
  let n := r.mid * r.boundFactor (-shift) / r.gridFactor (-shift)
  (toString n).length - shift

end Rounding

/-- Moves trailing zeros of the digits into the exponent. -/
def trimZeros : Nat → Decimal → Decimal
  | 0, d => d
  | n + 1, d =>
    if d.significand % 10 = 0 then trimZeros n ⟨d.significand / 10, d.exponent + 1⟩ else d

/-- The decimal with the fewest digits that reads back to the magnitude of a number other than zero.
Seventeen digits always suffice. -/
def shortest (x : Binary64) : Decimal :=
  let r := x.rounding
  let top := r.magnitude
  let found := (List.range 17).findSome? fun (n : Nat) =>
    (r.onGrid? (top - (n + 1))).map fun d => Decimal.mk d (top - (n + 1))
  trimZeros 20 (found.getD ⟨0, 0⟩)

/-- The digits of a decimal, positionally if its magnitude allows it. -/
def layOut (d : Decimal) : String :=
  let digits := toString d.significand
  let point : Int := digits.length + d.exponent
  let zeros (n : Int) := String.ofList (List.replicate n.toNat '0')
  if -5 < point ∧ point ≤ 16 then
    if 0 ≤ d.exponent then digits ++ zeros d.exponent ++ ".0"
    else if 0 < point then
      String.ofList (digits.toList.take point.toNat) ++ "." ++
        String.ofList (digits.toList.drop point.toNat)
    else "0." ++ zeros (-point) ++ digits
  else
    let mantissa :=
      match digits.toList with
      | [] => "0"
      | [c] => c.toString
      | c :: rest => c.toString ++ "." ++ String.ofList rest
    let exponent := point - 1
    mantissa ++ (if exponent < 0 then "e-" else "e+") ++ toString exponent.natAbs

/-- The shortest text that reads back to the number. -/
def text (x : Binary64) : String :=
  (if x.isNegative then "-" else "") ++ (if x.isZero then "0.0" else layOut x.shortest)

end EventSourcing.Binary64
