/-!
# Double-precision numbers

A `Binary64` is a finite double-precision number, kept as its 64 bits so that equality of bits and
equality of numbers stay two different things.  `Binary64.same` is the second one: it differs from
the first only in that the two zeros agree.

A decimal numeral is read in two steps.  `Decimal.ofDigits` keeps the longest leading run of digits
that fits a 64-bit word and counts the rest into the exponent; `Binary64.ofDecimal?` scales that
word by a power of ten in double arithmetic.
-/

namespace EventSourcing

/-- A finite double-precision number by its bits: sign, eleven bits of exponent, 52 of fraction. -/
structure Binary64 where
  bits : UInt64
deriving DecidableEq, Repr

namespace Binary64

/-- Whether the sign bit is set, as it may be of a zero too. -/
def isNegative (x : Binary64) : Bool :=
  Nat.pow 2 63 ≤ x.bits.toNat

/-- The eleven bits after the sign. -/
def exponentField (x : Binary64) : Nat :=
  x.bits.toNat / Nat.pow 2 52 % Nat.pow 2 11

/-- The 52 bits after the exponent. -/
def fraction (x : Binary64) : Nat :=
  x.bits.toNat % Nat.pow 2 52

/-- Zero of either sign. -/
def isZero (x : Binary64) : Bool :=
  x.bits.toNat % Nat.pow 2 63 = 0

/-- The integer `m` of the magnitude `m · 2 ^ q`. -/
def significand (x : Binary64) : Nat :=
  if x.exponentField = 0 then x.fraction else x.fraction + Nat.pow 2 52

/-- The exponent `q` of the magnitude `m · 2 ^ q`. -/
def scale (x : Binary64) : Int :=
  (max x.exponentField 1 : Nat) - 1075

/-- Numeric equality of finite numbers: equal bits, or two zeros. -/
def same (x y : Binary64) : Bool :=
  x = y || (x.isZero && y.isZero)

/-- The bits of a float. -/
def ofFloat (f : Float) : Binary64 :=
  ⟨f.toBits⟩

end Binary64

/-- The number `significand · 10 ^ exponent`. -/
structure Decimal where
  significand : Nat
  exponent : Int
deriving DecidableEq, Repr

namespace Decimal

/-- Appends a digit, unless the result no longer fits 64 bits. -/
def absorb? (n d : Nat) : Option Nat :=
  if n * 10 + d < UInt64.size then some (n * 10 + d) else none

/-- The digits before the point, and how many of them did not fit. -/
def whole (n : Nat) : List Nat → Nat × Nat
  | [] => (n, 0)
  | d :: ds =>
    match absorb? n d with
    | some m => whole m ds
    | none => (n, ds.length + 1)

/-- The digits after the point, and how many of them were kept. -/
def fractional (n : Nat) : List Nat → Nat × Nat
  | [] => (n, 0)
  | d :: ds =>
    match absorb? n d with
    | some m => let (r, kept) := fractional m ds; (r, kept + 1)
    | none => (n, 0)

/-- The numeral with these digits before and after the point and this exponent. -/
def ofDigits (before after : List Nat) (exponent : Int) : Decimal :=
  let (n, dropped) := whole 0 before
  let (m, kept) := fractional n after
  ⟨m, exponent + dropped - kept⟩

end Decimal

namespace Binary64

/-- The double nearest to `10 ^ k`, for `k ≤ 308`. -/
def powerOfTen (k : Nat) : Float :=
  Float.ofScientific 1 false k

/-- Divides by `10 ^ k` in steps of at most `10 ^ 308`. -/
def shrink (f : Float) (k : Nat) : Float :=
  if k ≤ 308 then f / powerOfTen k
  else if f == 0 then f
  else shrink (f / powerOfTen 308) (k - 308)
termination_by k
decreasing_by omega

/-- The double of a decimal; `none` where it is too large to be finite. -/
def ofDecimal? (negative : Bool) (d : Decimal) : Option Binary64 :=
  let f := d.significand.toUInt64.toFloat
  let sign (g : Float) := ofFloat (if negative then -g else g)
  if d.exponent < 0 then
    some (sign (shrink f (-d.exponent).toNat))
  else if f == 0 then
    some (sign f)
  else if d.exponent ≤ 308 then
    let g := f * powerOfTen d.exponent.toNat
    if g.isInf then none else some (sign g)
  else
    none

end Binary64

end EventSourcing
