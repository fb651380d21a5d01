/-! # Double-precision numbers as sign and magnitude

Numbers are `Float`s. This module reads them through their bits: a number is a sign and a
magnitude, and within one sign the magnitudes stand in the order of the numbers. Two orders follow.

* `Number.rank`: the numeric order. Both zeros have rank `0`; NaN has no place in it.
* `Number.totalRank`: the order that also tells the zeros apart and places NaN last.

`Number.mantissa` and `Number.exponent` give a finite number exactly, as `mantissa * 2 ^ exponent`
up to sign, and `Number.whole?` is its value when that is an integer. -/

namespace Factbase.Number

/-- The bits without the sign. -/
def magnitude (x : Float) : Nat := x.toBits.toNat % 0x8000000000000000

/-- Whether the sign bit is set. -/
def isNegative (x : Float) : Bool := 0x8000000000000000 ≤ x.toBits.toNat

/-- The magnitude of the least number that has all bits of a mantissa, and the weight of its first
bit. -/
def leastNormal : Nat := 0x10000000000000

/-- The magnitude of the infinities. -/
def infiniteMagnitude : Nat := 0x7FF0000000000000

/-- Neither infinite nor NaN. -/
def isFinite (x : Float) : Bool := magnitude x < infiniteMagnitude

/-- Not a number. -/
def isNaN (x : Float) : Bool := infiniteMagnitude < magnitude x

/-- Place of a number other than NaN in the numeric order. -/
def rank (x : Float) : Int := if isNegative x then - magnitude x else magnitude x

/-- Place of a number in the total order: `-0` stands before `0` and NaN after infinity. -/
def totalRank (x : Float) : Int := if isNegative x then - magnitude x - 1 else magnitude x

/-- Numeric equality; NaN equals nothing. -/
def equals (x y : Float) : Bool := !isNaN x && !isNaN y && rank x == rank y

/-- Numeric `<`; NaN is not comparable. -/
def less (x y : Float) : Bool := !isNaN x && !isNaN y && rank x < rank y

/-- Numeric `≤`; NaN is not comparable. -/
def lessOrEqual (x y : Float) : Bool := !isNaN x && !isNaN y && rank x ≤ rank y

/-- Comparison in the total order. -/
def totalOrder (x y : Float) : Ordering := compare (totalRank x) (totalRank y)

/-- Mantissa of a finite number. -/
def mantissa (x : Float) : Nat :=
  let m := magnitude x
  if m < leastNormal then m else m % leastNormal + leastNormal

/-- Binary exponent of a finite number. -/
def exponent (x : Float) : Int :=
  let m := magnitude x
  if m < leastNormal then -1074 else (m / leastNormal : Nat) - 1075

/-- Whether the number below is nearer than the number above: the gap halves below a power of
two. -/
def isNarrowBelow (x : Float) : Bool :=
  let m := magnitude x
  m % leastNormal == 0 && 2 * leastNormal ≤ m

/-- The value without its sign of a finite number without fractional part. -/
def wholeMagnitude? (x : Float) : Option Nat :=
  match exponent x with
  | .ofNat q => some (mantissa x * Nat.pow 2 q)
  | .negSucc q =>
    let unit := Nat.pow 2 (q + 1)
    if mantissa x % unit = 0 then some (mantissa x / unit) else none

/-- The value of a finite number without fractional part. -/
def whole? (x : Float) : Option Int :=
  if isFinite x then
    (wholeMagnitude? x).map fun n : Nat => if isNegative x then - (n : Int) else n
  else none

/-- Positive infinity. -/
def infinity : Float := Float.ofBits 0x7FF0000000000000

/-- Not a number. -/
def nan : Float := Float.ofBits 0x7FF8000000000000

/-- The number nearest to `digits * 10 ^ exponent`, ties to even. Bounds of the number of digits
decide first whether the value is far out of range, so that a huge exponent costs nothing. -/
def ofDecimal (negative : Bool) (digits : Nat) (exponent : Int) : Float :=
  -- three digits are at most ten bits, and thirteen bits at most four digits
  let low : Int := (3 * (digits.log2 / 10) : Nat)
  let high : Int := (4 * ((digits.log2 + 1) / 13 + 1) : Nat)
  let x : Float :=
    if digits = 0 then 0
    else if low + exponent > 400 then infinity
    else if high + exponent < -400 then 0
    else match exponent with
      | .ofNat e => Float.ofScientific digits false e
      | .negSucc e => Float.ofScientific digits true (e + 1)
  if negative then -x else x

/-- The number nearest to an integer. -/
def ofInt (n : Int) : Float := ofDecimal (n < 0) n.natAbs 0

end Factbase.Number
