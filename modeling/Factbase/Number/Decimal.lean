import Factbase.Number

/-! # Decimal text of numbers

The decimal of a number has the fewest digits that read back to it, and of those the nearest:
`Decimal.ofFloat` looks for it on the grids `10 ^ k` from coarse to fine, in exact arithmetic, and
tests on each grid the two neighbours of the value. Two layouts follow:

* `Number.text`: positional, never with an exponent (`0.0000001`, `-0`, `inf`, `NaN`);
* `Number.jsonText`: positional between `10 ^ -5` and `10 ^ 16`, with a point in any case
  (`1.0`, `1e21`, `1.5e-7`).

`Number.shortText` writes whole numbers below `10 ^ 15` as integers, zero without a sign. -/

namespace Factbase

/-- The decimal `digits * 10 ^ exponent`. -/
structure Decimal where
  digits : Nat
  exponent : Int
deriving DecidableEq, Repr

namespace Decimal

/-- Which of two equally near decimals is taken. -/
inductive Tie where
  | up
  | toEven

/-- The exact decimal of `m * 2 ^ q`. -/
def exact (m : Nat) : Int → Decimal
  | .ofNat q => ⟨m * Nat.pow 2 q, 0⟩
  | .negSucc q => ⟨m * Nat.pow 5 (q + 1), .negSucc q⟩

/-- The point `10 ^ k` of a grid in units in which the quarters of `2 ^ q` are whole. -/
def gridUnit (q k : Int) : Nat := Nat.pow 2 (2 - q).toNat * Nat.pow 10 k.toNat

/-- A quarter of `2 ^ q` in the units of the grid `10 ^ k`. -/
def quarter (q k : Int) : Nat := Nat.pow 2 (q - 2).toNat * Nat.pow 10 (-k).toNat

/-- Whether `digits * 10 ^ k` reads back to `m * 2 ^ q`. The numbers that round to `m * 2 ^ q` lie
within half a gap on either side, ends included when `m` is even. -/
def readsBack (m : Nat) (q : Int) (narrowBelow : Bool) (k : Int) (digits : Nat) : Bool :=
  let low := (if narrowBelow then 4 * m - 1 else 4 * m - 2) * quarter q k
  let high := (4 * m + 2) * quarter q k
  let point := digits * gridUnit q k
  if m % 2 = 0 then low ≤ point && point ≤ high else low < point && point < high

/-- The nearer of the neighbours of `m * 2 ^ q` on the grid `10 ^ k` that reads back to it. -/
def onGrid? (m : Nat) (q : Int) (narrowBelow : Bool) (tie : Tie) (k : Int) : Option Decimal :=
  let value := 4 * m * quarter q k
  let below := value / gridUnit q k
  let above := below + 1
  let hitBelow := 0 < below && readsBack m q narrowBelow k below
  let hitAbove := readsBack m q narrowBelow k above
  if hitBelow && hitAbove then
    let d := match compare (2 * (value % gridUnit q k)) (gridUnit q k), tie with
      | .lt, _ => below
      | .gt, _ => above
      | .eq, .up => above
      | .eq, .toEven => if below % 2 = 0 then below else above
    some ⟨d, k⟩
  else if hitBelow then some ⟨below, k⟩
  else if hitAbove then some ⟨above, k⟩
  else none

/-- The first hit on the grids `10 ^ k`, `10 ^ (k - 1)`, and so on. -/
def search (m : Nat) (q : Int) (narrowBelow : Bool) (tie : Tie) : Nat → Int → Decimal
  | 0, _ => exact m q
  | n + 1, k =>
    match onGrid? m q narrowBelow tie k with
    | some d => d
    | none => search m q narrowBelow tie n (k - 1)

/-- The shortest decimal of a finite number, without its sign. -/
def ofFloat (tie : Tie) (x : Float) : Decimal :=
  let m := Number.mantissa x
  let q := Number.exponent x
  -- the first grid is coarser than the number: `log10 2` is a little less than `0.30103`
  if m = 0 then ⟨0, 0⟩
  else search m q (Number.isNarrowBelow x) tie 24 (((m.log2 : Int) + q + 1) * 30103 / 100000 + 1)

/-- Decimal digits of a natural number. -/
def digitChars (n : Nat) : List Char := Nat.toDigits 10 n

/-- Positional layout, with a point only where there are digits after it. -/
def positional (d : Decimal) : List Char :=
  let ds := digitChars d.digits
  match d.exponent with
  | .ofNat e => if d.digits = 0 then ['0'] else ds ++ List.replicate e '0'
  | .negSucc e =>
    -- zeros in front, so that a digit stands before the point
    let places := e + 1
    let padded := List.replicate (places + 1 - ds.length) '0' ++ ds
    padded.take (padded.length - places) ++ '.' :: padded.drop (padded.length - places)

/-- Layout with one digit before the point, and the exponent after `e`. -/
def scientific (d : Decimal) : List Char :=
  let ds := digitChars d.digits
  let e : Int := d.exponent + ds.length - 1
  ds.take 1 ++ (if ds.length ≤ 1 then [] else '.' :: ds.drop 1) ++
    'e' :: (if e < 0 then ['-'] else []) ++ digitChars e.natAbs

end Decimal

namespace Number

/-- Sign of a text of a number. -/
def signed (x : Float) (unsigned : List Char) : String :=
  String.ofList (if isNegative x then '-' :: unsigned else unsigned)

/-- Positional text. -/
def text (x : Float) : String :=
  if isNaN x then "NaN"
  else if !isFinite x then signed x ['i', 'n', 'f']
  else signed x (Decimal.ofFloat .up x).positional

/-- Positional text, with whole numbers below `10 ^ 15` as integers. -/
def shortText (x : Float) : String :=
  match whole? x with
  | some n => if n.natAbs < 1000000000000000 then toString n else text x
  | none => text x

/-- Text of a finite number in JSON. -/
def jsonText (x : Float) : String :=
  let d := Decimal.ofFloat .toEven x
  let ds := Decimal.digitChars d.digits
  let point : Int := d.exponent + ds.length
  signed x <|
    if d.digits = 0 then ['0', '.', '0']
    else if 0 ≤ d.exponent && point ≤ 16 then d.positional ++ ['.', '0']
    else if -5 < point && point ≤ 16 then d.positional
    else d.scientific

end Number

end Factbase
