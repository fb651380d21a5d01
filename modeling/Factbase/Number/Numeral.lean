import Factbase.Number
import Factbase.Text.Class

/-! # Reading numerals

`Number.parse?` reads a decimal numeral: an optional sign, digits with at most one point and at
least one digit, and an optional exponent. It also reads `inf`, `infinity` and `nan` in any case.
The value is the nearest number, infinite where it is out of range.

`Number.leadingNumeral` is the plain numeral with which a text starts. -/

namespace Factbase.Number

/-- Value of decimal digits. -/
def digitsValue (digits : List Char) : Nat :=
  digits.foldl (fun n c => 10 * n + (c.toNat - 48)) 0

/-- A decimal numeral in parts: digits before and after the point. -/
def ofParts (negative : Bool) (whole fraction : List Char) (exponent : Int) : Float :=
  ofDecimal negative (digitsValue (whole ++ fraction)) (exponent - fraction.length)

/-- Reads the exponent of a numeral: nothing, or `e`, an optional sign and digits. -/
def readExponent? : List Char → Option Int
  | [] => some 0
  | mark :: rest =>
    if mark == 'e' || mark == 'E' then
      let (negative, digits) := match rest with
        | '-' :: ds => (true, ds)
        | '+' :: ds => (false, ds)
        | ds => (false, ds)
      if digits.isEmpty || !digits.all Text.isDigit then none
      else
        let n : Int := digitsValue digits
        some (if negative then -n else n)
    else none

/-- Reads digits with an optional point and an optional exponent. -/
def readUnsigned? (negative : Bool) (text : List Char) : Option Float :=
  let (whole, rest) := text.span Text.isDigit
  let (fraction, rest) := match rest with
    | '.' :: more => more.span Text.isDigit
    | _ => ([], rest)
  if whole.isEmpty && fraction.isEmpty then none
  else (readExponent? rest).map fun e => ofParts negative whole fraction e

/-- The names of the numbers that have no digits. -/
def readNamed? (negative : Bool) (text : List Char) : Option Float :=
  let name := text.map Char.toLower
  if name == ['i', 'n', 'f'] || name == ['i', 'n', 'f', 'i', 'n', 'i', 't', 'y'] then
    some (if negative then -infinity else infinity)
  else if name == ['n', 'a', 'n'] then some nan
  else none

/-- The numeral at the start of a text: an optional sign, digits, and a point when a digit
follows. -/
def leadingNumeral (text : List Char) : List Char :=
  let sign := (text.take 1).filter (· == '-')
  let digits := (text.drop sign.length).takeWhile Text.isDigit
  let fraction := match text.drop (sign.length + digits.length) with
    | '.' :: d :: rest => if Text.isDigit d then '.' :: (d :: rest).takeWhile Text.isDigit else []
    | _ => []
  sign ++ digits ++ fraction

/-- Reads a numeral. -/
def parse? (text : List Char) : Option Float :=
  let (negative, unsigned) := match text with
    | '-' :: rest => (true, rest)
    | '+' :: rest => (false, rest)
    | rest => (false, rest)
  match readUnsigned? negative unsigned with
  | some x => some x
  | none => readNamed? negative unsigned

end Factbase.Number
