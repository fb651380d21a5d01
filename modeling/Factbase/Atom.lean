import Factbase.Number.Decimal
import Factbase.Number.Numeral
import Factbase.Timestamp.Reader

/-! # Atoms

An `Atom` is a scalar value of a fact, a tuple or a binding. Values that look alike in different
types stay apart; two views look across the types.

* `Atom.number?`: numbers, and texts that hold a finite numeral.
* `Atom.instant?`: timestamps, and texts that hold a date.

`Atom.canonical` is the text by which sets of values tell their members apart, and `tupleKey` the
text of a whole tuple. -/

namespace Factbase

/-- A scalar value. -/
inductive Atom where
  | null
  | bool (value : Bool)
  | number (value : Float)
  | timestamp (value : Timestamp)
  | text (value : String)
deriving DecidableEq, Inhabited

/-- A row of a relation. -/
abbrev Tuple := List Atom

namespace Atom

/-- Name of the type of the value. -/
def typeName : Atom → String
  | .null => "null"
  | .bool _ => "boolean"
  | .number _ => "number"
  | .timestamp _ => "date"
  | .text _ => "string"

/-- Whether the value is null. -/
def isNull : Atom → Bool
  | .null => true
  | _ => false

/-- The text of a text value. -/
def text? : Atom → Option String
  | .text s => some s
  | _ => none

/-- The finite number that the value holds, as a number or as the numeral of a text. -/
def number? : Atom → Option Float
  | .number x => if Number.isFinite x then some x else none
  | .text s => (Number.parse? (Text.trim s.toList)).filter Number.isFinite
  | _ => none

/-- The instant that the value holds, as a timestamp or as the date of a text. -/
def instant? : Atom → Option Timestamp
  | .timestamp t => some t
  | .text s => Timestamp.parse? s
  | _ => none

/-- The value as shown to a reader. -/
def display : Atom → String
  | .null => "null"
  | .bool b => if b then "true" else "false"
  | .number x => Number.shortText x
  | .timestamp t => t.rfc3339
  | .text s => s

/-- The text of the value with a mark of its type. -/
def canonical : Atom → String
  | .null => "null"
  | .bool b => "b:" ++ (if b then "true" else "false")
  | .number x => "n:" ++ Number.shortText x
  | .timestamp t => "t:" ++ t.rfc3339
  | .text s => "s:" ++ s

/-- Equality of values: numbers by their value, timestamps by their instant. NaN equals
nothing. -/
def equals : Atom → Atom → Bool
  | .null, .null => true
  | .bool a, .bool b => a == b
  | .number x, .number y => Number.equals x y
  | .timestamp s, .timestamp t => s == t
  | .text a, .text b => a == b
  | _, _ => false

end Atom

/-- Separates the columns of a tuple in its key. -/
def unitSeparator : String := String.singleton (Char.ofNat 0x1F)

/-- The text by which a set of tuples tells its members apart. -/
def tupleKey (tuple : Tuple) : String := unitSeparator.intercalate (tuple.map Atom.canonical)

end Factbase
