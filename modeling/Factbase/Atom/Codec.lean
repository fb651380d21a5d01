import Factbase.Atom
import Factbase.Json

/-! # Atoms in JSON

Two encodings. Data that comes in as JSON is read by `Atom.ofJson?`, where a string is always a
text, and result rows are written by `Atom.toJson`. Stored facts are written by `Atom.encode` and
read by `Atom.decode?`, where a string that holds a timestamp is one. -/

namespace Factbase.Atom

/-- The scalar of a JSON value; arrays and objects have none. -/
def ofJson? : Json → Option Atom
  | .null => some .null
  | .bool b => some (.bool b)
  | .integer n => some (.number (Number.ofInt n))
  | .float x => some (.number x)
  | .text s => some (.text s)
  | .array _ => none
  | .object _ => none

/-- A number in JSON, null when it is not finite. -/
def numberToJson (x : Float) : Json := if Number.isFinite x then .float x else .null

/-- The value of a cell of a result row. -/
def toJson : Atom → Json
  | .null => .null
  | .bool b => .bool b
  | .number x => numberToJson x
  | .timestamp t => .text t.rfc3339
  | .text s => .text s

/-- The value of a stored fact. -/
def encode : Atom → Json
  | .null => .null
  | .bool b => .bool b
  | .number x => numberToJson x
  | .timestamp t => .text t.zulu
  | .text s => .text s

/-- Reads the value of a stored fact. -/
def decode? : Json → Option Atom
  | .text s =>
    match Timestamp.decode? s with
    | some t => some (.timestamp t)
    | none => some (.text s)
  | json => ofJson? json

end Factbase.Atom
