import Factbase.Ordered

/-! # JSON values

`Json` is what a JSON text says. Numbers keep the distinction between whole numbers in 64 bits,
`integer`, and all others, `float`. The members of an object stand in the order of their names,
each name once; `Json.ofMembers` builds such an object, and of two members with one name the later
wins. -/

namespace Factbase

/-- A JSON value. -/
inductive Json where
  | null
  | bool (value : Bool)
  | integer (value : Int)
  | float (value : Float)
  | text (value : String)
  | array (items : List Json)
  | object (members : List (String × Json))
deriving Inhabited

namespace Json

/-- The object with the given members. -/
def ofMembers (members : List (String × Json)) : Json :=
  .object (members.foldl (fun acc m => putEntry m.1 m.2 acc) [])

/-- The member of an object with the given name. -/
def member? (name : String) : Json → Option Json
  | .object members => members.lookup name
  | _ => none

/-- The text of a string. -/
def text? : Json → Option String
  | .text s => some s
  | _ => none

/-- The value of a truth value. -/
def bool? : Json → Option Bool
  | .bool b => some b
  | _ => none

/-- The value of a whole number from zero to the largest in 64 bits. -/
def count? : Json → Option Nat
  | .integer (.ofNat n) => some n
  | _ => none

/-- The items of an array. -/
def items? : Json → Option (List Json)
  | .array items => some items
  | _ => none

/-- A whole number. -/
def ofNat (n : Nat) : Json := .integer n

/-- An optional value, null when there is none. -/
def ofOption {α : Type} (encode : α → Json) : Option α → Json
  | none => .null
  | some a => encode a

/-- A list of values. -/
def ofList {α : Type} (encode : α → Json) (items : List α) : Json := .array (items.map encode)

/-- The name of a constant variant: a string, or an object whose single member is null. -/
def variant? : Json → Option String
  | .text s => some s
  | .object [(name, .null)] => some name
  | _ => none

/-- The fields of a record, `none` where missing. A record is written as an object, or as an array
of its fields in order, from whose end fields may be missing. -/
def fields? (names : List String) : Json → Option (List (Option Json))
  | .object members => some (names.map fun name => members.lookup name)
  | .array items =>
    if items.length ≤ names.length then
      some (items.map some ++ List.replicate (names.length - items.length) none)
    else none
  | _ => none

/-- A field that has to be there. -/
def required {α : Type} (decode : Json → Option α) (field : Option Json) : Option α :=
  field.bind decode

/-- A field with a default value. -/
def withDefault {α : Type} (value : α) (decode : Json → Option α) : Option Json → Option α
  | none => some value
  | some json => decode json

/-- An optional value: null means that there is none. -/
def optional {α : Type} (decode : Json → Option α) : Json → Option (Option α)
  | .null => some none
  | json => (decode json).map some

/-- A list of values. -/
def listOf {α : Type} (decode : Json → Option α) : Json → Option (List α)
  | .array items => items.mapM decode
  | _ => none

end Json

end Factbase
