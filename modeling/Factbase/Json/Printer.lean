import Factbase.Json
import Factbase.Number.Decimal
import Factbase.Text.Quoted

/-! # Writing JSON

`Json.render` writes a value in one line without blanks. Strings escape the quote, the backslash
and the control characters; a number that JSON cannot hold is written as null. -/

namespace Factbase.Json

/-- One character of a string. -/
def escapeChar (c : Char) : List Char :=
  if c == '"' then ['\\', '"']
  else if c == '\\' then ['\\', '\\']
  else if c == '\n' then ['\\', 'n']
  else if c == '\r' then ['\\', 'r']
  else if c == '\t' then ['\\', 't']
  else if c.toNat < 32 then
    let digits := Text.hexNumeral c.toNat
    ['\\', 'u'] ++ List.replicate (4 - digits.length) '0' ++ digits
  else [c]

/-- A string with its quotes. -/
def renderText (s : String) : String :=
  String.ofList ('"' :: s.toList.flatMap escapeChar ++ ['"'])

mutual

/-- The text of a value. -/
def render : Json → String
  | .null => "null"
  | .bool b => if b then "true" else "false"
  | .integer n => toString n
  | .float x => if Number.isFinite x then Number.jsonText x else "null"
  | .text s => renderText s
  | .array items => "[" ++ renderItems items ++ "]"
  | .object members => "\x7b" ++ renderMembers members ++ "\x7d"

/-- The texts of the items of an array, with commas between them. -/
def renderItems : List Json → String
  | [] => ""
  | [item] => render item
  | item :: rest => render item ++ "," ++ renderItems rest

/-- The texts of the members of an object, with commas between them. -/
def renderMembers : List (String × Json) → String
  | [] => ""
  | [(name, value)] => renderText name ++ ":" ++ render value
  | (name, value) :: rest =>
    renderText name ++ ":" ++ render value ++ "," ++ renderMembers rest

end

end Factbase.Json
