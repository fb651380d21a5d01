import Factbase.Json
import Factbase.Number.Numeral
import Factbase.Text.Run

/-! # Reading JSON

`Json.parse?` reads one JSON text, with white space around it and nothing else. A numeral without
point and exponent that fits in 64 bits is an integer; any other, and `-0`, is the nearest
number. -/

namespace Factbase.Json

/-- White space between the tokens of JSON. -/
def isSpace (c : Char) : Bool := c == ' ' || c == '\t' || c == '\n' || c == '\r'

/-- The input without leading white space. -/
def skipSpace (input : List Char) : List Char := input.dropWhile isSpace

/-- Reads exactly the given characters. -/
def expect? : List Char → List Char → Option (List Char)
  | [], input => some input
  | _ :: _, [] => none
  | c :: cs, d :: ds => if c = d then expect? cs ds else none

/-- Whether the character is a hexadecimal digit. -/
def isHexDigit (c : Char) : Bool :=
  Text.isDigit c || ('a' ≤ c && c ≤ 'f') || ('A' ≤ c && c ≤ 'F')

/-- Reads four hexadecimal digits. -/
def readUnit? : List Char → Option (Nat × List Char)
  | a :: b :: c :: d :: rest =>
    if [a, b, c, d].all isHexDigit then some (Text.hexValue [a, b, c, d], rest) else none
  | _ => none

/-- Reads the code point after a backslash and `u`; the second half of a surrogate pair is written
in the same way. -/
def readEscapedCodePoint? (input : List Char) : Option (Char × List Char) :=
  match readUnit? input with
  | none => none
  | some (high, rest) =>
    if 0xD800 ≤ high ∧ high < 0xDC00 then
      match rest with
      | '\\' :: 'u' :: more =>
        match readUnit? more with
        | some (low, rest) =>
          if 0xDC00 ≤ low ∧ low < 0xE000 then
            some (Char.ofNat (0x10000 + (high - 0xD800) * 0x400 + (low - 0xDC00)), rest)
          else none
        | none => none
      | _ => none
    else if 0xDC00 ≤ high ∧ high < 0xE000 then none
    else some (Char.ofNat high, rest)

/-- The character that a one-letter escape stands for. -/
def escape? : Char → Option Char
  | '"' => some '"'
  | '\\' => some '\\'
  | '/' => some '/'
  | 'b' => some (Char.ofNat 8)
  | 'f' => some (Char.ofNat 12)
  | 'n' => some '\n'
  | 'r' => some '\r'
  | 't' => some '\t'
  | _ => none

/-- Reads the rest of a string after its opening quote; `read` holds what came before, last
character first. -/
def readText? : Nat → List Char → List Char → Option (String × List Char)
  | 0, _, _ => none
  | fuel + 1, read, input =>
    match input with
    | [] => none
    | '"' :: rest => some (String.ofList read.reverse, rest)
    | '\\' :: 'u' :: rest =>
      match readEscapedCodePoint? rest with
      | some (c, rest) => readText? fuel (c :: read) rest
      | none => none
    | '\\' :: e :: rest =>
      match escape? e with
      | some c => readText? fuel (c :: read) rest
      | none => none
    | c :: rest => if c.toNat < 32 then none else readText? fuel (c :: read) rest

/-- Reads a numeral. -/
def readNumeral? (input : List Char) : Option (Json × List Char) :=
  let (negative, unsigned) := match input with
    | '-' :: rest => (true, rest)
    | rest => (false, rest)
  let (whole, rest) := unsigned.span Text.isDigit
  if whole.isEmpty || (whole.length > 1 && whole.head? == some '0') then none
  else
    let (fraction, rest) := match rest with
      | '.' :: more => let (ds, rest) := more.span Text.isDigit; (some ds, rest)
      | _ => (none, rest)
    let (exponent, rest) := match rest with
      | 'e' :: _ | 'E' :: _ =>
        let mark := rest.take 1
        let more := rest.drop 1
        let sign := (more.take 1).filter fun c => c == '+' || c == '-'
        let (ds, rest) := (more.drop sign.length).span Text.isDigit
        (some (mark ++ sign ++ ds, ds), rest)
      | _ => (none, rest)
    -- a point and an exponent mark need digits after them
    if fraction == some [] || (exponent.map fun e => e.2.isEmpty) == some true then none
    else
      let n : Int := Number.digitsValue whole
      let value := if negative then -n else n
      if fraction.isNone && exponent.isNone && !(negative && n == 0) &&
          Int64.minValue.toInt ≤ value && value < UInt64.size then
        some (.integer value, rest)
      else
        match Number.readExponent? ((exponent.map (·.1)).getD []) with
        | some e => some (.float (Number.ofParts negative whole (fraction.getD []) e), rest)
        | none => none

mutual

/-- Reads a value; `fuel` bounds the depth and the number of items. -/
def readValue? : Nat → List Char → Option (Json × List Char)
  | 0, _ => none
  | fuel + 1, input =>
    match skipSpace input with
    | 'n' :: rest => (expect? ['u', 'l', 'l'] rest).map fun rest => (.null, rest)
    | 't' :: rest => (expect? ['r', 'u', 'e'] rest).map fun rest => (.bool true, rest)
    | 'f' :: rest => (expect? ['a', 'l', 's', 'e'] rest).map fun rest => (.bool false, rest)
    | '"' :: rest =>
      (readText? (rest.length + 1) [] rest).map fun (s, rest) => (.text s, rest)
    | '[' :: rest =>
      match skipSpace rest with
      | ']' :: rest => some (.array [], rest)
      | rest => (readItems? fuel [] rest).map fun (items, rest) => (.array items, rest)
    | '\x7b' :: rest =>
      match skipSpace rest with
      | '\x7d' :: rest => some (.object [], rest)
      | rest => (readMembers? fuel [] rest).map fun (members, rest) => (ofMembers members, rest)
    | rest => readNumeral? rest

/-- Reads the items of an array up to its closing bracket. -/
def readItems? : Nat → List Json → List Char → Option (List Json × List Char)
  | 0, _, _ => none
  | fuel + 1, read, input =>
    match readValue? fuel input with
    | none => none
    | some (item, rest) =>
      match skipSpace rest with
      | ',' :: rest => readItems? fuel (item :: read) rest
      | ']' :: rest => some ((item :: read).reverse, rest)
      | _ => none

/-- Reads the members of an object up to its closing brace. -/
def readMembers? : Nat → List (String × Json) → List Char →
    Option (List (String × Json) × List Char)
  | 0, _, _ => none
  | fuel + 1, read, input =>
    match skipSpace input with
    | '"' :: rest =>
      match readText? (rest.length + 1) [] rest with
      | none => none
      | some (name, rest) =>
        match skipSpace rest with
        | ':' :: rest =>
          match readValue? fuel rest with
          | none => none
          | some (value, rest) =>
            match skipSpace rest with
            | ',' :: rest => readMembers? fuel ((name, value) :: read) rest
            | '\x7d' :: rest => some (((name, value) :: read).reverse, rest)
            | _ => none
        | _ => none
    | _ => none

end

/-- Reads a JSON text. -/
def parse? (input : String) : Option Json :=
  match readValue? (input.length + 1) input.toList with
  | some (value, rest) => if (skipSpace rest).isEmpty then some value else none
  | none => none

end Factbase.Json
