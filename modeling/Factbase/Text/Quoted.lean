import Factbase.Text.Class

/-! # Quoted text

`quote` writes a text between double quotes in one line: quotes and backslashes are escaped, tab,
line feed, carriage return and NUL have short escapes, and every other character that has no shape
of its own, or that would attach to its neighbour, is written by its code point. -/

namespace Factbase.Text

/-- Lower-case hexadecimal numeral without leading zeros. -/
def hexNumeral (n : Nat) : List Char := Nat.toDigits 16 n

/-- One character of a quoted text. -/
def quoteChar (c : Char) : List Char :=
  if c == '"' then ['\\', '"']
  else if c == '\\' then ['\\', '\\']
  else if c == '\n' then ['\\', 'n']
  else if c == '\t' then ['\\', 't']
  else if c == '\r' then ['\\', 'r']
  else if c.toNat == 0 then ['\\', '0']
  else if isGraphemeExtend c || !isPrintable c then
    ['\\', 'u', '\x7b'] ++ hexNumeral c.toNat ++ ['\x7d']
  else [c]

/-- The text between double quotes, with escapes. -/
def quote (text : String) : String :=
  String.ofList ('"' :: text.toList.flatMap quoteChar ++ ['"'])

end Factbase.Text
