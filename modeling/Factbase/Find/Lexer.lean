import Factbase.Find.Fault
import Factbase.Number.Numeral

/-! # Dividing a query text into tokens

`segments` divides a text into pieces that follow each other without gap: white space and comments,
tokens, and faults. Comments run from `--` to the end of the line; a string or a pattern ends on
the line where it starts. `tokenize` gives the tokens, with one at the end of the text, and the
faults as errors. -/

namespace Factbase.Find

/-- What a piece of a text is. -/
inductive Lexeme where
  /-- White space or a comment. -/
  | skipped
  | token (kind : TokenKind)
  | fault (fault : Fault)
deriving DecidableEq

/-- A piece of a text. -/
structure Segment where
  lexeme : Lexeme
  written : List Char
  place : Place
deriving DecidableEq

namespace Lexeme

/-- Characters that go on with a word. -/
def continuesWord (c : Char) : Bool := Text.isAlphanumeric c || c == '_'

/-- The text up to the end of its first line. -/
def restOfLine (text : List Char) : List Char := text.takeWhile (· != '\n')

/-- Characters up to a delimiter, with the rest after it. A backslash keeps the next character from
being the delimiter; both are kept. -/
def delimited? (delimiter : Char) : List Char → Option (List Char × List Char)
  | [] => none
  | c :: rest =>
    if c = delimiter then some ([], rest)
    else if c = '\\' then
      match rest with
      | [] => none
      | d :: rest => (delimited? delimiter rest).map fun (raw, rest) => (c :: d :: raw, rest)
    else (delimited? delimiter rest).map fun (raw, rest) => (c :: raw, rest)

/-- The text that a string between quotes stands for. After a backslash `n` is a line feed, `t` a
tab, and any other character itself. -/
def unescape : List Char → List Char
  | [] => []
  | '\\' :: c :: rest =>
    (if c = 'n' then '\n' else if c = 't' then '\t' else c) :: unescape rest
  | c :: rest => c :: unescape rest

/-- The body of a pattern between slashes: a slash inside it is written after a backslash. -/
def unescapeSlashes : List Char → List Char
  | [] => []
  | '\\' :: '/' :: rest => '/' :: unescapeSlashes rest
  | c :: rest => c :: unescapeSlashes rest

/-- A string, of which the rest of the line after the opening quote is given, and the number of its
further characters. -/
def ofText (line : List Char) : Lexeme × Nat :=
  match delimited? '"' line with
  | some (raw, rest) =>
    (.token (.text (String.ofList (unescape raw))), line.length - rest.length)
  | none => (.fault .unterminatedText, line.length)

/-- A pattern, of which the rest of the line after the opening slash is given, and the number of its
further characters. -/
def ofRegex (line : List Char) : Lexeme × Nat :=
  match delimited? '/' line with
  | some (raw, rest) =>
    let flags := rest.takeWhile Text.isLetter
    (.token (.regex (String.ofList (unescapeSlashes raw)) (String.ofList flags)),
      line.length - rest.length + flags.length)
  | none => (.fault .unterminatedRegex, line.length)

/-- A number, and the number of its characters after the first. -/
def ofNumber (text : List Char) : Lexeme × Nat :=
  let written := Number.leadingNumeral text
  let lexeme := match Number.parse? written with
    | some x => if Number.isFinite x then .token (.number x) else .fault (.invalidNumber written)
    | none => .fault (.invalidNumber written)
  (lexeme, written.length - 1)

/-- A variable, of which the rest after the question mark is given, and the number of its further
characters. -/
def ofVariable (rest : List Char) : Lexeme × Nat :=
  let name := rest.takeWhile continuesWord
  if name.isEmpty then (.fault .noVariableName, 0)
  else (.token (.var (String.ofList name)), name.length)

/-- A word, and the number of its characters after the first. -/
def ofWord (c : Char) (rest : List Char) : Lexeme × Nat :=
  let more := rest.takeWhile continuesWord
  let kind := match Keyword.ofWord? (c :: more) with
    | some word => .keyword word
    | none => .ident (String.ofList (c :: more))
  (.token kind, more.length)

/-- A sign, and the number of its characters after the first. -/
def ofSign (c : Char) (rest : List Char) : Lexeme × Nat :=
  match c, rest with
  | '(', _ => (.token .leftParen, 0)
  | ')', _ => (.token .rightParen, 0)
  | ',', _ => (.token .comma, 0)
  | '.', _ => (.token .dot, 0)
  | '=', '=' :: _ => (.token (.operator .eq), 1)
  | '=', _ => (.token (.operator .eq), 0)
  | '!', '=' :: _ => (.token (.operator .neq), 1)
  | '<', '=' :: _ => (.token (.operator .lte), 1)
  | '<', _ => (.token (.operator .lt), 0)
  | '>', '=' :: _ => (.token (.operator .gte), 1)
  | '>', _ => (.token (.operator .gt), 0)
  | c, _ => (.fault (.unexpectedChar c), 0)

/-- What a text starts with, and the number of its characters after the first. -/
def ofChars (c : Char) (rest : List Char) : Lexeme × Nat :=
  if Text.isBlank c then (.skipped, 0)
  else if c = '-' && rest.head? == some '-' then (.skipped, (restOfLine rest).length)
  else if Text.isDigit c || (c = '-' && rest.head?.any Text.isDigit) then ofNumber (c :: rest)
  else if c = '"' then ofText (restOfLine rest)
  else if c = '/' then ofRegex (restOfLine rest)
  else if c = '?' then ofVariable rest
  else if Text.isAlphabetic c || c = '_' then ofWord c rest
  else ofSign c rest

end Lexeme

namespace Segment

/-- The token that the piece is. -/
def token? (s : Segment) : Option Token :=
  match s.lexeme with
  | .token kind => some ⟨kind, s.written, s.place⟩
  | _ => none

/-- The error that the piece is. -/
def error? (s : Segment) : Option Error :=
  match s.lexeme with
  | .fault fault => some ⟨fault, s.place, Text.byteLength s.written⟩
  | _ => none

end Segment

/-- The pieces of a text that starts at a place. The number bounds how many there are; each takes a
character, so the length of the text is enough. -/
def segmentsFrom : Nat → Place → List Char → List Segment
  | n + 1, place, c :: rest =>
    let (lexeme, more) := Lexeme.ofChars c rest
    let written := c :: rest.take more
    ⟨lexeme, written, place⟩ :: segmentsFrom n (place.advance written) (rest.drop more)
  | _, _, _ => []

/-- The pieces of a text. -/
def segments (text : List Char) : List Segment := segmentsFrom text.length .start text

/-- The tokens of a text, the last one at its end, and its errors. -/
def tokenize (text : String) : List Token × List Error :=
  let pieces := segments text.toList
  (pieces.filterMap Segment.token? ++ [.finish (Place.start.advance text.toList)],
    pieces.filterMap Segment.error?)

end Factbase.Find
