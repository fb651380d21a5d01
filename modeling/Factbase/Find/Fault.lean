import Factbase.Find.Token

/-! # What can be wrong with a query text

A `Fault` is why a query text is refused, and an `Error` a fault with the place and the length in
bytes of what it is about. What the grammar asks for at some point is a `Wanted`, with the kinds of
token that would do there. -/

namespace Factbase.Find

/-- What the grammar asks for. -/
inductive Wanted where
  | keyword (word : Keyword)
  | variable
  | entityType
  | attrName
  | ruleName
  | number
  /-- A parenthesis. -/
  | sign (kind : TokenKind)
  /-- A whole number after `LIMIT`. -/
  | limit
  | queryEnd
  | condition
  | containedText
  | pattern
  | operator
  | operand
deriving DecidableEq

/-- Why a query text is refused. -/
inductive Fault where
  | unexpectedChar (c : Char)
  | noVariableName
  | invalidNumber (written : List Char)
  | unterminatedText
  | unterminatedRegex
  | unexpected (wanted : Wanted) (found : TokenKind)
deriving DecidableEq

/-- A fault at a place. -/
structure Error where
  fault : Fault
  place : Place
  /-- Bytes from the place on. -/
  length : Nat
deriving DecidableEq

namespace Wanted

/-- What is asked for, in words. -/
def reason : Wanted → String
  | .keyword word => "expected " ++ word.name
  | .variable => "expected a variable"
  | .entityType => "expected an entity type"
  | .attrName => "expected an attribute name"
  | .ruleName => "expected a rule name"
  | .number => "expected a number"
  | .sign kind => "expected " ++ kind.describe
  | .limit => "LIMIT must be a non-negative integer"
  | .queryEnd => "unexpected token after query"
  | .condition => "expected a condition"
  | .containedText => "expected a string after CONTAINS"
  | .pattern => "expected a regex after MATCHES"
  | .operator => "expected an operator"
  | .operand => "expected a value"

/-- The kinds of token that would do. -/
def kinds : Wanted → List String
  | .keyword word => [word.name]
  | .variable => ["variable"]
  | .entityType => ["identifier"]
  | .attrName => ["identifier"]
  | .ruleName => ["identifier"]
  | .number => ["number"]
  | .sign kind => [kind.describe]
  | .limit => ["number"]
  | .queryEnd => ["WHERE", "RETURN", "ORDER", "LIMIT", "end of input"]
  | .condition => ["`(`", "variable", "identifier"]
  | .containedText => ["string"]
  | .pattern => ["regex"]
  | .operator => ["comparison", "BETWEEN", "CONTAINS", "MATCHES", "IN"]
  | .operand => ["string", "number", "TRUE", "FALSE", "NULL", "variable"]

end Wanted

namespace Fault

/-- The message of a fault. -/
def message : Fault → String
  | .unexpectedChar c => "unexpected character `" ++ String.singleton c ++ "`"
  | .noVariableName => "expected a variable name after `?`"
  | .invalidNumber written => "invalid number `" ++ String.ofList written ++ "`"
  | .unterminatedText => "unterminated string literal"
  | .unterminatedRegex => "unterminated regex literal"
  | .unexpected wanted found => wanted.reason ++ ", found " ++ found.describe

/-- The kinds of token that would do instead. -/
def expected : Fault → List String
  | .unexpected wanted _ => wanted.kinds
  | _ => []

end Fault

namespace Error

/-- The message of an error. -/
def message (e : Error) : String := e.fault.message

/-- The kinds of token that would do instead. -/
def expected (e : Error) : List String := e.fault.expected

/-- What to do about the error. -/
def help? (e : Error) : Option String :=
  if e.expected.isEmpty then none else some ("expected " ++ " or ".intercalate e.expected)

/-- The message of an error with its place. -/
def display (e : Error) : String :=
  e.message ++ " (line " ++ toString e.place.line ++ ", column " ++ toString e.place.column ++ ")"

end Error

end Factbase.Find
