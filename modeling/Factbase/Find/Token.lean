import Factbase.Literal
import Factbase.Text.Class

/-! # Tokens of the query language

A `Token` is a word, literal or sign of a query text with the `Place` where it stands. Keywords are
recognised in any mixture of upper and lower case. -/

namespace Factbase.Find

/-- The reserved words. -/
inductive Keyword where
  | FIND
  | AS
  | WHERE
  | RETURN
  | ORDER
  | BY
  | ASC
  | DESC
  | LIMIT
  | AND
  | OR
  | BETWEEN
  | CONTAINS
  | MATCHES
  | IN
  | TRUE
  | FALSE
  | NULL
deriving DecidableEq, Repr

/-- What a token is. -/
inductive TokenKind where
  | keyword (word : Keyword)
  | ident (name : String)
  /-- A variable, without its question mark. -/
  | var (name : String)
  | text (value : String)
  /-- A pattern, with the letters that follow its closing slash. -/
  | regex (body flags : String)
  | number (value : Float)
  | operator (op : Comparison)
  | leftParen
  | rightParen
  | comma
  | dot
  /-- The end of the text. -/
  | finish
deriving DecidableEq

/-- A position in a text: line and column from one, and the bytes before it. -/
structure Place where
  line : Nat
  column : Nat
  offset : Nat
deriving DecidableEq, Repr

/-- A token as it stands in a text. -/
structure Token where
  kind : TokenKind
  /-- The token as written. -/
  written : List Char
  place : Place
deriving DecidableEq

namespace Keyword

/-- The reserved words, in order. -/
def all : List Keyword :=
  [.FIND, .AS, .WHERE, .RETURN, .ORDER, .BY, .ASC, .DESC, .LIMIT, .AND, .OR, .BETWEEN, .CONTAINS,
    .MATCHES, .IN, .TRUE, .FALSE, .NULL]

/-- The word in upper case. -/
def name : Keyword → String
  | .FIND => "FIND"
  | .AS => "AS"
  | .WHERE => "WHERE"
  | .RETURN => "RETURN"
  | .ORDER => "ORDER"
  | .BY => "BY"
  | .ASC => "ASC"
  | .DESC => "DESC"
  | .LIMIT => "LIMIT"
  | .AND => "AND"
  | .OR => "OR"
  | .BETWEEN => "BETWEEN"
  | .CONTAINS => "CONTAINS"
  | .MATCHES => "MATCHES"
  | .IN => "IN"
  | .TRUE => "TRUE"
  | .FALSE => "FALSE"
  | .NULL => "NULL"

/-- The reserved word that a word is. -/
def ofWord? (word : List Char) : Option Keyword :=
  let upper := String.ofList (word.map Char.toUpper)
  all.find? (·.name == upper)

end Keyword

namespace TokenKind

/-- The kind of token in an error message. -/
def describe : TokenKind → String
  | .keyword word => word.name
  | .ident _ => "identifier"
  | .var _ => "variable"
  | .text _ => "string"
  | .regex _ _ => "regex"
  | .number _ => "number"
  | .operator op => "`" ++ op.symbol ++ "`"
  | .leftParen => "`(`"
  | .rightParen => "`)`"
  | .comma => "`,`"
  | .dot => "`.`"
  | .finish => "end of input"

end TokenKind

namespace Place

/-- The start of a text. -/
def start : Place := ⟨1, 1, 0⟩

/-- The place after a character. -/
def next (p : Place) (c : Char) : Place :=
  if c = '\n' then ⟨p.line + 1, 1, p.offset + c.utf8Size⟩
  else ⟨p.line, p.column + 1, p.offset + c.utf8Size⟩

/-- The place after some characters. -/
def advance (p : Place) (text : List Char) : Place := text.foldl next p

end Place

/-- The token at the end of a text. -/
def Token.finish (place : Place) : Token := ⟨.finish, [], place⟩

end Factbase.Find
