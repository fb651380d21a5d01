import Factbase.Find.Lexer
import Factbase.Find.Query

/-! # Reading queries

The grammar of queries over tokens:

    query     := FIND name AS var [WHERE clause] [RETURN field {"," field}]
                 [ORDER BY field [ASC | DESC]] [LIMIT number]
    clause    := term {(AND | OR) term}
    term      := "(" clause ")" | name "(" operand {"," operand} ")" | field test
    test      := operator operand | BETWEEN number AND number | CONTAINS string
                 | MATCHES (pattern | string) | IN operand
    field     := var {"." name}

AND and OR group to the left and bind alike. A keyword can be a name where a type or an attribute is
named. A reader takes the rest of the tokens; reading stops at the first token that does not fit. -/

namespace Factbase.Find

/-- Where reading stopped: what was asked for, and the rest of the tokens at that point. -/
structure Rejection where
  wanted : Wanted
  rest : List Token

/-- A reader of some values. -/
abbrev Reader (α : Type) := List Token → Except Rejection (α × List Token)

namespace Reader

/-- Stops at a rest. -/
def reject {α : Type} (wanted : Wanted) (rest : List Token) : Except Rejection α :=
  .error ⟨wanted, rest⟩

/-- The first token, or the end. -/
def current (tokens : List Token) : Token := tokens.headD (.finish .start)

/-- The kind of the first token. -/
def kind (tokens : List Token) : TokenKind := (current tokens).kind

/-- The rest after a keyword, if the tokens start with it. -/
def afterKeyword? (word : Keyword) (tokens : List Token) : Option (List Token) :=
  if kind tokens = .keyword word then some tokens.tail else none

/-- Reads a keyword. -/
def keyword (word : Keyword) (tokens : List Token) : Except Rejection (List Token) :=
  match afterKeyword? word tokens with
  | some rest => .ok rest
  | none => reject (.keyword word) tokens

/-- Reads a sign. -/
def sign (wanted : TokenKind) (tokens : List Token) : Except Rejection (List Token) :=
  if kind tokens = wanted then .ok tokens.tail else reject (.sign wanted) tokens

/-- Reads a variable. -/
def var : Reader String := fun tokens =>
  match kind tokens with
  | .var name => .ok (name, tokens.tail)
  | _ => reject .variable tokens

/-- Reads a name; a keyword is one, as it is written. -/
def name (wanted : Wanted) : Reader String := fun tokens =>
  match kind tokens with
  | .ident name => .ok (name, tokens.tail)
  | .keyword _ => .ok (String.ofList (current tokens).written, tokens.tail)
  | _ => reject wanted tokens

/-- Reads a number. -/
def number : Reader Float := fun tokens =>
  match kind tokens with
  | .number x => .ok (x, tokens.tail)
  | _ => reject .number tokens

/-- Reads elements, each after a separator. The number bounds how many there are. -/
def following {α : Type} (element : Reader α) (separator : TokenKind) : Nat → Reader (List α)
  | 0, tokens => .ok ([], tokens)
  | n + 1, tokens =>
    if kind tokens = separator then do
      let (a, rest) ← element tokens.tail
      let (as, rest) ← following element separator n rest
      return (a :: as, rest)
    else .ok ([], tokens)

/-- Reads elements with commas between them. -/
def commaSeparated {α : Type} (element : Reader α) : Reader (List α) := fun tokens => do
  let (a, rest) ← element tokens
  let (as, rest) ← following element .comma rest.length rest
  return (a :: as, rest)

/-- Reads a field. -/
def field : Reader Field := fun tokens => do
  let (var, rest) ← var tokens
  let (path, rest) ← following (name .attrName) .dot rest.length rest
  return (⟨var, path⟩, rest)

/-- The operand that a token is; an identifier is a text where names are allowed. -/
def operandOf? (allowName : Bool) : TokenKind → Option Operand
  | .text s => some (.text s)
  | .number x => some (.number x)
  | .keyword .TRUE => some (.bool true)
  | .keyword .FALSE => some (.bool false)
  | .keyword .NULL => some .null
  | .var name => some (.var name)
  | .ident name => if allowName then some (.text name) else none
  | _ => none

/-- Reads an operand. -/
def operand (allowName : Bool) : Reader Operand := fun tokens =>
  match operandOf? allowName (kind tokens) with
  | some o => .ok (o, tokens.tail)
  | none => reject .operand tokens

/-- Reads a call. -/
def call : Reader Condition := fun tokens => do
  let (name, rest) ← name .ruleName tokens
  let rest ← sign .leftParen rest
  let (operands, rest) ← commaSeparated (operand true) rest
  let rest ← sign .rightParen rest
  return (.call name operands, rest)

/-- Reads the text after `CONTAINS`. -/
def containedText (f : Field) : Reader Condition := fun tokens =>
  match kind tokens with
  | .text s => .ok (.contains f s, tokens.tail)
  | _ => reject .containedText tokens

/-- Reads the pattern after `MATCHES`. -/
def pattern (f : Field) : Reader Condition := fun tokens =>
  match kind tokens with
  | .regex body flags => .ok (.matching f body flags, tokens.tail)
  | .text body => .ok (.matching f body "", tokens.tail)
  | _ => reject .pattern tokens

/-- Reads the test of a field. -/
def test (f : Field) : Reader Condition := fun tokens =>
  match kind tokens with
  | .operator op => do
    let (o, rest) ← operand false tokens.tail
    return (.compare f op o, rest)
  | .keyword .BETWEEN => do
    let (low, rest) ← number tokens.tail
    let rest ← keyword .AND rest
    let (high, rest) ← number rest
    return (.between f low high, rest)
  | .keyword .CONTAINS => containedText f tokens.tail
  | .keyword .MATCHES => pattern f tokens.tail
  | .keyword .IN => do
    let (o, rest) ← operand false tokens.tail
    return (.member f o, rest)
  | _ => reject .operator tokens

/-- Reads a field and its test. -/
def predicate : Reader Condition := fun tokens => do
  let (f, rest) ← field tokens
  test f rest

/-- Goes on with a clause to the right of what was read. The number bounds how many terms
follow. -/
def clauseFrom (term : Reader Clause) : Nat → Clause → Reader Clause
  | 0, left, tokens => .ok (left, tokens)
  | n + 1, left, tokens =>
    match kind tokens with
    | .keyword .AND => do
      let (right, rest) ← term tokens.tail
      clauseFrom term n (.both left right) rest
    | .keyword .OR => do
      let (right, rest) ← term tokens.tail
      clauseFrom term n (.either left right) rest
    | _ => .ok (left, tokens)

/-- Reads a clause of terms. -/
def clauseOf (term : Reader Clause) : Reader Clause := fun tokens => do
  let (left, rest) ← term tokens
  clauseFrom term rest.length left rest

/-- Reads a term. The number bounds how deep parentheses are nested; each takes a token, so the
number of tokens is enough. -/
def term : Nat → Reader Clause
  | 0, tokens => reject .condition tokens
  | n + 1, tokens =>
    match kind tokens with
    | .leftParen => do
      let (c, rest) ← clauseOf (term n) tokens.tail
      let rest ← sign .rightParen rest
      return (c, rest)
    | .ident _ => do
      let (c, rest) ← call tokens
      return (.condition c, rest)
    | .var _ => do
      let (c, rest) ← predicate tokens
      return (.condition c, rest)
    | _ => reject .condition tokens

/-- Reads a clause. -/
def clause : Reader Clause := fun tokens => clauseOf (term (tokens.length + 1)) tokens

/-- Reads a part of a query after the keyword that announces it. -/
def optional {α : Type} (word : Keyword) (part : Reader α) : Reader (Option α) := fun tokens =>
  match afterKeyword? word tokens with
  | some rest => do
    let (a, rest) ← part rest
    return (some a, rest)
  | none => .ok (none, tokens)

/-- Reads a direction, which is ascending where none is written. -/
def direction (tokens : List Token) : Direction × List Token :=
  match kind tokens with
  | .keyword .DESC => (.desc, tokens.tail)
  | .keyword .ASC => (.asc, tokens.tail)
  | _ => (.asc, tokens)

/-- Reads the order after `ORDER`. -/
def sortField : Reader SortField := fun tokens => do
  let rest ← keyword .BY tokens
  let (f, rest) ← field rest
  let (d, rest) := direction rest
  return (⟨f, d⟩, rest)

/-- The greatest number of rows that can be asked for. -/
def maxLimit : Nat := UInt64.size - 1

/-- Reads the number of rows after `LIMIT`. A greater number than can be asked for stands for the
greatest. -/
def limit : Reader Nat := fun tokens => do
  let (x, rest) ← number tokens
  -- a number that is negative or not whole is pointed at itself
  match Number.whole? x with
  | some (.ofNat n) => return (min n maxLimit, rest)
  | _ => reject .limit tokens

/-- Reads a query, and checks that nothing is left. -/
def query (tokens : List Token) : Except Rejection Query := do
  let rest ← keyword .FIND tokens
  let (entityType, rest) ← name .entityType rest
  let rest ← keyword .AS rest
  let (var, rest) ← var rest
  let (clause, rest) ← optional .WHERE clause rest
  let (returns, rest) ← optional .RETURN (commaSeparated field) rest
  let (sortField, rest) ← optional .ORDER sortField rest
  let (limit, rest) ← optional .LIMIT limit rest
  if kind rest = .finish then
    return { entityType, var, clause, returns := returns.getD [], sortField, limit }
  else reject .queryEnd rest

end Reader

/-- The error of a rejection: it is about the token where reading stopped. -/
def Rejection.error (r : Rejection) : Error :=
  let token := Reader.current r.rest
  ⟨.unexpected r.wanted token.kind, token.place, max 1 (Text.byteLength token.written)⟩

/-- Reads a query from tokens. -/
def Query.ofTokens (tokens : List Token) : Except Error Query :=
  (Reader.query tokens).mapError Rejection.error

/-- Reads a query from a text. The tokens have to be without fault before they are read. -/
def Query.parse (text : String) : Except (List Error) Query :=
  match tokenize text with
  | (tokens, []) => (Query.ofTokens tokens).mapError ([·])
  | (_, errors) => .error errors

end Factbase.Find
