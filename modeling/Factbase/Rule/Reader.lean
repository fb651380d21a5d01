import Factbase.Rule.Fault
import Factbase.Number.Numeral

/-! # Reading rules

The text of rules and goals:

    rule    := literal [ ":-" goals ] "."
    goals   := goal { "," goal }
    goal    := "not" "(" goal ")" | "(" goals { ";" goals } ")" | term operator term | literal
    literal := name "(" [ term { "," term } ] ")"
    term    := "?" name | string | number | "true" | "false" | "null" | name

A name in the place of a term is a text. White space and comments, from `%` to the end of the line,
may stand between any two of these. A reader takes the rest of the text and gives back what it read
with the rest that follows; it fails at a rest, and the length of that rest is what tells the offset
of the error. -/

namespace Factbase

/-- Where reading failed: the fault and the rest of the text at that point. -/
structure ReadFailure where
  fault : ReadFault
  rest : List Char

/-- A reader of some values. -/
abbrev RuleReader (α : Type) := List Char → Except ReadFailure (α × List Char)

namespace RuleReader

/-- Fails at a rest. -/
def fail {α : Type} (fault : ReadFault) (rest : List Char) : Except ReadFailure α :=
  .error ⟨fault, rest⟩

/-- The text without white space and comments in front; the flag tells whether a comment is
open. -/
def skipFrom (inComment : Bool) : List Char → List Char
  | [] => []
  | c :: rest =>
    if inComment then skipFrom (c != '\n') rest
    else if Text.isBlank c then skipFrom false rest
    else if c == '%' then skipFrom true rest
    else c :: rest

/-- The text without white space and comments in front. -/
def skip (text : List Char) : List Char := skipFrom false text

/-- Characters that start a name. -/
def startsName (c : Char) : Bool := Text.isAlphabetic c || c == '_'

/-- Characters that go on with a name. -/
def continuesName (c : Char) : Bool := Text.isAlphanumeric c || c == '_'

/-- Reads a name, if there is one. -/
def name? : List Char → Option (List Char × List Char)
  | [] => none
  | c :: rest =>
    if startsName c then some (c :: rest.takeWhile continuesName, rest.dropWhile continuesName)
    else none

/-- Reads a character after white space. -/
def expect (c : Char) (text : List Char) : Except ReadFailure (List Char) :=
  match skip text with
  | d :: rest => if d = c then .ok rest else fail (.missing c) (d :: rest)
  | [] => fail (.missing c) []

/-- Reads a string after its opening quote, up to the closing one. After a backslash `n` is a line
feed, `t` a tab, and any other character itself. -/
def stringBody? : List Char → Option (List Char × List Char)
  | [] => none
  | '"' :: rest => some ([], rest)
  | '\\' :: c :: rest =>
    (stringBody? rest).map fun (body, rest) =>
      ((if c = 'n' then '\n' else if c = 't' then '\t' else c) :: body, rest)
  | '\\' :: [] => none
  | c :: rest => (stringBody? rest).map fun (body, rest) => (c :: body, rest)

/-- Reads a number. -/
def number : RuleReader Float := fun text =>
  let written := Number.leadingNumeral text
  match Number.parse? written with
  | some x => .ok (x, text.drop written.length)
  | none => fail (.invalidNumber (String.ofList written)) text

/-- The constant that a name stands for. -/
def wordAtom (word : List Char) : Atom :=
  match String.ofList word with
  | "true" => .bool true
  | "false" => .bool false
  | "null" => .null
  | other => .text other

/-- Reads a term. -/
def term : RuleReader Term := fun text =>
  match skip text with
  | [] => fail .noTerm []
  | '?' :: rest =>
    match name? rest with
    | some (name, rest) => .ok (.ofName (String.ofList name), rest)
    | none => fail .noVariable rest
  | '"' :: rest =>
    match stringBody? rest with
    | some (body, rest) => .ok (.const (.text (String.ofList body)), rest)
    | none => fail .unterminatedText ('"' :: rest)
  | c :: rest =>
    if Text.isDigit c || c == '-' then do
      let (x, rest) ← number (c :: rest)
      return (.const (.number x), rest)
    else
      match name? (c :: rest) with
      | some (word, rest) => .ok (.const (wordAtom word), rest)
      | none => fail .noTerm (c :: rest)

/-- Reads elements with a separator between them, and white space after each. The number bounds how
many separators are read; each takes a character, so the length of the text is enough. -/
def separated {α : Type} (element : RuleReader α) (separator : Char) :
    Nat → RuleReader (List α)
  | 0, text => do
    let (a, rest) ← element text
    return ([a], skip rest)
  | n + 1, text => do
    let (a, rest) ← element text
    match skip rest with
    | [] => return ([a], [])
    | c :: rest =>
      if c = separator then
        let (as, rest) ← separated element separator n rest
        return (a :: as, rest)
      else return ([a], c :: rest)

/-- Reads the terms of a literal in their parentheses. -/
def terms : RuleReader (List Term) := fun text => do
  let rest ← expect '(' text
  match skip rest with
  | ')' :: rest => return ([], rest)
  | rest =>
    let (ts, rest) ← separated term ',' rest.length rest
    match rest with
    | ')' :: rest => return (ts, rest)
    | rest => fail (.missing ',') rest

/-- The comparison operators as written, longer ones first. -/
def operators : List (List Char × Comparison) :=
  [(['>', '='], .gte), (['<', '='], .lte), (['!', '='], .neq), (['=', '='], .eq), (['>'], .gt),
    (['<'], .lt), (['='], .eq)]

/-- Reads a comparison operator. -/
def comparison : RuleReader Comparison := fun text =>
  match operators.find? fun o => o.1.isPrefixOf text with
  | some (written, op) => .ok (op, text.drop written.length)
  | none => fail .noComparison text

/-- Reads a comparison of two terms. -/
def comparisonGoal : RuleReader Goal := fun text => do
  let (left, rest) ← term text
  let (op, rest) ← comparison (skip rest)
  let (right, rest) ← term rest
  return (.literal ⟨.compare op, [left, right]⟩, rest)

/-- The goal of branches in parentheses: a single goal stands for itself. -/
def choice : List (List Goal) → Goal
  | [[goal]] => goal
  | branches => .anyOf branches

/-- Reads a goal. The number bounds how deep goals are nested; each level takes a parenthesis, so
the length of the text is enough. -/
def goal : Nat → RuleReader Goal
  | 0, text => fail .noTerm text
  | n + 1, text =>
    let text := skip text
    match text with
    | '(' :: rest => do
      let conjunction : RuleReader (List Goal) := fun t => separated (goal n) ',' t.length t
      let (branches, rest) ← separated conjunction ';' rest.length rest
      let rest ← expect ')' rest
      return (choice branches, rest)
    | _ =>
      match name? text with
      | some (name, rest) =>
        match skip rest with
        | '(' :: inner =>
          if name = ['n', 'o', 't'] then do
            let (g, rest) ← goal n inner
            let rest ← expect ')' rest
            return (.not g, rest)
          else do
            let (ts, rest) ← terms ('(' :: inner)
            return (.literal (.named (String.ofList name) ts), rest)
        | _ => comparisonGoal text
      | none => comparisonGoal text

/-- Reads a conjunction of goals. -/
def goals : RuleReader (List Goal) := fun text =>
  separated (goal (text.length + 1)) ',' text.length text

/-- Reads a literal. -/
def literal : RuleReader Literal := fun text =>
  match name? (skip text) with
  | some (name, rest) => do
    let (ts, rest) ← terms rest
    return (.named (String.ofList name) ts, rest)
  | none => fail .noPredicate (skip text)

/-- Reads a rule. -/
def rule : RuleReader Rule := fun text => do
  let (head, rest) ← literal text
  let (body, rest) ← match skip rest with
    | ':' :: '-' :: rest => goals rest
    | rest => pure ([], rest)
  let rest ← expect '.' rest
  return (⟨head, body⟩, rest)

/-- Checks that nothing but white space is left. -/
def finish {α : Type} (a : α) (text : List Char) : Except ReadFailure α :=
  match skip text with
  | [] => .ok a
  | rest => fail .trailingInput rest

/-- Reads rules to the end of the text. The number bounds how many are read; each takes a
character, so the length of the text is enough. -/
def rules : Nat → List Char → Except ReadFailure (List Rule)
  | 0, text => finish [] text
  | n + 1, text =>
    match skip text with
    | [] => .ok []
    | text => do
      let (r, rest) ← rule text
      let rs ← rules n rest
      return r :: rs

/-- Turns a failure into an error with a byte offset into the text. -/
def located {α : Type} (text : List Char) : Except ReadFailure α → Except RuleError α
  | .ok a => .ok a
  | .error f =>
    .error (.unreadable (Text.byteLength text - Text.byteLength f.rest) f.fault f.rest.head?)

end RuleReader

/-- Reads one rule. -/
def Rule.parse (text : String) : Except RuleError Rule :=
  let chars := text.toList
  RuleReader.located chars do
    let (r, rest) ← RuleReader.rule chars
    RuleReader.finish r rest

/-- Reads a list of rules. -/
def Rule.parseAll (text : String) : Except RuleError (List Rule) :=
  let chars := text.toList
  RuleReader.located chars (RuleReader.rules chars.length chars)

/-- Reads a conjunction of goals, with or without a point at its end. -/
def Goal.parseAll (text : String) : Except RuleError (List Goal) :=
  let chars := text.toList
  RuleReader.located chars do
    let (gs, rest) ← RuleReader.goals chars
    match RuleReader.skip rest with
    | '.' :: rest => RuleReader.finish gs rest
    | rest => RuleReader.finish gs rest

end Factbase
