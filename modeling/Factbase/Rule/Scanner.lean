import Factbase.Rule.Reader

/-! # Scanning rules

Rules and goals read at a position in the text, which is given in bytes. The position moves on by
what was read, and back where a name turns out to be the first term of a comparison.

A byte position may be within a character. There the text cannot be divided, and a scan that
divides it there or moves there gives `none`. Loops are repeated rounds, and each round tells
whether there is another. A limit bounds the rounds of a loop and the depth to which goals are
nested; a scan that goes past it gives `none` too, so one that does so for every limit does not
come to an end. -/

namespace Factbase

/-- Divides a text at a byte position, unless it is within a character or past the end. -/
def Text.divide? : List Char → Nat → Option (List Char × List Char)
  | text, 0 => some ([], text)
  | [], _ + 1 => none
  | c :: text, n + 1 =>
    if n + 1 < c.utf8Size then none
    else (divide? text (n + 1 - c.utf8Size)).map fun (front, back) => (c :: front, back)

/-- What a round of a loop ends with. -/
inductive Round (σ α : Type) where
  /-- There is another round. -/
  | again (state : σ)
  | last (result : α)

/-- A text to scan, with the limit for loops and nested goals. -/
structure ScanInput where
  text : List Char
  limit : Nat

/-- Reading at a byte position in a text. -/
abbrev Scan (α : Type) := ReaderT ScanInput (StateT Nat (ExceptT RuleError Option)) α

namespace Scan

open RuleReader (startsName continuesName wordAtom operators choice)

/-- The result and the position after a scan that starts at a position. -/
def run {α : Type} (scan : Scan α) (input : ScanInput) (position : Nat) :
    Option (Except RuleError (α × Nat)) :=
  scan input position

/-- Past the limit. -/
def stuck {α : Type} : Scan α := liftM (none : Option α)

/-- Repeats a round until there is no other one, as often as the number says at most. -/
def loopWithin {σ α : Type} (round : σ → Scan (Round σ α)) : Nat → σ → Scan α
  | 0, _ => stuck
  | n + 1, state => do
    match ← round state with
    | .again state => loopWithin round n state
    | .last result => return result

/-- Repeats a round until there is no other one. -/
def loop {σ α : Type} (round : σ → Scan (Round σ α)) (state : σ) : Scan α := do
  loopWithin round (← read).limit state

/-! ## Characters -/

/-- The text after a position. -/
def textAt (position : Nat) : Scan (List Char) := do
  let (_, rest) ← liftM (Text.divide? (← read).text position)
  return rest

/-- The text that is still to be read. -/
def rest : Scan (List Char) := do textAt (← get)

/-- The text between an earlier position and this one. -/
def textSince (start : Nat) : Scan (List Char) := do
  let (written, _) ← liftM (Text.divide? (← textAt start) ((← get) - start))
  return written

/-- Moves to another position. -/
def moveTo (position : Nat) : Scan Unit := do
  let _ ← textAt position
  set position

/-- Moves on by some bytes. -/
def advance (bytes : Nat) : Scan Unit := do moveTo ((← get) + bytes)

/-- The next character. -/
def peek : Scan (Option Char) := return (← rest).head?

def atEnd : Scan Bool := return decide (Text.byteLength (← read).text ≤ (← get))

/-- Reads the next character. -/
def bump : Scan (Option Char) := do
  match ← peek with
  | some c =>
    advance c.utf8Size
    return some c
  | none => return none

/-- Reads a character if it is the next one. -/
def eat (expected : Char) : Scan Bool := do
  if (← peek) = some expected then
    let _ ← bump
    return true
  else return false

/-- Reads some characters if they are the next ones. -/
def eatText (expected : List Char) : Scan Bool := do
  if expected.isPrefixOf (← rest) then
    advance (Text.byteLength expected)
    return true
  else return false

/-- Fails at a position. -/
def failAt {α : Type} (position : Nat) (fault : ReadFault) : Scan α := do
  throw (.unreadable position fault (← textAt position).head?)

/-- Fails at this position. -/
def fail {α : Type} (fault : ReadFault) : Scan α := do failAt (← get) fault

/-! ## White space and comments -/

def commentRound (_ : Unit) : Scan (Round Unit Unit) := do
  match ← bump with
  | some c => return if c = '\n' then .last () else .again ()
  | none => return .last ()

def skipRound (_ : Unit) : Scan (Round Unit Unit) := do
  match ← peek with
  | some c =>
    if Text.isBlank c then
      let _ ← bump
      return .again ()
    else if c = '%' then
      loop commentRound ()
      return .again ()
    else return .last ()
  | none => return .last ()

/-- Skips white space and comments. -/
def skip : Scan Unit := loop skipRound ()

/-- Reads a character after white space. -/
def expect (c : Char) : Scan Unit := do
  skip
  if ← eat c then return () else fail (.missing c)

/-- Checks that nothing but white space is left. -/
def expectEnd : Scan Unit := do
  skip
  if ← atEnd then return () else fail .trailingInput

/-! ## Terms -/

/-- Reads a name, if there is one. -/
def name? : Scan (Option (List Char)) := do
  let rest ← rest
  match rest with
  | [] => return none
  | c :: more =>
    if startsName c then
      let size := Text.byteLength (c :: more.takeWhile continuesName)
      advance size
      let (name, _) ← liftM (Text.divide? rest size)
      return some name
    else return none

def quotedRound (body : List Char) : Scan (Round (List Char) (Option (List Char))) := do
  match ← bump with
  | none => return .last none
  | some c =>
    if c = '"' then return .last (some body)
    else if c = '\\' then
      match ← bump with
      | none => return .last none
      | some d => return .again (body ++ [if d = 'n' then '\n' else if d = 't' then '\t' else d])
    else return .again (body ++ [c])

/-- Reads a quoted text from its opening quote, if it is closed. -/
def quotedText? : Scan (Option (List Char)) := do
  let _ ← bump
  loop quotedRound []

/-- Reads a quoted text. -/
def quotedText : Scan (List Char) := do
  let start ← get
  match ← quotedText? with
  | some body => return body
  | none => failAt start .unterminatedText

def digitsRound (_ : Unit) : Scan (Round Unit Unit) := do
  match ← peek with
  | some c =>
    if Text.isDigit c then
      let _ ← bump
      return .again ()
    else return .last ()
  | none => return .last ()

/-- Reads digits. -/
def digits : Scan Unit := loop digitsRound ()

/-- Reads a point and digits, if a digit follows the point. -/
def fraction : Scan Unit := do
  let rest ← rest
  if rest.head? = some '.' then
    let (_, more) ← liftM (Text.divide? rest 1)
    if more.head?.any Text.isDigit then
      let _ ← bump
      digits
    else return ()
  else return ()

/-- Moves past a number. -/
def passNumeral : Scan Unit := do
  let _ ← eat '-'
  digits
  fraction

/-- Reads the characters of a number. -/
def numeral : Scan (List Char) := do
  let start ← get
  passNumeral
  textSince start

/-- Reads a number. -/
def number : Scan Float := do
  let start ← get
  let written ← numeral
  match Number.parse? written with
  | some x => return x
  | none => failAt start (.invalidNumber (String.ofList written))

/-- Reads a term. -/
def term : Scan Term := do
  skip
  match ← peek with
  | none => fail .noTerm
  | some c =>
    if c = '?' then
      let _ ← bump
      match ← name? with
      | some name => return .ofName (String.ofList name)
      | none => fail .noVariable
    else if c = '"' then return .const (.text (String.ofList (← quotedText)))
    else if Text.isDigit c || c == '-' then return .const (.number (← number))
    else
      match ← name? with
      | some word => return .const (wordAtom word)
      | none => fail .noTerm

/-! ## Literals and goals -/

/-- Reads what follows a term of a literal, and tells whether it is another term. -/
def anotherTerm : Scan Bool := do
  skip
  if ← eat ')' then return false
  else
    expect ','
    return true

def termsRound (read : List Term) : Scan (Round (List Term) (List Term)) := do
  let t ← term
  if ← anotherTerm then return .again (read ++ [t]) else return .last (read ++ [t])

/-- Reads the terms of a literal in their parentheses. -/
def terms : Scan (List Term) := do
  expect '('
  skip
  if ← eat ')' then return [] else loop termsRound []

/-- Reads a literal. -/
def literal : Scan Literal := do
  skip
  match ← name? with
  | some name => return .named (String.ofList name) (← terms)
  | none => fail .noPredicate

/-- Reads the first of some operators that is written next. -/
def operatorAmong : List (List Char × Comparison) → Scan (Option Comparison)
  | [] => return none
  | (written, op) :: others => do
    if ← eatText written then return some op else operatorAmong others

/-- Reads a comparison operator. -/
def comparison : Scan Comparison := do
  match ← operatorAmong operators with
  | some op => return op
  | none => fail .noComparison

/-- Reads a comparison of two terms. -/
def comparisonGoal : Scan Goal := do
  let left ← term
  skip
  let op ← comparison
  let right ← term
  return .literal ⟨.compare op, [left, right]⟩

/-- Reads a name if a parenthesis opens after it, and goes back to the start of it otherwise. -/
def calledName? : Scan (Option (List Char)) := do
  let start ← get
  match ← name? with
  | none => return none
  | some name =>
    skip
    if (← peek) = some '(' then return some name
    else
      moveTo start
      return none

section Goals

variable (goal : Scan Goal)

def goalsRound (read : List Goal) : Scan (Round (List Goal) (List Goal)) := do
  skip
  if ← eat ',' then return .again (read ++ [← goal]) else return .last read

/-- Reads a conjunction of goals. -/
def conjunction : Scan (List Goal) := do loop (goalsRound goal) [← goal]

def branchesRound (read : List (List Goal)) :
    Scan (Round (List (List Goal)) (List (List Goal))) := do
  skip
  if ← eat ';' then return .again (read ++ [← conjunction goal]) else return .last read

/-- Reads the branches in parentheses. -/
def branches : Scan (List (List Goal)) := do loop (branchesRound goal) [← conjunction goal]

end Goals

/-- Reads a goal in which goals are nested as deep as the number says at most. -/
def goalWithin : Nat → Scan Goal
  | 0 => stuck
  | n + 1 => do
    skip
    if (← peek) = some '(' then
      let _ ← bump
      let read ← branches (goalWithin n)
      expect ')'
      return choice read
    else
      match ← calledName? with
      | none => comparisonGoal
      | some name =>
        if name = ['n', 'o', 't'] then
          let _ ← bump
          let inner ← goalWithin n
          expect ')'
          return .not inner
        else return .literal (.named (String.ofList name) (← terms))

/-- Reads a goal. -/
def goal : Scan Goal := do goalWithin (← read).limit

/-- Reads a conjunction of goals. -/
def goals : Scan (List Goal) := conjunction goal

/-! ## Rules -/

/-- Reads the body of a rule, if there is one. -/
def body : Scan (List Goal) := do
  skip
  if ← eatText [':', '-'] then goals else return []

/-- Reads a rule. -/
def rule : Scan Rule := do
  skip
  let head ← literal
  let goals ← body
  expect '.'
  return ⟨head, goals⟩

def rulesRound (read : List Rule) : Scan (Round (List Rule) (List Rule)) := do
  skip
  if ← atEnd then return .last read else return .again (read ++ [← rule])

/-- What a scan makes of a text from its start. -/
def ofText {α : Type} (scan : Scan α) (limit : Nat) (text : String) :
    Option (Except RuleError α) :=
  (scan.run ⟨text.toList, limit⟩ 0).map fun result => result.map Prod.fst

end Scan

/-- Scans one rule. -/
def Rule.scan : Nat → String → Option (Except RuleError Rule) :=
  Scan.ofText do
    let rule ← Scan.rule
    Scan.expectEnd
    return rule

/-- Scans a list of rules. -/
def Rule.scanAll : Nat → String → Option (Except RuleError (List Rule)) :=
  Scan.ofText (Scan.loop Scan.rulesRound [])

/-- Scans a conjunction of goals, with or without a point at its end. -/
def Goal.scanAll : Nat → String → Option (Except RuleError (List Goal)) :=
  Scan.ofText do
    let goals ← Scan.goals
    Scan.skip
    let _ ← Scan.eat '.'
    Scan.expectEnd
    return goals

end Factbase
