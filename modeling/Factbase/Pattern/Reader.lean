import Factbase.Pattern
import Factbase.Text.Property
import Factbase.Text.Script

/-! # Reading patterns

The usual notation of regular expressions, without back-references and conditions on the text
around a match. Options that are set inside a pattern hold to the end of the group; a text that is
no pattern gives `none`.

A reader works on a `Pattern.Cursor`: the rest of the text, the options that hold there, and the
names of the groups so far. Readers that recurse take a number that bounds their recursion; every
round consumes a character, so the length of the text is enough. -/

namespace Factbase.Pattern

/-- Options of a pattern. -/
structure Options where
  /-- Characters match up to case. -/
  caseless : Bool
  /-- The anchors match at lines. -/
  multiLine : Bool
  /-- The dot matches a line end. -/
  dotAll : Bool
  /-- A carriage return ends a line too. -/
  anyBreak : Bool
  /-- Classes go beyond ASCII. -/
  unicode : Bool
  /-- White space and comments are left out. -/
  spaced : Bool
deriving DecidableEq, Repr

/-- No option but `unicode`. -/
def Options.plain : Options := ⟨false, false, false, false, true, false⟩

/-- Where a reader stands. -/
structure Cursor where
  rest : List Char
  options : Options
  names : List (List Char)

/-- A reader of some values. -/
abbrev Reader := StateT Cursor Option

/-- An element of a pattern written by an escape. -/
inductive Escape where
  /-- A character; `isByte` when it was given by two hexadecimal digits. -/
  | char (c : Char) (isByte : Bool)
  | set (set : CharSet)
  | assertion (assertion : Assertion)

/-- An operation on sets of characters. -/
inductive SetOperation where
  | inter
  | diff
  | symmDiff
deriving DecidableEq, Repr

namespace Reader

/-- The rest without white space and comments in front; the flag tells whether a comment is
open. -/
def dropSpace (inComment : Bool) : List Char → List Char
  | [] => []
  | c :: rest =>
    if inComment then dropSpace (c != '\n') rest
    else if Text.isBlank c then dropSpace false rest
    else if c == '#' then dropSpace true rest
    else c :: rest

/-- Fails unless a condition holds. -/
def ensure (condition : Bool) : Reader Unit := if condition then pure () else failure

/-- The options that hold here. -/
def options : Reader Options := return (← get).options

/-- The next character, which has to be there. -/
def peek : Reader Char := do
  match (← get).rest with
  | c :: _ => return c
  | [] => failure

/-- The next character, if there is one. -/
def peek? : Reader (Option Char) := return (← get).rest.head?

/-- Whether the text goes on in a given way. -/
def sees (expected : List Char) : Reader Bool := return expected.isPrefixOf (← get).rest

/-- Goes on by some characters. -/
def skip (n : Nat) : Reader Unit := modify fun s => { s with rest := s.rest.drop n }

/-- Goes on past white space and comments, where they are left out. -/
def skipSpace : Reader Unit :=
  modify fun s => if s.options.spaced then { s with rest := dropSpace false s.rest } else s

/-- Goes on by a character and the space after it. -/
def advance : Reader Unit := do
  skip 1
  skipSpace

/-- Goes on by a character and the space after it, before the end of the text. -/
def advanceInside : Reader Unit := do
  advance
  let _ ← peek

/-- Goes on past an expected character. -/
def expect (c : Char) : Reader Unit := do
  ensure ((← peek) == c)
  skip 1

/-- Reads a word if the text goes on with it. -/
def accept (expected : List Char) : Reader Bool := do
  let found ← sees expected
  if found then skip expected.length
  return found

/-- Number of characters left. -/
def room : Reader Nat := return (← get).rest.length

/-- Reads characters as long as they pass a test, each with the space after it. -/
def takeSpaced (test : Char → Bool) : Nat → Reader (List Char)
  | 0 => return []
  | n + 1 => do
    match ← peek? with
    | none => return []
    | some c =>
      if test c then
        advance
        return c :: (← takeSpaced test n)
      else return []

/-- Takes a set up to case where the options say so. -/
def folded (set : CharSet) : Reader CharSet := do
  let o ← options
  return if !o.caseless then set else if o.unicode then .caseless set else .asciiCaseless set

/-- The complement of a set, where it is asked for. Outside of `unicode` it would not be a set of
ASCII characters. -/
def negatedIf (negated : Bool) (set : CharSet) : Reader CharSet := do
  if negated then
    ensure (← options).unicode
    return .compl set
  else return set

/-! ## Numerals and escapes -/

/-- Hexadecimal digits. -/
def isHexDigit (c : Char) : Bool :=
  Text.isDigit c || ('a' ≤ c && c ≤ 'f') || ('A' ≤ c && c ≤ 'F')

/-- The largest count that can be written. -/
def maxCount : Nat := UInt32.size - 1

/-- Reads a decimal numeral with blanks around it. -/
def count : Reader Nat := do
  modify fun s => { s with rest := s.rest.dropWhile Text.isBlank }
  let digits ← takeSpaced Text.isDigit (← room)
  let _ ← takeSpaced Text.isBlank (← room)
  ensure !digits.isEmpty
  let n := digits.foldl (fun n c => 10 * n + Text.hexDigit c) 0
  ensure (n ≤ maxCount)
  return n

/-- The character with a hexadecimal code point. -/
def charOfHex (digits : List Char) : Reader Char := do
  ensure (!digits.isEmpty && digits.all isHexDigit)
  let n := Text.hexValue digits
  ensure (decide (Nat.isValidChar n))
  return Char.ofNat n

/-- Reads a fixed number of hexadecimal digits. -/
def hexDigits : Nat → Reader (List Char)
  | 0 => return []
  | n + 1 => do
    let c ← peek
    ensure (isHexDigit c)
    advance
    return c :: (← hexDigits n)

/-- Reads a code point after its letter: in braces, or in a fixed number of digits. -/
def codePoint (digits : Nat) : Reader Escape := do
  advanceInside
  if (← peek) == '\x7b' then
    advance
    let hex ← takeSpaced (· != '\x7d') (← room)
    ensure ((← peek) == '\x7d')
    advance
    return .char (← charOfHex hex) false
  else
    let hex ← hexDigits digits
    return .char (← charOfHex hex) (digits == 2)

/-- The name of a property without case, separators and a leading `is`. -/
def normalName (written : List Char) : String :=
  let plain := fun cs : List Char =>
    (cs.filter fun c => c != ' ' && c != '_' && c != '-' && c.toNat < 128).map Char.toLower
  match written with
  | i :: s :: rest =>
    if i.toLower == 'i' && s.toLower == 's' then
      if plain rest == ['c'] then "isc" else String.ofList (plain rest)
    else String.ofList (plain written)
  | _ => String.ofList (plain written)

/-- The characters of a property, a set of general categories, or a script. -/
def namedTest? (written : List Char) : Option (Char → Bool) :=
  let name := normalName written
  let property := if name == "sc" || name == "lc" || name == "cf" then none
    else Text.property? name
  property.or ((Text.categoryTest? name).or
    ((Text.scriptRuns? name).map fun runs c => Text.Runs.has runs c.toNat))

/-- The characters for which a property has a value. -/
def valuedTest? (property value : List Char) : Option (Char → Bool) :=
  match normalName property with
  | "gc" | "generalcategory" => Text.categoryTest? (normalName value)
  | "sc" | "script" =>
    (Text.scriptRuns? (normalName value)).map fun runs c => Text.Runs.has runs c.toNat
  | _ => none

/-- Splits a text at a separator. -/
def splitAt? (separator : List Char) : List Char → Option (List Char × List Char)
  | [] => none
  | c :: rest =>
    if separator.isPrefixOf (c :: rest) then some ([], (c :: rest).drop separator.length)
    else (splitAt? separator rest).map fun (before, after) => (c :: before, after)

/-- The characters that the inside of the braces of a property names, and whether those are
excluded. -/
def propertyTest? (inside : List Char) : Option (Bool × (Char → Bool)) :=
  match splitAt? ['!', '='] inside with
  | some (property, value) => (valuedTest? property value).map fun test => (true, test)
  | none =>
    match (splitAt? [':'] inside).or (splitAt? ['='] inside) with
    | some (property, value) => (valuedTest? property value).map fun test => (false, test)
    | none => (namedTest? inside).map fun test => (false, test)

/-- States that an automaton takes for a property, as a rule. -/
def propertyStates : Nat := 800

/-- Reads a property after the backslash. -/
def property : Reader Escape := do
  let negated := (← peek) == 'P'
  advanceInside
  let c ← peek
  let inside ←
    if c == '\x7b' then do
      advance
      let inside ← takeSpaced (· != '\x7d') (← room)
      expect '\x7d'
      pure inside
    else do
      ensure (c != '\\')
      advance
      pure [c]
  ensure (← options).unicode
  match propertyTest? inside with
  | some (excluded, test) =>
    return .set (← negatedIf (negated != excluded) (← folded (.satisfying test propertyStates)))
  | none => failure

/-- The ASCII white space. -/
def isAsciiBlank (c : Char) : Bool := c == ' ' || (9 ≤ c.toNat && c.toNat ≤ 13)

/-- The ASCII characters of words. -/
def isAsciiWord (c : Char) : Bool := Text.isLetter c || Text.isDigit c || c == '_'

/-- The characters of words. -/
def wordTest : Reader (Char → Bool) := do
  return if (← options).unicode then Text.isWordCharacter else isAsciiWord

/-- The digits, blanks or word characters that a letter stands for. -/
def shorthand (letter : Char) : Reader Escape := do
  let unicode := (← options).unicode
  let set : CharSet ← match letter.toLower with
    | 'd' =>
      pure (if unicode then .satisfying Text.Category.decimalNumber.has 162
        else .satisfying Text.isDigit 2)
    | 's' => pure (if unicode then .satisfying Text.isBlank 21 else .satisfying isAsciiBlank 2)
    | _ => pure (.satisfying (← wordTest) (if unicode then 1470 else 3))
  return .set (← negatedIf letter.isUpper set)

/-- Letters and dashes. -/
def isBoundaryName (c : Char) : Bool := Text.isLetter c || c == '-'

/-- The boundary of words after the letter `b`: any, or the one that a name in braces says. Braces
without a name are left for a repetition. -/
def boundary : Reader Assertion := do
  let isWord ← wordTest
  let before ← get
  if (← peek?) == some '\x7b' then
    advance
    if isBoundaryName (← peek) then
      let name ← takeSpaced isBoundaryName (← room)
      expect '\x7d'
      match String.ofList name with
      | "start" => return .wordStart isWord
      | "end" => return .wordEnd isWord
      | "start-half" => return .noWordBefore isWord
      | "end-half" => return .noWordAfter isWord
      | _ => failure
    else
      set before
      return .wordBoundary isWord
  else return .wordBoundary isWord

/-- ASCII characters that stand for themselves after a backslash. -/
def isEscapable (c : Char) : Bool :=
  c.toNat < 128 && !Text.isLetter c && !Text.isDigit c && c != '<' && c != '>'

/-- Reads an escape from its backslash on. -/
def escape : Reader Escape := do
  skip 1
  let c ← peek
  match c with
  | 'x' => codePoint 2
  | 'u' => codePoint 4
  | 'U' => codePoint 8
  | 'p' | 'P' => property
  | 'd' | 's' | 'w' | 'D' | 'S' | 'W' => do
    skip 1
    shorthand c
  | _ => do
    skip 1
    if isEscapable c then return .char c false
    match c with
    | 'a' => return .char '\x07' false
    | 'f' => return .char '\x0c' false
    | 't' => return .char '\t' false
    | 'n' => return .char '\n' false
    | 'r' => return .char '\r' false
    | 'v' => return .char '\x0b' false
    | 'A' => return .assertion .textStart
    | 'z' => return .assertion .textEnd
    | 'b' => return .assertion (← boundary)
    | 'B' => return .assertion (.noWordBoundary (← wordTest))
    | '<' => return .assertion (.wordStart (← wordTest))
    | '>' => return .assertion (.wordEnd (← wordTest))
    | _ => failure

/-! ## Sets in brackets -/

/-- The union of sets in reverse order; a single one stands for itself. -/
def unionOf : List CharSet → CharSet
  | [set] => set
  | sets => .union sets.reverse

/-- Applies a pending operation. -/
def combine (pending : Option (SetOperation × CharSet)) (right : CharSet) : Reader CharSet := do
  match pending with
  | none => return right
  | some (operation, left) =>
    let left ← folded left
    let right ← folded right
    return match operation with
      | .inter => .inter left right
      | .diff => .diff left right
      | .symmDiff => .symmDiff left right

/-- The characters of a named ASCII class. -/
def asciiClass? (name : List Char) : Option (Char → Bool) :=
  let isGraph := fun c : Char => 33 ≤ c.toNat && c.toNat ≤ 126
  let isAlnum := fun c => Text.isLetter c || Text.isDigit c
  match String.ofList name with
  | "alnum" => some isAlnum
  | "alpha" => some Text.isLetter
  | "ascii" => some fun c => c.toNat < 128
  | "blank" => some fun c => c == ' ' || c == '\t'
  | "cntrl" => some fun c => c.toNat < 32 || c.toNat == 127
  | "digit" => some Text.isDigit
  | "graph" => some isGraph
  | "lower" => some fun c => 'a' ≤ c && c ≤ 'z'
  | "print" => some fun c => isGraph c || c == ' '
  | "punct" => some fun c => isGraph c && !isAlnum c
  | "space" => some isAsciiBlank
  | "upper" => some fun c => 'A' ≤ c && c ≤ 'Z'
  | "word" => some isAsciiWord
  | "xdigit" => some isHexDigit
  | _ => none

/-- An ASCII class such as `[:alpha:]` or `[:^alpha:]` at the start of a text, with its length. -/
def asciiClassAt? (text : List Char) : Option (Nat × Bool × (Char → Bool)) :=
  match text with
  | '[' :: ':' :: rest =>
    let negated := rest.head? == some '^'
    let rest := if negated then rest.drop 1 else rest
    let name := rest.takeWhile (· != ':')
    match rest.drop name.length with
    | ':' :: ']' :: _ =>
      (asciiClass? name).map fun test => (name.length + 4 + negated.toNat, negated, test)
    | _ => none
  | _ => none

/-- A single character of a set. -/
def memberChar : Escape → Reader Char
  | .char c _ => do
    ensure ((← options).unicode || c.toNat < 128)
    return c
  | _ => failure

/-- Reads one member of a set, not yet a range. -/
def member : Reader Escape := do
  let c ← peek
  if c == '\\' then escape
  else
    skip 1
    return .char c false

/-- Whether a range goes on here: a dash that is neither the last character of the set nor the
start of an operation. -/
def seesRange : Reader Bool := do
  let s ← get
  match s.rest with
  | '-' :: rest =>
    let next := (if s.options.spaced then dropSpace false rest else rest).head?
    return next != some ']' && next != some '-'
  | _ => return false

/-- Reads a character, a range or a named set. -/
def memberOrRange : Reader CharSet := do
  let first ← member
  skipSpace
  let _ ← peek
  if ← seesRange then
    advanceInside
    let last ← member
    let a ← memberChar first
    let b ← memberChar last
    ensure (a ≤ b)
    return .range a b
  else
    match first with
    | .set set => return set
    | .assertion _ => failure
    | .char _ _ => return .one (← memberChar first)

/-- Reads dashes at the start of a set. -/
def leadingDashes : Nat → Reader (List CharSet)
  | 0 => return []
  | n + 1 => do
    if (← peek) == '-' then
      advanceInside
      return .one '-' :: (← leadingDashes n)
    else return []

/-- Reads the opening of a set: whether it is a complement, and the dashes or the bracket that stand
for themselves there. -/
def openSet : Reader (Bool × List CharSet) := do
  advanceInside
  let negated := (← peek) == '^'
  if negated then advanceInside
  let dashes ← leadingDashes (← room)
  if dashes.isEmpty && (← peek) == ']' then
    advanceInside
    return (negated, [.one ']'])
  else return (negated, dashes)

/-- The operation that starts here. -/
def operation? : Reader (Option SetOperation) := do
  if ← sees ['&', '&'] then return some .inter
  else if ← sees ['-', '-'] then return some .diff
  else if ← sees ['~', '~'] then return some .symmDiff
  else return none

/-- Reads the inside of a set to its closing bracket. The sets read since the last operation are in
reverse order; operations group to the left. -/
def setBody : Nat → Bool → Option (SetOperation × CharSet) → List CharSet → Reader CharSet
  | 0, _, _, _ => failure
  | n + 1, negated, pending, sets => do
    skipSpace
    match ← peek with
    | ']' =>
      skip 1
      let set ← combine pending (unionOf sets)
      return .bracketed (← negatedIf negated (← folded set))
    | '[' =>
      match asciiClassAt? (← get).rest with
      | some (length, isCompl, test) =>
        skip length
        let set ← negatedIf isCompl (← folded (.satisfying test 3))
        setBody n negated pending (set :: sets)
      -- a bracket that names no class opens a set inside the set
      | none =>
        let (innerNegated, dashes) ← openSet
        let set ← setBody n innerNegated none dashes
        setBody n negated pending (set :: sets)
    | _ =>
      match ← operation? with
      | some operation =>
        skip 2
        let left ← combine pending (unionOf sets)
        setBody n negated (some (operation, left)) []
      | none => setBody n negated pending ((← memberOrRange) :: sets)

/-- Reads a set from its opening bracket on. -/
def bracketSet : Reader CharSet := do
  let (negated, dashes) ← openSet
  setBody ((← room) + 1) negated none dashes

/-! ## Groups -/

/-- The options with one of them switched. -/
def switch (o : Options) (letter : Char) (on : Bool) : Option Options :=
  match letter with
  | 'i' => some { o with caseless := on }
  | 'm' => some { o with multiLine := on }
  | 's' => some { o with dotAll := on }
  | 'R' => some { o with anyBreak := on }
  | 'u' => some { o with unicode := on }
  | 'x' => some { o with spaced := on }
  | 'U' => some o
  | _ => none

/-- Reads option letters up to a colon or a closing parenthesis. Those after a dash are switched
off; no letter stands twice, and a dash stands before a letter. -/
def switches : Nat → List Char → Options → Reader Options
  | 0, _, _ => failure
  | n + 1, seen, o => do
    let c ← peek
    if c == ':' || c == ')' then
      ensure (seen.head? != some '-')
      return o
    else
      ensure !seen.contains c
      skip 1
      if c == '-' then switches n (c :: seen) o
      else
        match switch o c (!seen.contains '-') with
        | some o => switches n (c :: seen) o
        | none => failure

/-- Reads the name of a group to its closing angle bracket. -/
def groupName : Reader Unit := do
  let s ← get
  let name := s.rest.takeWhile (· != '>')
  match name with
  | [] => failure
  | c :: more =>
    ensure (Text.isAlphabetic c || c == '_')
    ensure (more.all fun c =>
      Text.isAlphanumeric c || c == '_' || c == '.' || c == '[' || c == ']')
    ensure !s.names.contains name
    modify fun s => { s with names := name :: s.names }
    skip name.length
    expect '>'

/-- Reads the opening of a group. Gives the options inside the group, or none when the parentheses
only switch options. -/
def openGroup : Reader (Option Options) := do
  skip 1
  skipSpace
  -- nothing can be said about the text around a match
  ensure !((← sees ['?', '=']) || (← sees ['?', '!']) || (← sees ['?', '<', '=']) ||
    (← sees ['?', '<', '!']))
  let o ← options
  if (← accept ['?', 'P', '<']) || (← accept ['?', '<']) then
    groupName
    return some o
  else if ← accept ['?'] then
    let first ← peek
    let o ← switches ((← room) + 1) [] o
    let last ← peek
    skip 1
    -- the switch holds from here to the end of the group around it
    if last == ')' then
      ensure (first != ')')
      modify fun s => { s with options := o }
      return none
    else return some o
  else return some o

/-! ## Patterns -/

/-- The pattern of a single character. -/
def charPattern (c : Char) (isByte : Bool) : Reader Pattern := do
  ensure ((← options).unicode || !isByte || c.toNat < 128)
  return .char (← folded (.one c))

/-- The pattern of a dot. -/
def dot : Reader Pattern := do
  let o ← options
  ensure o.unicode
  let test := fun c => o.dotAll || (c != '\n' && !(o.anyBreak && c == '\r'))
  return .char (.satisfying test 31)

/-- Reads a single element. -/
def element : Reader Pattern := do
  let o ← options
  let c ← peek
  match c with
  | '\\' =>
    match ← escape with
    | .char c isByte => charPattern c isByte
    | .set set => return .char set
    | .assertion c => return .assertion c
  | '[' => return .char (← bracketSet)
  | _ =>
    skip 1
    match c with
    | '.' => dot
    | '^' =>
      return .assertion (if !o.multiLine then .textStart
        else if o.anyBreak then .lineStartAnyBreak else .lineStart)
    | '$' =>
      return .assertion (if !o.multiLine then .textEnd
        else if o.anyBreak then .lineEndAnyBreak else .lineEnd)
    | _ => charPattern c false

/-- Reads the counts of a repetition in their braces. -/
def counts : Reader (Nat × Option Nat) := do
  advanceInside
  let least ← count
  let most ←
    if (← peek) == ',' then do
      advanceInside
      if (← peek) == '\x7d' then pure none else pure (some (← count))
    else pure (some least)
  ensure ((← peek) == '\x7d')
  advance
  ensure (most.all (least ≤ ·))
  return (least, most)

/-- Reads a repetition sign. -/
def repetitionSign : Reader (Nat × Option Nat) := do
  let c ← peek
  let range ← if c == '\x7b' then counts else do
    skip 1
    pure (if c == '?' then (0, some 1) else if c == '*' then (0, none) else (1, none))
  let _ ← accept ['?']
  return range

/-- Reads branches to the end of the text or to a closing parenthesis, which is left. The branches
before and the parts of this branch are in reverse order. A switch of options leaves the empty
pattern, which cannot be repeated. -/
def branches : Nat → List Pattern → List Pattern → Reader Pattern
  | 0, _, _ => failure
  | n + 1, done, parts => do
    skipSpace
    let finished := Pattern.ofBranches (Pattern.ofParts parts.reverse :: done).reverse
    match ← peek? with
    | none => return finished
    | some ')' => return finished
    | some '|' =>
      skip 1
      branches n (Pattern.ofParts parts.reverse :: done) []
    | some '(' =>
      let outside ← options
      match ← openGroup with
      | none => branches n done (.empty :: parts)
      | some inside =>
        modify fun s => { s with options := inside }
        let body ← branches n [] []
        expect ')'
        modify fun s => { s with options := outside }
        branches n done (.group body :: parts)
    | some c =>
      if c == '?' || c == '*' || c == '+' || c == '\x7b' then
        -- a repetition sign takes the part before it, which has to be there
        match parts with
        | [] => failure
        | .empty :: _ => failure
        | body :: parts =>
          let (least, most) ← repetitionSign
          branches n done (.repetition body least most :: parts)
      else branches n done ((← element) :: parts)

end Reader

/-- Reads a pattern. -/
def parse? (options : Options) (text : List Char) : Option Pattern := do
  let (p, s) ← (Reader.branches (text.length + 1) [] []).run ⟨text, options, []⟩
  if s.rest.isEmpty && p.isUsable then some p else none

end Factbase.Pattern
