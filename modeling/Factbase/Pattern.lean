import Factbase.Text.Case

/-! # Patterns

A `Pattern` is a regular expression over characters: sets of characters, assertions about a
position, sequences, choices and repetitions. Case and other options are already worked into it: a
set that is taken up to case is `caseless`, and an assertion says which lines and words it means.

`CharSet.has` is membership in a set and `Assertion.holds` truth at a position between two
characters. What a pattern matches is in `Factbase.Pattern.Search`, how it is written in
`Factbase.Pattern.Reader`. -/

namespace Factbase

/-- A set of characters. -/
inductive CharSet where
  | one (c : Char)
  | range (first last : Char)
  /-- The characters that pass a test; `states` is about what an automaton takes for them. -/
  | satisfying (test : Char → Bool) (states : Nat)
  | union (sets : List CharSet)
  | inter (a b : CharSet)
  | diff (a b : CharSet)
  /-- The characters of one but not of both. -/
  | symmDiff (a b : CharSet)
  | compl (set : CharSet)
  /-- The characters that are equal to a member up to case. -/
  | caseless (set : CharSet)
  /-- The characters of which a member is an ASCII variant. -/
  | asciiCaseless (set : CharSet)
  /-- A set in brackets. -/
  | bracketed (set : CharSet)

/-- An assertion about a position of a text. -/
inductive Assertion where
  | textStart
  | textEnd
  | lineStart
  | lineEnd
  /-- As `lineStart`, where a carriage return ends a line too. -/
  | lineStartAnyBreak
  | lineEndAnyBreak
  | wordBoundary (isWord : Char → Bool)
  | noWordBoundary (isWord : Char → Bool)
  | wordStart (isWord : Char → Bool)
  | wordEnd (isWord : Char → Bool)
  /-- No word goes on from before. -/
  | noWordBefore (isWord : Char → Bool)
  /-- No word goes on after. -/
  | noWordAfter (isWord : Char → Bool)

/-- A regular expression. -/
inductive Pattern where
  | empty
  | char (set : CharSet)
  | assertion (assertion : Assertion)
  | sequence (parts : List Pattern)
  | choice (branches : List Pattern)
  /-- At least `least` and at most `most` times; no most means any number of times. -/
  | repetition (body : Pattern) (least : Nat) (most : Option Nat)
  | group (body : Pattern)

namespace CharSet

mutual

/-- Membership. -/
def has : CharSet → Char → Bool
  | .one a, c => c == a
  | .range a b, c => a ≤ c && c ≤ b
  | .satisfying test _, c => test c
  | .union sets, c => anyHas sets c
  | .inter a b, c => has a c && has b c
  | .diff a b, c => has a c && !has b c
  | .symmDiff a b, c => has a c != has b c
  | .compl set, c => !has set c
  | .caseless set, c => (Text.caseOrbit c.toNat).any fun n => has set (Char.ofNat n)
  | .asciiCaseless set, c => has set c || has set c.toLower || has set c.toUpper
  | .bracketed set, c => has set c

/-- Membership in one of the sets. -/
def anyHas : List CharSet → Char → Bool
  | [], _ => false
  | set :: rest, c => has set c || anyHas rest c

end

mutual

/-- How deep sets are nested as they are written. -/
def depth : CharSet → Nat
  | .union sets => depthEach sets + 1
  | .inter a b => max (depth a) (depth b) + 1
  | .diff a b => max (depth a) (depth b) + 1
  | .symmDiff a b => max (depth a) (depth b) + 1
  | .compl set => depth set
  | .caseless set => depth set
  | .asciiCaseless set => depth set
  | .bracketed set => depth set + 1
  | _ => 0

/-- The greatest depth of some sets. -/
def depthEach : List CharSet → Nat
  | [] => 0
  | set :: rest => max (depth set) (depthEach rest)

end

mutual

/-- About how many states an automaton takes for one character of the set: one for every byte of a
single character, few for a range, hundreds for a property. A complement also takes all that is not
ASCII, which are 26 states more. -/
def size : CharSet → Nat
  | .one c => c.utf8Size
  | .range _ b => if b.toNat < 128 then 2 else 8
  | .satisfying _ states => states
  | .union sets => sizeEach sets
  | .inter a b => max (size a) (size b)
  | .diff a b => size a + size b
  | .symmDiff a b => size a + size b
  | .compl set => size set + 26
  | .caseless set => size set + 1
  | .asciiCaseless set => size set + 1
  | .bracketed set => size set

/-- The size of a union. -/
def sizeEach : List CharSet → Nat
  | [] => 1
  | set :: rest => max (size set) (sizeEach rest)

end

end CharSet

namespace Assertion

/-- Whether a neighbour of a position is a character of a kind. -/
def isNear (test : Char → Bool) (neighbour : Option Char) : Bool := neighbour.any test

/-- Truth at the position between two characters, of which the first is missing at the start of the
text and the second at its end. -/
def holds (assertion : Assertion) (before after : Option Char) : Bool :=
  match assertion with
  | .textStart => before.isNone
  | .textEnd => after.isNone
  | .lineStart => before.isNone || before == some '\n'
  | .lineEnd => after.isNone || after == some '\n'
  | .lineStartAnyBreak =>
    before.isNone || before == some '\n' || (before == some '\r' && after != some '\n')
  | .lineEndAnyBreak =>
    after.isNone || after == some '\r' || (after == some '\n' && before != some '\r')
  | .wordBoundary isWord => isNear isWord before != isNear isWord after
  | .noWordBoundary isWord => isNear isWord before == isNear isWord after
  | .wordStart isWord => !isNear isWord before && isNear isWord after
  | .wordEnd isWord => isNear isWord before && !isNear isWord after
  | .noWordBefore isWord => !isNear isWord before
  | .noWordAfter isWord => !isNear isWord after

end Assertion

namespace Pattern

/-- The pattern of parts one after another. -/
def ofParts : List Pattern → Pattern
  | [] => .empty
  | [part] => part
  | parts => .sequence parts

/-- The pattern of branches to choose from. -/
def ofBranches : List Pattern → Pattern
  | [] => .empty
  | [branch] => branch
  | branches => .choice branches

mutual

/-- How deep the pattern is nested as it is written. -/
def depth : Pattern → Nat
  | .empty => 0
  | .char set => set.depth
  | .assertion _ => 0
  | .sequence parts => depthEach parts + 1
  | .choice branches => depthEach branches + 1
  | .repetition body _ _ => depth body + 1
  | .group body => depth body + 1

/-- The greatest depth of some patterns. -/
def depthEach : List Pattern → Nat
  | [] => 0
  | p :: rest => max (depth p) (depthEach rest)

end

mutual

/-- About how many states an automaton for the pattern takes: a repetition takes its body as often
as it may be repeated, and one state more for each time that may be left out. -/
def size : Pattern → Nat
  | .empty => 1
  | .char set => set.size
  | .assertion _ => 1
  | .sequence parts => sizeEach parts
  | .choice branches => sizeEach branches + 1
  | .repetition body least most =>
    match most with
    | some n => n * size body + (n - least) + 1
    | none => max 1 least * size body + 1
  | .group body => size body + 2

/-- The size of some patterns together. -/
def sizeEach : List Pattern → Nat
  | [] => 0
  | p :: rest => size p + sizeEach rest

end

/-- The greatest depth of a pattern that can be used. -/
def maxDepth : Nat := 250

/-- The greatest number of states: ten mebibytes of 32 bytes each. -/
def maxSize : Nat := 10 * 1024 * 1024 / 32

/-- Whether the pattern is neither nested too deep nor too large. -/
def isUsable (p : Pattern) : Bool := p.depth ≤ maxDepth && p.size ≤ maxSize

end Pattern

end Factbase
