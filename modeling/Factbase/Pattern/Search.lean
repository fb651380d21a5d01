import Factbase.Pattern

/-! # Searching a text for a pattern

A position of a text of `n` characters is a number from `0` to `n`, and a set of positions is the
natural number with these bits. `Pattern.advance` sends the positions where a match may start to
those where it may end; a pattern occurs in a text when some match from some position ends. -/

namespace Factbase

/-- The set of the numbers below `n` with a property, as bits. -/
def bitSet (n : Nat) (test : Nat → Bool) : Nat :=
  (List.range n).foldl (fun bits i => if test i then bits ||| (1 <<< i) else bits) 0

/-- The members of `a` that are not members of `b`. -/
def bitDiff (a b : Nat) : Nat := a ^^^ (a &&& b)

namespace Pattern

/-- The positions in front of a character of a set. -/
def inFrontOf (text : Array Char) (set : CharSet) : Nat :=
  bitSet text.size fun i => (text[i]?).any set.has

/-- The positions where an assertion holds. -/
def satisfying (text : Array Char) (assertion : Assertion) : Nat :=
  bitSet (text.size + 1) fun i =>
    assertion.holds (if i = 0 then none else text[i - 1]?) text[i]?

/-- What is reached by taking a step a given number of times. -/
def afterSteps (step : Nat → Nat) : Nat → Nat → Nat
  | 0, positions => positions
  | n + 1, positions => if positions = 0 then 0 else afterSteps step n (step positions)

/-- What is reached by taking a step at most a given number of times. Only positions that were not
reached before are taken further. -/
def withinSteps (step : Nat → Nat) : Nat → Nat → Nat → Nat
  | 0, reached, _ => reached
  | n + 1, reached, frontier =>
    let fresh := bitDiff (step frontier) reached
    if fresh = 0 then reached else withinSteps step n (reached ||| fresh) fresh

mutual

/-- Where matches of the pattern from some positions end. Any number of repetitions reaches no more
than as many as there are positions. -/
def advance (text : Array Char) : Pattern → Nat → Nat
  | .empty, positions => positions
  | .char set, positions => (positions &&& inFrontOf text set) <<< 1
  | .assertion c, positions => positions &&& satisfying text c
  | .sequence parts, positions => advanceThrough text parts positions
  | .choice branches, positions => advanceAny text branches positions
  | .repetition body least most, positions =>
    let required := afterSteps (advance text body) least positions
    -- a round that reaches no new position is the last
    let rounds := match most with
      | some n => min (n - least) (text.size + 1)
      | none => text.size + 1
    withinSteps (advance text body) rounds required required
  | .group body, positions => advance text body positions

/-- Where matches of the patterns, one after another, end. -/
def advanceThrough (text : Array Char) : List Pattern → Nat → Nat
  | [], positions => positions
  | p :: rest, positions => advanceThrough text rest (advance text p positions)

/-- Where matches of any of the patterns end. -/
def advanceAny (text : Array Char) : List Pattern → Nat → Nat
  | [], _ => 0
  | p :: rest, positions => advance text p positions ||| advanceAny text rest positions

end

/-- Whether the pattern matches some part of the text. -/
def occursIn (p : Pattern) (text : List Char) : Bool :=
  p.advance text.toArray (bitSet (text.length + 1) fun _ => true) != 0

end Pattern

end Factbase
