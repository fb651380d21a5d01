import Factbase.Binding
import Factbase.Matcher

/-! # Filters

The built-in predicates that test values instead of looking them up: comparisons, ranges,
membership, texts and dates. They bind nothing. A filter whose terms are not all bound, or that has
the wrong number of terms or values of the wrong type, does not hold.

Comparisons by size ask for two numbers; equality compares as numbers where both values hold one,
and by canonical text otherwise. -/

namespace Factbase

/-- Computations that may look up and add compiled patterns. -/
abbrev Matching := StateM PatternCache

namespace Atom

/-- Equality of values for filters. -/
def sameValue (a b : Atom) : Bool :=
  match a.number?, b.number? with
  | some x, some y => Number.equals x y
  | _, _ => a.canonical == b.canonical

/-- Compares the numbers that two values hold. -/
def compareNumbers (test : Float → Float → Bool) (a b : Atom) : Bool :=
  match a.number?, b.number? with
  | some x, some y => test x y
  | _, _ => false

/-- Whether a value lies between two others, both included, as numbers. -/
def isBetween (value low high : Atom) : Bool :=
  match value.number?, low.number?, high.number? with
  | some v, some l, some h => Number.lessOrEqual l v && Number.lessOrEqual v h
  | _, _, _ => false

/-- The parts of a text between commas. -/
def splitCommas : List Char → List (List Char)
  | [] => [[]]
  | c :: rest =>
    if c = ',' then [] :: splitCommas rest
    else
      match splitCommas rest with
      | [] => [[c]]
      | part :: parts => (c :: part) :: parts

/-- The alternatives that a value lists: the trimmed parts of a text between commas, or any other
value alone. -/
def alternatives : Atom → List Atom
  | .text s => (splitCommas s.toList).map fun part => .text (String.ofList (Text.trim part))
  | other => [other]

/-- Whether a value is among the alternatives that another lists. -/
def isMember (value alternatives : Atom) : Bool := alternatives.alternatives.any value.sameValue

/-- Whether a value is a later instant than another. -/
def isAfter (later earlier : Atom) : Bool :=
  match later.instant?, earlier.instant? with
  | some a, some b => a.order b == .gt
  | _, _ => false

/-- Whether a value lies between two others, both included, as instants. -/
def isBetweenDates (date first last : Atom) : Bool :=
  match date.instant?, first.instant?, last.instant? with
  | some d, some f, some l => f.order d != .gt && d.order l != .gt
  | _, _, _ => false

/-- The value as a text to search; null has none. -/
def searched? : Atom → Option String
  | .null => none
  | value => some value.display

end Atom

/-- Whether a comparison holds between two values. -/
def Comparison.holds : Comparison → Atom → Atom → Bool
  | .eq, a, b => a.sameValue b
  | .neq, a, b => !a.sameValue b
  | .gt, a, b => a.compareNumbers (fun x y => Number.less y x) b
  | .lt, a, b => a.compareNumbers Number.less b
  | .gte, a, b => a.compareNumbers (fun x y => Number.lessOrEqual y x) b
  | .lte, a, b => a.compareNumbers Number.lessOrEqual b

namespace Filter

/-- Whether a text matches what was written. -/
def matchText (written text : String) : Matching Bool :=
  modifyGet fun cache =>
    let (m, cache) := cache.get written
    (m.isMatch text, cache)

/-- Whether a value matches a pattern. -/
def regex (value pattern : Atom) : Matching Bool :=
  match value.searched?, pattern.text? with
  | some text, some written => matchText written text
  | _, _ => pure false

/-- Whether a value contains a text, without regard to case, or matches it when it is written as
`/pattern/options`. -/
def contains (value needle : Atom) : Matching Bool :=
  match value.searched?, needle.text? with
  | some text, some written =>
    if (splitDelimited written.toList).isSome then matchText written text
    else
      pure (isPartOf (Text.lowercase written.toList) (Text.lowercase text.toList))
  | _, _ => pure false

/-- Whether a filter holds of some values. A predicate that is looked up in a relation is no
filter. -/
def holdsOf (predicate : Predicate) (values : List Atom) : Matching Bool :=
  match predicate, values with
  | .compare op, [a, b] => pure (op.holds a b)
  | .between, [value, low, high] => pure (value.isBetween low high)
  | .member, [value, alternatives] => pure (value.isMember alternatives)
  | .regex, [value, pattern] => regex value pattern
  | .contains, [value, needle] => contains value needle
  | .after, [later, earlier] => pure (later.isAfter earlier)
  | .betweenDate, [date, first, last] => pure (date.isBetweenDates first last)
  | _, _ => pure false

/-- Whether a filter holds of terms under a binding. -/
def holds (predicate : Predicate) (terms : List Term) (b : Binding) : Matching Bool :=
  match terms.mapM b.resolve with
  | some values => holdsOf predicate values
  | none => pure false

end Filter

end Factbase
