import Factbase.Fact

/-! # The catalog of attributes

A `CatalogEntry` describes the values of one attribute: their type, how many there are, how many
differ, some examples, and the least and greatest where the type has an order.

The values are seen once, in order: `Survey.observe` takes in one value, and the entry is read off
the survey of all of them. At most `maxDistinct` different values are remembered; when one more
turns up the count is marked as capped. -/

namespace Factbase

/-- The type of the values of an attribute. -/
inductive ValueType where
  | text
  | number
  | bool
  | date
  | mixed
deriving DecidableEq, Repr

/-- How much the values of an attribute vary. -/
inductive Cardinality where
  /-- At most one value. -/
  | constant
  /-- At most `lowCardinality` different values. -/
  | low
  /-- Many different values, some of them repeated. -/
  | high
  /-- No value occurs twice. -/
  | unique
deriving DecidableEq, Repr

/-- Limits of a catalog. -/
structure CatalogLimits where
  /-- Example values kept of an attribute. -/
  maxExamples : Nat
  /-- Different values remembered of an attribute. -/
  maxDistinct : Nat
  /-- Largest count of different values that is a low cardinality. -/
  lowCardinality : Nat
deriving DecidableEq, Repr

/-- The limits of a catalog unless others are given. -/
def CatalogLimits.default : CatalogLimits := ⟨5, 1000, 10⟩

/-- What the catalog says about an attribute. -/
structure CatalogEntry where
  attr : String
  valueType : ValueType
  cardinality : Cardinality
  /-- Number of facts with the attribute, repeated ones included. -/
  factCount : Nat
  distinctCount : Nat
  /-- Whether there are more different values than were counted. -/
  distinctCapped : Bool
  examples : List Atom
  least : Option Atom
  greatest : Option Atom
deriving DecidableEq

namespace ValueType

/-- The type that one value votes for; null abstains. -/
def ofAtom? : Atom → Option ValueType
  | .null => none
  | .bool _ => some .bool
  | .number _ => some .number
  | .timestamp _ => some .date
  | .text s => if (Timestamp.parse? s).isSome then some .date else some .text

end ValueType

/-- Votes for the types of values. -/
structure Tally where
  texts : Nat
  numbers : Nat
  bools : Nat
  dates : Nat
deriving DecidableEq, Repr

namespace Tally

/-- No votes. -/
def empty : Tally := ⟨0, 0, 0, 0⟩

/-- One more vote. -/
def add (t : Tally) : ValueType → Tally
  | .text => { t with texts := t.texts + 1 }
  | .number => { t with numbers := t.numbers + 1 }
  | .bool => { t with bools := t.bools + 1 }
  | .date => { t with dates := t.dates + 1 }
  | .mixed => t

/-- Votes for a type. -/
def votes (t : Tally) : ValueType → Nat
  | .text => t.texts
  | .number => t.numbers
  | .bool => t.bools
  | .date => t.dates
  | .mixed => 0

/-- The type with more than half of `total` votes, `mixed` when there is none. -/
def majority (t : Tally) (total : Nat) : ValueType :=
  (([.number, .date, .bool, .text] : List ValueType).find? fun k => total < 2 * t.votes k).getD
    .mixed

end Tally

/-- What is known after some values of an attribute. -/
structure Survey where
  /-- Values seen. -/
  factCount : Nat
  /-- Values seen other than null. -/
  nonNull : Nat
  tally : Tally
  /-- Canonical texts of different values, first seen first. -/
  seen : List String
  /-- Whether a different value turned up when no more could be remembered. -/
  capped : Bool
  examples : List Atom
deriving DecidableEq

namespace Survey

/-- No values seen. -/
def empty : Survey := ⟨0, 0, .empty, [], false, []⟩

/-- Takes in one value. -/
def observe (limits : CatalogLimits) (s : Survey) (value : Atom) : Survey :=
  match ValueType.ofAtom? value with
  | none => { s with factCount := s.factCount + 1 }
  | some kind =>
    let s := { s with
      factCount := s.factCount + 1, nonNull := s.nonNull + 1, tally := s.tally.add kind }
    let key := value.canonical
    -- from the limit on, only values that were seen before are recognised
    if s.seen.length < limits.maxDistinct then
      if s.seen.contains key then s
      else
        { s with
          seen := s.seen ++ [key]
          examples :=
            if s.examples.length < limits.maxExamples then s.examples ++ [value]
            else s.examples }
    else if s.seen.contains key then s
    else { s with capped := true }

/-- The survey of a list of values. -/
def ofValues (limits : CatalogLimits) (values : List Atom) : Survey :=
  values.foldl (observe limits) empty

/-- The type of the values. -/
def valueType (s : Survey) : ValueType := s.tally.majority s.nonNull

/-- How much the values vary, as far as they were counted. -/
def cardinality (limits : CatalogLimits) (s : Survey) : Cardinality :=
  if s.seen.length ≤ 1 then .constant
  else if !s.capped && s.seen.length == s.nonNull then .unique
  else if s.seen.length ≤ limits.lowCardinality then .low
  else .high

end Survey

/-- The first of the least elements. -/
def leastBy? {α : Type} (order : α → α → Ordering) : List α → Option α
  | [] => none
  | a :: rest => some (rest.foldl (fun m b => if order b m == .lt then b else m) a)

/-- The last of the greatest elements. -/
def greatestBy? {α : Type} (order : α → α → Ordering) : List α → Option α
  | [] => none
  | a :: rest => some (rest.foldl (fun m b => if order b m == .lt then m else b) a)

namespace CatalogEntry

/-- Order of the numbers of an attribute; a number that is not finite counts as zero. -/
def numberOrder (a b : Atom) : Ordering :=
  Number.totalOrder (a.number?.getD 0) (b.number?.getD 0)

/-- Order of the dates of an attribute. -/
def dateOrder (a b : Atom) : Ordering :=
  match a.instant?, b.instant? with
  | some s, some t => s.order t
  | none, none => .eq
  | none, some _ => .lt
  | some _, none => .gt

/-- Least and greatest of the values that voted for the type of the attribute. -/
def extremes (kind : ValueType) (values : List Atom) : Option Atom × Option Atom :=
  let voters := values.filter fun v => ValueType.ofAtom? v == some kind
  match kind with
  | .number => (leastBy? numberOrder voters, greatestBy? numberOrder voters)
  | .date => (leastBy? dateOrder voters, greatestBy? dateOrder voters)
  | _ => (none, none)

/-- The entry of an attribute with the given values. -/
def ofValues (limits : CatalogLimits) (attr : String) (values : List Atom) : CatalogEntry :=
  let survey := Survey.ofValues limits values
  let range := extremes survey.valueType values
  { attr
    valueType := survey.valueType
    cardinality := survey.cardinality limits
    factCount := survey.factCount
    distinctCount := survey.seen.length
    distinctCapped := survey.capped
    examples := survey.examples
    least := range.1
    greatest := range.2 }

end CatalogEntry

end Factbase
