import Factbase.Find.Query
import Factbase.Ordered
import Factbase.Text.Case

/-! # Resolving attribute names

An attribute that a query names need not be written exactly as it is stored. `Resolver.resolve`
looks for it among the known attributes: as written, else in any case, else also without regard to
`_` and `-`. The first attribute that fits is the one meant. -/

namespace Factbase.Find

/-- How loose a match of attribute names may be. -/
inductive Resolver where
  /-- Every name stands for itself. -/
  | exact
  | anyCase
deriving DecidableEq, Repr

/-- What a name stands for. -/
inductive Resolution where
  | exact
  | substitute (name : String)
  | unknown
deriving DecidableEq, Repr

/-- A name in lower case without `_` and `-`. -/
def looseName (name : String) : List Char :=
  (name.toList.filter fun c => c != '_' && c != '-').flatMap Text.lowercaseChar

namespace Resolver

/-- The known attribute that differs from a name in ASCII case only. -/
def sameUpToCase? (known : List String) (name : String) : Option String :=
  known.find? fun k => Text.equalIgnoringAsciiCase k name

/-- The known attribute with the same loose name. -/
def sameLoosely? (known : List String) (name : String) : Option String :=
  known.find? fun k => looseName k = looseName name

/-- What a name stands for among known attributes. -/
def resolve (r : Resolver) (known : List String) (name : String) : Resolution :=
  match r with
  | .exact => .exact
  | .anyCase =>
    if known.contains name then .exact
    else
      match (sameUpToCase? known name).or (sameLoosely? known name) with
      | some k => .substitute k
      | none => .unknown

end Resolver

/-- Attributes as written with those that they stand for. -/
abbrev Aliases := List (String × String)

namespace Query

/-- The attributes that the query names, in order. -/
def attributes (q : Query) : List String := nameSet (q.fields.filterMap Field.attr?)

end Query

/-- What a resolution says to the user. -/
def Resolution.warning? (attr : String) : Resolution → Option String
  | .exact => none
  | .substitute name => some ("attribute `" ++ attr ++ "` resolved to `" ++ name ++ "`")
  | .unknown => some ("unknown attribute `" ++ attr ++ "`")

/-- The alias that a resolution makes. -/
def Resolution.alias? (attr : String) : Resolution → Option (String × String)
  | .substitute name => some (attr, name)
  | _ => none

end Factbase.Find
