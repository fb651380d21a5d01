import Factbase.Catalog

/-! # Catalogs in JSON

Entries and limits of a catalog as JSON records. A missing limit has its default value; of an entry
only the least and the greatest value may be missing. -/

namespace Factbase

namespace ValueType

/-- Name of a value type. -/
def name : ValueType → String
  | .text => "string"
  | .number => "number"
  | .bool => "boolean"
  | .date => "date"
  | .mixed => "mixed"

/-- The value type with a given name. -/
def ofName? (name : String) : Option ValueType :=
  ([.text, .number, .bool, .date, .mixed] : List ValueType).find? (·.name == name)

end ValueType

namespace Cardinality

/-- Name of a cardinality. -/
def name : Cardinality → String
  | .constant => "constant"
  | .low => "low"
  | .high => "high"
  | .unique => "unique"

/-- The cardinality with a given name. -/
def ofName? (name : String) : Option Cardinality :=
  ([.constant, .low, .high, .unique] : List Cardinality).find? (·.name == name)

end Cardinality

namespace CatalogLimits

/-- The limits as a record. -/
def encode (l : CatalogLimits) : Json :=
  Json.ofMembers
    [("max_examples", .ofNat l.maxExamples), ("max_distinct", .ofNat l.maxDistinct),
      ("low_cardinality_threshold", .ofNat l.lowCardinality)]

/-- Reads limits. -/
def decode? (json : Json) : Option CatalogLimits :=
  match Json.fields? ["max_examples", "max_distinct", "low_cardinality_threshold"] json with
  | some [examples, distinct, low] => do
    let maxExamples ← Json.withDefault default.maxExamples Json.count? examples
    let maxDistinct ← Json.withDefault default.maxDistinct Json.count? distinct
    let lowCardinality ← Json.withDefault default.lowCardinality Json.count? low
    return { maxExamples, maxDistinct, lowCardinality }
  | _ => none

end CatalogLimits

namespace CatalogEntry

/-- An optional member of an entry. -/
def optionalMember (name : String) (encodeAtom : Atom → Json) :
    Option Atom → List (String × Json)
  | none => []
  | some a => [(name, encodeAtom a)]

/-- The entry as a record, with its values written by `encodeAtom`. -/
def encodeWith (encodeAtom : Atom → Json) (e : CatalogEntry) : Json :=
  Json.ofMembers
    ([("attribute", .text e.attr), ("valueType", .text e.valueType.name),
      ("cardinality", .text e.cardinality.name), ("factCount", .ofNat e.factCount),
      ("distinctCount", .ofNat e.distinctCount), ("distinctCapped", .bool e.distinctCapped),
      ("examples", .ofList encodeAtom e.examples)] ++
      optionalMember "min" encodeAtom e.least ++ optionalMember "max" encodeAtom e.greatest)

/-- The entry as a record. -/
def encode (e : CatalogEntry) : Json := e.encodeWith Atom.encode

/-- Names of the fields of an entry. -/
def fieldNames : List String :=
  ["attribute", "valueType", "cardinality", "factCount", "distinctCount", "distinctCapped",
    "examples", "min", "max"]

/-- Whether an array holds every field; an object may leave out the last two. -/
def isComplete : Json → Bool
  | .array items => items.length == fieldNames.length
  | _ => true

/-- Reads an entry. -/
def decode? (json : Json) : Option CatalogEntry :=
  match Json.fields? fieldNames json with
  | some [attr, kind, cardinality, facts, distinct, capped, examples, least, greatest] => do
    if !isComplete json then none
    let attr ← Json.required Json.text? attr
    let valueType ← Json.required Json.variant? kind >>= ValueType.ofName?
    let cardinality ← Json.required Json.variant? cardinality >>= Cardinality.ofName?
    let factCount ← Json.required Json.count? facts
    let distinctCount ← Json.required Json.count? distinct
    let distinctCapped ← Json.required Json.bool? capped
    let examples ← Json.required (Json.listOf Atom.decode?) examples
    let least ← Json.withDefault none (Json.optional Atom.decode?) least
    let greatest ← Json.withDefault none (Json.optional Atom.decode?) greatest
    return {
      attr, valueType, cardinality, factCount, distinctCount, distinctCapped, examples, least,
      greatest }
  | _ => none

end CatalogEntry

end Factbase
