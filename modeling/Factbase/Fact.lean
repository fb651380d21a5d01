import Factbase.Atom.Codec

/-! # Facts and links

A `Fact` says that an entity has a value for an attribute; a `Link` is a labelled edge from one
entity to another. Entities are named by free text, by convention `type:id`, and the attribute
`type` of an entity names its logical type. -/

namespace Factbase

/-- The attribute that names the logical type of an entity. -/
def typeAttribute : String := "type"

/-- An entity, an attribute and a value. -/
structure Fact where
  entity : String
  attr : String
  value : Atom
deriving DecidableEq

/-- A labelled edge between two entities. -/
structure Link where
  source : String
  label : String
  target : String
deriving DecidableEq

namespace Fact

/-- The fact that names the type of an entity. -/
def ofType (entity entityType : String) : Fact := ⟨entity, typeAttribute, .text entityType⟩

/-- The row of a fact in the relation of facts. -/
def toTuple (f : Fact) : Tuple := [.text f.entity, .text f.attr, f.value]

/-- A stored fact. -/
def encode (f : Fact) : Json :=
  Json.ofMembers
    [("entity", .text f.entity), ("attribute", .text f.attr), ("value", f.value.encode)]

/-- Reads a stored fact. -/
def decode? (json : Json) : Option Fact :=
  match Json.fields? ["entity", "attribute", "value"] json with
  | some [entity, attr, value] => do
    let entity ← Json.required Json.text? entity
    let attr ← Json.required Json.text? attr
    let value ← Json.required Atom.decode? value
    return { entity, attr, value }
  | _ => none

end Fact

namespace Link

/-- The row of a link in the relation of links. -/
def toTuple (l : Link) : Tuple := [.text l.source, .text l.label, .text l.target]

/-- A stored link. -/
def encode (l : Link) : Json :=
  Json.ofMembers [("source", .text l.source), ("label", .text l.label), ("target", .text l.target)]

/-- Reads a stored link. -/
def decode? (json : Json) : Option Link :=
  match Json.fields? ["source", "label", "target"] json with
  | some [source, label, target] => do
    let source ← Json.required Json.text? source
    let label ← Json.required Json.text? label
    let target ← Json.required Json.text? target
    return { source, label, target }
  | _ => none

end Link

/-- The part of an entity's name before its first colon, unless that is empty. -/
def entityKind? (entity : String) : Option String :=
  let (kind, rest) := entity.toList.span (· != ':')
  if kind.isEmpty || rest.isEmpty then none else some (String.ofList kind)

end Factbase
