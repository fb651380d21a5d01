import Factbase.Catalog
import Factbase.Index
import Factbase.Ordered

/-! # The fact store

A `Store` holds facts and links in the order in which they were added; nothing is removed and
repeated ones are kept. Beside the two sequences it keeps an `Index` for each way of looking things
up: by entity, by attribute, by attribute and value, by source and by label. A look-up gives the
matching records in order, none for a key that does not occur. -/

namespace Factbase

/-- Facts and links with their indexes. -/
structure Store where
  limits : CatalogLimits
  facts : Array Fact
  links : Array Link
  byEntity : Index String
  byAttr : Index String
  /-- By attribute and canonical text of the value. -/
  byValue : Index (String × String)
  bySource : Index String
  byLabel : Index String

/-- Counts of what a store holds. -/
structure StoreStats where
  factCount : Nat
  entityCount : Nat
  attrCount : Nat
  linkCount : Nat
deriving DecidableEq, Repr

/-- Strings in order. -/
def sortNames (names : List String) : List String := names.mergeSort fun a b => !(b < a)

namespace Store

/-- A store without facts and links. -/
def empty (limits : CatalogLimits) : Store :=
  ⟨limits, #[], #[], .empty, .empty, .empty, .empty, .empty⟩

/-- Adds a fact. -/
def addFact (s : Store) (f : Fact) : Store :=
  let position := s.facts.size
  { s with
    facts := s.facts.push f
    byEntity := s.byEntity.add f.entity position
    byAttr := s.byAttr.add f.attr position
    byValue := s.byValue.add (f.attr, f.value.canonical) position }

/-- Adds facts in order. -/
def addFacts (s : Store) (fs : List Fact) : Store := fs.foldl addFact s

/-- Facts that are added go to the end in order. -/
theorem toList_facts_addFacts (s : Store) (fs : List Fact) :
    (s.addFacts fs).facts.toList = s.facts.toList ++ fs := by
  induction fs generalizing s with
  | nil => simp [addFacts]
  | cons f rest ih =>
    rw [addFacts, List.foldl_cons]
    exact (ih (s.addFact f)).trans (by simp [addFact])

/-- What one fact leaves alone, adding facts leaves alone. -/
theorem unchanged_addFacts {α : Type} {part : Store → α}
    (h : ∀ s f, part (s.addFact f) = part s) (s : Store) (fs : List Fact) :
    part (s.addFacts fs) = part s := by
  induction fs generalizing s with
  | nil => rfl
  | cons f rest ih => exact (ih (s.addFact f)).trans (h s f)

/-- Adding facts leaves the links alone. -/
theorem links_addFacts (s : Store) (fs : List Fact) : (s.addFacts fs).links = s.links :=
  unchanged_addFacts (fun _ _ => rfl) s fs

/-- Adds a link. -/
def addLink (s : Store) (l : Link) : Store :=
  let position := s.links.size
  { s with
    links := s.links.push l
    bySource := s.bySource.add l.source position
    byLabel := s.byLabel.add l.label position }

/-- Adds links in order. -/
def addLinks (s : Store) (ls : List Link) : Store := ls.foldl addLink s

/-- What one link leaves alone, adding links leaves alone. -/
theorem unchanged_addLinks {α : Type} {part : Store → α}
    (h : ∀ s l, part (s.addLink l) = part s) (s : Store) (ls : List Link) :
    part (s.addLinks ls) = part s := by
  induction ls generalizing s with
  | nil => rfl
  | cons l rest ih => exact (ih (s.addLink l)).trans (h s l)

/-- Whether there are neither facts nor links. -/
def isEmpty (s : Store) : Bool := s.facts.isEmpty && s.links.isEmpty

/-- Facts about an entity. -/
def factsOfEntity (s : Store) (entity : String) : List Fact := s.byEntity.select s.facts entity

/-- Facts with an attribute. -/
def factsOfAttr (s : Store) (attr : String) : List Fact := s.byAttr.select s.facts attr

/-- Facts with an attribute and a value. -/
def factsOfValue (s : Store) (attr : String) (value : Atom) : List Fact :=
  s.byValue.select s.facts (attr, value.canonical)

/-- Links from an entity. -/
def linksFrom (s : Store) (source : String) : List Link := s.bySource.select s.links source

/-- Links with a label. -/
def linksOfLabel (s : Store) (label : String) : List Link := s.byLabel.select s.links label

/-- Logical type of an entity: the value of its first `type` fact, else the kind in its name. -/
def entityType? (s : Store) (entity : String) : Option String :=
  match (s.factsOfEntity entity).find? (·.attr == typeAttribute) with
  | some f => some f.value.display
  | none => entityKind? entity

/-- The attributes that occur, in order. -/
def attributes (s : Store) : List String := sortNames s.byAttr.keys

/-- The catalog entry of an attribute that occurs. -/
def catalogEntry? (s : Store) (attr : String) : Option CatalogEntry :=
  match s.factsOfAttr attr with
  | [] => none
  | facts => some (.ofValues s.limits attr (facts.map (·.value)))

/-- The catalog entries of all attributes, in the order of their names. -/
def catalog (s : Store) : List CatalogEntry :=
  s.attributes.map fun attr => .ofValues s.limits attr ((s.factsOfAttr attr).map (·.value))

/-- The entities that occur in facts and links. -/
def entities (s : Store) : List String :=
  distinctBy id
    (s.byEntity.keys ++ s.links.toList.flatMap fun l => [l.source, l.target])

/-- Counts of what the store holds. -/
def stats (s : Store) : StoreStats :=
  { factCount := s.facts.size
    entityCount := s.entities.length
    attrCount := s.byAttr.keys.length
    linkCount := s.links.size }

end Store

namespace StoreStats

/-- The counts as a record. -/
def encode (s : StoreStats) : Json :=
  Json.ofMembers
    [("factCount", .ofNat s.factCount), ("entityCount", .ofNat s.entityCount),
      ("attributeCount", .ofNat s.attrCount), ("linkCount", .ofNat s.linkCount)]

/-- Reads counts. -/
def decode? (json : Json) : Option StoreStats :=
  match Json.fields? ["factCount", "entityCount", "attributeCount", "linkCount"] json with
  | some [facts, entities, attrs, links] => do
    let factCount ← Json.required Json.count? facts
    let entityCount ← Json.required Json.count? entities
    let attrCount ← Json.required Json.count? attrs
    let linkCount ← Json.required Json.count? links
    return { factCount, entityCount, attrCount, linkCount }
  | _ => none

end StoreStats

end Factbase
