import Factbase.Fact
import Factbase.Number.Decimal

/-! # Rows as facts

A row is a JSON object and becomes one entity. Its scalars are facts of the entity: nested objects
give attributes whose names are joined by dots, and the items of an array are facts of one
attribute. The entity is named by its type and the `id` of the row, or its number where it has none,
and its type is a fact too; a field `type` of the row is left out. -/

namespace Factbase.Row

mutual

/-- The facts of a value under an attribute. -/
def valueFacts (entity attr : String) : Json → List Fact
  | .object members => memberFacts entity attr members
  | .array items => itemFacts entity attr items
  | .null => [⟨entity, attr, .null⟩]
  | .bool b => [⟨entity, attr, .bool b⟩]
  | .integer n => [⟨entity, attr, .number (Number.ofInt n)⟩]
  | .float x => [⟨entity, attr, .number x⟩]
  | .text s => [⟨entity, attr, .text s⟩]

/-- The facts of the members of an object under an attribute. -/
def memberFacts (entity attr : String) : List (String × Json) → List Fact
  | [] => []
  | (name, value) :: rest =>
    valueFacts entity (attr ++ "." ++ name) value ++ memberFacts entity attr rest

/-- The facts of the items of an array under an attribute. -/
def itemFacts (entity attr : String) : List Json → List Fact
  | [] => []
  | item :: rest => valueFacts entity attr item ++ itemFacts entity attr rest

end

/-- The name of a row among those of its type. -/
def localName (index : Nat) (members : List (String × Json)) : String :=
  match members.lookup "id" with
  | some (.text s) => s
  | some (.integer n) => toString n
  | some (.float x) => Number.jsonText x
  | _ => toString index

/-- The facts of an object. -/
def objectFacts (entityType : String) (index : Nat) (members : List (String × Json)) :
    List Fact :=
  let entity := entityType ++ ":" ++ localName index members
  .ofType entity entityType ::
    (members.filter (·.1 != typeAttribute)).flatMap fun m => valueFacts entity m.1 m.2

/-- The facts of a row, which has to be an object. -/
def facts? (entityType : String) (index : Nat) : Json → Option (List Fact)
  | .object members => some (objectFacts entityType index members)
  | _ => none

/-- The facts of rows that are numbered from an index on, or the number of the first that is not an
object. -/
def factsFrom (entityType : String) (index : Nat) : List Json → Except Nat (List Fact)
  | [] => .ok []
  | row :: rest =>
    match facts? entityType index row with
    | some facts => do
      let more ← factsFrom entityType (index + 1) rest
      return facts ++ more
    | none => .error index

/-- The facts of rows, or the number of the first that is not an object. -/
def factsOfAll (entityType : String) (rows : List Json) : Except Nat (List Fact) :=
  factsFrom entityType 0 rows

end Factbase.Row
