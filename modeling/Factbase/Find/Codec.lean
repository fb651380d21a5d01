import Factbase.Atom.Codec
import Factbase.Find.Compile

/-! # Queries in JSON

Queries, sort keys and compiler options as JSON records. -/

namespace Factbase.Find

/-- A value under the name of its variant. -/
def tagged (name : String) (value : Json) : Json := .ofMembers [(name, value)]

/-- A field as a record. -/
def Field.encode (f : Field) : Json :=
  .ofMembers [("var", .text f.var), ("path", .ofList .text f.path)]

/-- An operand as a record. -/
def Operand.encode : Operand → Json
  | .text s => tagged "String" (.text s)
  | .number x => tagged "Number" (Atom.numberToJson x)
  | .bool b => tagged "Bool" (.bool b)
  | .null => .text "Null"
  | .var name => tagged "Var" (.text name)

/-- A condition as a record. -/
def Condition.encode : Condition → Json
  | .compare f op operand =>
    tagged "Compare"
      (.ofMembers [("attr", f.encode), ("op", .text op.word), ("value", operand.encode)])
  | .between f low high =>
    tagged "Between"
      (.ofMembers
        [("attr", f.encode), ("min", Atom.numberToJson low), ("max", Atom.numberToJson high)])
  | .contains f text => tagged "Contains" (.ofMembers [("attr", f.encode), ("text", .text text)])
  | .matching f body flags =>
    tagged "Matches"
      (.ofMembers [("attr", f.encode), ("body", .text body), ("flags", .text flags)])
  | .member f operand =>
    tagged "In" (.ofMembers [("attr", f.encode), ("value", operand.encode)])
  | .call name operands =>
    tagged "Call" (.ofMembers [("name", .text name), ("args", .ofList Operand.encode operands)])

/-- A clause as a record. -/
def Clause.encode : Clause → Json
  | .both left right => tagged "And" (.array [left.encode, right.encode])
  | .either left right => tagged "Or" (.array [left.encode, right.encode])
  | .condition c => tagged "Condition" c.encode

/-- The name of a direction. -/
def Direction.name : Direction → String
  | .asc => "asc"
  | .desc => "desc"

/-- A field to order by as a record. -/
def SortField.encode (s : SortField) : Json :=
  .ofMembers [("attr", s.field.encode), ("direction", .text s.direction.name)]

/-- A query as a record. -/
def Query.encode (q : Query) : Json :=
  .ofMembers
    [("entity_type", .text q.entityType), ("var", .text q.var),
      ("where_clause", .ofOption Clause.encode q.clause),
      ("returns", .ofList Field.encode q.returns),
      ("order_by", .ofOption SortField.encode q.sortField), ("limit", .ofOption .ofNat q.limit)]

/-- A sort key as a record. -/
def SortKey.encode (k : SortKey) : Json :=
  .ofMembers
    [("field", .text k.column), ("variable", .text k.carrier),
      ("direction", .text k.direction.name)]

namespace OrMode

/-- The name of a meaning of OR. -/
def name : OrMode → String
  | .conjunctive => "conjunctive"
  | .disjunctive => "disjunctive"

/-- The meaning of OR with a given name. -/
def ofName? (name : String) : Option OrMode :=
  ([.conjunctive, .disjunctive] : List OrMode).find? (·.name == name)

end OrMode

namespace CompilerOptions

/-- The options as a record. -/
def encode (o : CompilerOptions) : Json := .ofMembers [("orMode", .text o.orMode.name)]

/-- Reads options. -/
def decode? (json : Json) : Option CompilerOptions :=
  match Json.fields? ["orMode"] json with
  | some [mode] => do
    let orMode ← Json.withDefault default.orMode
      (fun json => Json.variant? json >>= OrMode.ofName?) mode
    return { orMode }
  | _ => none

end CompilerOptions

end Factbase.Find
