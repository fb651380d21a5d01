import Factbase.Literal

/-! # Queries of the query language

A `Query` finds entities of a type: it names a variable for them, filters them by a clause, and says
which fields to return, in which order, and how many rows at most. A `Field` is a variable, or an
attribute of the entity that the variable stands for. -/

namespace Factbase.Find

/-- A variable with a path of names; the names together are an attribute. -/
structure Field where
  var : String
  path : List String
deriving DecidableEq, Repr

/-- An operand of a condition. -/
inductive Operand where
  | text (value : String)
  | number (value : Float)
  | bool (value : Bool)
  | null
  | var (name : String)
deriving DecidableEq

/-- A single condition. -/
inductive Condition where
  | compare (field : Field) (op : Comparison) (operand : Operand)
  | between (field : Field) (low high : Float)
  | contains (field : Field) (text : String)
  | matching (field : Field) (body flags : String)
  | member (field : Field) (operand : Operand)
  /-- A relation of a rule, or a built-in predicate, of some operands. -/
  | call (name : String) (operands : List Operand)
deriving DecidableEq

/-- Conditions that are combined. -/
inductive Clause where
  | both (left right : Clause)
  | either (left right : Clause)
  | condition (condition : Condition)
deriving DecidableEq

/-- Direction of an order. -/
inductive Direction where
  | asc
  | desc
deriving DecidableEq, Repr

/-- A field to order by. -/
structure SortField where
  field : Field
  direction : Direction
deriving DecidableEq, Repr

/-- A query. -/
structure Query where
  entityType : String
  var : String
  clause : Option Clause
  returns : List Field
  sortField : Option SortField
  limit : Option Nat
deriving DecidableEq

namespace Field

/-- Whether the field is a variable without path. -/
def isVariable (f : Field) : Bool := f.path.isEmpty

/-- The attribute that the path names. -/
def attr? (f : Field) : Option String :=
  if f.path.isEmpty then none else some (".".intercalate f.path)

/-- The field as written. -/
def display (f : Field) : String := "?" ++ ".".intercalate (f.var :: f.path)

end Field

namespace Operand

/-- The operand as a term of a goal. -/
def toTerm : Operand → Term
  | .text s => .const (.text s)
  | .number x => .const (.number x)
  | .bool b => .const (.bool b)
  | .null => .const .null
  | .var name => .var name

end Operand

namespace Condition

/-- The field that a condition tests; a call has none. -/
def field? : Condition → Option Field
  | .compare field _ _ => some field
  | .between field _ _ => some field
  | .contains field _ => some field
  | .matching field _ _ => some field
  | .member field _ => some field
  | .call _ _ => none

end Condition

namespace Clause

/-- The conditions, from left to right. -/
def conditions : Clause → List Condition
  | .both left right => left.conditions ++ right.conditions
  | .either left right => left.conditions ++ right.conditions
  | .condition c => [c]

/-- The fields that the conditions test. -/
def fields (c : Clause) : List Field := c.conditions.filterMap Condition.field?

end Clause

namespace Query

/-- The conditions of the query. -/
def conditions (q : Query) : List Condition := (q.clause.map Clause.conditions).getD []

/-- The fields of the query: tested, returned, ordered by. -/
def fields (q : Query) : List Field :=
  q.conditions.filterMap Condition.field? ++ q.returns ++ q.sortField.toList.map (·.field)

end Query

end Factbase.Find
