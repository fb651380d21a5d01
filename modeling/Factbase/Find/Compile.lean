import Factbase.Find.Resolution
import Factbase.Goal

/-! # Queries as goals

`Query.compile` turns a query into goals over facts. Each field with a path is looked up under its
attribute, and its value is bound to a variable of its own; these variables are named with a dollar
sign, so that they differ from all that a query can name. The `Projection` tells which variable
carries a column. -/

namespace Factbase.Find

/-- What OR means between conditions. -/
inductive OrMode where
  /-- The same as AND. -/
  | conjunctive
  | disjunctive
deriving DecidableEq, Repr

/-- Options of a compilation. -/
structure CompilerOptions where
  orMode : OrMode
deriving DecidableEq, Repr

/-- Columns with the variables that carry them. -/
abbrev Projection := List (String × String)

/-- A column to sort rows by. -/
structure SortKey where
  column : String
  carrier : String
  direction : Direction
deriving DecidableEq, Repr

/-- A query as goals. -/
structure Compiled where
  query : GoalQuery
  projection : Projection
  sortKey : Option SortKey
  limit : Option Nat
  entityType : String

/-- Computations that take fresh variables, of which the next number is kept. -/
abbrev Compiling := StateM Nat

namespace CompilerOptions

/-- The options unless others are given. -/
def default : CompilerOptions := ⟨.conjunctive⟩

end CompilerOptions

namespace Compile

/-- A variable that does not occur yet. -/
def fresh (letter : Char) : Compiling String :=
  modifyGet fun n => ("$" ++ String.singleton letter ++ toString n, n + 1)

/-- The goal that an entity has a value for an attribute. -/
def attrGoal (entity attr value : Term) : Goal := .literal ⟨.attr, [entity, attr, value]⟩

/-- The attribute to look a field up under. -/
def lookedUp? (aliases : Aliases) (f : Field) : Option String :=
  f.attr?.map fun attr => (aliases.lookup attr).getD attr

/-- The variable that carries the value of a field, with the goal that binds it. -/
def bind (aliases : Aliases) (letter : Char) (f : Field) : Compiling (String × List Goal) :=
  match lookedUp? aliases f with
  | none => pure (f.var, [])
  | some attr => do
    let value ← fresh letter
    return (value, [attrGoal (.var f.var) (.const (.text attr)) (.var value)])

/-- A filter on a value. -/
def filter (predicate : Predicate) (value : String) (operands : List Term) : Goal :=
  .literal ⟨predicate, .var value :: operands⟩

/-- The goals of a test of a field: the look-up, and the filter on its value. -/
def testGoals (aliases : Aliases) (f : Field) (predicate : Predicate) (operands : List Term) :
    Compiling (List Goal) := do
  let (value, goals) ← bind aliases 't' f
  return goals ++ [filter predicate value operands]

/-- The goals of a condition. -/
def conditionGoals (aliases : Aliases) : Condition → Compiling (List Goal)
  | .compare f op operand => testGoals aliases f (.compare op) [operand.toTerm]
  | .between f low high =>
    testGoals aliases f .between [.const (.number low), .const (.number high)]
  | .contains f text => testGoals aliases f .contains [.const (.text text)]
  | .matching f body flags =>
    testGoals aliases f .regex [.const (.text ("/" ++ body ++ "/" ++ flags))]
  | .member f operand => testGoals aliases f .member [operand.toTerm]
  | .call name operands => pure [.literal (.named name (operands.map Operand.toTerm))]

mutual

/-- The goals of a clause. -/
def clauseGoals (options : CompilerOptions) (aliases : Aliases) :
    Clause → Compiling (List Goal)
  | .both left right => do
    let goals ← clauseGoals options aliases left
    return goals ++ (← clauseGoals options aliases right)
  | .either left right =>
    match options.orMode with
    | .conjunctive => do
      let goals ← clauseGoals options aliases left
      return goals ++ (← clauseGoals options aliases right)
    | .disjunctive => do
      let branches ← clauseBranches options aliases left
      return [.anyOf (branches ++ (← clauseBranches options aliases right))]
  | .condition c => conditionGoals aliases c

/-- The branches that a clause adds to a choice: those of an alternative, or itself. -/
def clauseBranches (options : CompilerOptions) (aliases : Aliases) :
    Clause → Compiling (List (List Goal))
  | .either left right => do
    let branches ← clauseBranches options aliases left
    return branches ++ (← clauseBranches options aliases right)
  | .both left right => do
    let goals ← clauseGoals options aliases left
    return [goals ++ (← clauseGoals options aliases right)]
  | .condition c => return [← conditionGoals aliases c]

end

/-- The fields to return: those asked for, or the entity, and those whose text is matched. -/
def outputFields (q : Query) : List Field :=
  let asked := if q.returns.isEmpty then [⟨q.var, []⟩] else q.returns
  let matched := q.conditions.filterMap fun
    | .matching f _ _ => some f
    | _ => none
  asked ++ matched

/-- Binds the columns of fields, each column once. -/
def columns (aliases : Aliases) :
    Projection → List Field → Compiling (Projection × List Goal)
  | projection, [] => pure (projection, [])
  | projection, f :: rest =>
    if (projection.lookup f.display).isSome then columns aliases projection rest
    else do
      let (value, goals) ← bind aliases 'o' f
      let (projection, more) ← columns aliases (projection ++ [(f.display, value)]) rest
      return (projection, goals ++ more)

/-- The sort key of a field: its column, or a variable that carries it without being a column. -/
def sortKey (aliases : Aliases) (projection : Projection) (s : SortField) :
    Compiling (SortKey × List Goal) :=
  match projection.lookup s.field.display with
  | some value => pure (⟨s.field.display, value, s.direction⟩, [])
  | none => do
    let (value, goals) ← bind aliases 's' s.field
    return (⟨s.field.display, value, s.direction⟩, goals)

/-- The variables of the answer: those of the columns, and that of the sort key. -/
def answerVariables (projection : Projection) (key : Option SortKey) : List String :=
  let columns := projection.map (·.2)
  columns ++ (key.toList.map (·.carrier)).filter fun value => !columns.contains value

/-- The goals of a query. -/
def query (options : CompilerOptions) (aliases : Aliases) (q : Query) : Compiling Compiled := do
  let typeGoal := attrGoal (.var q.var) (.const (.text "type")) (.const (.text q.entityType))
  let tests ← match q.clause with
    | some c => clauseGoals options aliases c
    | none => pure []
  let (projection, lookups) ← columns aliases [] (outputFields q)
  let (key, keyGoals) ← match q.sortField with
    | some s => do
      let (key, goals) ← sortKey aliases projection s
      pure (some key, goals)
    | none => pure (none, [])
  return {
    query := ⟨typeGoal :: (tests ++ lookups ++ keyGoals), answerVariables projection key⟩
    projection, sortKey := key, limit := q.limit, entityType := q.entityType }

end Compile

/-- The query as goals, with attributes looked up under their aliases. -/
def Query.compile (options : CompilerOptions) (aliases : Aliases) (q : Query) : Compiled :=
  ((Compile.query options aliases q).run 0).1

end Factbase.Find
