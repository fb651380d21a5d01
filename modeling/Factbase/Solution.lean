import Factbase.Filter
import Factbase.Goal
import Factbase.WorkingSet

/-! # Solving goals

`Goal.solve` gives the bindings that extend a given one and satisfy a goal over the relations of a
working set, and `Goal.solveEach` those that satisfy a conjunction, goal after goal in the order
written. Relations are looked up and bind variables; filters and negated goals only drop bindings;
of the branches of a choice each solution is kept once. -/

namespace Factbase

namespace Literal

/-- Binds the variables of a literal to the columns of a tuple, if they agree. -/
def bind? (b : Binding) : List Term → Tuple → Option Binding
  | .var name :: terms, value :: tuple => (b.unify? name value).bind fun b => bind? b terms tuple
  | .const _ :: terms, _ :: tuple => bind? b terms tuple
  | _, _ => some b

/-- The name of the relation where a literal is looked up. -/
def relationName? (l : Literal) : Option String :=
  if l.predicate.isRelation then some l.predicate.name else none

/-- The bindings that extend a given one by a tuple of the relation of a literal. -/
def lookup (w : WorkingSet) (l : Literal) (b : Binding) : List Binding :=
  match l.relationName?.bind w.relation? with
  | some r => (r.matching (l.terms.map b.resolve)).filterMap (bind? b l.terms)
  | none => []

end Literal

/-- Solves a goal for each of some bindings. -/
def solveFrom (solve : Binding → Matching (List Binding)) :
    List Binding → Matching (List Binding)
  | [] => pure []
  | b :: rest => do
    let solutions ← solve b
    return solutions ++ (← solveFrom solve rest)

namespace Goal

mutual

/-- The solutions of a goal that extend a binding. -/
def solve (w : WorkingSet) : Goal → Binding → Matching (List Binding)
  | .literal l, b =>
    if l.predicate.isRelation then pure (l.lookup w b)
    else do
      let isTrue ← Filter.holds l.predicate l.terms b
      return if isTrue then [b] else []
  | .not goal, b => do
    let solutions ← solve w goal b
    return if solutions.isEmpty then [b] else []
  | .anyOf branches, b => do
    let solutions ← solveAny w branches b
    return distinctBy Binding.canonical solutions

/-- The solutions of a conjunction that extend one of some bindings. -/
def solveEach (w : WorkingSet) : List Goal → List Binding → Matching (List Binding)
  | [], bindings => pure bindings
  | goal :: rest, bindings => do
    let solutions ← solveFrom (solve w goal) bindings
    solveEach w rest solutions

/-- The solutions of the branches of a choice, branch after branch. -/
def solveAny (w : WorkingSet) : List (List Goal) → Binding → Matching (List Binding)
  | [], _ => pure []
  | branch :: rest, b => do
    let solutions ← solveEach w branch [b]
    return solutions ++ (← solveAny w rest b)

end

end Goal

end Factbase
