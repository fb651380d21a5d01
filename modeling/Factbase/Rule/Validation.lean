import Factbase.Rule.Fault

/-! # Which rules are accepted

`Rule.fault?` examines a rule beside the rules that are already there: its head is a derived
relation, has as many terms as in the earlier rules of that relation, and has no variable that the
body may leave without value. -/

namespace Factbase.Rule

/-- Whether the head is a derived relation. -/
def headFault? (r : Rule) : Option RuleFault :=
  if r.head.predicate.isBuiltIn then some (.builtInHead r.headName) else none

/-- Whether the head has as many terms as that of an earlier rule of the same relation. -/
def arityFault? (existing : List Rule) (r : Rule) : Option RuleFault :=
  match existing.find? (·.headName == r.headName) with
  | some earlier =>
    if earlier.head.terms.length = r.head.terms.length then none
    else some (.arity r.headName earlier.head.terms.length r.head.terms.length)
  | none => none

/-- Whether the body binds every variable of the head. -/
def variableFault? (r : Rule) : Option RuleFault :=
  let bound := Goal.boundInEach r.body
  (r.head.variableNames.find? fun name => !bound.contains name).map .unboundVariable

/-- What is wrong with a rule beside the existing rules. -/
def fault? (existing : List Rule) (r : Rule) : Option RuleFault :=
  r.headFault?.or ((r.arityFault? existing).or r.variableFault?)

end Factbase.Rule
