import Factbase.Plan
import Factbase.Saturation

/-! # Evaluating queries

A query is evaluated over a store: a working set is seeded from the store and saturated with the
rules that the query needs, the goals are solved in it, and each solution is restricted to the
variables of the answer. Answers stand in the order in which they were first found, each once. -/

namespace Factbase

/-- The answers to a query. -/
structure Answers where
  bindings : List Binding
  plan : Plan

namespace Answers

/-- The answers that solutions give: each restricted to the given variables, if there are any, and
kept where it first occurs. -/
def project (names : List String) (solutions : List Binding) : List Binding :=
  distinctBy Binding.canonical
    (if names.isEmpty then solutions else solutions.map (·.restrict names))

/-- The answers as a record. -/
def encode (a : Answers) : Json :=
  Json.ofMembers [("bindings", .ofList Binding.encode a.bindings), ("plan", a.plan.encode)]

end Answers

namespace GoalQuery

/-- The solutions of the goals over a working set. -/
def solutions (q : GoalQuery) (w : WorkingSet) : List Binding :=
  ((Goal.solveEach w q.goals [.empty]).run .empty).1

/-- The answers over a working set. -/
def answers (q : GoalQuery) (w : WorkingSet) : List Binding :=
  Answers.project q.answer (q.solutions w)

end GoalQuery

namespace Program

/-- The answers to a query over a store, with the saturated working set. What the given working set
held before is dropped. -/
def evaluateIn (p : Program) (s : Store) (w : WorkingSet) (q : GoalQuery) :
    Except RuleError (Answers × WorkingSet) := do
  let (stats, w) ← p.run (p.rulesFor q) (w.seed s)
  let plan : Plan :=
    { goals := q.goals.length
      rules := stats.rules
      strata := stats.strata
      iterations := stats.iterations
      derived := stats.derived
      converged := stats.converged }
  return (⟨q.answers w, plan⟩, w)

/-- The answers to a query over a store. -/
def evaluate (p : Program) (s : Store) (q : GoalQuery) : Except RuleError Answers :=
  (p.evaluateIn s .empty q).map (·.1)

end Program

end Factbase
