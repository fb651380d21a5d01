import Factbase.Program
import Factbase.Solution

/-! # Saturating a working set

Rules are applied level by level. On each level the rules are passed over again and again, each rule
inserting what it derives before the next one is applied, until a pass adds nothing or the passes
that are allowed are used up. -/

namespace Factbase

/-- Computations that match patterns and may fail. -/
abbrev Deriving := ExceptT RuleError Matching

/-- What became of a working set. -/
structure Saturation where
  /-- Passes over rules. -/
  iterations : Nat
  /-- Tuples added. -/
  derived : Nat
  /-- Whether on every level the last pass added nothing. -/
  converged : Bool
  result : WorkingSet

/-- Counts of a saturation. -/
structure SaturationStats where
  rules : Nat
  strata : Nat
  iterations : Nat
  derived : Nat
  converged : Bool
deriving DecidableEq, Repr

namespace Rule

/-- The tuple of the head under a binding of its variables. -/
def headTuple (r : Rule) (b : Binding) : Except RuleError Tuple :=
  r.head.terms.mapM fun term =>
    match b.resolve term with
    | some value => .ok value
    | none => .error (.unboundHead term r)

/-- The tuples that one application of the rule derives. -/
def derive (r : Rule) (w : WorkingSet) : Deriving (List Tuple) := do
  let solutions ← (Goal.solveEach w r.body [.empty] : Matching (List Binding))
  ExceptT.mk (pure (solutions.mapM r.headTuple))

/-- Applies the rule once, and counts the new tuples. -/
def apply (r : Rule) (w : WorkingSet) : Deriving (Nat × WorkingSet) := do
  let tuples ← r.derive w
  return w.insertEach r.headName tuples

end Rule

namespace Saturation

/-- Applies each rule once, in order, and counts the new tuples. -/
def pass : List Rule → WorkingSet → Deriving (Nat × WorkingSet)
  | [], w => return (0, w)
  | r :: rest, w => do
    let (added, w) ← r.apply w
    let (more, w) ← pass rest w
    return (added + more, w)

/-- Passes over the rules of a level until nothing is added, at most a given number of times. -/
def ofLevel (rules : List Rule) : Nat → WorkingSet → Deriving Saturation
  | 0, w => return ⟨0, 0, false, w⟩
  | n + 1, w => do
    let (added, w) ← pass rules w
    -- the pass that adds nothing counts too
    if added = 0 then return ⟨1, 0, true, w⟩
    else
      let s ← ofLevel rules n w
      return { s with iterations := s.iterations + 1, derived := s.derived + added }

/-- Saturates level after level. -/
def ofLevels (maxIterations : Nat) : List (List Rule) → WorkingSet → Deriving Saturation
  | [], w => return ⟨0, 0, true, w⟩
  | rules :: rest, w => do
    let s ← ofLevel rules maxIterations w
    let t ← ofLevels maxIterations rest s.result
    return ⟨s.iterations + t.iterations, s.derived + t.derived, s.converged && t.converged,
      t.result⟩

end Saturation

namespace Program

/-- The rules by the level of their heads, from the lowest level upwards. -/
def levels (p : Program) (rules : List Rule) : List (List Rule) :=
  let level := fun r : Rule => p.strata.level r.headName
  (orderedSet compare (rules.map level)).map fun n => rules.filter fun r => level r = n

/-- Saturates a working set with some rules of the program. -/
def run (p : Program) (rules : List Rule) (w : WorkingSet) :
    Except RuleError (SaturationStats × WorkingSet) := do
  let levels := p.levels rules
  let s ← ((Saturation.ofLevels p.settings.maxIterations levels w).run.run .empty).1
  return (⟨rules.length, levels.length, s.iterations, s.derived, s.converged⟩, s.result)

/-- Saturates a working set with all rules of the program. -/
def saturate (p : Program) (w : WorkingSet) : Except RuleError (SaturationStats × WorkingSet) :=
  p.run p.rules w

end Program

/-- The counts as a record. -/
def SaturationStats.encode (s : SaturationStats) : Json :=
  Json.ofMembers
    [("rules", .ofNat s.rules), ("strata", .ofNat s.strata), ("iterations", .ofNat s.iterations),
      ("derived", .ofNat s.derived), ("converged", .bool s.converged)]

end Factbase
