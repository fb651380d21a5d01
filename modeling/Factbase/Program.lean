import Factbase.Dependency
import Factbase.Json
import Factbase.Rule.Validation

/-! # Programs

A `Program` is a list of accepted rules with the levels of its relations. `Program.addRule` accepts
a rule that fits the rules before it, as long as no relation comes to depend on its own negation; a
rejected rule leaves the program as it was. `Program.rulesFor` are the rules that a query needs. -/

namespace Factbase

/-- Settings of an evaluation. -/
structure Settings where
  /-- Passes over the rules of a level before giving up. -/
  maxIterations : Nat
  /-- Evaluate only the rules that the query depends on. -/
  pruneUnusedRules : Bool
deriving DecidableEq, Repr

/-- Accepted rules, in the order in which they were added. -/
structure Program where
  settings : Settings
  rules : List Rule
  strata : Strata

namespace Settings

/-- The settings unless others are given. -/
def default : Settings := ⟨100, true⟩

/-- The settings as a record. -/
def encode (s : Settings) : Json :=
  Json.ofMembers
    [("maxIterations", .ofNat s.maxIterations), ("pruneUnusedRules", .bool s.pruneUnusedRules)]

/-- Reads settings. -/
def decode? (json : Json) : Option Settings :=
  match Json.fields? ["maxIterations", "pruneUnusedRules"] json with
  | some [iterations, prune] => do
    let maxIterations ← Json.withDefault default.maxIterations Json.count? iterations
    let pruneUnusedRules ← Json.withDefault default.pruneUnusedRules Json.bool? prune
    return { maxIterations, pruneUnusedRules }
  | _ => none

end Settings

namespace Program

/-- The program without rules. -/
def empty (settings : Settings) : Program := ⟨settings, [], []⟩

/-- The level of a relation that the rules mention. -/
def stratum? (p : Program) (name : String) : Option Nat := p.strata.lookup name

/-- Adds a rule, or tells why it is rejected. -/
def addRule (p : Program) (r : Rule) : Except RuleError Program :=
  match r.fault? p.rules with
  | some fault => .error (.rejected fault r)
  | none => do
    let rules := p.rules ++ [r]
    let strata ← (DependencyGraph.ofRules rules).strata
    return { p with rules, strata }

/-- Adds rules up to the first that is rejected, and tells why it is. -/
def addRules (p : Program) : List Rule → Program × Option RuleError
  | [] => (p, none)
  | r :: rest =>
    match p.addRule r with
    | .ok p => addRules p rest
    | .error e => (p, some e)

/-- The rules that a query needs: those of the relations that it depends on, or all. -/
def rulesFor (p : Program) (q : GoalQuery) : List Rule :=
  if p.settings.pruneUnusedRules then
    match q.derivedNames with
    | [] => []
    | roots =>
      let required := (DependencyGraph.ofRules p.rules).required roots
      p.rules.filter fun r => required.contains r.headName
  else p.rules

end Program

end Factbase
