import Factbase.Rule.Fault

/-! # Dependencies between derived relations

A relation depends on the relations that the bodies of its rules mention, on some of them through a
negation. From this `DependencyGraph` come

* `required`: what has to be known to answer for some relations, found on a walk along the edges,
* `negativeCycle?`: a shortest way to close a cycle after its first, negative, edge,
* `strata`: a level for every relation, at or above the levels of what it depends on and above
  those of what it negates; there are such levels unless a cycle passes through a negation. -/

namespace Factbase

/-- Order of references: by name, the plain one before the negated one. -/
def Reference.order (a b : Reference) : Ordering :=
  (compare a.name b.name).then (compare a.negated.toNat b.negated.toNat)

/-- Which derived relations depend on which. -/
structure DependencyGraph where
  /-- The relations that occur in heads and bodies, in order. -/
  predicates : List String
  /-- For each relation with rules, in order, the references of their bodies, in order. -/
  dependencies : List (String × List Reference)

/-- A walk along the dependencies of relations. -/
structure Walk where
  /-- The relations that were visited, in order. -/
  visited : List String
  /-- The relations that wait to be visited, the next one first. A relation may wait several times,
  and also when it was visited. -/
  waiting : List String

/-- A walk that starts from some relations; the last of them is visited first. -/
def Walk.start (roots : List String) : Walk := ⟨[], (nameSet roots).reverse⟩

/-- A level for each of some relations, in the order of their names. -/
abbrev Strata := List (String × Nat)

/-- The level of a relation, zero unless it has one. -/
def Strata.level (levels : Strata) (name : String) : Nat := (levels.lookup name).getD 0

namespace DependencyGraph

/-- The graph without relations. -/
def empty : DependencyGraph := ⟨[], []⟩

/-- What a relation depends on, in order. -/
def edges (g : DependencyGraph) (name : String) : List Reference :=
  (g.dependencies.lookup name).getD []

/-- Adds the relations and the dependencies of a rule. -/
def addRule (g : DependencyGraph) (r : Rule) : DependencyGraph :=
  let mentioned := r.references
  { predicates := nameSet (g.predicates ++ r.headName :: mentioned.map (·.name))
    dependencies :=
      putEntry r.headName (orderedSet Reference.order (g.edges r.headName ++ mentioned))
        g.dependencies }

/-- The graph of some rules. -/
def ofRules (rules : List Rule) : DependencyGraph := rules.foldl addRule empty

/-- Takes the next relation that waits. Unless it was visited before it is visited now, and what it
depends on and was not visited waits in front of all others, the last one first. -/
def visit (g : DependencyGraph) (walk : Walk) : Walk :=
  match walk.waiting with
  | [] => walk
  | name :: waiting =>
    if walk.visited.contains name then { walk with waiting }
    else
      let visited := insertOrdered compare name walk.visited
      let found := ((g.edges name).map (·.name)).filter fun target => !visited.contains target
      { visited, waiting := found.reverse ++ waiting }

/-- Number of edges. -/
def edgeCount (g : DependencyGraph) : Nat := (g.dependencies.flatMap (·.2)).length

/-- The given relations and all that they depend on, directly or through others. What is taken was
given or is the end of an edge, and no edge is followed twice, which bounds the rounds. -/
def required (g : DependencyGraph) (roots : List String) : List String :=
  let start := Walk.start roots
  ((start.waiting.length + g.edgeCount).repeat g.visit start).visited

/-- The relations that `name` depends on and that are not in `seen`, in order. -/
def unseen (g : DependencyGraph) (seen : List String) (name : String) : List String :=
  (nameSet ((g.edges name).map (·.name))).filter fun target => !seen.contains target

/-- Breadth-first search for `target`. The queue holds the paths by which relations were first
reached, each from its end to its start, and `seen` the relations that were ever in the queue. The
number bounds how many paths are taken from the queue. -/
def search (g : DependencyGraph) (target : String) :
    Nat → List String → List (List String) → Option (List String)
  | 0, _, _ => none
  | _, _, [] => none
  | n + 1, seen, path :: queue =>
    let current := path.headD ""
    -- paths of equal length stay in the order of their ends
    if current = target then some path.reverse
    else
      let found := g.unseen seen current
      search g target n (seen ++ found) (queue ++ found.map (· :: path))

/-- A shortest path along dependencies, both ends included. -/
def path? (g : DependencyGraph) (start target : String) : Option (List String) :=
  g.search target (g.predicates.length + 1) [start] [[start]]

/-- The negative edges, each with the relation where it starts. -/
def negativeEdges (g : DependencyGraph) : List (String × String) :=
  g.dependencies.flatMap fun d => (d.2.filter (·.negated)).map fun e => (d.1, e.name)

/-- The first negative edge that lies on a cycle, followed by a shortest path back to its start. -/
def negativeCycle? (g : DependencyGraph) : Option (List String) :=
  g.negativeEdges.findSome? fun (start, next) =>
    (g.path? next start).map fun path => start :: path

/-- The level that a reference asks for. -/
def demand (levels : Strata) (e : Reference) : Nat := levels.level e.name + e.negated.toNat

/-- Raises the level of a relation to what its references ask for. -/
def raise (levels : Strata) (name : String) (edges : List Reference) : Strata :=
  putEntry name (edges.foldl (fun level e => max level (demand levels e)) (levels.level name))
    levels

/-- Raises the levels of all relations in order. -/
def raiseAll (g : DependencyGraph) (levels : Strata) : Strata :=
  g.dependencies.foldl (fun levels d => raise levels d.1 d.2) levels

/-- Raises levels until nothing changes; the number bounds the rounds. -/
def settle (g : DependencyGraph) : Nat → Strata → Option Strata
  | 0, _ => none
  | n + 1, levels =>
    let raised := g.raiseAll levels
    if raised = levels then some levels else settle g n raised

/-- The least levels, or the reason why there are none. -/
def strata (g : DependencyGraph) : Except RuleError Strata :=
  match g.negativeCycle? with
  | some cycle => .error (.unstratified cycle)
  | none =>
    match g.settle (g.predicates.length + 2) (g.predicates.map fun name => (name, 0)) with
    | some levels => .ok levels
    | none => .error .unsettledStrata

end DependencyGraph

end Factbase
