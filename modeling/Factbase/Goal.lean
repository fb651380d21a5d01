import Factbase.Literal

/-! # Goals, rules and queries

A `Goal` is a literal, a negated goal, or a choice between conjunctions. A `Rule` derives its head
from the goals of its body, and a `GoalQuery` asks for the values of some variables that satisfy a
list of goals in order.

`Goal.boundVariables` are the variables that a goal binds in every solution; `Goal.references` are
the derived relations it mentions, marked when under a negation. -/

namespace Factbase

/-- One element of a query or of the body of a rule. -/
inductive Goal where
  | literal (l : Literal)
  /-- Holds, and binds nothing, when the goal has no solution. -/
  | not (goal : Goal)
  /-- The solutions of all branches, each a conjunction. -/
  | anyOf (branches : List (List Goal))
deriving Inhabited

/-- A mention of a derived relation. -/
structure Reference where
  name : String
  negated : Bool
deriving DecidableEq, Repr

/-- A definition of a derived relation. -/
structure Rule where
  head : Literal
  body : List Goal
deriving Inhabited

/-- Goals in order, with the variables that make up an answer; none means all. -/
structure GoalQuery where
  goals : List Goal
  answer : List String
deriving Inhabited

namespace Goal

/-- Induction over goals: a choice may use what holds of each goal in its branches. -/
@[elab_as_elim, induction_eliminator]
theorem induct {motive : Goal → Prop} (literal : ∀ l, motive (.literal l))
    (not : ∀ goal, motive goal → motive (.not goal))
    (anyOf : ∀ branches, (∀ branch ∈ branches, ∀ goal ∈ branch, motive goal) →
      motive (.anyOf branches)) (goal : Goal) : motive goal := by
  refine Goal.rec (motive_1 := motive)
    (motive_2 := fun branches => ∀ branch ∈ branches, ∀ goal ∈ branch, motive goal)
    (motive_3 := fun branch => ∀ goal ∈ branch, motive goal)
    literal not anyOf ?_ ?_ ?_ ?_ goal
  · exact fun _ h => absurd h List.not_mem_nil
  · exact fun branch rest hbranch hrest => List.forall_mem_cons.2 ⟨hbranch, hrest⟩
  · exact fun _ h => absurd h List.not_mem_nil
  · exact fun goal rest hgoal hrest => List.forall_mem_cons.2 ⟨hgoal, hrest⟩

mutual

/-- The variables that the goal binds in every solution. -/
def boundVariables : Goal → List String
  | .literal l => if l.predicate.isRelation then nameSet l.variableNames else []
  | .not _ => []
  | .anyOf [] => []
  | .anyOf (branch :: rest) => boundInAll (boundInEach branch) rest

/-- The variables that some goal of a conjunction binds. -/
def boundInEach : List Goal → List String
  | [] => []
  | goal :: rest => nameSet (boundVariables goal ++ boundInEach rest)

/-- The variables among the given ones that every branch binds. -/
def boundInAll (bound : List String) : List (List Goal) → List String
  | [] => bound
  | branch :: rest => boundInAll (bound.filter (boundInEach branch).contains) rest

end

mutual

/-- The derived relations that the goal mentions, from left to right. -/
def referencesUnder (negated : Bool) : Goal → List Reference
  | .literal ⟨.derived name, _⟩ => [⟨name, negated⟩]
  | .literal _ => []
  | .not goal => referencesUnder true goal
  | .anyOf branches => referencesInBranches negated branches

/-- The derived relations that a conjunction mentions. -/
def referencesInEach (negated : Bool) : List Goal → List Reference
  | [] => []
  | goal :: rest => referencesUnder negated goal ++ referencesInEach negated rest

/-- The derived relations that the branches of a choice mention. -/
def referencesInBranches (negated : Bool) : List (List Goal) → List Reference
  | [] => []
  | branch :: rest => referencesInEach negated branch ++ referencesInBranches negated rest

end

/-- A conjunction binds what some goal of it binds. -/
@[simp] theorem mem_boundInEach {name : String} {goals : List Goal} :
    name ∈ boundInEach goals ↔ ∃ goal ∈ goals, name ∈ boundVariables goal := by
  induction goals with
  | nil => simp [boundInEach]
  | cons goal rest ih => simp [boundInEach, ih]

/-- Every branch binds what all of them bind. -/
theorem mem_boundInAll {name : String} {bound : List String} {branches : List (List Goal)} :
    name ∈ boundInAll bound branches ↔
      name ∈ bound ∧ ∀ branch ∈ branches, name ∈ boundInEach branch := by
  induction branches generalizing bound with
  | nil => simp [boundInAll]
  | cons branch rest ih => simp [boundInAll, ih, and_assoc]

/-- Every branch of a choice binds what the choice binds. -/
theorem mem_boundInEach_of_anyOf {name : String} {branches : List (List Goal)}
    (h : name ∈ boundVariables (.anyOf branches)) {branch : List Goal}
    (hbranch : branch ∈ branches) :
    name ∈ boundInEach branch := by
  cases branches with
  | nil => simp at hbranch
  | cons first rest =>
    rw [boundVariables, mem_boundInAll] at h
    rcases List.mem_cons.1 hbranch with rfl | hbranch
    · exact h.1
    · exact h.2 branch hbranch

/-- The derived relations that the goal mentions, marked when under a negation. -/
def references (goal : Goal) : List Reference := referencesUnder false goal

mutual

/-- The goal in a rule text. -/
def display : Goal → String
  | .literal l => l.display
  | .not goal => "not(" ++ display goal ++ ")"
  | .anyOf branches => "(" ++ displayBranches branches ++ ")"

/-- A conjunction in a rule text. -/
def displayEach : List Goal → String
  | [] => ""
  | [goal] => display goal
  | goal :: rest => display goal ++ ", " ++ displayEach rest

/-- The branches of a choice in a rule text. -/
def displayBranches : List (List Goal) → String
  | [] => ""
  | [branch] => displayEach branch
  | branch :: rest => displayEach branch ++ "; " ++ displayBranches rest

end

end Goal

namespace Rule

/-- Name of the relation that the rule derives into. -/
def headName (r : Rule) : String := r.head.predicate.name

/-- The derived relations that the body mentions. -/
def references (r : Rule) : List Reference := Goal.referencesInEach false r.body

/-- The text of the rule. -/
def display (r : Rule) : String :=
  r.head.display ++ (if r.body.isEmpty then "" else " :- " ++ Goal.displayEach r.body) ++ "."

end Rule

namespace GoalQuery

/-- A query for given variables, written with or without question mark. -/
def ofGoals (goals : List Goal) (answer : List String) : GoalQuery :=
  ⟨goals, answer.map variableName⟩

/-- The derived relations that the query mentions. -/
def derivedNames (q : GoalQuery) : List String :=
  nameSet ((Goal.referencesInEach false q.goals).map (·.name))

/-- The text of the goals. -/
def display (q : GoalQuery) : String := Goal.displayEach q.goals

end GoalQuery

end Factbase
