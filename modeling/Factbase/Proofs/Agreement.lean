import Factbase.Proofs.Passes
import Factbase.Proofs.Solving

/-! # Working sets that agree

What a goal finds, and what an application of a rule does, depends on the relations that are read
only. Over working sets that hold the same tuples in the same order there, a goal has the same
solutions (`Goal.solutions_congr`), and a rule adds the same tuples (`Rule.apply_congr`). -/

namespace Factbase

/-- Two working sets hold the same tuples in the same order in some relations. -/
def WorkingSet.AgreeOn (names : String → Prop) (w w' : WorkingSet) : Prop :=
  ∀ name, names name → w.tuples name = w'.tuples name

namespace Goal

variable {names : String → Prop} {w w' : WorkingSet} {goal : Goal} {goals : List Goal}

/-- A conjunction has the same solutions where each of its goals has. -/
theorem solutionsEach_congr_of_forall
    (h : ∀ goal ∈ goals, solutions w goal = solutions w' goal) (bindings : List Binding) :
    solutionsEach w goals bindings = solutionsEach w' goals bindings := by
  induction goals generalizing bindings with
  | nil => rw [solutionsEach_nil, solutionsEach_nil]
  | cons goal rest ih =>
    rw [List.forall_mem_cons] at h
    rw [solutionsEach_cons, solutionsEach_cons, h.1, ih h.2]

/-- The branches of a choice have the same solutions where each goal in them has. -/
theorem solutionsAny_congr_of_forall {branches : List (List Goal)}
    (h : ∀ branch ∈ branches, ∀ goal ∈ branch, solutions w goal = solutions w' goal) (b : Binding) :
    solutionsAny w branches b = solutionsAny w' branches b := by
  induction branches with
  | nil => rw [solutionsAny_nil, solutionsAny_nil]
  | cons branch rest ih =>
    rw [List.forall_mem_cons] at h
    rw [solutionsAny_cons, solutionsAny_cons, solutionsEach_congr_of_forall h.1, ih h.2]

/-- A goal has the same solutions, in the same order, over working sets that agree on the relations
that it reads. -/
theorem solutions_congr (h : w.AgreeOn names w') (hgoal : goal.ReadsWithin names names) :
    solutions w goal = solutions w' goal := by
  induction goal with
  | literal l =>
    funext b
    rw [solutions_literal, solutions_literal]
    split
    · next hl => rw [Literal.lookup_eq hl, Literal.lookup_eq hl, h _ (hgoal.of_literal hl)]
    · rfl
  | not goal ih =>
    funext b
    rw [solutions_not, solutions_not, ih hgoal.of_not]
  | anyOf branches ih =>
    funext b
    rw [solutions_anyOf, solutions_anyOf]
    exact congrArg _ (solutionsAny_congr_of_forall (fun branch hbranch goal hmem =>
      ih branch hbranch goal hmem (hgoal.of_anyOf hbranch hmem)) b)

/-- A conjunction has the same solutions over working sets that agree on the relations that its
goals read. -/
theorem solutionsEach_congr (h : w.AgreeOn names w')
    (hgoals : ∀ goal ∈ goals, goal.ReadsWithin names names) (bindings : List Binding) :
    solutionsEach w goals bindings = solutionsEach w' goals bindings :=
  solutionsEach_congr_of_forall (fun goal hgoal => solutions_congr h (hgoals goal hgoal)) bindings

end Goal

namespace Rule

open Deriving

variable {names : String → Prop} {r : Rule} {w w' w₁ : WorkingSet} {n : Nat}

/-- A rule does the same to working sets that agree on its own relation and on those that its goals
read. -/
theorem apply_congr (hhead : names r.headName)
    (hbody : ∀ goal ∈ r.body, goal.ReadsWithin names names) (h : w.AgreeOn names w')
    (happly : outcome (r.apply w) = .ok (n, w₁)) :
    ∃ w₁', outcome (r.apply w') = .ok (n, w₁') ∧ w₁.AgreeOn names w₁' := by
  obtain ⟨tuples, hderive, hinsert⟩ :=
    (outcome_bind_eq_ok fun _ => Deriving.isCacheFree_pure _).1 happly
  have hinsertEach := WorkingSet.insertEach_congr (h r.headName hhead) tuples
  rw [outcome_derive, Goal.solutionsEach_congr h hbody] at hderive
  obtain hinsert : w.insertEach r.headName tuples = (n, w₁) := by simpa using hinsert
  rw [hinsert] at hinsertEach
  obtain ⟨hcount, htuples⟩ := hinsertEach
  refine ⟨(w'.insertEach r.headName tuples).2, ?_, fun name hname => ?_⟩
  · refine (outcome_bind_eq_ok fun _ => Deriving.isCacheFree_pure _).2 ⟨tuples, hderive, ?_⟩
    rw [show n = (w'.insertEach r.headName tuples).1 from hcount]
    rfl
  · by_cases hname' : name = r.headName
    · rw [hname']
      exact htuples
    · rw [tuples_apply_of_ne happly hname', WorkingSet.tuples_insertEach_of_ne hname']
      exact h name hname

/-- A rule that adds nothing adds nothing to working sets that agree on what it reads and
derives. -/
theorem apply_zero_congr (hhead : names r.headName)
    (hbody : ∀ goal ∈ r.body, goal.ReadsWithin names names) (h : w.AgreeOn names w')
    (hzero : outcome (r.apply w) = .ok (0, w)) : outcome (r.apply w') = .ok (0, w') := by
  obtain ⟨w₁', happly, -⟩ := apply_congr hhead hbody h hzero
  obtain ⟨tuples, hinsert, -, -⟩ := apply_ok happly
  have hsame := WorkingSet.insertEach_of_zero (congrArg Prod.fst hinsert)
  rw [hinsert] at hsame
  rw [happly, show w₁' = w' from hsame]

end Rule

end Factbase
