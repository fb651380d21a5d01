import Factbase.Proofs.CompiledQueries

/-! # The literals of compiled goals

AND and OR put the goals of conditions together in different ways, as conjunctions and as branches
of a choice, but the literals in them are those of the conditions, from left to right, and the
numbers of the added variables are counted on in that order. So what holds of the literals of each
condition, and is kept when literals follow each other, holds of the literals of a clause
(`Find.Compile.literals_clause`), wherever they stand in it. -/

namespace Factbase

namespace Goal

mutual

/-- The literals in a goal, from left to right. -/
def literals : Goal → List Literal
  | .literal l => [l]
  | .not goal => literals goal
  | .anyOf branches => literalsInBranches branches

/-- The literals in a conjunction. -/
def literalsInEach : List Goal → List Literal
  | [] => []
  | goal :: rest => literals goal ++ literalsInEach rest

/-- The literals in the branches of a choice. -/
def literalsInBranches : List (List Goal) → List Literal
  | [] => []
  | branch :: rest => literalsInEach branch ++ literalsInBranches rest

end

@[simp] theorem literalsInEach_append (front back : List Goal) :
    literalsInEach (front ++ back) = literalsInEach front ++ literalsInEach back := by
  induction front with
  | nil => rfl
  | cons goal rest ih =>
    rw [List.cons_append, literalsInEach, literalsInEach, ih, List.append_assoc]

@[simp] theorem literalsInBranches_append (front back : List (List Goal)) :
    literalsInBranches (front ++ back) = literalsInBranches front ++ literalsInBranches back := by
  induction front with
  | nil => rfl
  | cons branch rest ih =>
    rw [List.cons_append, literalsInBranches, literalsInBranches, ih, List.append_assoc]

theorem literalsInBranches_singleton (goals : List Goal) :
    literalsInBranches [goals] = literalsInEach goals := by
  rw [literalsInBranches, literalsInBranches, List.append_nil]

theorem literalsInEach_anyOf (branches : List (List Goal)) :
    literalsInEach [.anyOf branches] = literalsInBranches branches := by
  rw [literalsInEach, literalsInEach, literals, List.append_nil]

/-- Goals that are literals have these literals. -/
@[simp] theorem literalsInEach_map_literal (ls : List Literal) :
    literalsInEach (ls.map .literal) = ls := by
  induction ls with
  | nil => rfl
  | cons l rest ih => rw [List.map_cons, literalsInEach, literals, ih, List.singleton_append]

end Goal

namespace Find

open Goal (literalsInEach literalsInBranches)

/-- The literals in the goals of a compiled query. -/
def Compiled.literals (c : Compiled) : List Literal := literalsInEach c.query.goals

namespace Compile

/-- What holds of the literals of each condition, with the numbers before and after it, holds of
those of a clause and of its branches, if it is kept when literals follow each other. -/
theorem literals_clause (options : CompilerOptions) (aliases : Aliases)
    {P : Nat → Nat → List Condition → List Literal → Prop}
    (append : ∀ {n n' n'' cs cs' ls ls'}, P n n' cs ls → P n' n'' cs' ls' →
      P n n'' (cs ++ cs') (ls ++ ls'))
    {c : Clause} (condition : ∀ condition ∈ c.conditions, ∀ n,
      P n ((conditionGoals aliases condition).run n).2 [condition]
        (literalsInEach ((conditionGoals aliases condition).run n).1)) (n : Nat) :
    P n ((clauseGoals options aliases c).run n).2 c.conditions
        (literalsInEach ((clauseGoals options aliases c).run n).1) ∧
      P n ((clauseBranches options aliases c).run n).2 c.conditions
        (literalsInBranches ((clauseBranches options aliases c).run n).1) := by
  induction c generalizing n with
  | both left right hleft hright =>
    rw [Clause.conditions, List.forall_mem_append] at condition
    have hgoals := append (hleft condition.1 n).1 (hright condition.2 _).1
    rw [← Goal.literalsInEach_append] at hgoals
    rw [clauseGoals, clauseBranches]
    refine ⟨hgoals, ?_⟩
    rw [← Goal.literalsInBranches_singleton] at hgoals
    exact hgoals
  | either left right hleft hright =>
    rw [Clause.conditions, List.forall_mem_append] at condition
    have hbranches := append (hleft condition.1 n).2 (hright condition.2 _).2
    rw [← Goal.literalsInBranches_append] at hbranches
    rw [clauseGoals, clauseBranches]
    refine ⟨?_, hbranches⟩
    cases options.orMode with
    | conjunctive =>
      have hgoals := append (hleft condition.1 n).1 (hright condition.2 _).1
      rw [← Goal.literalsInEach_append] at hgoals
      exact hgoals
    | disjunctive =>
      rw [← Goal.literalsInEach_anyOf] at hbranches
      exact hbranches
  | condition c =>
    have hgoals := condition c (List.mem_singleton.2 rfl) n
    rw [clauseGoals, clauseBranches]
    refine ⟨hgoals, ?_⟩
    rw [← Goal.literalsInBranches_singleton] at hgoals
    exact hgoals

/-- A compiled query has the literal of its type, then those of its tests, of the look-ups of its
columns, and of the look-up of its sort key. -/
theorem exists_literals_compile (options : CompilerOptions) (aliases : Aliases) (q : Query) :
    ∃ tests lookups keyGoals projection key n₁ n₂ n₃,
      (clauseTests options aliases q).run 0 = (tests, n₁) ∧
      (columns aliases [] (outputFields q)).run n₁ = ((projection, lookups), n₂) ∧
      (sortTests aliases projection q).run n₂ = ((key, keyGoals), n₃) ∧
      q.compile options aliases =
        { query := ⟨typeGoal q :: (tests ++ lookups ++ keyGoals), answerVariables projection key⟩
          projection, sortKey := key, limit := q.limit, entityType := q.entityType } ∧
      (q.compile options aliases).literals =
        ⟨.attr, [.var q.var, .const (.text typeAttribute), .const (.text q.entityType)]⟩ ::
          (literalsInEach tests ++ literalsInEach lookups ++ literalsInEach keyGoals) := by
  have hcompile := compile_eq options aliases (q := q)
  refine ⟨_, _, _, _, _, _, _, _, rfl, rfl, rfl, hcompile, ?_⟩
  rw [Compiled.literals, hcompile, ← Goal.literalsInEach_append, ← Goal.literalsInEach_append]
  rfl

end Compile

end Find

end Factbase
