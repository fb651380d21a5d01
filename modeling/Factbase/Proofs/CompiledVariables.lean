import Factbase.Proofs.CompiledClauses
import Factbase.Proofs.QueryText

/-! # The variables of compiled goals

Goals that are compiled from a query mention two kinds of variables: those of the query, which are
words, and those that the compilation adds, whose numbers come before the number that is next
(`Find.Compile.Writes`). So none of them holds an equals sign, and from a binding without values for
the numbers from the next one on (`Binding.Spares`) solutions have none there either. -/

namespace Factbase

open Find.Compile (freshName freshName_inj freshName_ne not_mem_freshName)

/-- All variables that a goal mentions have a property. -/
def Goal.AllVariables (P : String → Prop) (goal : Goal) : Prop :=
  ∀ l, goal.Mentions l → ∀ name, Term.var name ∈ l.terms → P name

/-- The binding has no value for the variables that are added from a number on. -/
def Binding.Spares (n : Nat) (b : Binding) : Prop :=
  ∀ letter m, n ≤ m → b.get? (freshName letter m) = none

/-- A binding that spares the numbers from one on spares those from a later one on. -/
theorem Binding.Spares.mono {n n' : Nat} {b : Binding} (h : b.Spares n) (hle : n ≤ n') :
    b.Spares n' :=
  fun letter m hm => h letter m (Nat.le_trans hle hm)

namespace Goal

variable {P Q : String → Prop} {goal : Goal}

theorem AllVariables.imp (h : goal.AllVariables P) (hPQ : ∀ name, P name → Q name) :
    goal.AllVariables Q :=
  fun l hl name hname => hPQ name (h l hl name hname)

/-- The variables of a literal are those among its terms. -/
theorem allVariables_literal {l : Literal} :
    (literal l).AllVariables P ↔ ∀ name, Term.var name ∈ l.terms → P name := by
  constructor
  · exact fun h => h l (.literal l)
  · rintro h _ ⟨⟩
    exact h

/-- The variables of a choice are those of the goals in it. -/
theorem allVariables_anyOf {branches : List (List Goal)}
    (h : ∀ goal ∈ branches.flatten, goal.AllVariables P) : (anyOf branches).AllVariables P := by
  rintro l (_ | _ | ⟨hbranch, hgoal, hl⟩)
  exact h _ (List.mem_flatten.2 ⟨_, hbranch, hgoal⟩) l hl

end Goal

namespace Find

/-- A term is the variable that the operand is. -/
theorem Operand.var?_eq_some {o : Operand} {name : String} :
    o.var? = some name ↔ o.toTerm = .var name := by
  cases o <;> simp [var?, toTerm]

/-- The variables of a condition are that of its field and those among its operands. -/
theorem Condition.mem_vars {c : Condition} {name : String} :
    name ∈ c.vars ↔
      (∃ f, c.field? = some f ∧ f.var = name) ∨
        Term.var name ∈ c.operands.map Operand.toTerm := by
  simp only [Condition.vars, List.mem_append, List.mem_map, Option.mem_toList,
    List.mem_filterMap, Operand.var?_eq_some]

namespace Compile

/-- A variable that a query can write, or one that is added before a number. -/
def IsVariable (n : Nat) (name : String) : Prop :=
  IsWord name ∨ ∃ letter m, letter ≠ '=' ∧ m < n ∧ name = freshName letter m

section Variables

variable {n n' : Nat} {name : String}

theorem IsVariable.mono (h : IsVariable n name) (hle : n ≤ n') : IsVariable n' name :=
  h.imp_right fun ⟨letter, m, hletter, hm, hname⟩ =>
    ⟨letter, m, hletter, Nat.lt_of_lt_of_le hm hle, hname⟩

/-- None of these variables holds an equals sign. -/
theorem IsVariable.not_mem (h : IsVariable n name) : '=' ∉ name.toList := by
  rcases h with hword | ⟨letter, m, hletter, -, rfl⟩
  · exact hword.not_mem (by decide)
  · exact not_mem_freshName hletter m

/-- None of these variables is one that is added later. -/
theorem IsVariable.ne_freshName (h : IsVariable n name) (letter : Char) {m : Nat} (hm : n ≤ m) :
    name ≠ freshName letter m := by
  rcases h with hword | ⟨letter', m', -, hm', rfl⟩
  · exact (freshName_ne (hword.not_mem (by decide)) letter m).symm
  · intro heq
    have hsame := freshName_inj heq
    omega

end Variables

/-- What a compilation writes while it counts from one number to another: the variables are those of
the query, and added ones before the latter number. -/
structure Writes (n n' : Nat) (goals : List Goal) : Prop where
  le : n ≤ n'
  names : ∀ goal ∈ goals, goal.AllVariables (IsVariable n')

namespace Writes

variable {n n' n'' : Nat} {goals front back : List Goal} {w : WorkingSet} {b c : Binding}

theorem nil (n : Nat) : Writes n n [] := ⟨Nat.le_refl n, List.forall_mem_nil _⟩

theorem append (hfront : Writes n n' front) (hback : Writes n' n'' back) :
    Writes n n'' (front ++ back) := by
  refine ⟨Nat.le_trans hfront.le hback.le, List.forall_mem_append.2 ⟨fun goal hgoal => ?_,
    hback.names⟩⟩
  exact (hfront.names goal hgoal).imp fun name hname => hname.mono hback.le

theorem branch (h : Writes n n' goals) : Writes n n' [goals].flatten := by
  rwa [List.flatten_singleton]

theorem branches {left right : List (List Goal)} (hleft : Writes n n' left.flatten)
    (hright : Writes n' n'' right.flatten) : Writes n n'' (left ++ right).flatten := by
  rw [List.flatten_append]
  exact hleft.append hright

/-- A choice has the variables of its branches. -/
theorem anyOf {branches : List (List Goal)} (h : Writes n n' branches.flatten) :
    Writes n n' [.anyOf branches] :=
  ⟨h.le, List.forall_mem_singleton.2 (Goal.allVariables_anyOf h.names)⟩

/-- The literals are legible. -/
theorem isLegible (h : Writes n n' goals) :
    ∀ goal ∈ goals, ∀ l, goal.Mentions l → l.IsLegible :=
  fun goal hgoal l hl name hname => (h.names goal hgoal l hl name hname).not_mem

/-- Solutions spare the variables that are added later. -/
theorem spares (h : Writes n n' goals) (hb : b.Spares n)
    (hc : c ∈ Goal.solutionsEach w goals [b]) : c.Spares n' := by
  intro letter m hm
  have hentries : ∀ e ∈ c.entries, e.1 ≠ freshName letter m := by
    refine Goal.forall_entries_of_mem_solutionsEach (fun goal hgoal b c hb hc => ?_)
      (fun e he heq => ?_) hc
    · refine Goal.forall_entries_of_mem_solutions (fun l hl _ name _ _ hname _ _ => ?_) hb hc
      exact (h.names goal hgoal l hl name hname).ne_freshName letter hm
    · have hnone := hb letter m (Nat.le_trans h.le hm)
      have hsome : b.get? e.1 = some e.2 := b.isOrdered.mem_iff_lookup.1 he
      rw [← heq, hsome] at hnone
      simp at hnone
  cases hvalue : c.get? (freshName letter m) with
  | none => rfl
  | some v => exact absurd rfl (hentries _ (mem_of_lookup_eq_some hvalue))

end Writes

section Clauses

variable (options : CompilerOptions) (aliases : Aliases)

/-- Binding a field writes its variable and an added one. -/
theorem writes_bind {letter : Char} (hletter : letter ≠ '=') {f : Field} (hf : IsWord f.var)
    (n : Nat) :
    IsVariable ((bind aliases letter f).run n).2 ((bind aliases letter f).run n).1.1 ∧
      Writes n ((bind aliases letter f).run n).2 ((bind aliases letter f).run n).1.2 := by
  unfold bind
  cases lookedUp? aliases f with
  | none => exact ⟨.inl hf, .nil n⟩
  | some attr =>
    have hname : IsVariable (n + 1) (freshName letter n) :=
      .inr ⟨letter, n, hletter, Nat.lt_succ_self n, rfl⟩
    refine ⟨hname, Nat.le_succ n, List.forall_mem_singleton.2 (Goal.allVariables_literal.2 ?_)⟩
    intro name hmem
    replace hmem : Term.var name ∈ [.var f.var, .const (.text attr), .var (freshName letter n)] :=
      hmem
    rcases (by simpa using hmem : name = f.var ∨ name = freshName letter n) with rfl | rfl
    · exact .inl hf
    · exact hname

/-- Testing a field writes the variables of its operands, too. -/
theorem writes_test {f : Field} (hf : IsWord f.var) (predicate : Predicate) {operands : List Term}
    (hoperands : ∀ name, Term.var name ∈ operands → IsWord name) (n : Nat) :
    Writes n ((testGoals aliases f predicate operands).run n).2
      ((testGoals aliases f predicate operands).run n).1 := by
  obtain ⟨hcarrier, hwrites⟩ := writes_bind aliases (show 't' ≠ '=' by decide) hf n
  refine hwrites.append ⟨Nat.le_refl _, List.forall_mem_singleton.2 ?_⟩
  refine Goal.allVariables_literal.2 fun name hname => ?_
  rcases List.mem_cons.1 hname with heq | hname
  · rw [Term.var.inj heq]
    exact hcarrier
  · exact .inl (hoperands name hname)

/-- The goals of a condition write its variables. -/
theorem writes_condition {c : Condition} (hc : ∀ name ∈ c.vars, IsWord name) (n : Nat) :
    Writes n ((conditionGoals aliases c).run n).2 ((conditionGoals aliases c).run n).1 := by
  have hfield : ∀ f, c.field? = some f → IsWord f.var := fun f hf =>
    hc _ (Condition.mem_vars.2 (.inl ⟨f, hf, rfl⟩))
  have hoperands : ∀ name, Term.var name ∈ c.operands.map Operand.toTerm → IsWord name :=
    fun name hname => hc name (Condition.mem_vars.2 (.inr hname))
  cases c with
  | compare f op operand => exact writes_test aliases (hfield f rfl) _ hoperands n
  | between f low high => exact writes_test aliases (hfield f rfl) _ (by simp) n
  | contains f text => exact writes_test aliases (hfield f rfl) _ (by simp) n
  | matching f body flags => exact writes_test aliases (hfield f rfl) _ (by simp) n
  | member f operand => exact writes_test aliases (hfield f rfl) _ hoperands n
  | call name operands =>
    refine ⟨Nat.le_refl n, List.forall_mem_singleton.2 (Goal.allVariables_literal.2 ?_)⟩
    exact fun name hname => .inl (hoperands name hname)

/-- The goals of a clause write its variables, and so do its branches. -/
theorem writes_clause {c : Clause} (hc : ∀ name ∈ c.vars, IsWord name) (n : Nat) :
    Writes n ((clauseGoals options aliases c).run n).2 ((clauseGoals options aliases c).run n).1 ∧
      Writes n ((clauseBranches options aliases c).run n).2
        ((clauseBranches options aliases c).run n).1.flatten := by
  induction c generalizing n with
  | both left right hleft hright =>
    rw [Reader.forall_mem_vars_append] at hc
    have hgoals := (hleft hc.1 n).1.append (hright hc.2 _).1
    rw [clauseGoals, clauseBranches]
    exact ⟨hgoals, hgoals.branch⟩
  | either left right hleft hright =>
    replace hc := Reader.forall_mem_vars_append.1 hc
    have hbranches := (hleft hc.1 n).2.branches (hright hc.2 _).2
    rw [clauseGoals, clauseBranches]
    cases options.orMode with
    | conjunctive => exact ⟨(hleft hc.1 n).1.append (hright hc.2 _).1, hbranches⟩
    | disjunctive => exact ⟨hbranches.anyOf, hbranches⟩
  | condition c =>
    rw [Clause.vars_condition] at hc
    have hgoals := writes_condition aliases hc n
    rw [clauseGoals, clauseBranches]
    exact ⟨hgoals, hgoals.branch⟩

end Clauses

end Compile

end Find

end Factbase
