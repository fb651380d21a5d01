import Factbase.Proofs.Passes
import Factbase.Proofs.Registration
import Factbase.Proofs.Solving

/-! # Evaluations do not fail

An application of a rule fails when a solution of its body leaves a variable of the head without
value. An accepted rule has only head variables that its body is sure to bind, and every solution
that is found has a value for each variable that a goal is sure to bind
(`Goal.isSome_of_mem_solutionsEach`), whatever relations it is looked up in. So no registered rule
fails, and neither does a pass, a level or an evaluation (`Program.exists_evaluate_performAll`). -/

namespace Factbase

namespace Goal

variable {w : WorkingSet} {goals : List Goal} {b c : Binding}

/-- A goal leads to its solutions. -/
def finds (w : WorkingSet) : Leading := fun goal b c => c ∈ solutions w goal b

/-- A conjunction is solved goal after goal. -/
theorem each_of_mem_solutionsEach (h : c ∈ solutionsEach w goals [b]) :
    (finds w).Each goals b c := by
  induction goals generalizing b with
  | nil => exact List.mem_singleton.1 (by simpa using h)
  | cons goal rest ih =>
    obtain ⟨d, hd, hrest⟩ := mem_solutionsEach_cons.1 h
    exact ⟨d, hd, ih hrest⟩

/-- Solving binds variables in literals that are looked up only. -/
theorem isLawful_finds (w : WorkingSet) : (finds w).IsLawful := by
  constructor
  · intro l b c hl h
    rw [finds, solutions_literal, if_pos hl] at h
    -- a tuple whose length is not that of the literal does not fit
    obtain ⟨-, t, -, hfits, hbind⟩ := Literal.mem_lookup.1 h
    exact ⟨t, Literal.extends_of_bind? hfits hbind⟩
  · intro l b c hl h
    rw [finds, solutions_literal, if_neg (by simp [hl])] at h
    split at h
    · exact List.mem_singleton.1 h
    · simp at h
  · intro goal b c h
    rw [finds, solutions_not] at h
    split at h
    · exact List.mem_singleton.1 h
    · simp at h
  · intro branches b c h
    rw [finds, solutions_anyOf] at h
    obtain ⟨branch, hbranch, hc⟩ := mem_solutionsAny.1 (mem_of_mem_distinctBy h)
    exact ⟨branch, hbranch, each_of_mem_solutionsEach hc⟩

/-- A solution of a conjunction keeps the values of the binding that it extends. -/
theorem keeps_of_mem_solutionsEach (h : c ∈ solutionsEach w goals [b]) : c.Keeps b :=
  ((isLawful_finds w).keeps_each (each_of_mem_solutionsEach h)).1

/-- A solution of a conjunction has a value for each variable that one of its goals is sure to
bind. -/
theorem isSome_of_mem_solutionsEach (h : c ∈ solutionsEach w goals [b]) {goal : Goal}
    (hgoal : goal ∈ goals) {name : String} (hname : name ∈ goal.boundVariables) :
    (c.get? name).isSome :=
  ((isLawful_finds w).keeps_each (each_of_mem_solutionsEach h)).2 name
    (mem_boundInEach.2 ⟨goal, hgoal, hname⟩)

end Goal

namespace Rule

open Deriving

variable {r : Rule}

/-- Under a solution of the body the head of a rule has values, if the body is sure to bind its
variables. -/
theorem exists_headTuple_of_solution {w : WorkingSet} {b : Binding}
    (hbound : ∀ name, Term.var name ∈ r.head.terms → ∃ goal ∈ r.body, name ∈ goal.boundVariables)
    (hb : b ∈ Goal.solutionsEach w r.body [.empty]) : ∃ t, r.headTuple b = .ok t := by
  refine exists_mapM_eq_ok fun term hterm => ?_
  cases term with
  | const value => exact ⟨value, rfl⟩
  | var name =>
    obtain ⟨goal, hgoal, hname⟩ := hbound name hterm
    obtain ⟨value, hvalue⟩ :=
      Option.isSome_iff_exists.1 (Goal.isSome_of_mem_solutionsEach hb hgoal hname)
    exact ⟨value, by rw [Binding.resolve, hvalue]⟩

/-- A rule whose body is sure to bind the variables of its head can be applied to any relations. -/
theorem exists_apply
    (hbound : ∀ name, Term.var name ∈ r.head.terms → ∃ goal ∈ r.body, name ∈ goal.boundVariables)
    (w : WorkingSet) : ∃ result, outcome (r.apply w) = .ok result := by
  obtain ⟨tuples, htuples⟩ := exists_mapM_eq_ok fun b hb =>
    exists_headTuple_of_solution (w := w) hbound hb
  exact ⟨_, (outcome_bind_eq_ok fun _ => Deriving.isCacheFree_pure _).2
    ⟨tuples, outcome_derive.trans htuples, rfl⟩⟩

end Rule

namespace Saturation

open Deriving

variable {rules : List Rule}

/-- A pass over rules that can be applied does not fail. -/
theorem exists_pass (h : ∀ r ∈ rules, ∀ w, ∃ result, outcome (r.apply w) = .ok result)
    (w : WorkingSet) : ∃ result, outcome (pass rules w) = .ok result := by
  induction rules generalizing w with
  | nil => exact ⟨(0, w), rfl⟩
  | cons r rest ih =>
    rw [List.forall_mem_cons] at h
    obtain ⟨⟨first, w₁⟩, hfirst⟩ := h.1 w
    obtain ⟨⟨others, w₂⟩, hothers⟩ := ih h.2 w₁
    exact ⟨(first + others, w₂), outcome_pass_cons.2 ⟨first, w₁, others, hfirst, hothers, rfl⟩⟩

/-- The passes over a level do not fail. -/
theorem exists_ofLevel (h : ∀ r ∈ rules, ∀ w, ∃ result, outcome (r.apply w) = .ok result) (n : Nat)
    (w : WorkingSet) : ∃ s, outcome (ofLevel rules n w) = .ok s := by
  induction n generalizing w with
  | zero => exact ⟨_, rfl⟩
  | succ n ih =>
    obtain ⟨⟨added, w₁⟩, hpass⟩ := exists_pass h w
    by_cases hzero : added = 0
    · exact ⟨_, outcome_ofLevel_succ.2 ⟨added, w₁, hpass, .inl ⟨hzero, rfl⟩⟩⟩
    · obtain ⟨t, hrest⟩ := ih w₁
      exact ⟨_, outcome_ofLevel_succ.2 ⟨added, w₁, hpass, .inr ⟨hzero, t, hrest, rfl⟩⟩⟩

/-- A saturation does not fail. -/
theorem exists_ofLevels {levels : List (List Rule)}
    (h : ∀ rules ∈ levels, ∀ r ∈ rules, ∀ w, ∃ result, outcome (r.apply w) = .ok result) (n : Nat)
    (w : WorkingSet) : ∃ s, outcome (ofLevels n levels w) = .ok s := by
  induction levels generalizing w with
  | nil => exact ⟨_, rfl⟩
  | cons rules rest ih =>
    rw [List.forall_mem_cons] at h
    obtain ⟨first, hfirst⟩ := exists_ofLevel h.1 n w
    obtain ⟨others, hothers⟩ := ih h.2 first.result
    exact ⟨_, outcome_ofLevels_cons.2 ⟨first, others, hfirst, hothers, rfl⟩⟩

end Saturation

namespace Program

variable {p : Program}

/-- Rules of a valid program saturate any working set. -/
theorem IsValid.exists_ofLevels (hp : p.IsValid) {rules : List Rule}
    (hrules : ∀ r ∈ rules, r ∈ p.rules) (w : WorkingSet) :
    ∃ t, Deriving.outcome
      (Saturation.ofLevels p.settings.maxIterations (p.levels rules) w) = .ok t :=
  Saturation.exists_ofLevels (fun _ hlevel r hr =>
    Rule.exists_apply (hp.isBound r (hrules r (mem_of_mem_levels hlevel hr)))) _ w

/-- A valid program evaluates every query over every store. -/
theorem IsValid.exists_evaluateIn (hp : p.IsValid) (s : Store) (w : WorkingSet) (q : GoalQuery) :
    ∃ a w', p.evaluateIn s w q = .ok (a, w') := by
  obtain ⟨t, ht⟩ := hp.exists_ofLevels (fun _ hr => mem_of_mem_rulesFor hr) (w.seed s)
  exact ⟨_, _, evaluateIn_eq_ok.2 ⟨t, ht, rfl, rfl⟩⟩

/-- A valid program saturates every working set. -/
theorem IsValid.exists_saturate (hp : p.IsValid) (w : WorkingSet) :
    ∃ stats w', p.saturate w = .ok (stats, w') := by
  obtain ⟨t, ht⟩ := hp.exists_ofLevels (fun _ hr => hr) w
  exact ⟨_, t.result, bind_eq_ok.2 ⟨t, ht, rfl⟩⟩

/-- Whatever rules are offered to a program without rules: no evaluation and no saturation fails,
whatever the store, the working set and the query are. For every solution that the solver returns
for a conjunction has a value for each variable that one of its goals is sure to bind. -/
theorem exists_evaluate_performAll (settings : Settings) (calls : List RuleCall) :
    (∀ s q, ∃ a, ((empty settings).performAll calls).evaluate s q = .ok a) ∧
      (∀ s w q, ∃ a w', ((empty settings).performAll calls).evaluateIn s w q = .ok (a, w')) ∧
      (∀ w, ∃ stats w', ((empty settings).performAll calls).saturate w = .ok (stats, w')) ∧
      ∀ w goals b cache, ∀ c ∈ (StateT.run (Goal.solveEach w goals [b]) cache).1,
        ∀ goal ∈ goals, ∀ name ∈ goal.boundVariables, (c.get? name).isSome := by
  have hp := (isValid_empty settings).performAll calls
  refine ⟨fun s q => ?_, hp.exists_evaluateIn, hp.exists_saturate, ?_⟩
  · obtain ⟨a, w', heval⟩ := hp.exists_evaluateIn s .empty q
    exact ⟨a, by rw [evaluate, heval]; rfl⟩
  · intro w goals b cache c hc goal hgoal name hname
    -- the patterns that were compiled before make no difference
    rw [Goal.isCacheFree_solveEach (fun goal _ => Goal.isCacheFree_solve goal) [b] cache] at hc
    exact Goal.isSome_of_mem_solutionsEach hc hgoal hname

end Program

end Factbase
