import Factbase.Proofs.OrderIndependence

/-! # Evaluations that stop at the limit

When the passes that are allowed do not suffice on some level, an evaluation goes on to the next one
all the same. What it leaves can be trusted up to the first such level, its frontier
(`Program.frontier`): a larger limit changes no relation below it and only adds to those on it
(`Saturation.tuples_upTo_frontier`), while a level above may have read a relation under a negation
that was not finished.

Without negation there is one level only (`Program.IsLevelled.level_eq_zero`), so that a larger
limit takes nothing back. Whatever is derived then belongs to the model
(`Program.IsGrounded`), and so do the answers to a query without negation
(`Program.truncated_evaluateIn`). -/

namespace Factbase

namespace Saturation

open Deriving

variable {rules : List Rule} {w : WorkingSet} {n m : Nat} {s t : Saturation}

/-- The lowest of some levels on which the passes that are allowed do not suffice, the last level if
they suffice on all. -/
def frontier (maxIterations : Nat) (rulesOf : Nat → List Rule) : List Nat → WorkingSet → Nat
  | [], _ => 0
  | level :: rest, w =>
    match outcome (ofLevel (rulesOf level) maxIterations w) with
    | .ok s =>
      if s.converged && !rest.isEmpty then frontier maxIterations rulesOf rest s.result else level
    | .error _ => level

/-- The passes over a level leave in front what fewer of them leave. -/
theorem isPrefix_ofLevel_of_le (hle : n ≤ m) (h : outcome (ofLevel rules n w) = .ok s)
    (h' : outcome (ofLevel rules m w) = .ok t) (name : String) :
    s.result.tuples name <+: t.result.tuples name := by
  induction n generalizing m w s t with
  | zero =>
    obtain rfl : _ = s := by simpa [ofLevel] using h
    exact isPrefix_tuples_ofLevel h' name
  | succ n ih =>
    obtain ⟨m, rfl⟩ := Nat.exists_eq_add_of_le' (Nat.le_of_add_left_le hle)
    obtain ⟨added, w₁, hpass, hcases⟩ := outcome_ofLevel_succ.1 h
    obtain ⟨added', w₁', hpass', hcases'⟩ := outcome_ofLevel_succ.1 h'
    -- the first pass is the same for both
    obtain ⟨rfl, rfl⟩ : added = added' ∧ w₁ = w₁' := by
      simpa using hpass.symm.trans hpass'
    rcases hcases with ⟨hzero, rfl⟩ | ⟨hzero, s', hrest, rfl⟩
    · obtain ⟨-, rfl⟩ := hcases'.resolve_right fun hmore => hmore.1 hzero
      exact List.prefix_refl _
    · obtain ⟨-, t', hrest', rfl⟩ := hcases'.resolve_left fun hstop => hzero hstop.1
      exact ih (s := s') (t := t') (Nat.le_of_succ_le_succ hle) hrest hrest'

/-- The rules of one level leave the relations on other levels alone. -/
theorem tuples_ofLevel_of_level_ne (level : String → Nat) {k : Nat} {name : String}
    (h : outcome (ofLevel (rules.filter fun r => level r.headName = k) n w) = .ok s)
    (hname : level name ≠ k) : s.result.tuples name = w.tuples name := by
  refine tuples_ofLevel_of_forall_ne h fun r hr heq => hname ?_
  rw [← heq]
  simpa using (List.mem_filter.1 hr).2

/-- The rules of several levels leave the relations on other levels alone. -/
theorem tuples_ofLevels_of_level_ne (level : String → Nat) {numbers : List Nat} {name : String}
    (h : outcome (ofLevels n
      (numbers.map fun k => rules.filter fun r => level r.headName = k) w) = .ok s)
    (hname : ∀ k ∈ numbers, level name ≠ k) : s.result.tuples name = w.tuples name := by
  refine tuples_ofLevels_of_forall_ne h fun part hpart r hr heq => ?_
  obtain ⟨k, hk, rfl⟩ := List.mem_map.1 hpart
  refine hname k hk ?_
  rw [← heq]
  simpa using (List.mem_filter.1 hr).2

/-- With a larger limit the relations below the frontier are the same, and those on the frontier
have the same tuples in front. The levels are those of the relations that the rules derive into. -/
theorem tuples_upTo_frontier (level : String → Nat) {numbers : List Nat}
    (hsorted : numbers.Pairwise (· < ·)) (hle : n ≤ m)
    (h : outcome (ofLevels n
      (numbers.map fun k => rules.filter fun r => level r.headName = k) w) = .ok s)
    (h' : outcome (ofLevels m
      (numbers.map fun k => rules.filter fun r => level r.headName = k) w) = .ok t)
    (name : String) :
    (level name < frontier n (fun k => rules.filter fun r => level r.headName = k) numbers w →
        s.result.tuples name = t.result.tuples name) ∧
      (level name ≤ frontier n (fun k => rules.filter fun r => level r.headName = k) numbers w →
        s.result.tuples name <+: t.result.tuples name) := by
  induction numbers generalizing w s t with
  | nil =>
    obtain rfl : _ = s := by simpa [ofLevels] using h
    obtain rfl : _ = t := by simpa [ofLevels] using h'
    exact ⟨fun _ => rfl, fun _ => List.prefix_refl _⟩
  | cons k rest ih =>
    obtain ⟨hlow, hsorted⟩ := List.pairwise_cons.1 hsorted
    obtain ⟨first, others, hfirst, hothers, rfl⟩ := outcome_ofLevels_cons.1 h
    obtain ⟨first', others', hfirst', hothers', rfl⟩ := outcome_ofLevels_cons.1 h'
    rw [frontier, hfirst]
    dsimp only
    by_cases hgoes : (first.converged && !rest.isEmpty) = true
    · -- the level converges, so a larger limit leaves the same there
      rw [if_pos hgoes]
      have hsame := ofLevel_of_le hfirst (Bool.and_eq_true_iff.1 hgoes).1 hle
      obtain rfl : first = first' := Except.ok.inj (hsame.symm.trans hfirst')
      exact ih (s := others) (t := others') hsorted hothers hothers'
    · rw [if_neg hgoes]
      -- what comes after the frontier derives into relations above it only
      have habove : level name ≤ k → ∀ k' ∈ rest, level name ≠ k' := by
        intro hname k' hk'
        have hlt := hlow k' hk'
        omega
      constructor
      · intro hname
        have hrest := habove (Nat.le_of_lt hname)
        have hne : level name ≠ k := Nat.ne_of_lt hname
        rw [tuples_ofLevels_of_level_ne level hothers hrest,
          tuples_ofLevels_of_level_ne level hothers' hrest,
          tuples_ofLevel_of_level_ne level hfirst hne, tuples_ofLevel_of_level_ne level hfirst' hne]
      · intro hname
        rw [tuples_ofLevels_of_level_ne level hothers (habove hname),
          tuples_ofLevels_of_level_ne level hothers' (habove hname)]
        exact isPrefix_ofLevel_of_le hle hfirst hfirst' name

end Saturation

namespace Goal

variable {w : WorkingSet} {J : Interpretation} {b c : Binding}

/-- What stands in a goal without negation does not stand under one. -/
theorem IsPositive.negated_of_mem_references {goal : Goal} (hgoal : goal.IsPositive) {e : Reference}
    (he : e ∈ goal.references) : e.negated = false := by
  unfold references at he
  induction goal with
  | literal l =>
    obtain ⟨predicate, terms⟩ := l
    cases predicate with
    | derived name =>
      obtain rfl : e = ⟨name, false⟩ := by simpa [referencesUnder] using he
      rfl
    | _ => simp [referencesUnder] at he
  | not goal => cases hgoal
  | anyOf branches ih =>
    cases hgoal with
    | anyOf hbranches =>
      rw [referencesUnder, mem_referencesInBranches] at he
      obtain ⟨branch, hbranch, goal, hmem, he⟩ := he
      exact ih branch hbranch goal hmem (hbranches branch hbranch goal hmem) he

/-- A conjunction of goals without negation yields its solutions if each goal does. -/
theorem yieldsEach_of_mem_solutionsEach_of_forall {goals : List Goal}
    (h : ∀ goal ∈ goals, ∀ b, ∀ c ∈ solutions w goal b, Yields w.interpretation J goal b c)
    (hc : c ∈ solutionsEach w goals [b]) : YieldsEach w.interpretation J goals b c := by
  induction goals generalizing b with
  | nil => exact (List.mem_singleton.1 (by simpa using hc) : c = b)
  | cons goal rest ih =>
    rw [List.forall_mem_cons] at h
    obtain ⟨d, hd, hc⟩ := mem_solutionsEach_cons.1 hc
    exact ⟨d, h.1 b d hd, ih h.2 hc⟩

/-- A goal without negation yields its solutions, whatever texts the relations hold. -/
theorem IsPositive.yields_of_mem_solutions {goal : Goal} (hgoal : goal.IsPositive)
    (hc : c ∈ solutions w goal b) : Yields w.interpretation J goal b c := by
  induction goal generalizing b c with
  | literal l => exact yields_of_mem_solutions_literal hc
  | not goal => cases hgoal
  | anyOf branches ih =>
    cases hgoal with
    | anyOf hbranches =>
      rw [solutions_anyOf] at hc
      -- solutions that are dropped as repeated are missing, no others come in
      obtain ⟨branch, hbranch, hc⟩ := mem_solutionsAny.1 (mem_of_mem_distinctBy hc)
      rw [Yields, yieldsAny_iff]
      exact ⟨branch, hbranch, yieldsEach_of_mem_solutionsEach_of_forall
        (fun goal hmem b c hc => ih branch hbranch goal hmem
          (hbranches branch hbranch goal hmem) hc) hc⟩

/-- Solutions of goals without negation are yielded by relations that cover those where they were
found. -/
theorem exists_yieldsEach_of_isPositive {goals : List Goal}
    (hgoals : ∀ goal ∈ goals, goal.IsPositive) {I : Interpretation}
    (hI : ∀ name, Covers (I name) (w.interpretation name)) (hc : c ∈ solutionsEach w goals [b]) :
    ∃ c', c.Same c' ∧ YieldsEach I J goals b c' :=
  yieldsEach_mono_of_isPositive hgoals hI (yieldsEach_of_mem_solutionsEach_of_forall (J := J)
    (fun goal hgoal _ _ hc => (hgoals goal hgoal).yields_of_mem_solutions hc) hc)

end Goal

namespace Program

variable {p p' : Program} {s : Store} {w w' w₁ w₁' : WorkingSet} {q : GoalQuery} {a a' : Answers}
  {r : Rule} {n m : Nat}

/-- How far the evaluation of a query can be trusted: the lowest level that does not converge, the
highest one if all do. -/
def frontier (p : Program) (s : Store) (q : GoalQuery) : Nat :=
  Saturation.frontier p.settings.maxIterations
    (fun k => (p.rulesFor q).filter fun r => p.strata.level r.headName = k)
    (orderedSet compare ((p.rulesFor q).map fun r => p.strata.level r.headName)) (.ofStore s)

/-- A working set holds nothing but tuples of the model. -/
def IsGrounded (p : Program) (s : Store) (w : WorkingSet) : Prop :=
  ∀ name, Covers (p.model s name) (w.interpretation name)

/-- No rule negates anything. -/
def IsPositive (p : Program) : Prop := ∀ r ∈ p.rules, ∀ goal ∈ r.body, goal.IsPositive

/-- Where no rule negates anything, all relations are on the lowest level. -/
theorem IsLevelled.level_eq_zero (hp : p.IsLevelled) (hpositive : p.IsPositive) (name : String) :
    p.strata.level name = 0 := by
  refine Nat.eq_zero_of_le_zero (DependencyGraph.strata_le hp (fun _ => 0) ?_ name)
  intro r hr e he
  obtain ⟨goal, hgoal, he⟩ := Goal.mem_referencesInEach.1 he
  rw [(hpositive r hr goal hgoal).negated_of_mem_references he]
  rfl

/-- Where no rule negates anything, the model is closed under all rules, whatever negated goals are
read in. -/
theorem IsLevelled.mem_model_of_yieldsEach (hp : p.IsLevelled) (hpositive : p.IsPositive)
    (hr : r ∈ p.rules) {b : Binding} {t : Tuple}
    (hb : Goal.YieldsEach (p.model s) (p.modelBelow s 0) r.body .empty b)
    (ht : r.head.terms.mapM b.resolve = some t) : t ∈ p.model s r.headName := by
  have hmodel : p.model s = p.modelBelow s 1 := by
    funext name
    rw [modelBelow_of_lt (by rw [hp.level_eq_zero hpositive]; exact Nat.one_pos)]
  rw [hmodel] at hb
  refine Program.mem_model_of_yieldsEach hr ?_ ht
  rw [hp.level_eq_zero hpositive]
  exact hb

/-- A rule without negation derives tuples of the model from tuples of the model. -/
theorem IsGrounded.apply (hp : p.IsLevelled) (hpositive : p.IsPositive) (hr : r ∈ p.rules)
    (hw : p.IsGrounded s w) (h : Deriving.outcome (r.apply w) = .ok (n, w')) :
    p.IsGrounded s w' := by
  obtain ⟨tuples, hinsert, hfrom, -⟩ := Rule.apply_ok h
  intro name t ht
  have hmem : t ∈ (w.insertEach r.headName tuples).2.tuples name := by
    rw [hinsert]
    exact ht
  rcases WorkingSet.mem_of_mem_tuples_insertEach hmem with hold | ⟨rfl, hnew⟩
  · exact hw name t hold
  · obtain ⟨b, hb, hhead⟩ := hfrom t hnew
    obtain ⟨c, hbc, hc⟩ := Goal.exists_yieldsEach_of_isPositive (hpositive r hr) hw hb
    obtain ⟨t', ht', hcanonical⟩ := exists_headTuple hbc hhead
    exact ⟨t', hp.mem_model_of_yieldsEach hpositive hr hc ht', hcanonical⟩

/-- A seeded working set holds nothing but tuples of the model. -/
theorem isGrounded_seed (p : Program) (s : Store) (w : WorkingSet) : p.IsGrounded s (w.seed s) := by
  intro name t ht
  have hstore : t ∈ p.modelBelow s (p.strata.level name) name := by
    rw [modelBelow_of_le (Nat.le_refl _)]
    exact WorkingSet.mem_of_mem_tuples_seed ht
  exact ⟨t, modelBelow_le_succ _ name hstore, rfl⟩

/-- Without negation an evaluation derives nothing but tuples of the model, whether it converges or
not. -/
theorem IsLevelled.isGrounded_evaluateIn (hp : p.IsLevelled) (hpositive : p.IsPositive)
    (heval : p.evaluateIn s w q = .ok (a, w')) : p.IsGrounded s w' := by
  obtain ⟨t, hlevels, rfl, -⟩ := evaluateIn_eq_ok.1 heval
  refine Saturation.preserved_ofLevels (P := p.IsGrounded s) ?_ (isGrounded_seed p s w) hlevels
  intro level hlevel r hr w₁ n w₂ hw₁ happly
  exact hw₁.apply hp hpositive (mem_of_mem_rulesFor (mem_of_mem_levels hlevel hr)) happly

/-- The answers to a query without negation over tuples of the model are answers in the model. -/
theorem IsGrounded.exists_yieldsEach_of_mem (hw : p.IsGrounded s w')
    (heval : p.evaluateIn s w q = .ok (a, w')) (hgoals : ∀ goal ∈ q.goals, goal.IsPositive)
    {d : Binding} (hd : d ∈ a.bindings) :
    ∃ c, Goal.YieldsEach (p.model s) (p.model s) q.goals .empty c ∧ d.Same (c.answer q.answer) := by
  rw [bindings_evaluateIn heval] at hd
  obtain ⟨b, hb, rfl⟩ := List.mem_map.1 (mem_of_mem_distinctBy hd)
  obtain ⟨c, hbc, hc⟩ := Goal.exists_yieldsEach_of_isPositive hgoals hw hb
  exact ⟨c, hc, hbc.answer q.answer⟩

/-- What an evaluation with too few passes may be trusted for. Whatever rules are registered, for
every store and every query, and every two limits, both evaluations succeed, and with the larger
limit the relations below the frontier of the other evaluation are the same, and those on it have
the same tuples in front. If no rule negates anything, this holds of all relations; they hold
nothing but tuples of the model then, and the answers to a query without negation are answers in the
model. -/
theorem truncated_evaluateIn {prune : Bool} {calls : List RuleCall}
    (hp : p = (empty ⟨n, prune⟩).performAll calls) (hp' : p' = (empty ⟨m, prune⟩).performAll calls)
    (hle : n ≤ m) (s : Store) (w w' : WorkingSet) (q : GoalQuery) :
    ∃ a w₁ a' w₁', p.evaluateIn s w q = .ok (a, w₁) ∧ p'.evaluateIn s w' q = .ok (a', w₁') ∧
      (∀ name, p.strata.level name < p.frontier s q → w₁.tuples name = w₁'.tuples name) ∧
      (∀ name, p.strata.level name ≤ p.frontier s q → w₁.tuples name <+: w₁'.tuples name) ∧
      (p.IsPositive →
        (∀ name, w₁.tuples name <+: w₁'.tuples name) ∧ p.IsGrounded s w₁ ∧
          ((∀ goal ∈ q.goals, goal.IsPositive) → ∀ d ∈ a.bindings,
            ∃ c, Goal.YieldsEach (p.model s) (p.model s) q.goals .empty c ∧
              d.Same (c.answer q.answer))) := by
  have hvalid : p.IsValid := hp ▸ (isValid_empty _).performAll calls
  have hlevelled : p.IsLevelled := hp ▸ (isLevelled_empty _).performAll calls
  have hsettings : p.settings = ⟨n, prune⟩ := by
    rw [hp]
    exact congrArg settings (performAll_withSettings (empty ⟨n, prune⟩) ⟨n, prune⟩ calls)
  -- the limit takes no part in the registration of rules
  have hsame : p' = p.withSettings ⟨m, prune⟩ := by
    rw [hp, hp']
    exact performAll_withSettings (empty ⟨n, prune⟩) ⟨m, prune⟩ calls
  have hrules : p'.rulesFor q = p.rulesFor q := by
    rw [hsame]
    unfold rulesFor withSettings
    rw [hsettings]
  have hlevels : p'.levels (p'.rulesFor q) = p.levels (p.rulesFor q) := by
    rw [hrules, hsame]
    rfl
  obtain ⟨a, w₁, heval⟩ := hvalid.exists_evaluateIn s w q
  have hvalid' : p'.IsValid := hp' ▸ (isValid_empty _).performAll calls
  obtain ⟨a', w₁', heval'⟩ := hvalid'.exists_evaluateIn s w' q
  refine ⟨a, w₁, a', w₁', heval, heval', ?_⟩
  have hupTo : ∀ name,
      (p.strata.level name < p.frontier s q → w₁.tuples name = w₁'.tuples name) ∧
        (p.strata.level name ≤ p.frontier s q → w₁.tuples name <+: w₁'.tuples name) := by
    intro name
    obtain ⟨t, ht, rfl, -⟩ := evaluateIn_eq_ok.1 heval
    obtain ⟨t', ht', rfl, -⟩ := evaluateIn_eq_ok.1 heval'
    rw [hlevels, hsame] at ht'
    have hsorted : (orderedSet compare ((p.rulesFor q).map fun r : Rule =>
        p.strata.level r.headName)).Pairwise (· < ·) :=
      pairwise_orderedSet.imp Nat.compare_eq_lt.1
    unfold frontier
    rw [hsettings] at ht ⊢
    exact Saturation.tuples_upTo_frontier p.strata.level hsorted hle ht ht' name
  refine ⟨fun name => (hupTo name).1, fun name => (hupTo name).2, fun hpositive => ?_⟩
  have hgrounded := hlevelled.isGrounded_evaluateIn hpositive heval
  refine ⟨fun name => (hupTo name).2 ?_, hgrounded,
    fun hgoals d hd => hgrounded.exists_yieldsEach_of_mem heval hgoals hd⟩
  rw [hlevelled.level_eq_zero hpositive]
  exact Nat.zero_le _

/-- What one pass finds to be reached in a path of four nodes is so, and more passes find it too. -/
theorem truncated_evaluateIn_reachQuery :
    ∃ a w₁ a' w₁',
      ((empty ⟨1, true⟩).performAll [.several [stepRule, chainRule]]).evaluateIn
        (pathStore [("a", "b"), ("b", "c"), ("c", "d")]) .empty reachQuery = .ok (a, w₁) ∧
      ((empty ⟨3, true⟩).performAll [.several [stepRule, chainRule]]).evaluateIn
        (pathStore [("a", "b"), ("b", "c"), ("c", "d")]) .empty reachQuery = .ok (a', w₁') ∧
      (∀ name, w₁.tuples name <+: w₁'.tuples name) ∧
      ((empty ⟨1, true⟩).performAll [.several [stepRule, chainRule]]).IsGrounded
        (pathStore [("a", "b"), ("b", "c"), ("c", "d")]) w₁ := by
  have hpositive : ((empty ⟨1, true⟩).performAll [.several [stepRule, chainRule]]).IsPositive := by
    intro r hr
    rw [rules_performAll_reach _ (List.Subset.refl _)] at hr
    revert r
    simp [stepRule, chainRule, Goal.IsPositive.literal]
  obtain ⟨a, w₁, a', w₁', heval, heval', -, -, htrue⟩ := truncated_evaluateIn
    (n := 1) (m := 3) rfl rfl (by decide) (pathStore [("a", "b"), ("b", "c"), ("c", "d")]) .empty
    .empty reachQuery
  obtain ⟨hkept, hgrounded, -⟩ := htrue hpositive
  exact ⟨a, w₁, a', w₁', heval, heval', hkept, hgrounded⟩

end Program

end Factbase
