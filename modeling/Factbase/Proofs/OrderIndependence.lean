import Factbase.Proofs.Convergence
import Factbase.Proofs.Monotonicity
import Factbase.Proofs.Pruning

/-! # Answers do not depend on order

The order in which facts, links and rules are added, and repetitions among them, decide where tuples
stand, how many passes are made and which of several values with one canonical text is kept. They do
not decide what is answered: programs with the same rules have the same levels
(`Program.strata_eq_of_rules`), over stores with the same facts and links they have the same
stratified model (`Program.model_congr`), and evaluations that converge both reach it. So their
answers are the same up to canonical texts (`Program.within_evaluate_of_same`). -/

namespace Factbase

/-- Stores with the same facts and links have the same relations. -/
theorem Store.interpretation_congr {s s' : Store}
    (hfacts : ∀ f, f ∈ s.facts.toList ↔ f ∈ s'.facts.toList)
    (hlinks : ∀ l, l ∈ s.links.toList ↔ l ∈ s'.links.toList) :
    s.interpretation = s'.interpretation := by
  funext name
  simp only [interpretation, hfacts, hlinks]

/-- The relations of a level depend on which rules are on the level only. -/
theorem levelModel_congr {rules rules' : List Rule} (h : ∀ r, r ∈ rules ↔ r ∈ rules')
    (lower : Interpretation) : levelModel rules lower = levelModel rules' lower := by
  simp only [levelModel, IsClosedUnder, h]

namespace Program

variable {p p' : Program} {s s' : Store} {w w' w₁ w₁' : WorkingSet} {q : GoalQuery} {a a' : Answers}

/-- The levels of a program are those that are found for its rules. -/
def IsLevelled (p : Program) : Prop := (DependencyGraph.ofRules p.rules).strata = .ok p.strata

/-- A program without rules is levelled. -/
theorem isLevelled_empty (settings : Settings) : (empty settings).IsLevelled := by
  have hcycle : (DependencyGraph.ofRules []).negativeCycle? = none := rfl
  exact DependencyGraph.strata_eq_ok hcycle rfl

/-- Rules that are added keep a program levelled. -/
theorem IsLevelled.addRules (hp : p.IsLevelled) (rs : List Rule) :
    (p.addRules rs).1.IsLevelled := by
  induction rs generalizing p with
  | nil => exact hp
  | cons r rest ih =>
    simp only [Program.addRules]
    split
    · next h => exact ih (addRule_ok h).2.2.2
    · exact hp

/-- Calls keep a program levelled. -/
theorem IsLevelled.performAll (hp : p.IsLevelled) (calls : List RuleCall) :
    (p.performAll calls).IsLevelled := by
  induction calls generalizing p with
  | nil => exact hp
  | cons call rest ih =>
    rw [Program.performAll, List.foldl_cons]
    refine ih ?_
    rw [perform_eq_addRules]
    exact hp.addRules (offered call)

/-- Programs with the same rules have the same levels. -/
theorem strata_eq_of_rules (hp : p.IsLevelled) (hp' : p'.IsLevelled)
    (hrules : ∀ r, r ∈ p.rules ↔ r ∈ p'.rules) : p.strata = p'.strata := by
  have hstrata : (DependencyGraph.ofRules p.rules).strata = .ok p'.strata := by
    rw [DependencyGraph.ofRules_congr hrules]
    exact hp'
  exact Except.ok.inj (hp.symm.trans hstrata)

/-- Programs with the same rules have one model over stores with the same facts and links. -/
theorem model_congr (hp : p.IsLevelled) (hp' : p'.IsLevelled)
    (hrules : ∀ r, r ∈ p.rules ↔ r ∈ p'.rules) (hs : s.interpretation = s'.interpretation) :
    p.model s = p'.model s' := by
  have hstrata := strata_eq_of_rules hp hp' hrules
  have hbelow : ∀ n, p.modelBelow s n = p'.modelBelow s' n := by
    intro n
    induction n with
    | zero => exact hs
    | succ n ih =>
      rw [modelBelow, modelBelow, ih]
      refine levelModel_congr (fun r => ?_) _
      simp only [levelRules, List.mem_filter, hrules, hstrata]
  funext name
  rw [model, model, hbelow, hstrata]

/-- The rules of a relation that a query reads, directly or as a base relation, are evaluated. -/
theorem IsRegular.isLive (hp : p.IsRegular) {name : String}
    (hname : WorkingSet.isBase name = true ∨ name ∈ q.derivedNames) : p.IsLive q name := by
  rcases hname with hbase | hderived
  · intro r hr heq
    have hhead := hp.isDerived r hr
    rw [heq, hbase] at hhead
    simp at hhead
  · exact (Needs.mentioned hderived).isLive

/-- Of two evaluations that converge to one model, the answers of the first are among those of the
second. -/
theorem IsRegular.within_of_model_eq (hp : p.IsRegular) (hp' : p'.IsRegular)
    (hmodel : p.model s = p'.model s') (hs : ∀ c ∈ separators, s.Lacks c)
    (hs' : ∀ c ∈ separators, s'.Lacks c)
    (hgoals : ∀ goal ∈ q.goals, ∀ l, goal.Mentions l → l.IsLegible)
    (heval : p.evaluateIn s w q = .ok (a, w₁)) (hconverged : a.plan.converged = true)
    (heval' : p'.evaluateIn s' w' q = .ok (a', w₁')) (hconverged' : a'.plan.converged = true) :
    a.Within a' := by
  have hrecord : Char.ofNat 0x1E ∈ separators := by decide
  refine within_of_yieldsEach heval heval'
    (lacks_evaluateIn (hs _ hrecord) (hp.lacks _ hrecord) heval)
    (lacks_evaluateIn (hs' _ hrecord) (hp'.lacks _ hrecord) heval') hgoals fun c hc => ?_
  have hcovers : ∀ name, WorkingSet.isBase name = true ∨ name ∈ q.derivedNames →
      Covers (w₁'.interpretation name) (w₁.interpretation name) ∧
        Covers (w₁.interpretation name) (w₁'.interpretation name) := by
    intro name hname
    have hfirst := hp.covers_evaluateIn hs heval hconverged (hp.isLive hname)
    have hsecond := hp'.covers_evaluateIn hs' heval' hconverged' (hp'.isLive hname)
    rw [hmodel] at hfirst
    exact ⟨hsecond.2.trans hfirst.1, hfirst.2.trans hsecond.1⟩
  exact Goal.yieldsEach_of_yields (fun goal hgoal _ _ _ hsame hb =>
    Goal.yields_mono (readsWithin_of_derivedNames (fun _ hname => hname) hgoal)
      (fun name hname => (hcovers name hname).1) hcovers hsame hb) (.refl .empty) hc

end Program

end Factbase
