import Factbase.Proofs.Agreement
import Factbase.Proofs.BaseRelations
import Factbase.Proofs.Convergence

/-! # Saturating twice

A saturation that converges leaves nothing to add. Each level ends with a pass that adds nothing,
and what is added on the levels above it does not reach the relations that its rules read or derive
(`Program.Reaches`), so its rules add nothing in the end either (`Program.apply_of_converged`). A
second saturation therefore passes over every level once and changes nothing
(`Program.saturate_again_performAll`). -/

namespace Factbase

namespace Saturation

open Deriving

variable {rules : List Rule} {levels : List (List Rule)} {w : WorkingSet} {n : Nat}

/-- Where no rule adds anything, neither does a pass. -/
theorem outcome_pass_of_zero (h : ∀ r ∈ rules, outcome (r.apply w) = .ok (0, w)) :
    outcome (pass rules w) = .ok (0, w) := by
  induction rules with
  | nil => rfl
  | cons r rest ih =>
    rw [List.forall_mem_cons] at h
    exact outcome_pass_cons.2 ⟨0, w, 0, h.1, ih h.2, rfl⟩

/-- Where no rule adds anything, every level converges in one pass, if a pass is allowed. -/
theorem outcome_ofLevels_of_zero
    (h : ∀ rules ∈ levels, ∀ r ∈ rules, outcome (r.apply w) = .ok (0, w)) :
    outcome (ofLevels (n + 1) levels w) = .ok ⟨levels.length, 0, true, w⟩ := by
  induction levels with
  | nil => rfl
  | cons rules rest ih =>
    rw [List.forall_mem_cons] at h
    have hfirst : outcome (ofLevel rules (n + 1) w) = .ok ⟨1, 0, true, w⟩ :=
      outcome_ofLevel_succ.2 ⟨0, w, outcome_pass_of_zero h.1, .inl ⟨rfl, rfl⟩⟩
    refine outcome_ofLevels_cons.2 ⟨_, _, hfirst, ih h.2, ?_⟩
    rw [List.length_cons, Nat.add_comm]
    rfl

/-- Without passes only a saturation without levels converges. -/
theorem converged_ofLevels_zero {s : Saturation} (h : outcome (ofLevels 0 levels w) = .ok s)
    (hconverged : s.converged = true) : levels = [] := by
  cases levels with
  | nil => rfl
  | cons rules rest =>
    obtain ⟨first, others, hfirst, -, rfl⟩ := outcome_ofLevels_cons.1 h
    obtain rfl : _ = first := by simpa [ofLevel] using hfirst
    simp at hconverged

end Saturation

namespace Program

open Deriving

/-- The relations that rules up to a level may read or derive. -/
def Reaches (p : Program) (n : Nat) (name : String) : Prop :=
  WorkingSet.isBase name = true ∨ p.strata.level name ≤ n

section Levels

variable {p : Program} {r : Rule} {w w' : WorkingSet} {n : Nat}

/-- A rule reads no relation above its own level. -/
theorem IsValid.readsWithin (hp : p.IsValid) (hr : r ∈ p.rules) {goal : Goal}
    (hgoal : goal ∈ r.body) :
    goal.ReadsWithin (p.Reaches (p.strata.level r.headName))
      (p.Reaches (p.strata.level r.headName)) := by
  refine ⟨fun e he => ?_, fun name hname => ⟨.inl hname, .inl hname⟩⟩
  have hle := hp.level_add_le hr (Goal.mem_referencesInEach.2 ⟨goal, hgoal, he⟩)
  have hreaches : p.Reaches (p.strata.level r.headName) e.name := .inr (by omega)
  exact ⟨fun _ => hreaches, fun _ => hreaches⟩

/-- A rule above a level leaves alone what the rules up to the level read and derive. -/
theorem agreeOn_apply_of_lt (hbase : WorkingSet.isBase r.headName = false)
    (hlevel : n < p.strata.level r.headName) {added : Nat}
    (happly : outcome (r.apply w) = .ok (added, w')) : w.AgreeOn (p.Reaches n) w' := by
  intro name hname
  refine (Rule.tuples_apply_of_ne happly ?_).symm
  rintro rfl
  rcases hname with hname | hname
  · rw [hbase] at hname
    simp at hname
  · omega

/-- After levels that converge none of their rules adds anything. -/
theorem apply_of_converged (hp : p.IsValid)
    (hbase : ∀ r ∈ p.rules, WorkingSet.isBase r.headName = false) {levels : List Nat}
    (hsorted : levels.Pairwise (· < ·)) {m : Nat} {t : Saturation}
    (h : outcome (Saturation.ofLevels m (levels.map fun l =>
      p.rules.filter fun r => p.strata.level r.headName = l) w) = .ok t)
    (hconverged : t.converged = true) :
    ∀ r ∈ p.rules, p.strata.level r.headName ∈ levels →
      outcome (r.apply t.result) = .ok (0, t.result) := by
  induction levels generalizing w t with
  | nil => exact fun r hr hlevel => absurd hlevel List.not_mem_nil
  | cons l rest ih =>
    obtain ⟨hfirst, hsorted⟩ := List.pairwise_cons.1 hsorted
    obtain ⟨first, others, hl, hrest, rfl⟩ := Saturation.outcome_ofLevels_cons.1 h
    obtain ⟨hconverged, hconverged'⟩ := Bool.and_eq_true_iff.1 hconverged
    intro r hr hlevel
    rcases List.mem_cons.1 hlevel with rfl | hlevel
    · have hzero := Saturation.apply_of_converged hl hconverged r
        (List.mem_filter.2 ⟨hr, by simp⟩)
      -- the levels above change nothing that the rule reads or derives
      have hagree : first.result.AgreeOn (p.Reaches (p.strata.level r.headName)) others.result := by
        refine Saturation.preserved_ofLevels
          (P := first.result.AgreeOn (p.Reaches (p.strata.level r.headName)))
          ?_ (fun _ _ => rfl) hrest
        intro rules hrules r' hr' w₁ added w₂ hw₁ happly name hname
        obtain ⟨k, hk, rfl⟩ := List.mem_map.1 hrules
        obtain ⟨hr', hk'⟩ := List.mem_filter.1 hr'
        have hlt : p.strata.level r.headName < p.strata.level r'.headName := by
          rw [show p.strata.level r'.headName = k by simpa using hk']
          exact hfirst k hk
        exact (hw₁ name hname).trans (agreeOn_apply_of_lt (hbase r' hr') hlt happly name hname)
      exact Rule.apply_zero_congr (.inr (Nat.le_refl _)) (fun _ => hp.readsWithin hr) hagree hzero
    · exact ih (t := others) hsorted hrest hconverged' r hr hlevel

/-- A saturation with all rules that converges is followed by one that adds nothing. -/
theorem run_again (hp : p.IsValid)
    (hbase : ∀ r ∈ p.rules, WorkingSet.isBase r.headName = false) {stats : SaturationStats}
    (h : p.run p.rules w = .ok (stats, w')) (hconverged : stats.converged = true) :
    p.saturate w' = .ok (⟨stats.rules, stats.strata, stats.strata, 0, true⟩, w') := by
  obtain ⟨t, hlevels, rfl, rfl⟩ := run_eq_ok.1 h
  have hzero : ∀ rules ∈ p.levels p.rules, ∀ r ∈ rules,
      outcome (r.apply t.result) = .ok (0, t.result) := by
    intro rules hrules r hr
    have hmem := mem_of_mem_levels hrules hr
    exact apply_of_converged hp hbase (pairwise_orderedSet.imp Nat.compare_eq_lt.1) hlevels
      hconverged r hmem (mem_orderedSet.2 (List.mem_map_of_mem hmem))
  have hagain : outcome (Saturation.ofLevels p.settings.maxIterations (p.levels p.rules) t.result) =
      .ok ⟨(p.levels p.rules).length, 0, true, t.result⟩ := by
    cases hlimit : p.settings.maxIterations with
    | zero =>
      rw [hlimit] at hlevels
      rw [Saturation.converged_ofLevels_zero hlevels hconverged]
      rfl
    | succ n => exact Saturation.outcome_ofLevels_of_zero hzero
  exact run_eq_ok.2 ⟨_, hagain, rfl, rfl⟩

end Levels

/-- Saturating twice is saturating once. For rules that were read from texts and accepted, and for
every working set: if a saturation converges, a second one on its result adds no tuple, converges
with one pass for each level, and leaves the working set as it is. The same holds after an
evaluation with all rules that converges. -/
theorem saturate_again_performAll (settings : Settings) (calls : List RuleCall)
    (hparsed : ((empty settings).performAll calls).IsParsed) :
    (∀ w stats w', ((empty settings).performAll calls).saturate w = .ok (stats, w') →
        stats.converged = true →
        ((empty settings).performAll calls).saturate w' =
          .ok (⟨stats.rules, stats.strata, stats.strata, 0, true⟩, w')) ∧
      (settings.pruneUnusedRules = false → ∀ s w q a w',
        ((empty settings).performAll calls).evaluateIn s w q = .ok (a, w') →
        a.plan.converged = true →
        ((empty settings).performAll calls).saturate w' =
          .ok (⟨a.plan.rules, a.plan.strata, a.plan.strata, 0, true⟩, w')) := by
  have hp := (isValid_empty settings).performAll calls
  have hbase := hp.isBase_of_isParsed hparsed
  have hsettings : ((empty settings).performAll calls).settings = settings :=
    congrArg Program.settings (performAll_withSettings (empty settings) settings calls)
  refine ⟨fun w stats w' => run_again hp hbase, fun hprune s w q a w' heval hconverged => ?_⟩
  obtain ⟨t, hlevels, rfl, rfl⟩ := evaluateIn_eq_ok.1 heval
  have hall : ((empty settings).performAll calls).rulesFor q =
      ((empty settings).performAll calls).rules := by
    rw [rulesFor, hsettings, hprune]
    rfl
  rw [hall] at hlevels ⊢
  exact run_again hp hbase (run_eq_ok.2 ⟨t, hlevels, rfl, rfl⟩) hconverged

/-- After an evaluation that finds all that is reached in a path, a saturation adds nothing, and
neither does the next. -/
theorem saturate_again_pathStore :
    ∃ p : Program, p.rules = [stepRule, chainRule] ∧ ∃ a stats w',
      p.evaluateIn (pathStore [("a", "b"), ("b", "c")]) .empty reachQuery = .ok (a, w') ∧
      a.plan.converged = true ∧ p.saturate w' = .ok (stats, w') ∧ stats.converged = true ∧
      p.saturate w' = .ok (⟨stats.rules, stats.strata, stats.strata, 0, true⟩, w') := by
  obtain ⟨limit, a, w', hconverged, heval⟩ := exists_converged_evaluateIn false
    [.several [stepRule, chainRule]] (pathStore [("a", "b"), ("b", "c")]) .empty reachQuery
  replace heval := heval limit (Nat.le_refl _)
  obtain ⟨hagain, hafter⟩ := saturate_again_performAll ⟨limit, false⟩ _
    (isParsed_reach _ (List.Subset.refl _))
  have hfirst := hafter rfl _ _ _ a w' heval hconverged
  exact ⟨_, rules_performAll_reach ⟨limit, false⟩ (List.Subset.refl _), a, _, w', heval, hconverged,
    hfirst, rfl, hagain w' _ w' hfirst rfl⟩

end Program

end Factbase
