import Mathlib.Data.List.Sort
import Factbase.Proofs.Agreement
import Factbase.Proofs.BaseRelations
import Factbase.Proofs.Convergence
import Factbase.Proofs.RequiredRelations
import Factbase.Proofs.RuleText
import Factbase.Proofs.Totality

/-! # Unused rules make no difference

A query may be evaluated with all rules or with those only that it depends on. The rules that it
depends on derive into the relations that it needs and read no others, and the other rules derive
into none of them (`Rule.Selects`). So in both evaluations these relations hold the same tuples in
the same order after every application, after every pass and on every level
(`Saturation.agreeOn_ofLevels`): a pass that adds nothing with all rules adds nothing with the
needed ones, and once these add nothing they never do again while the others go on. The answers are
the same, whether or not the passes that are allowed suffice
(`Program.bindings_evaluate_unpruned`). -/

namespace Factbase

namespace Rule

open Deriving

variable {names : String → Prop} {needed : Rule → Bool} {r : Rule} {rules : List Rule}
  {w w' w₁ : WorkingSet} {n : Nat}

/-- Of some rules those are selected that derive into given relations; these read no other
relations. -/
structure Selects (names : String → Prop) (needed : Rule → Bool) (rules : List Rule) : Prop where
  head : ∀ r ∈ rules, needed r = true → names r.headName
  body : ∀ r ∈ rules, needed r = true → ∀ goal ∈ r.body, goal.ReadsWithin names names
  other : ∀ r ∈ rules, needed r = false → ¬ names r.headName

/-- A selection from some rules is one from a part of them. -/
theorem Selects.of_subset (h : Selects names needed rules) {part : List Rule}
    (hpart : ∀ r ∈ part, r ∈ rules) : Selects names needed part :=
  ⟨fun r hr => h.head r (hpart r hr), fun r hr => h.body r (hpart r hr),
    fun r hr => h.other r (hpart r hr)⟩

/-- A selected rule does the same to working sets that agree. -/
theorem Selects.apply (hrules : Selects names needed rules) (hr : r ∈ rules)
    (hneeded : needed r = true) (h : w.AgreeOn names w')
    (happly : outcome (r.apply w) = .ok (n, w₁)) :
    ∃ w₁', outcome (r.apply w') = .ok (n, w₁') ∧ w₁.AgreeOn names w₁' :=
  apply_congr (hrules.head r hr hneeded) (hrules.body r hr hneeded) h happly

/-- A rule that is not selected changes nothing on which working sets agree. -/
theorem Selects.apply_other (hrules : Selects names needed rules) (hr : r ∈ rules)
    (hneeded : needed r = false) (h : w.AgreeOn names w')
    (happly : outcome (r.apply w) = .ok (n, w₁)) : w₁.AgreeOn names w' := by
  intro name hname
  rw [tuples_apply_of_ne happly, h name hname]
  rintro rfl
  exact hrules.other r hr hneeded hname

end Rule

namespace Saturation

open Deriving

variable {names : String → Prop} {needed : Rule → Bool} {rules : List Rule}
  {w w' w₁ : WorkingSet} {n : Nat}

/-- A pass over all rules and one over the selected ones keep working sets in agreement, and the
second adds no more. -/
theorem agreeOn_pass (hrules : Rule.Selects names needed rules) (h : w.AgreeOn names w')
    (hpass : outcome (pass rules w) = .ok (n, w₁)) :
    ∃ m w₁', outcome (pass (rules.filter needed) w') = .ok (m, w₁') ∧ w₁.AgreeOn names w₁' ∧
      m ≤ n := by
  induction rules generalizing w w' n with
  | nil =>
    obtain ⟨rfl, rfl⟩ : 0 = n ∧ w = w₁ := by simpa [pass] using hpass
    exact ⟨0, w', rfl, h, Nat.le_refl 0⟩
  | cons r rest ih =>
    obtain ⟨first, w₂, others, hfirst, hothers, rfl⟩ := outcome_pass_cons.1 hpass
    have hrest := hrules.of_subset fun _ hr => List.mem_cons_of_mem r hr
    cases hneeded : needed r with
    | true =>
      obtain ⟨w₂', hfirst', hagree⟩ := hrules.apply List.mem_cons_self hneeded h hfirst
      obtain ⟨m, w₁', hothers', hagree, hle⟩ := ih hrest hagree hothers
      rw [List.filter_cons_of_pos hneeded]
      exact ⟨first + m, w₁', outcome_pass_cons.2 ⟨first, w₂', m, hfirst', hothers', rfl⟩, hagree,
        by omega⟩
    | false =>
      have hagree := hrules.apply_other List.mem_cons_self hneeded h hfirst
      obtain ⟨m, w₁', hothers', hagree, hle⟩ := ih hrest hagree hothers
      rw [List.filter_cons_of_neg (by simp [hneeded])]
      exact ⟨m, w₁', hothers', hagree, by omega⟩

/-- Where the selected rules add nothing, further passes over all rules change nothing on which
working sets agree. -/
theorem agreeOn_ofLevel_of_zero (hrules : Rule.Selects names needed rules)
    (hzero : ∀ r ∈ rules.filter needed, outcome (r.apply w') = .ok (0, w'))
    (h : w.AgreeOn names w') {s : Saturation} (hlevel : outcome (ofLevel rules n w) = .ok s) :
    s.result.AgreeOn names w' := by
  refine preserved_ofLevel (P := fun w => w.AgreeOn names w') ?_ h hlevel
  intro r hr w₁ added w₂ hagree happly
  cases hneeded : needed r with
  | true =>
    obtain ⟨w₂', happly', hagree⟩ := hrules.apply hr hneeded hagree happly
    rw [hzero r (List.mem_filter.2 ⟨hr, hneeded⟩)] at happly'
    obtain ⟨-, rfl⟩ : 0 = added ∧ w' = w₂' := by simpa using happly'
    exact hagree
  | false => exact hrules.apply_other hr hneeded hagree happly

/-- The passes over a level with all rules and with the selected ones keep working sets in
agreement. -/
theorem agreeOn_ofLevel (hrules : Rule.Selects names needed rules) (h : w.AgreeOn names w')
    {s : Saturation} (hlevel : outcome (ofLevel rules n w) = .ok s) :
    ∃ s', outcome (ofLevel (rules.filter needed) n w') = .ok s' ∧
      s.result.AgreeOn names s'.result := by
  induction n generalizing w w' s with
  | zero =>
    obtain rfl : _ = s := by simpa [ofLevel] using hlevel
    exact ⟨_, rfl, h⟩
  | succ n ih =>
    obtain ⟨added, w₁, hpass, hcases⟩ := outcome_ofLevel_succ.1 hlevel
    obtain ⟨m, w₁', hpass', hagree, hle⟩ := agreeOn_pass hrules h hpass
    by_cases hzero : m = 0
    · -- the selected rules stop here, whether or not the others go on
      refine ⟨⟨1, 0, true, w₁'⟩, outcome_ofLevel_succ.2 ⟨m, w₁', hpass', .inl ⟨hzero, rfl⟩⟩, ?_⟩
      rcases hcases with ⟨-, rfl⟩ | ⟨-, t, hrest, rfl⟩
      · exact hagree
      · rw [hzero] at hpass'
        obtain ⟨rfl, hnone⟩ := apply_of_pass_zero hpass'
        exact agreeOn_ofLevel_of_zero hrules hnone hagree (s := t) hrest
    · rcases hcases with ⟨hadded, -⟩ | ⟨-, t, hrest, rfl⟩
      · omega
      · obtain ⟨t', hrest', hagree⟩ := ih hagree hrest
        exact ⟨_, outcome_ofLevel_succ.2 ⟨m, w₁', hpass', .inr ⟨hzero, t', hrest', rfl⟩⟩, hagree⟩

/-- Saturating with all rules and with the selected ones keeps working sets in agreement. The levels
of the selected rules are some of the levels of all rules. -/
theorem agreeOn_ofLevels (hrules : Rule.Selects names needed rules) (level : Rule → Nat)
    {numbers numbers' : List Nat} (hsub : numbers'.Sublist numbers) (hnodup : numbers.Nodup)
    (hall : ∀ r ∈ rules, needed r = true → level r ∈ numbers → level r ∈ numbers')
    (h : w.AgreeOn names w') {s : Saturation}
    (hlevels : outcome (ofLevels n
      (numbers.map fun k => rules.filter fun r => level r = k) w) = .ok s) :
    ∃ s', outcome (ofLevels n
        (numbers'.map fun k => (rules.filter needed).filter fun r => level r = k) w') = .ok s' ∧
      s.result.AgreeOn names s'.result := by
  have hlevel : ∀ k, Rule.Selects names needed (rules.filter fun r => level r = k) := fun k =>
    hrules.of_subset fun _ hr => List.mem_of_mem_filter hr
  induction hsub generalizing w w' s with
  | slnil =>
    obtain rfl : _ = s := by simpa [ofLevels] using hlevels
    exact ⟨_, rfl, h⟩
  | cons k hsub ih =>
    obtain ⟨hnew, hnodup⟩ := List.nodup_cons.1 hnodup
    obtain ⟨first, others, hfirst, hothers, rfl⟩ := outcome_ofLevels_cons.1 hlevels
    -- no rule on this level is selected
    have hnone : ∀ r ∈ (rules.filter fun r => level r = k).filter needed,
        outcome (r.apply w') = .ok (0, w') := by
      intro r hr
      simp only [List.mem_filter, decide_eq_true_eq] at hr
      obtain ⟨⟨hr, rfl⟩, hneeded⟩ := hr
      exact absurd (hsub.subset (hall r hr hneeded List.mem_cons_self)) hnew
    exact ih (s := others) hnodup
      (fun r hr hneeded hmem => hall r hr hneeded (List.mem_cons_of_mem k hmem))
      (agreeOn_ofLevel_of_zero (hlevel k) hnone h hfirst) hothers
  | cons_cons k hsub ih =>
    obtain ⟨hnew, hnodup⟩ := List.nodup_cons.1 hnodup
    obtain ⟨first, others, hfirst, hothers, rfl⟩ := outcome_ofLevels_cons.1 hlevels
    obtain ⟨first', hfirst', hagree⟩ := agreeOn_ofLevel (hlevel k) h hfirst
    have hrest : ∀ r ∈ rules, needed r = true → level r ∈ _ → level r ∈ _ :=
      fun r hr hneeded hmem => List.mem_of_ne_of_mem (ne_of_mem_of_not_mem hmem hnew)
        (hall r hr hneeded (List.mem_cons_of_mem k hmem))
    obtain ⟨others', hothers', hagree⟩ := ih (s := others) hnodup hrest hagree hothers
    rw [List.filter_comm] at hfirst'
    exact ⟨_, outcome_ofLevels_cons.2 ⟨first', others', hfirst', hothers', rfl⟩, hagree⟩

end Saturation

namespace Program

open Rule (Selects)

variable {p : Program} {q : GoalQuery}

/-- Where unused rules are left out, the rules for a query are those of a list of relations that has
the ones that the query mentions and all that these depend on. -/
theorem exists_rulesFor_eq_filter (hprune : p.settings.pruneUnusedRules = true) (q : GoalQuery) :
    ∃ names : List String, p.rulesFor q = p.rules.filter (fun r => names.contains r.headName) ∧
      (DependencyGraph.ofRules p.rules).IsClosed names ∧
      ∀ name ∈ q.derivedNames, name ∈ names := by
  unfold rulesFor
  rw [if_pos hprune]
  split
  · next hnone =>
    refine ⟨[], by simp, by simp [DependencyGraph.IsClosed], ?_⟩
    rw [hnone]
    exact fun _ hname => hname
  · exact ⟨_, rfl, DependencyGraph.required_closed _,
      fun _ hname => DependencyGraph.subset_required _ hname⟩

/-- The rules of relations that are closed under dependency are selected, if no rule derives into a
base relation. -/
theorem selects_of_isClosed (hbase : ∀ r ∈ p.rules, WorkingSet.isBase r.headName = false)
    {names : List String} (hclosed : (DependencyGraph.ofRules p.rules).IsClosed names) :
    Selects (fun name => WorkingSet.isBase name = true ∨ name ∈ names)
      (fun r => names.contains r.headName) p.rules := by
  constructor
  · exact fun r _ hneeded => .inr (List.contains_iff_mem.1 hneeded)
  · intro r hr hneeded goal hgoal
    have hhead : r.headName ∈ names := List.contains_iff_mem.1 hneeded
    refine ⟨fun e he => ?_, fun name hname => ⟨.inl hname, .inl hname⟩⟩
    have hreference : e ∈ r.references := Goal.mem_referencesInEach.2 ⟨goal, hgoal, he⟩
    have hmem := hclosed r.headName hhead e
      (DependencyGraph.mem_edges_ofRules.2 ⟨r, hr, rfl, hreference⟩)
    exact ⟨fun _ => .inr hmem, fun _ => .inr hmem⟩
  · rintro r hr hneeded (hname | hmem)
    · rw [hbase r hr] at hname
      simp at hname
    · rw [List.contains_iff_mem.2 hmem] at hneeded
      simp at hneeded

/-- The goals of a query read the relations that it mentions. -/
theorem readsWithin_of_derivedNames {names : List String}
    (hnames : ∀ name ∈ q.derivedNames, name ∈ names) {goal : Goal} (hgoal : goal ∈ q.goals) :
    goal.ReadsWithin (fun name => WorkingSet.isBase name = true ∨ name ∈ names)
      (fun name => WorkingSet.isBase name = true ∨ name ∈ names) := by
  refine ⟨fun e he => ?_, fun name hname => ⟨.inl hname, .inl hname⟩⟩
  have hmem : e.name ∈ names := hnames e.name (mem_nameSet.2 (List.mem_map_of_mem
    (Goal.mem_referencesInEach.2 ⟨goal, hgoal, he⟩)))
  exact ⟨fun _ => .inr hmem, fun _ => .inr hmem⟩

/-- The numbers of the levels of some rules are some of those of all rules. -/
theorem sublist_orderedSet {ns ns' : List Nat} (h : ns' ⊆ ns) :
    (orderedSet compare ns').Sublist (orderedSet compare ns) := by
  have hlt : ∀ ns : List Nat, (orderedSet compare ns).Pairwise (· < ·) := fun ns =>
    pairwise_orderedSet.imp Nat.compare_eq_lt.1
  refine List.sublist_of_subperm_of_pairwise
    (List.subperm_of_subset ((hlt ns').imp Nat.ne_of_lt) fun n hn => ?_) (hlt ns') (hlt ns)
  exact mem_orderedSet.2 (h (mem_orderedSet.1 hn))

/-- Where an evaluation with all rules succeeds, one with the needed rules does, with the same
bindings. -/
theorem exists_evaluateIn_pruned (hbase : ∀ r ∈ p.rules, WorkingSet.isBase r.headName = false)
    (hprune : p.settings.pruneUnusedRules = true) {s : Store} {w w' : WorkingSet} {a' : Answers}
    (heval : (p.withSettings ⟨p.settings.maxIterations, false⟩).evaluateIn s w q = .ok (a', w')) :
    ∃ a w'', p.evaluateIn s w q = .ok (a, w'') ∧ a.bindings = a'.bindings := by
  obtain ⟨t', hlevels', rfl, rfl⟩ := evaluateIn_eq_ok.1 heval
  obtain ⟨names, hneeded, hclosed, hroots⟩ := exists_rulesFor_eq_filter hprune q
  obtain ⟨t, hlevels, hagree⟩ := Saturation.agreeOn_ofLevels (selects_of_isClosed hbase hclosed)
    (fun r => p.strata.level r.headName)
    (sublist_orderedSet (List.map_subset _ List.filter_sublist.subset))
    (pairwise_orderedSet.imp fun h => Nat.ne_of_lt (Nat.compare_eq_lt.1 h))
    (fun r hr hmem _ => mem_orderedSet.2 (List.mem_map.2 ⟨r, List.mem_filter.2 ⟨hr, hmem⟩, rfl⟩))
    (fun _ _ => rfl) hlevels'
  refine ⟨_, _, evaluateIn_eq_ok.2 ⟨t, ?_, rfl, rfl⟩, ?_⟩
  · rw [hneeded]
    exact hlevels
  · -- the goals of the query read needed relations only
    have hsolutions := Goal.solutionsEach_congr hagree
      (fun _ hgoal => readsWithin_of_derivedNames hroots hgoal) [.empty]
    exact congrArg (Answers.project q.answer) hsolutions.symm

/-- Leaving out unused rules changes no answer. For rules that were read from texts and accepted,
every store, every query and every number of passes that are allowed, both ways of evaluating the
query succeed and give the same bindings in the same order. -/
theorem bindings_evaluate_unpruned (maxIterations : Nat) (calls : List RuleCall)
    (hparsed : ((empty ⟨maxIterations, true⟩).performAll calls).IsParsed) (s : Store)
    (q : GoalQuery) :
    ∃ a a', ((empty ⟨maxIterations, true⟩).performAll calls).evaluate s q = .ok a ∧
      ((empty ⟨maxIterations, false⟩).performAll calls).evaluate s q = .ok a' ∧
      a.bindings = a'.bindings := by
  have hp := (isValid_empty ⟨maxIterations, true⟩).performAll calls
  have hp' := (isValid_empty ⟨maxIterations, false⟩).performAll calls
  have hsame := performAll_withSettings (empty ⟨maxIterations, true⟩) ⟨maxIterations, false⟩ calls
  have hbase := hp.isBase_of_isParsed hparsed
  have hsettings : ((empty ⟨maxIterations, true⟩).performAll calls).settings =
      ⟨maxIterations, true⟩ :=
    congrArg settings (performAll_withSettings (empty ⟨maxIterations, true⟩) _ calls)
  obtain ⟨a', w', heval'⟩ := hp'.exists_evaluateIn s .empty q
  obtain ⟨a, w, heval, hbindings⟩ := exists_evaluateIn_pruned hbase (by rw [hsettings])
    (by rw [hsettings, ← hsame]; exact heval')
  exact ⟨a, a', by rw [evaluate, heval]; rfl, by rw [evaluate, heval']; rfl, hbindings⟩

/-- Which node comes next in a path is answered without the rules for what is reached, and with
them. -/
theorem bindings_evaluate_unpruned_pathStore :
    ∃ a a', ((empty ⟨3, true⟩).performAll [.several [stepRule, chainRule]]).evaluate
        (pathStore [("a", "b"), ("b", "c")]) nextQuery = .ok a ∧
      ((empty ⟨3, false⟩).performAll [.several [stepRule, chainRule]]).evaluate
        (pathStore [("a", "b"), ("b", "c")]) nextQuery = .ok a' ∧
      a.bindings = a'.bindings :=
  bindings_evaluate_unpruned 3 _ (isParsed_reach _ (List.Subset.refl _)) _ _

end Program

end Factbase
