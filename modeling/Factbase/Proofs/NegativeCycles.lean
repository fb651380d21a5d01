import Mathlib.Data.Set.Card
import Factbase.Proofs.LeastLevels
import Factbase.Proofs.ShortestPaths

/-! # Cycles through a negation

Levels of relations and cycles of dependencies are two sides of one thing. A cycle that passes
through a negation is found if there is one, and then by its negation and a shortest way back
(`DependencyGraph.negativeCycle?_ofRules`). Where there is none, the relations below one past a
negation can be counted, and these counts suit the rules (`isLevelling_depth`); so rules have
levels exactly if no cycle passes through a negation, and these are the least numbers that suit the
rules (`DependencyGraph.strata_ofRules`). -/

namespace Factbase

/-- A rule of one relation mentions another. -/
def Mentions (rules : List Rule) (a b : String) : Prop :=
  ∃ r ∈ rules, r.headName = a ∧ ∃ e ∈ r.references, e.name = b

/-- A rule of one relation mentions another under a negation. -/
def Negates (rules : List Rule) (a b : String) : Prop :=
  ∃ r ∈ rules, r.headName = a ∧ ∃ e ∈ r.references, e.name = b ∧ e.negated = true

/-- Relations, from one back to the same, each of which mentions the next, and one of which mentions
the next under a negation. -/
structure IsNegativeCycle (rules : List Rule) (cycle : List String) : Prop where
  isPath : ∃ name, IsPath (Mentions rules) name name cycle
  negates : ∃ a b, [a, b] <:+: cycle ∧ Negates rules a b

/-- Numbers that suit some rules: the number of a head is at or above those of the relations that
the body mentions, and above those of the relations that it negates. -/
def IsLevelling (rules : List Rule) (numbers : String → Nat) : Prop :=
  ∀ r ∈ rules, ∀ e ∈ r.references, numbers e.name ≤ numbers r.headName ∧
    (e.negated = true → numbers e.name < numbers r.headName)

section Cycles

variable {rules : List Rule} {a b c : String}

theorem Negates.mentions (h : Negates rules a b) : Mentions rules a b := by
  obtain ⟨r, hr, hhead, e, he, hname, -⟩ := h
  exact ⟨r, hr, hhead, e, he, hname⟩

/-- There is a cycle through a negation exactly where a way leads back from what is negated. -/
theorem exists_isNegativeCycle_iff :
    (∃ cycle, IsNegativeCycle rules cycle) ↔
      ∃ a b, Negates rules a b ∧ Relation.ReflTransGen (Mentions rules) b a := by
  constructor
  · rintro ⟨cycle, ⟨name, hpath⟩, a, b, ⟨front, back, rfl⟩, hnegates⟩
    refine ⟨a, b, hnegates, ?_⟩
    rw [List.append_assoc, List.cons_append, List.singleton_append] at hpath
    obtain ⟨hfront, hback⟩ := List.isChain_split.1 hpath.isChain
    -- from what is negated to the end of the cycle, which is its start, and on to the negation
    have hend : IsPath (Mentions rules) b name (b :: back) :=
      ⟨rfl, by simpa [List.getLast?_append, List.getLast?_cons_cons] using hpath.getLast?_eq,
        (List.isChain_cons_cons.1 hback).2⟩
    have hstart : IsPath (Mentions rules) name a (front ++ [a]) :=
      ⟨by simpa [List.head?_append] using hpath.head?_eq, by simp, hfront⟩
    exact (IsPath.exists_iff.1 ⟨_, hend⟩).trans (IsPath.exists_iff.1 ⟨_, hstart⟩)
  · rintro ⟨a, b, hnegates, hback⟩
    obtain ⟨path, hpath⟩ := IsPath.exists_iff.2 hback
    obtain ⟨rest, rfl⟩ := hpath.exists_eq_cons
    exact ⟨_, ⟨a, hpath.cons hnegates.mentions⟩, a, b, ⟨[], rest, rfl⟩, hnegates⟩

/-! ## Numbers where no cycle passes through a negation -/

/-- One relation is below another past a negation. -/
def IsBelow (rules : List Rule) (a b : String) : Prop :=
  ∃ c d, Relation.ReflTransGen (Mentions rules) a c ∧ Negates rules c d ∧
    Relation.ReflTransGen (Mentions rules) d b

/-- How many relations are below a relation past a negation. -/
noncomputable def depth (rules : List Rule) (a : String) : Nat := {b | IsBelow rules a b}.ncard

/-- What is below a relation is mentioned in some rule, so that these are finitely many. -/
theorem finite_isBelow (rules : List Rule) (a : String) : {b | IsBelow rules a b}.Finite := by
  have hmentioned : ∀ {a b}, Mentions rules a b →
      b ∈ (DependencyGraph.ofRules rules).predicates := by
    rintro a b ⟨r, hr, -, e, he, hname⟩
    exact DependencyGraph.mem_predicates_ofRules.2 ⟨r, hr, .inr ⟨e, he, hname⟩⟩
  refine (List.finite_toSet (DependencyGraph.ofRules rules).predicates).subset ?_
  rintro b ⟨c, d, -, hnegates, hback⟩
  rcases hback.cases_tail with rfl | ⟨d', -, hmentions⟩
  · exact hmentioned hnegates.mentions
  · exact hmentioned hmentions

/-- What is below a relation is below what mentions it. -/
theorem IsBelow.of_mentions (h : Mentions rules a b) (hc : IsBelow rules b c) :
    IsBelow rules a c := by
  obtain ⟨d, e, hd, hnegates, he⟩ := hc
  exact ⟨d, e, .head h hd, hnegates, he⟩

/-- Where no cycle passes through a negation, the counts of what is below suit the rules: a relation
is then not below itself. -/
theorem isLevelling_depth (h : ¬ ∃ cycle, IsNegativeCycle rules cycle) :
    IsLevelling rules (depth rules) := by
  intro r hr e he
  have hmentions : Mentions rules r.headName e.name := ⟨r, hr, rfl, e, he, rfl⟩
  have hsub : {b | IsBelow rules e.name b} ⊆ {b | IsBelow rules r.headName b} :=
    fun b hb => hb.of_mentions hmentions
  refine ⟨Set.ncard_le_ncard hsub (finite_isBelow _ _), fun hnegated => ?_⟩
  refine Set.ncard_lt_ncard ((Set.ssubset_iff_of_subset hsub).2 ⟨e.name, ?_, ?_⟩)
    (finite_isBelow _ _)
  · exact ⟨r.headName, e.name, .refl, ⟨r, hr, rfl, e, he, rfl, hnegated⟩, .refl⟩
  · rintro ⟨c, d, hc, hnegates, hd⟩
    exact h (exists_isNegativeCycle_iff.2 ⟨c, d, hnegates, hd.trans hc⟩)

/-- Numbers suit some rules exactly if they satisfy every reference. -/
theorem isLevelling_iff {numbers : String → Nat} :
    IsLevelling rules numbers ↔
      ∀ r ∈ rules, ∀ e ∈ r.references, numbers e.name + e.negated.toNat ≤ numbers r.headName := by
  refine forall₄_congr fun r _ e _ => ?_
  cases e.negated
  · simp
  · simp only [Bool.toNat_true, forall_const]
    omega

end Cycles

namespace DependencyGraph

variable {rules : List Rule} {levels : Strata} {start next : String}

/-- The edges of the graph of some rules are what the rules mention. -/
theorem dependsOn_ofRules (rules : List Rule) : (ofRules rules).DependsOn = Mentions rules := by
  funext a b
  refine propext ⟨?_, ?_⟩
  · rintro ⟨e, he, hname⟩
    obtain ⟨r, hr, hhead, he⟩ := mem_edges_ofRules.1 he
    exact ⟨r, hr, hhead, e, he, hname⟩
  · rintro ⟨r, hr, hhead, e, he, hname⟩
    exact ⟨e, mem_edges_ofRules.2 ⟨r, hr, hhead, he⟩, hname⟩

/-- The negative edges of the graph of some rules are what the rules negate. -/
theorem mem_negativeEdges_ofRules :
    (start, next) ∈ (ofRules rules).negativeEdges ↔ Negates rules start next := by
  simp only [negativeEdges, List.mem_flatMap, List.mem_map, List.mem_filter, Prod.mk.injEq]
  constructor
  · rintro ⟨d, hd, e, ⟨he, hnegated⟩, rfl, hname⟩
    obtain ⟨r, hr, hhead, he⟩ := exists_rule_of_mem_dependencies hd he
    exact ⟨r, hr, hhead, e, he, hname, hnegated⟩
  · rintro ⟨r, hr, hhead, e, he, hname, hnegated⟩
    obtain ⟨d, hd, hd', he⟩ := mem_dependencies (mem_edges_ofRules.2 ⟨r, hr, hhead, he⟩)
    exact ⟨d, hd, e, ⟨he, hnegated⟩, hd', hname⟩

/-- No path is found in the graph of some rules only if no way leads along what they mention. -/
theorem path?_ofRules_eq_none_iff :
    (ofRules rules).path? start next = none ↔
      ¬ Relation.ReflTransGen (Mentions rules) start next := by
  rw [path?_eq_none_iff, dependsOn_ofRules, ← IsPath.exists_iff, not_exists]
  rintro a b ⟨e, he, rfl⟩
  exact mem_predicates_of_mem_edges he

/-- No cycle through a negation is found only if there is none. -/
theorem negativeCycle?_eq_none_iff :
    (ofRules rules).negativeCycle? = none ↔ ¬ ∃ cycle, IsNegativeCycle rules cycle := by
  rw [negativeCycle?, List.findSome?_eq_none_iff, exists_isNegativeCycle_iff]
  simp only [Prod.forall, mem_negativeEdges_ofRules, Option.map_eq_none_iff,
    path?_ofRules_eq_none_iff, not_exists, not_and]

/-- A cycle is found if and only if there is one that passes through a negation. What is found is
such a cycle: it starts and ends with the same relation, each of its relations is mentioned by the
one before, the second one under a negation, and no shorter way leads back from there. The ways back
are those that a search puts together which keeps for each relation only the one from which it was
found. -/
theorem negativeCycle?_ofRules (rules : List Rule) :
    ((ofRules rules).negativeCycle?.isSome ↔ ∃ cycle, IsNegativeCycle rules cycle) ∧
      (∀ cycle, (ofRules rules).negativeCycle? = some cycle →
        ∃ start next back, cycle = start :: next :: back ∧ Negates rules start next ∧
          IsPath (Mentions rules) start start cycle ∧
          ∀ other, IsPath (Mentions rules) start start (start :: next :: other) →
            cycle.length ≤ (start :: next :: other).length) ∧
      ∀ start target, (ofRules rules).pathByParents? start target =
        (ofRules rules).path? start target := by
  refine ⟨?_, ?_, pathByParents?_eq (ofRules rules)⟩
  · rw [Option.isSome_iff_ne_none, ne_eq, negativeCycle?_eq_none_iff, not_not]
  · intro cycle hcycle
    obtain ⟨⟨start, next⟩, hedge, hfound⟩ := List.exists_of_findSome?_eq_some hcycle
    obtain ⟨path, hpath, rfl⟩ := Option.map_eq_some_iff.1 hfound
    have hnegates := mem_negativeEdges_ofRules.1 hedge
    obtain ⟨hway, hshort⟩ := path?_eq_some hpath
    rw [dependsOn_ofRules] at hway hshort
    obtain ⟨back, rfl⟩ := hway.exists_eq_cons
    refine ⟨start, next, back, rfl, hnegates, hway.cons hnegates.mentions, fun other hother => ?_⟩
    exact Nat.succ_le_succ (hshort _ hother.tail)

-- the way back from what is negated goes past another relation
example : (ofRules
    [⟨.named "a" [], [.not (.literal (.named "b" []))]⟩,
      ⟨.named "b" [], [.literal (.named "c" [])]⟩,
      ⟨.named "c" [], [.literal (.named "a" [])]⟩]).negativeCycle? =
    some ["a", "b", "c", "a"] := by
  decide

/-! ## Levels -/

/-- Settling keeps levels complete. -/
theorem IsComplete.settle {n : Nat} {settled : Strata} (h : (ofRules rules).IsComplete levels)
    (hsettle : (ofRules rules).settle n levels = some settled) :
    (ofRules rules).IsComplete settled := by
  induction n generalizing levels with
  | zero => simp [DependencyGraph.settle] at hsettle
  | succ n ih =>
    simp only [DependencyGraph.settle] at hsettle
    split at hsettle
    · rwa [← Option.some.inj hsettle]
    · exact ih (h.foldl fun d hd => mem_predicates_of_mem_dependencies hd) hsettle

/-- The levels of some rules are those of their relations. -/
theorem isComplete_strata (h : (ofRules rules).strata = .ok levels) :
    (ofRules rules).IsComplete levels := by
  obtain ⟨n, hsettle⟩ := settle_of_strata h
  exact (isComplete_zeros rules).settle hsettle

/-- The levels of some rules are the least numbers that suit them. -/
theorem isLeast_strata (h : (ofRules rules).strata = .ok levels) :
    IsLeast {numbers | IsLevelling rules numbers} levels.level :=
  ⟨isLevelling_iff.2 fun _ hr _ he => strata_satisfies h hr he,
    fun numbers hnumbers name => strata_le h numbers (isLevelling_iff.1 hnumbers) name⟩

/-- The least numbers that suit some rules are zero for relations without rules. -/
theorem eq_zero_of_isLeast {numbers : String → Nat}
    (h : IsLeast {numbers | IsLevelling rules numbers} numbers) {name : String}
    (hname : ∀ r ∈ rules, r.headName ≠ name) : numbers name = 0 := by
  -- any number would do for such a relation
  have hzero : IsLevelling rules (Function.update numbers name 0) := by
    intro r hr e he
    have hsuits := h.1 r hr e he
    rw [Function.update_of_ne (hname r hr)]
    by_cases heq : e.name = name
    · rw [heq, Function.update_self]
      exact ⟨Nat.zero_le _, fun hnegated => Nat.zero_lt_of_lt (hsuits.2 hnegated)⟩
    · rwa [Function.update_of_ne heq]
  have hle := h.2 hzero name
  rw [Function.update_self] at hle
  exact Nat.le_zero.1 hle

/-- Rules have levels if and only if no cycle passes through a negation, and the search for levels
always comes to an end. The levels are the least numbers that suit the rules, one for each relation
that occurs in them, and zero for those without rules. -/
theorem strata_ofRules (rules : List Rule) :
    ((∃ levels, (ofRules rules).strata = .ok levels) ↔ ¬ ∃ cycle, IsNegativeCycle rules cycle) ∧
      (ofRules rules).strata ≠ .error .unsettledStrata ∧
      ∀ levels, (ofRules rules).strata = .ok levels →
        IsLeast {numbers | IsLevelling rules numbers} levels.level ∧
        (∀ name, (levels.lookup name).isSome ↔
          ∃ r ∈ rules, name = r.headName ∨ ∃ e ∈ r.references, e.name = name) ∧
        ∀ name, (∀ r ∈ rules, r.headName ≠ name) → levels.level name = 0 := by
  have hexists : (¬ ∃ cycle, IsNegativeCycle rules cycle) →
      ∃ levels, (ofRules rules).strata = .ok levels := fun h =>
    exists_strata_iff.2 ⟨depth rules, isLevelling_iff.1 (isLevelling_depth h)⟩
  refine ⟨⟨?_, hexists⟩, ?_,
    fun levels h => ⟨isLeast_strata h, fun name => ?_, fun name hname => ?_⟩⟩
  · rintro ⟨levels, hlevels⟩
    rw [← negativeCycle?_eq_none_iff]
    exact (meets_ofRules fun r hr e he => strata_satisfies hlevels hr he).negativeCycle?_eq_none
  · intro hunsettled
    by_cases hcycle : (ofRules rules).negativeCycle? = none
    · obtain ⟨levels, hlevels⟩ := hexists (negativeCycle?_eq_none_iff.1 hcycle)
      rw [hlevels] at hunsettled
      exact absurd hunsettled (by simp)
    · obtain ⟨cycle, hcycle⟩ := Option.ne_none_iff_exists'.1 hcycle
      rw [strata, hcycle] at hunsettled
      exact absurd hunsettled (by simp)
  · exact ((isComplete_strata h).isSome_iff name).trans mem_predicates_ofRules
  · exact eq_zero_of_isLeast (isLeast_strata h) hname

end DependencyGraph

end Factbase
