import Factbase.Dependency

/-! # What the graph of some rules tells

An edge of the graph of some rules is a reference in the body of one of them (`mem_edges_ofRules`),
and the graph depends on which rules these are only (`ofRules_congr`).
Levels that have settled satisfy every edge (`strata_satisfies`) and are the least that do
(`strata_le`). -/

namespace Factbase

instance : Std.LawfulEqCmp Reference.order where
  compare_self := by simp [Reference.order]
  eq_of_compare := by
    rintro ⟨name, negated⟩ ⟨name', negated'⟩ h
    obtain ⟨hname, hnegated⟩ := Ordering.then_eq_eq.1 h
    obtain rfl : name = name' := Std.LawfulEqCmp.eq_of_compare hname
    have hsign : negated.toNat = negated'.toNat := Std.LawfulEqCmp.eq_of_compare hnegated
    cases negated <;> cases negated' <;> simp at hsign ⊢

instance : Std.TransCmp Reference.order :=
  inferInstanceAs (Std.TransCmp
    (compareLex (compareOn Reference.name) (compareOn fun e => e.negated.toNat)))

/-- One more element counts when a test lets all pass that another does, and one besides. -/
theorem countP_lt_countP {α : Type} {p q : α → Bool} {as : List α} {a : α}
    (hpq : ∀ b, p b = true → q b = true) (ha : a ∈ as) (hp : p a = false) (hq : q a = true) :
    as.countP p < as.countP q := by
  induction as with
  | nil => simp at ha
  | cons b rest ih =>
    have hrest : rest.countP p ≤ rest.countP q := List.countP_mono_left fun c _ => hpq c
    rw [List.countP_cons, List.countP_cons]
    rcases List.mem_cons.1 ha with rfl | ha
    · rw [hp, hq]
      simp only [Bool.false_eq_true, if_false, if_true]
      omega
    · have hlt := ih ha
      cases hb : p b
      · simp only [Bool.false_eq_true, if_false]
        omega
      · rw [hpq b hb]
        omega

namespace DependencyGraph

section Edges

variable {g : DependencyGraph} {r : Rule} {rules : List Rule} {name : String} {e : Reference}

/-- A rule adds its references to what its head depends on. -/
theorem mem_edges_addRule :
    e ∈ (g.addRule r).edges name ↔ e ∈ g.edges name ∨ r.headName = name ∧ e ∈ r.references := by
  unfold addRule edges
  dsimp only
  rw [lookup_putEntry]
  by_cases hname : name = r.headName
  · subst hname
    rw [if_pos rfl, Option.getD_some, mem_orderedSet, List.mem_append]
    simp only [true_and]
  · rw [if_neg hname]
    constructor
    · exact .inl
    · rintro (h | ⟨rfl, -⟩)
      · exact h
      · exact absurd rfl hname

/-- A rule adds its head and the relations that its body mentions. -/
theorem mem_predicates_addRule :
    name ∈ (g.addRule r).predicates ↔
      name ∈ g.predicates ∨ name = r.headName ∨ ∃ e ∈ r.references, e.name = name := by
  simp only [addRule, mem_nameSet, List.mem_append, List.mem_cons, List.mem_map]

/-- What a relation depends on in the graph of some rules: the references in its rules. -/
theorem mem_edges_ofRules :
    e ∈ (ofRules rules).edges name ↔ ∃ r ∈ rules, r.headName = name ∧ e ∈ r.references := by
  have hfold : ∀ g : DependencyGraph, e ∈ (rules.foldl addRule g).edges name ↔
      e ∈ g.edges name ∨ ∃ r ∈ rules, r.headName = name ∧ e ∈ r.references := by
    induction rules with
    | nil => simp
    | cons r rest ih =>
      intro g
      simp only [List.foldl_cons, ih, mem_edges_addRule, List.mem_cons, exists_eq_or_imp, or_assoc]
  rw [ofRules, hfold]
  simp [edges, empty]

/-- The relations in the graph of some rules: those of the heads and of the bodies. -/
theorem mem_predicates_ofRules :
    name ∈ (ofRules rules).predicates ↔
      ∃ r ∈ rules, name = r.headName ∨ ∃ e ∈ r.references, e.name = name := by
  have hfold : ∀ g : DependencyGraph, name ∈ (rules.foldl addRule g).predicates ↔
      name ∈ g.predicates ∨
        ∃ r ∈ rules, name = r.headName ∨ ∃ e ∈ r.references, e.name = name := by
    induction rules with
    | nil => simp
    | cons r rest ih =>
      intro g
      simp only [List.foldl_cons, ih, mem_predicates_addRule, List.mem_cons, exists_eq_or_imp,
        or_assoc]
  rw [ofRules, hfold]
  simp [empty]

/-- An edge of the graph of some rules leads to a relation of the graph. -/
theorem mem_predicates_of_mem_edges (h : e ∈ (ofRules rules).edges name) :
    e.name ∈ (ofRules rules).predicates := by
  obtain ⟨r, hr, -, he⟩ := mem_edges_ofRules.1 h
  exact mem_predicates_ofRules.2 ⟨r, hr, .inr ⟨e, he, rfl⟩⟩

/-- The relations of a graph and the dependencies of each of them strictly increase. -/
structure IsSorted (g : DependencyGraph) : Prop where
  predicates : g.predicates.Pairwise fun a b => compare a b = .lt
  dependencies : IsOrdered g.dependencies
  edges : ∀ d ∈ g.dependencies, d.2.Pairwise fun a b => Reference.order a b = .lt

/-- A rule keeps a graph sorted. -/
theorem IsSorted.addRule (h : g.IsSorted) : (g.addRule r).IsSorted := by
  refine ⟨pairwise_orderedSet, h.dependencies.putEntry _ _, fun d hd => ?_⟩
  rcases mem_of_mem_putEntry hd with rfl | hd
  · exact pairwise_orderedSet
  · exact h.edges d hd

/-- The graph of some rules is sorted. -/
theorem isSorted_ofRules (rules : List Rule) : (ofRules rules).IsSorted := by
  have hfold : ∀ g : DependencyGraph, g.IsSorted → (rules.foldl addRule g).IsSorted := by
    induction rules with
    | nil => exact fun g h => h
    | cons r rest ih => exact fun g h => ih _ h.addRule
  exact hfold empty ⟨.nil, .nil, by simp [empty]⟩

/-- The relations that have dependencies in the graph of some rules are those of the heads. -/
theorem isSome_lookup_dependencies :
    ((ofRules rules).dependencies.lookup name).isSome ↔ ∃ r ∈ rules, r.headName = name := by
  have hfold : ∀ g : DependencyGraph, ((rules.foldl addRule g).dependencies.lookup name).isSome ↔
      (g.dependencies.lookup name).isSome ∨ ∃ r ∈ rules, r.headName = name := by
    induction rules with
    | nil => simp
    | cons r rest ih =>
      intro g
      have hfirst : ((g.addRule r).dependencies.lookup name).isSome ↔
          (g.dependencies.lookup name).isSome ∨ r.headName = name := by
        rw [addRule, lookup_putEntry]
        by_cases hname : name = r.headName
        · simp [hname]
        · simp [hname, Ne.symm hname]
      simp only [List.foldl_cons, ih, hfirst, List.mem_cons, exists_eq_or_imp, or_assoc]
  rw [ofRules, hfold]
  simp [empty]

/-- The graph of some rules depends on which rules these are only, not on their order and not on
repetitions. -/
theorem ofRules_congr {rules' : List Rule} (h : ∀ r, r ∈ rules ↔ r ∈ rules') :
    ofRules rules = ofRules rules' := by
  have hrules := isSorted_ofRules rules
  have hrules' := isSorted_ofRules rules'
  have hpredicates : (ofRules rules).predicates = (ofRules rules').predicates := by
    refine eq_of_pairwise_of_mem_iff hrules.predicates hrules'.predicates fun name => ?_
    simp only [mem_predicates_ofRules, h]
  have hdependencies : (ofRules rules).dependencies = (ofRules rules').dependencies := by
    refine hrules.dependencies.ext hrules'.dependencies fun name => ?_
    have hsome : ((ofRules rules).dependencies.lookup name).isSome ↔
        ((ofRules rules').dependencies.lookup name).isSome := by
      simp only [isSome_lookup_dependencies, h]
    have hedges : ∀ e, e ∈ (ofRules rules).edges name ↔ e ∈ (ofRules rules').edges name := by
      simp only [mem_edges_ofRules, h, implies_true]
    unfold edges at hedges
    cases hlookup : (ofRules rules).dependencies.lookup name with
    | none =>
      rw [hlookup] at hsome
      exact (Option.not_isSome_iff_eq_none.1 (by simp [← hsome])).symm
    | some es =>
      obtain ⟨es', hlookup'⟩ := Option.isSome_iff_exists.1 (hsome.1 (by rw [hlookup]; rfl))
      rw [hlookup, hlookup'] at hedges
      have heq : es = es' :=
        eq_of_pairwise_of_mem_iff (hrules.edges _ (mem_of_lookup_eq_some hlookup))
          (hrules'.edges _ (mem_of_lookup_eq_some hlookup')) hedges
      rw [hlookup', heq]
  cases hgraph : ofRules rules
  cases hgraph' : ofRules rules'
  rw [hgraph, hgraph'] at hpredicates hdependencies
  rw [DependencyGraph.mk.injEq]
  exact ⟨hpredicates, hdependencies⟩

end Edges

section Levels

variable {g : DependencyGraph} {levels levels' : Strata} {name : String} {edges : List Reference}

/-- The level of a relation after raising one. -/
theorem level_raise (other : String) :
    (raise levels name edges).level other =
      if other = name then
        edges.foldl (fun level e => max level (demand levels e)) (levels.level name)
      else levels.level other := by
  unfold raise Strata.level
  rw [lookup_putEntry]
  split <;> rfl

/-- A running maximum is at least its start and everything that it runs over. -/
theorem le_foldl_max {α : Type} (f : α → Nat) (as : List α) (start : Nat) :
    start ≤ as.foldl (fun level a => max level (f a)) start ∧
      ∀ a ∈ as, f a ≤ as.foldl (fun level a => max level (f a)) start := by
  induction as generalizing start with
  | nil => simp
  | cons b rest ih =>
    obtain ⟨hstart, hrest⟩ := ih (max start (f b))
    rw [List.foldl_cons]
    refine ⟨by omega, ?_⟩
    intro a ha
    rcases List.mem_cons.1 ha with rfl | ha
    · omega
    · exact hrest a ha

/-- A running maximum is at most what bounds its start and everything that it runs over. -/
theorem foldl_max_le {α : Type} {f : α → Nat} {as : List α} {start bound : Nat}
    (hstart : start ≤ bound) (has : ∀ a ∈ as, f a ≤ bound) :
    as.foldl (fun level a => max level (f a)) start ≤ bound := by
  induction as generalizing start with
  | nil => exact hstart
  | cons a rest ih =>
    rw [List.forall_mem_cons] at has
    exact ih (Nat.max_le.2 ⟨hstart, has.1⟩) has.2

/-- Raising lowers no level. -/
theorem level_le_level_raise (other : String) :
    levels.level other ≤ (raise levels name edges).level other := by
  rw [level_raise]
  split
  · next heq =>
    rw [heq]
    exact (le_foldl_max _ _ _).1
  · exact Nat.le_refl _

/-- Raising several relations lowers no level. -/
theorem level_le_level_foldl (dependencies : List (String × List Reference)) (other : String) :
    levels.level other ≤
      (dependencies.foldl (fun levels d => raise levels d.1 d.2) levels).level other := by
  induction dependencies generalizing levels with
  | nil => exact Nat.le_refl _
  | cons d rest ih => exact Nat.le_trans (level_le_level_raise other) ih

/-- Where raising several relations changes no level, every demand is met. -/
theorem demand_le_of_foldl {dependencies : List (String × List Reference)}
    (h : ∀ other,
      (dependencies.foldl (fun levels d => raise levels d.1 d.2) levels).level other =
        levels.level other)
    {d : String × List Reference} (hd : d ∈ dependencies) {e : Reference} (he : e ∈ d.2) :
    demand levels e ≤ levels.level d.1 := by
  induction dependencies generalizing levels with
  | nil => simp at hd
  | cons d' rest ih =>
    -- no level is lowered afterwards, so the first step raises none either
    have hfirst : ∀ other, (raise levels d'.1 d'.2).level other = levels.level other := by
      intro other
      have hlow : levels.level other ≤ (raise levels d'.1 d'.2).level other :=
        level_le_level_raise other
      have hhigh : (raise levels d'.1 d'.2).level other ≤
          (rest.foldl (fun levels d => raise levels d.1 d.2)
            (raise levels d'.1 d'.2)).level other :=
        level_le_level_foldl rest other
      have hall := h other
      rw [List.foldl_cons] at hall
      omega
    rcases List.mem_cons.1 hd with rfl | hd
    · have hmax := (le_foldl_max (demand levels) d.2 (levels.level d.1)).2 e he
      have hlevel := hfirst d.1
      rw [level_raise, if_pos rfl] at hlevel
      omega
    · have hrest : demand (raise levels d'.1 d'.2) e ≤ (raise levels d'.1 d'.2).level d.1 :=
        ih (fun other => by rw [← List.foldl_cons (l := rest), h other, hfirst other]) hd
      rw [demand, hfirst, hfirst] at hrest
      exact hrest

/-- Numbers for all relations that meet every demand: the number of a relation is at least that of
each of its references, and above it if the reference is negated. -/
def Meets (g : DependencyGraph) (numbers : String → Nat) : Prop :=
  ∀ d ∈ g.dependencies, ∀ e ∈ d.2, numbers e.name + e.negated.toNat ≤ numbers d.1

/-- Raising all relations goes above no numbers that meet every demand. -/
theorem Meets.level_raiseAll_le {numbers : String → Nat} (h : g.Meets numbers)
    (hle : ∀ other, levels.level other ≤ numbers other) (other : String) :
    (g.raiseAll levels).level other ≤ numbers other := by
  unfold Meets at h
  unfold raiseAll
  generalize g.dependencies = dependencies at h
  induction dependencies generalizing levels with
  | nil => exact hle other
  | cons d rest ih =>
    rw [List.forall_mem_cons] at h
    refine ih (fun other => ?_) h.2
    dsimp only
    rw [level_raise]
    split
    · next heq =>
      subst heq
      refine foldl_max_le (hle d.1) fun e he => ?_
      exact Nat.le_trans (Nat.add_le_add_right (hle e.name) _) (h.1 e he)
    · exact hle other

/-- Levels settle below all numbers that meet every demand. -/
theorem Meets.level_settle_le {numbers : String → Nat} (h : g.Meets numbers) {n : Nat}
    (hle : ∀ other, levels.level other ≤ numbers other)
    (hsettle : g.settle n levels = some levels') (other : String) :
    levels'.level other ≤ numbers other := by
  induction n generalizing levels with
  | zero => simp [settle] at hsettle
  | succ n ih =>
    simp only [settle] at hsettle
    split at hsettle
    · rw [← Option.some.inj hsettle]
      exact hle other
    · exact ih (h.level_raiseAll_le hle) hsettle

/-- Levels that have settled are not raised any more. -/
theorem raiseAll_of_settle {n : Nat} (h : g.settle n levels = some levels') :
    g.raiseAll levels' = levels' := by
  induction n generalizing levels with
  | zero => simp [settle] at h
  | succ n ih =>
    simp only [settle] at h
    split at h
    · next heq => rw [← Option.some.inj h, heq]
    · exact ih h

/-- Raising a relation forgets none. -/
theorem isSome_lookup_raise {other : String} (h : (levels.lookup other).isSome) :
    ((raise levels name edges).lookup other).isSome := by
  rw [raise, lookup_putEntry]
  split
  · rfl
  · exact h

/-- Raising all relations forgets none. -/
theorem isSome_lookup_raiseAll {other : String} (h : (levels.lookup other).isSome) :
    ((g.raiseAll levels).lookup other).isSome := by
  unfold raiseAll
  induction g.dependencies generalizing levels with
  | nil => exact h
  | cons d rest ih => exact ih (isSome_lookup_raise h)

/-- Settling forgets no relation. -/
theorem isSome_lookup_of_settle {n : Nat} {other : String}
    (h : g.settle n levels = some levels') (hother : (levels.lookup other).isSome) :
    (levels'.lookup other).isSome := by
  induction n generalizing levels with
  | zero => simp [settle] at h
  | succ n ih =>
    simp only [settle] at h
    split at h
    · rw [← Option.some.inj h]
      exact hother
    · exact ih h (isSome_lookup_raiseAll hother)

end Levels

section Satisfied

variable {rules : List Rule} {levels : Strata} {r : Rule} {e : Reference}

/-- The dependencies of a relation are found by its name. -/
theorem mem_dependencies {g : DependencyGraph} {name : String} (h : e ∈ g.edges name) :
    ∃ d ∈ g.dependencies, d.1 = name ∧ e ∈ d.2 := by
  unfold edges at h
  cases hlookup : g.dependencies.lookup name with
  | none => simp [hlookup] at h
  | some es =>
    rw [hlookup, Option.getD_some] at h
    exact ⟨(name, es), mem_of_lookup_eq_some hlookup, rfl, h⟩

/-- The levels of a graph have settled from zero. -/
theorem settle_of_strata {g : DependencyGraph} (h : g.strata = .ok levels) :
    ∃ n, g.settle n (g.predicates.map fun name => (name, 0)) = some levels := by
  unfold strata at h
  split at h
  · simp at h
  · split at h
    · next settled hsettle =>
      obtain rfl : settled = levels := by simpa using h
      exact ⟨_, hsettle⟩
    · simp at h

/-- Levels that have settled from zero, where no relation depends on its own negation. -/
theorem strata_eq_ok {g : DependencyGraph} (hcycle : g.negativeCycle? = none)
    (hsettle : g.settle (g.predicates.length + 2) (g.predicates.map fun name => (name, 0)) =
      some levels) : g.strata = .ok levels := by
  rw [strata, hcycle]
  dsimp only
  rw [hsettle]

/-- The levels of some rules satisfy every reference: the level of a head is at or above that of
what its rules mention, and above that of what they negate. -/
theorem strata_satisfies (h : (ofRules rules).strata = .ok levels) (hr : r ∈ rules)
    (he : e ∈ r.references) : levels.level e.name + e.negated.toNat ≤ levels.level r.headName := by
  obtain ⟨n, hsettle⟩ := settle_of_strata h
  have hstable := raiseAll_of_settle hsettle
  obtain ⟨d, hd, hname, he⟩ := mem_dependencies (mem_edges_ofRules.2 ⟨r, hr, rfl, he⟩)
  have hdemand := demand_le_of_foldl
    (fun other => congrArg (fun levels => Strata.level levels other) hstable) hd he
  rwa [demand, hname] at hdemand

/-- The dependencies of a relation are the references of its rules. -/
theorem exists_rule_of_mem_dependencies {d : String × List Reference}
    (hd : d ∈ (ofRules rules).dependencies) (he : e ∈ d.2) :
    ∃ r ∈ rules, r.headName = d.1 ∧ e ∈ r.references := by
  refine mem_edges_ofRules.1 ?_
  unfold edges
  rw [(isSorted_ofRules rules).dependencies.mem_iff_lookup.1 hd]
  exact he

/-- Numbers that satisfy the references of some rules meet every demand of their graph. -/
theorem meets_ofRules {numbers : String → Nat}
    (h : ∀ r ∈ rules, ∀ e ∈ r.references, numbers e.name + e.negated.toNat ≤ numbers r.headName) :
    (ofRules rules).Meets numbers := by
  intro d hd e he
  obtain ⟨r, hr, hname, he⟩ := exists_rule_of_mem_dependencies hd he
  rw [← hname]
  exact h r hr e he

/-- All relations start from zero. -/
theorem level_map_zero (names : List String) (other : String) :
    Strata.level (names.map fun name => (name, 0)) other = 0 := by
  unfold Strata.level
  induction names with
  | nil => rfl
  | cons name rest ih =>
    rw [List.map_cons, lookup_cons_eq_ite]
    split
    · rfl
    · exact ih

/-- The levels of some rules are the least numbers that satisfy every reference. -/
theorem strata_le (h : (ofRules rules).strata = .ok levels) (numbers : String → Nat)
    (hnumbers : ∀ r ∈ rules, ∀ e ∈ r.references,
      numbers e.name + e.negated.toNat ≤ numbers r.headName) (name : String) :
    levels.level name ≤ numbers name := by
  obtain ⟨n, hsettle⟩ := settle_of_strata h
  refine (meets_ofRules hnumbers).level_settle_le (fun other => ?_) hsettle name
  rw [level_map_zero]
  exact Nat.zero_le _

/-- Every relation of some rules has a level. -/
theorem isSome_lookup_strata {name : String} (h : (ofRules rules).strata = .ok levels)
    (hname : name ∈ (ofRules rules).predicates) : (levels.lookup name).isSome := by
  obtain ⟨n, hsettle⟩ := settle_of_strata h
  refine isSome_lookup_of_settle hsettle ?_
  exact List.lookup_isSome_iff.2
    ⟨(name, 0), List.mem_map.2 ⟨name, hname, rfl⟩, beq_self_eq_true name⟩

end Satisfied

end DependencyGraph

end Factbase
