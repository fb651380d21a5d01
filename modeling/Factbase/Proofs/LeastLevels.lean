import Mathlib.Order.Lattice.Nat
import Factbase.Proofs.Dependency

/-! # Rules that have levels

Rules have levels as soon as there are any numbers that satisfy their references
(`DependencyGraph.exists_strata_iff`). Such numbers leave no negative edge on a cycle, as they do
not increase along a path of dependencies (`DependencyGraph.Meets.negativeCycle?_eq_none`). And
levels settle: as long as some relation is below the least of its numbers, a round brings one up to
it, for otherwise all that are below it could have smaller numbers
(`DependencyGraph.Meets.exists_rises`). So there are no more rounds that change a level than
relations. -/

namespace Factbase

namespace DependencyGraph

variable {g : DependencyGraph} {numbers : String → Nat} {levels : Strata} {name : String}
  {rules : List Rule}

/-! ## No cycle through a negation -/

/-- A search ends at a relation whose number is at most what bounds those at the ends of the queued
paths. -/
theorem Meets.le_of_search (h : g.Meets numbers) {target : String} {n bound : Nat}
    {seen path : List String} {queue : List (List String)}
    (hqueue : ∀ path ∈ queue, numbers (path.headD "") ≤ bound)
    (hsearch : g.search target n seen queue = some path) : numbers target ≤ bound := by
  -- a longer path ends at a relation that the end of the path depends on
  induction n generalizing seen queue with
  | zero => simp [search] at hsearch
  | succ n ih =>
    cases queue with
    | nil => simp [search] at hsearch
    | cons first rest =>
      obtain ⟨hfirst, hrest⟩ := List.forall_mem_cons.1 hqueue
      simp only [search] at hsearch
      split at hsearch
      · next heq => exact heq ▸ hfirst
      · refine ih (List.forall_mem_append.2 ⟨hrest, fun longer hlonger => ?_⟩) hsearch
        obtain ⟨next, hnext, rfl⟩ := List.mem_map.1 hlonger
        have hedge : next ∈ (g.edges (first.headD "")).map (·.name) :=
          mem_nameSet.1 (List.mem_filter.1 hnext).1
        obtain ⟨e, he, rfl⟩ := List.mem_map.1 hedge
        obtain ⟨d, hd, hname, he⟩ := mem_dependencies he
        have hle := h d hd e he
        rw [hname] at hle
        exact (Nat.le_of_add_right_le hle).trans hfirst

/-- Where numbers meet every demand, no negative edge lies on a cycle: the number of its start is
above that of its end, and numbers do not increase on the way back. -/
theorem Meets.negativeCycle?_eq_none (h : g.Meets numbers) : g.negativeCycle? = none := by
  rw [negativeCycle?, List.findSome?_eq_none_iff]
  rintro ⟨start, next⟩ hedge
  obtain ⟨d, hd, hmem⟩ := List.mem_flatMap.1 hedge
  obtain ⟨e, he, heq⟩ := List.mem_map.1 hmem
  obtain ⟨rfl, rfl⟩ := Prod.mk.inj heq
  obtain ⟨he, hnegated⟩ := List.mem_filter.1 he
  have hlt := h d hd e he
  rw [hnegated, Bool.toNat_true] at hlt
  dsimp only
  cases hpath : g.path? e.name d.1 with
  | none => rfl
  | some path =>
    have hback : numbers d.1 ≤ numbers e.name :=
      h.le_of_search (by simp) hpath
    omega

/-! ## Least numbers -/

/-- The least number that a relation has among all numbers that meet every demand. -/
noncomputable def least (g : DependencyGraph) (name : String) : Nat :=
  sInf {n | ∃ numbers, g.Meets numbers ∧ numbers name = n}

theorem Meets.least_le (h : g.Meets numbers) (name : String) : g.least name ≤ numbers name :=
  Nat.sInf_le ⟨numbers, h, rfl⟩

theorem Meets.exists_eq_least (h : g.Meets numbers) (name : String) :
    ∃ numbers', g.Meets numbers' ∧ numbers' name = g.least name :=
  Nat.sInf_mem (s := {n | ∃ numbers, g.Meets numbers ∧ numbers name = n}) ⟨_, numbers, h, rfl⟩

/-- The least numbers meet every demand, if any numbers do. -/
theorem Meets.meets_least (h : g.Meets numbers) : g.Meets g.least := by
  intro d hd e he
  obtain ⟨numbers', h', heq⟩ := h.exists_eq_least d.1
  rw [← heq]
  exact (Nat.add_le_add_right (h'.least_le e.name) _).trans (h' d hd e he)

/-! ## Rounds -/

/-- After raising several relations, every demand that was there before is met. -/
theorem demand_le_level_foldl {dependencies : List (String × List Reference)}
    {d : String × List Reference} (hd : d ∈ dependencies) {e : Reference} (he : e ∈ d.2) :
    demand levels e ≤
      (dependencies.foldl (fun levels d => raise levels d.1 d.2) levels).level d.1 := by
  induction dependencies generalizing levels with
  | nil => simp at hd
  | cons d' rest ih =>
    rw [List.foldl_cons]
    rcases List.mem_cons.1 hd with rfl | hd
    · have hraised : demand levels e ≤ (raise levels d.1 d.2).level d.1 := by
        rw [level_raise, if_pos rfl]
        exact (le_foldl_max (demand levels) d.2 (levels.level d.1)).2 e he
      exact hraised.trans (level_le_level_foldl rest d.1)
    · exact (Nat.add_le_add_right (level_le_level_raise e.name) _).trans (ih hd)

/-- Raising several relations changes the levels of no others. -/
theorem level_foldl_of_forall_ne {dependencies : List (String × List Reference)}
    (h : ∀ d ∈ dependencies, d.1 ≠ name) :
    (dependencies.foldl (fun levels d => raise levels d.1 d.2) levels).level name =
      levels.level name := by
  induction dependencies generalizing levels with
  | nil => rfl
  | cons d rest ih =>
    obtain ⟨hd, hrest⟩ := List.forall_mem_cons.1 h
    rw [List.foldl_cons, ih hrest, level_raise, if_neg (Ne.symm hd)]

/-- As long as a level is not the least number of its relation, a round brings the level of some
relation up to that. -/
theorem Meets.exists_rises (h : g.Meets numbers)
    (hle : ∀ other, levels.level other ≤ g.least other)
    (hbelow : levels.level name < g.least name) :
    ∃ other, levels.level other < g.least other ∧
      (g.raiseAll levels).level other = g.least other := by
  by_contra hnone
  have hleast := h.meets_least
  have hstill : ∀ other, levels.level other < g.least other →
      (g.raiseAll levels).level other < g.least other := fun other hother =>
    lt_of_le_of_ne (hleast.level_raiseAll_le hle other) fun heq => hnone ⟨other, hother, heq⟩
  -- then the relations that are below could all have a number less
  let smaller : String → Nat := fun other =>
    if levels.level other < g.least other then g.least other - 1 else g.least other
  have hsmaller : g.Meets smaller := by
    intro d hd e he
    have hdemand := hleast d hd e he
    have hraised : demand levels e ≤ (g.raiseAll levels).level d.1 := demand_le_level_foldl hd he
    have hd' := hstill d.1
    have he' := hle e.name
    rw [demand] at hraised
    simp only [smaller]
    split <;> split <;> omega
  have hcontra := hsmaller.least_le name
  simp only [smaller, if_pos hbelow] at hcontra
  omega

section OfRules

variable {start : Strata}

/-- The relations of the dependencies are relations of the graph. -/
theorem mem_predicates_of_mem_dependencies {d : String × List Reference}
    (hd : d ∈ (ofRules rules).dependencies) : d.1 ∈ (ofRules rules).predicates := by
  have hlookup : ((ofRules rules).dependencies.lookup d.1).isSome :=
    List.lookup_isSome_iff.2 ⟨d, hd, beq_self_eq_true d.1⟩
  obtain ⟨r, hr, hhead⟩ := isSome_lookup_dependencies.1 hlookup
  exact mem_predicates_ofRules.2 ⟨r, hr, .inl hhead.symm⟩

/-- A level that a round raises is that of a relation of the graph. -/
theorem mem_predicates_of_level_raiseAll_ne
    (h : ((ofRules rules).raiseAll levels).level name ≠ levels.level name) :
    name ∈ (ofRules rules).predicates := by
  by_contra hname
  refine h (level_foldl_of_forall_ne fun d hd heq => hname ?_)
  exact heq ▸ mem_predicates_of_mem_dependencies hd

/-- After some rounds all levels are least, unless each round has brought one more relation of the
graph up to its least number. -/
theorem Meets.settled_or_le_countP (h : (ofRules rules).Meets numbers)
    (hstart : ∀ other, start.level other ≤ (ofRules rules).least other) (n : Nat) :
    (∀ other, ((ofRules rules).raiseAll^[n] start).level other ≤ (ofRules rules).least other) ∧
      ((∀ other, ((ofRules rules).raiseAll^[n] start).level other = (ofRules rules).least other) ∨
        n ≤ (ofRules rules).predicates.countP fun name =>
          ((ofRules rules).raiseAll^[n] start).level name = (ofRules rules).least name) := by
  induction n with
  | zero => exact ⟨hstart, .inr (Nat.zero_le _)⟩
  | succ n ih =>
    obtain ⟨hle, hcases⟩ := ih
    rw [Function.iterate_succ_apply']
    generalize (ofRules rules).raiseAll^[n] start = levels at hle hcases ⊢
    have hnext := h.meets_least.level_raiseAll_le hle
    -- what is least stays so
    have hkept : ∀ other, levels.level other = (ofRules rules).least other →
        ((ofRules rules).raiseAll levels).level other = (ofRules rules).least other :=
      fun other heq => le_antisymm (hnext other)
        (heq ▸ level_le_level_foldl (ofRules rules).dependencies other)
    refine ⟨hnext, ?_⟩
    by_cases hall : ∀ other, levels.level other = (ofRules rules).least other
    · exact .inl fun other => hkept other (hall other)
    · right
      obtain ⟨name, hname⟩ := not_forall.1 hall
      obtain ⟨other, hother, hrisen⟩ := h.exists_rises hle (lt_of_le_of_ne (hle name) hname)
      refine Nat.lt_of_le_of_lt (hcases.resolve_left hall) ?_
      refine countP_lt_countP (a := other) ?_ ?_ ?_ ?_
      · intro other hother
        exact decide_eq_true (hkept other (of_decide_eq_true hother))
      · exact mem_predicates_of_level_raiseAll_ne (hrisen ▸ hother.ne')
      · exact decide_eq_false hother.ne
      · exact decide_eq_true hrisen

/-- As many rounds as there are relations make all levels least. -/
theorem Meets.level_iterate (h : (ofRules rules).Meets numbers)
    (hstart : ∀ other, start.level other ≤ (ofRules rules).least other) (other : String) :
    ((ofRules rules).raiseAll^[(ofRules rules).predicates.length] start).level other =
      (ofRules rules).least other := by
  obtain ⟨hle, hall | hcount⟩ := h.settled_or_le_countP hstart (ofRules rules).predicates.length
  · exact hall other
  · by_contra hne
    -- the next round would bring up a relation of the graph, but all of these are there
    obtain ⟨name, hname, hrisen⟩ := h.exists_rises hle (lt_of_le_of_ne (hle other) hne)
    have hmem : name ∈ (ofRules rules).predicates :=
      mem_predicates_of_level_raiseAll_ne (hrisen ▸ hname.ne')
    have hall := List.countP_eq_length.1 (Nat.le_antisymm List.countP_le_length hcount)
    exact hname.ne (of_decide_eq_true (hall name hmem))

end OfRules

/-! ## Levels settle -/

/-- Levels settle from a start that some rounds lead to levels which are not raised any more. -/
theorem exists_settle_eq {k n : Nat} (hk : k < n)
    (hstable : g.raiseAll (g.raiseAll^[k] levels) = g.raiseAll^[k] levels) :
    ∃ settled, g.settle n levels = some settled := by
  induction k generalizing n levels with
  | zero =>
    obtain ⟨n, rfl⟩ := Nat.exists_eq_add_of_lt hk
    refine ⟨levels, ?_⟩
    rw [Nat.zero_add, settle]
    exact if_pos hstable
  | succ k ih =>
    obtain ⟨n, rfl⟩ : ∃ m, n = m + 1 := ⟨n - 1, by omega⟩
    rw [settle]
    by_cases hequal : g.raiseAll levels = levels
    · exact ⟨levels, if_pos hequal⟩
    · obtain ⟨settled, hsettled⟩ := ih (show k < n by omega) hstable
      exact ⟨settled, (if_neg hequal).trans hsettled⟩

/-- Levels in the order of the relations, one for each relation of a graph. -/
structure IsComplete (g : DependencyGraph) (levels : Strata) : Prop where
  isOrdered : IsOrdered levels
  isSome_iff : ∀ name, (levels.lookup name).isSome ↔ name ∈ g.predicates

/-- Raising relations of a graph keeps the levels complete. -/
theorem IsComplete.foldl {dependencies : List (String × List Reference)}
    (h : g.IsComplete levels) (hmem : ∀ d ∈ dependencies, d.1 ∈ g.predicates) :
    g.IsComplete (dependencies.foldl (fun levels d => raise levels d.1 d.2) levels) := by
  induction dependencies generalizing levels with
  | nil => exact h
  | cons d rest ih =>
    obtain ⟨hd, hrest⟩ := List.forall_mem_cons.1 hmem
    refine ih ⟨h.isOrdered.putEntry _ _, fun name => ?_⟩ hrest
    dsimp only [raise]
    rw [lookup_putEntry]
    split
    · next heq => simp [heq, hd]
    · exact h.isSome_iff name

/-- Complete levels with the same numbers are equal. -/
theorem IsComplete.ext {levels' : Strata} (h : g.IsComplete levels) (h' : g.IsComplete levels')
    (hlevel : ∀ name, levels.level name = levels'.level name) : levels = levels' := by
  refine h.isOrdered.ext h'.isOrdered fun name => ?_
  have hsome := (h.isSome_iff name).trans (h'.isSome_iff name).symm
  have hname := hlevel name
  unfold Strata.level at hname
  cases hlookup : levels.lookup name <;> cases hlookup' : levels'.lookup name <;> simp_all

section OfRules

/-- The levels from which rounds start: all are zero. -/
def zeros (g : DependencyGraph) : Strata := g.predicates.map fun name => (name, 0)

theorem isComplete_zeros (rules : List Rule) :
    (ofRules rules).IsComplete (ofRules rules).zeros := by
  constructor
  · refine List.pairwise_map.2 ((isSorted_ofRules rules).predicates.imp fun hlt => ?_)
    exact compareOfLessAndEq_eq_lt.1 hlt
  · intro name
    simp [zeros, List.lookup_isSome_iff]

/-- Rounds keep levels complete. -/
theorem isComplete_iterate (rules : List Rule) (n : Nat) :
    (ofRules rules).IsComplete ((ofRules rules).raiseAll^[n] (ofRules rules).zeros) := by
  induction n with
  | zero => exact isComplete_zeros rules
  | succ n ih =>
    rw [Function.iterate_succ_apply']
    exact ih.foldl fun d hd => mem_predicates_of_mem_dependencies hd

/-- Rules have levels if and only if there are numbers such that the head of each rule has at least
the number of what the rule mentions, and more than that of what it negates. -/
theorem exists_strata_iff :
    (∃ levels, (ofRules rules).strata = .ok levels) ↔
      ∃ numbers : String → Nat, ∀ r ∈ rules, ∀ e ∈ r.references,
        numbers e.name + e.negated.toNat ≤ numbers r.headName := by
  constructor
  · rintro ⟨levels, hlevels⟩
    exact ⟨levels.level, fun r hr e he => strata_satisfies hlevels hr he⟩
  · rintro ⟨numbers, hnumbers⟩
    have hmeets := meets_ofRules hnumbers
    have hstart : ∀ other, (ofRules rules).zeros.level other ≤ (ofRules rules).least other :=
      fun other => (level_map_zero _ other).trans_le (Nat.zero_le _)
    have hleast := hmeets.level_iterate hstart
    have hcomplete := isComplete_iterate rules (ofRules rules).predicates.length
    generalize hsettled : (ofRules rules).raiseAll^[(ofRules rules).predicates.length]
      (ofRules rules).zeros = settled at hleast hcomplete
    -- one more round can neither lower a level nor raise it above the least number
    have hstable : (ofRules rules).raiseAll settled = settled := by
      refine IsComplete.ext (g := ofRules rules) ?_ hcomplete fun other => ?_
      · exact hcomplete.foldl fun d hd => mem_predicates_of_mem_dependencies hd
      · refine le_antisymm ?_ (level_le_level_foldl (ofRules rules).dependencies other)
        rw [hleast other]
        exact hmeets.meets_least.level_raiseAll_le (fun other => (hleast other).le) other
    obtain ⟨levels, hlevels⟩ := exists_settle_eq
      (n := (ofRules rules).predicates.length + 2) (by omega) (hsettled.symm ▸ hstable)
    exact ⟨levels, strata_eq_ok hmeets.negativeCycle?_eq_none hlevels⟩

end OfRules

end DependencyGraph

end Factbase
