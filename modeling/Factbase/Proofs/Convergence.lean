import Mathlib.Data.List.Sections
import Factbase.Proofs.Dependency
import Factbase.Proofs.Legibility
import Factbase.Proofs.RuleText
import Factbase.Proofs.Totality

/-! # Evaluations converge

The values of a derived tuple are constants of heads or were in the relations before, so the rules
of a program can derive finitely many rows from a working set (`Saturation.rows`). Every pass over a
level that adds something adds one of those that are missing, and none gets lost: passes that are
as many as the missing rows, and one more, converge (`Saturation.exists_converged_ofLevel`). Passes
that are allowed beyond these are not made, so that from some limit on every limit gives the same
answers and the same plan (`Program.exists_converged_evaluate`). -/

namespace Factbase

namespace WorkingSet

variable {w w' : WorkingSet} {name : String} {tuples : List Tuple} {t : Tuple}

/-- The values in the relations of a working set are finitely many. -/
theorem exists_holdsOnly_mem (w : WorkingSet) : ∃ atoms : List Atom, w.HoldsOnly (· ∈ atoms) := by
  refine ⟨w.relations.flatMap fun e => e.2.tuples.toList.flatten, fun name t ht a ha => ?_⟩
  cases hrelation : w.relation? name with
  | none => simp [tuples, relation, hrelation, Relation.empty] at ht
  | some r =>
    rw [tuples, relation, hrelation, Option.getD_some] at ht
    have hmem : (name, r) ∈ w.relations := w.isOrdered.mem_iff_lookup.2 hrelation
    exact List.mem_flatMap.2 ⟨(name, r), hmem, List.mem_flatten.2 ⟨t, ht, ha⟩⟩

/-- Inserting tuples keeps the rows that are there. -/
theorem contains_insertEach_of_contains {other : String} (h : (w.relation other).contains t)
    (name : String) (tuples : List Tuple) :
    ((w.insertEach name tuples).2.relation other).contains t := by
  rw [relation_insertEach]
  split
  · next heq =>
    rw [heq, Relation.contains_iff] at h
    obtain ⟨u, hu, hkey⟩ := h
    exact Relation.contains_iff.2 ⟨u, Relation.mem_insertEach_of_mem hu, hkey⟩
  · exact h

/-- After inserting tuples a row for each is there. -/
theorem contains_insertEach_of_mem (w : WorkingSet) (name : String) (ht : t ∈ tuples) :
    ((w.insertEach name tuples).2.relation name).contains t :=
  Relation.contains_iff.2 (exists_mem_tuples_insertEach w name ht)

/-- Where tuples are added, one of them was not there. -/
theorem exists_not_contains (h : (w.insertEach name tuples).1 ≠ 0) :
    ∃ t ∈ tuples, (w.relation name).contains t = false := by
  by_contra hnone
  refine h ?_
  rw [insertEach_fst, Relation.insertEach_of_forall_contains fun t ht => ?_]
  exact Bool.of_not_eq_false fun hnew => hnone ⟨t, ht, hnew⟩

end WorkingSet

namespace Saturation

open Deriving

variable {rules : List Rule} {atoms : List Atom} {w w' : WorkingSet} {r : Rule} {n m : Nat}
  {s : Saturation}

/-- The rows that rules can derive from some values, each with the name of its relation. -/
def rows (rules : List Rule) (atoms : List Atom) : List (String × Tuple) :=
  rules.flatMap fun r =>
    (List.sections (r.head.terms.map fun _ => atoms)).map fun t => (r.headName, t)

/-- How many of some rows are missing in a working set. -/
def missing (rows : List (String × Tuple)) (w : WorkingSet) : Nat :=
  rows.countP fun row => !(w.relation row.1).contains row.2

/-- The constants in the heads of rules are among some values. -/
def HeadsWithin (rules : List Rule) (atoms : List Atom) : Prop :=
  ∀ r ∈ rules, ∀ a, Term.const a ∈ r.head.terms → a ∈ atoms

/-- Some values are all that rules need to derive from a working set. -/
theorem exists_headsWithin (rules : List Rule) (w : WorkingSet) :
    ∃ atoms, HeadsWithin rules atoms ∧ w.HoldsOnly (· ∈ atoms) := by
  obtain ⟨atoms, hw⟩ := w.exists_holdsOnly_mem
  refine ⟨(rules.flatMap fun r => r.head.terms.filterMap Binding.empty.resolve) ++ atoms,
    fun r hr a ha => List.mem_append_left _ ?_,
    fun name t ht a ha => List.mem_append_right _ (hw name t ht a ha)⟩
  exact List.mem_flatMap.2 ⟨r, hr, List.mem_filterMap.2 ⟨.const a, ha, rfl⟩⟩

/-- A tuple of values of terms is one of the sections of what the values are among. -/
theorem mem_sections_of_mapM_resolve {b : Binding} {terms : List Term} {t : Tuple}
    (ht : terms.mapM b.resolve = some t) (hatoms : ∀ a ∈ t, a ∈ atoms) :
    t ∈ List.sections (terms.map fun _ => atoms) := by
  induction terms generalizing t with
  | nil =>
    obtain rfl : [] = t := by simpa using ht
    simp
  | cons term rest ih =>
    simp only [List.mapM_cons, Option.bind_eq_bind, Option.bind_eq_some_iff, Option.pure_def,
      Option.some.injEq] at ht
    obtain ⟨value, -, others, hothers, rfl⟩ := ht
    rw [List.forall_mem_cons] at hatoms
    have hrest := List.mem_sections.1 (ih hothers hatoms.2)
    exact List.mem_sections.2 (.cons hatoms.1 hrest)

/-- An application of a rule takes rows from those that are missing, one at least if it adds
something. -/
theorem missing_apply (hheads : HeadsWithin rules atoms) (hw : w.HoldsOnly (· ∈ atoms))
    (hr : r ∈ rules) (h : outcome (r.apply w) = .ok (n, w')) :
    missing (rows rules atoms) w' ≤ missing (rows rules atoms) w ∧
      (n ≠ 0 → missing (rows rules atoms) w' < missing (rows rules atoms) w) := by
  obtain ⟨tuples, hinsert, hfrom, -⟩ := Rule.apply_ok h
  have hkept : ∀ row : String × Tuple, (!(w'.relation row.1).contains row.2) = true →
      (!(w.relation row.1).contains row.2) = true := by
    intro row hmissing
    rw [Bool.not_eq_true'] at hmissing ⊢
    by_contra hthere
    have hkept := WorkingSet.contains_insertEach_of_contains (Bool.of_not_eq_false hthere)
      r.headName tuples
    rw [hinsert, hmissing] at hkept
    exact absurd hkept (by decide)
  refine ⟨List.countP_mono_left fun row _ => hkept row, fun hadded => ?_⟩
  have hfst : (w.insertEach r.headName tuples).1 ≠ 0 := by rwa [hinsert]
  obtain ⟨t, ht, hnew⟩ := WorkingSet.exists_not_contains hfst
  -- the new tuple is one of the rows, and it is there afterwards
  have hthere := w.contains_insertEach_of_mem r.headName ht
  rw [hinsert] at hthere
  obtain ⟨b, hb, hhead⟩ := hfrom t ht
  have hrow : (r.headName, t) ∈ rows rules atoms :=
    List.mem_flatMap.2 ⟨r, hr, List.mem_map.2 ⟨t, mem_sections_of_mapM_resolve hhead
      (Rule.forall_mem_headTuple (hheads r hr) hw hb hhead), rfl⟩⟩
  exact countP_lt_countP hkept hrow (by simp [hthere]) (by simp [hnew])

/-- A pass takes rows from those that are missing, one at least if it adds something. -/
theorem missing_pass {part : List Rule} (hheads : HeadsWithin rules atoms)
    (hpart : ∀ r ∈ part, r ∈ rules) (hw : w.HoldsOnly (· ∈ atoms))
    (h : outcome (pass part w) = .ok (n, w')) :
    missing (rows rules atoms) w' ≤ missing (rows rules atoms) w ∧
      (n ≠ 0 → missing (rows rules atoms) w' < missing (rows rules atoms) w) := by
  induction part generalizing w n with
  | nil =>
    obtain ⟨rfl, rfl⟩ : 0 = n ∧ w = w' := by simpa [pass] using h
    exact ⟨Nat.le_refl _, fun hzero => absurd rfl hzero⟩
  | cons r rest ih =>
    rw [List.forall_mem_cons] at hpart
    obtain ⟨first, w₁, others, hfirst, hothers, rfl⟩ := outcome_pass_cons.1 h
    obtain ⟨hle, hlt⟩ := missing_apply hheads hw hpart.1 hfirst
    obtain ⟨hle', hlt'⟩ :=
      ih hpart.2 (Rule.holdsOnly_apply (hheads r hpart.1) hw hfirst) hothers
    refine ⟨Nat.le_trans hle' hle, fun hadded => ?_⟩
    by_cases hzero : first = 0
    · exact Nat.lt_of_lt_of_le (hlt' (by omega)) hle
    · exact Nat.lt_of_le_of_lt hle' (hlt hzero)

/-- More passes than rows are missing converge. -/
theorem exists_converged_ofLevel
    (happly : ∀ r ∈ rules, ∀ w, ∃ result, outcome (r.apply w) = .ok result)
    (hheads : HeadsWithin rules atoms) (hw : w.HoldsOnly (· ∈ atoms))
    (hn : missing (rows rules atoms) w < n) :
    ∃ s, outcome (ofLevel rules n w) = .ok s ∧ s.converged = true := by
  induction n generalizing w with
  | zero => omega
  | succ n ih =>
    obtain ⟨⟨added, w₁⟩, hpass⟩ := exists_pass happly w
    by_cases hzero : added = 0
    · exact ⟨_, outcome_ofLevel_succ.2 ⟨added, w₁, hpass, .inl ⟨hzero, rfl⟩⟩, rfl⟩
    · -- a pass that adds something leaves fewer rows missing
      have hlt := (missing_pass hheads (fun _ hr => hr) hw hpass).2 hzero
      have hw₁ : w₁.HoldsOnly (· ∈ atoms) := preserved_pass
        (fun r hr _ _ _ hw happly => Rule.holdsOnly_apply (hheads r hr) hw happly) hw hpass
      obtain ⟨s, hrest, hconverged⟩ := ih hw₁ (by omega)
      exact ⟨_, outcome_ofLevel_succ.2 ⟨added, w₁, hpass, .inr ⟨hzero, s, hrest, rfl⟩⟩, hconverged⟩

/-- Where some passes converge, further ones are not made. -/
theorem ofLevel_of_le (h : outcome (ofLevel rules n w) = .ok s) (hconverged : s.converged = true)
    (hle : n ≤ m) : outcome (ofLevel rules m w) = .ok s := by
  induction n generalizing m w s with
  | zero =>
    obtain rfl : _ = s := by simpa [ofLevel] using h
    simp at hconverged
  | succ n ih =>
    obtain ⟨m, rfl⟩ := Nat.exists_eq_add_of_le' (Nat.le_of_add_left_le hle)
    obtain ⟨added, w₁, hpass, hcases⟩ := outcome_ofLevel_succ.1 h
    refine outcome_ofLevel_succ.2 ⟨added, w₁, hpass, hcases.imp_right ?_⟩
    rintro ⟨hzero, t, hrest, rfl⟩
    exact ⟨hzero, t, ih (s := t) hrest hconverged (Nat.le_of_succ_le_succ hle), rfl⟩

/-- From some limit on, levels are saturated alike and converge. -/
theorem exists_converged_ofLevels {levels : List (List Rule)}
    (happly : ∀ rules ∈ levels, ∀ r ∈ rules, ∀ w, ∃ result, outcome (r.apply w) = .ok result)
    (w : WorkingSet) :
    ∃ limit s, s.converged = true ∧ ∀ n, limit ≤ n → outcome (ofLevels n levels w) = .ok s := by
  induction levels generalizing w with
  | nil => exact ⟨0, ⟨0, 0, true, w⟩, rfl, fun _ _ => rfl⟩
  | cons rules rest ih =>
    rw [List.forall_mem_cons] at happly
    obtain ⟨atoms, hheads, hw⟩ := exists_headsWithin rules w
    obtain ⟨first, hfirst, hconverged⟩ :=
      exists_converged_ofLevel happly.1 hheads hw (Nat.lt_succ_self _)
    obtain ⟨limit, others, hconverged', hothers⟩ := ih happly.2 first.result
    refine ⟨max (missing (rows rules atoms) w + 1) limit,
      ⟨first.iterations + others.iterations, first.derived + others.derived,
        first.converged && others.converged, others.result⟩,
      Bool.and_eq_true_iff.2 ⟨hconverged, hconverged'⟩, fun n hn => ?_⟩
    exact outcome_ofLevels_cons.2 ⟨first, others,
      ofLevel_of_le hfirst hconverged (by omega), hothers n (by omega), rfl⟩

end Saturation

namespace Program

/-- From some limit of passes on, every limit gives the same result and leaves the same working set,
and the result has converged. -/
theorem exists_converged_evaluateIn (prune : Bool) (calls : List RuleCall) (s : Store)
    (w : WorkingSet) (q : GoalQuery) :
    ∃ limit a w', a.plan.converged = true ∧ ∀ n, limit ≤ n →
      ((empty ⟨n, prune⟩).performAll calls).evaluateIn s w q = .ok (a, w') := by
  -- the limit takes no part in the registration of rules
  have hsettings : ∀ n, (empty ⟨n, prune⟩).performAll calls =
      ((empty ⟨0, prune⟩).performAll calls).withSettings ⟨n, prune⟩ := fun n =>
    performAll_withSettings (empty ⟨0, prune⟩) ⟨n, prune⟩ calls
  have hp := (isValid_empty ⟨0, prune⟩).performAll calls
  have hprune : ((empty ⟨0, prune⟩).performAll calls).settings.pruneUnusedRules = prune :=
    congrArg (fun p : Program => p.settings.pruneUnusedRules) (hsettings 0)
  generalize (empty ⟨0, prune⟩).performAll calls = p at hsettings hp hprune
  have hrules : ∀ n, (p.withSettings ⟨n, prune⟩).rulesFor q = p.rulesFor q := by
    intro n
    unfold rulesFor withSettings
    rw [hprune]
  have happly : ∀ rules ∈ p.levels (p.rulesFor q), ∀ r ∈ rules, ∀ w, ∃ result,
      Deriving.outcome (r.apply w) = .ok result := fun _ hlevel r hr =>
    Rule.exists_apply (hp.isBound r (mem_of_mem_rulesFor (mem_of_mem_levels hlevel hr)))
  obtain ⟨limit, t, hconverged, hlevels⟩ :=
    Saturation.exists_converged_ofLevels happly (w.seed s)
  refine ⟨limit, ⟨q.answers t.result, ⟨q.goals.length, (p.rulesFor q).length,
    (p.levels (p.rulesFor q)).length, t.iterations, t.derived, t.converged⟩⟩, t.result, hconverged,
    fun n hn => ?_⟩
  rw [hsettings]
  refine evaluateIn_eq_ok.2 ⟨t, ?_, rfl, by rw [hrules]; rfl⟩
  rw [hrules]
  exact hlevels n hn

/-- From some limit of passes on, every limit gives the same result, and that has converged:
whatever rules are offered, whether or not unused rules are left out, for every store and every
query. -/
theorem exists_converged_evaluate (prune : Bool) (calls : List RuleCall) (s : Store)
    (q : GoalQuery) :
    ∃ limit a, a.plan.converged = true ∧ ∀ n, limit ≤ n →
      ((empty ⟨n, prune⟩).performAll calls).evaluate s q = .ok a := by
  obtain ⟨limit, a, w, hconverged, heval⟩ :=
    exists_converged_evaluateIn prune calls s .empty q
  exact ⟨limit, a, hconverged, fun n hn => evaluate_eq_ok.2 ⟨w, heval n hn⟩⟩

/-! ## Paths

Two rules derive which node of a path reaches which, one of them from what was derived before. They
are accepted in every order, and every text of theirs and of a path is free of separators if the
names of the nodes are. -/

/-- A node reaches the one that comes next. -/
def stepRule : Rule :=
  ⟨⟨.derived "reach", [.var "x", .var "y"]⟩,
    [.literal ⟨.attr, [.var "x", .const (.text "next"), .var "y"]⟩]⟩

/-- A node reaches what the one that comes next reaches. -/
def chainRule : Rule :=
  ⟨⟨.derived "reach", [.var "x", .var "z"]⟩,
    [.literal ⟨.attr, [.var "x", .const (.text "next"), .var "y"]⟩,
      .literal ⟨.derived "reach", [.var "y", .var "z"]⟩]⟩

/-- Both rules in one text. -/
def reachText : String :=
  "reach(?x, ?y) :- attr(?x, next, ?y). reach(?x, ?z) :- attr(?x, next, ?y), reach(?y, ?z)."

/-- Asks which node reaches which. -/
def reachQuery : GoalQuery := ⟨[.literal ⟨.derived "reach", [.var "x", .var "y"]⟩], []⟩

/-- Asks which node comes next to which. -/
def nextQuery : GoalQuery := ⟨[.literal ⟨.attr, [.var "x", .const (.text "next"), .var "y"]⟩], []⟩

/-- Nodes that come one after the other. -/
def pathStore (nodes : List (String × String)) : Store :=
  (Store.empty .default).addFacts (nodes.map fun n => ⟨n.1, "next", .text n.2⟩)

/-- The rules are read from their text. -/
theorem parse_reachText : Rule.parseAll reachText = .ok [stepRule, chainRule] := rfl

/-- No fault is found with either rule, whichever of them are there. -/
theorem fault?_reach {existing : List Rule} (hexisting : existing ⊆ [stepRule, chainRule])
    {r : Rule} (hr : r ∈ [stepRule, chainRule]) : r.fault? existing = none := by
  have hlength : ∀ r' ∈ [stepRule, chainRule], r'.head.terms.length = 2 := by
    simp [stepRule, chainRule]
  refine Rule.fault?_eq_none ?_ (fun earlier hearlier _ => ?_) ?_
  · revert r
    simp [stepRule, chainRule, Rule.headName, Predicate.name]
  · rw [hlength earlier (hexisting hearlier), hlength r hr]
  · revert r
    simp [stepRule, chainRule, Goal.boundVariables, Predicate.isRelation]

/-- The rules have levels, in whatever order and whichever of them are there. -/
theorem exists_strata_reach {rules : List Rule} (hrules : rules ⊆ [stepRule, chainRule]) :
    ∃ levels, (DependencyGraph.ofRules rules).strata = .ok levels := by
  have hmem : ∀ r ∈ rules, r = stepRule ∨ r = chainRule := fun r hr => by simpa using hrules hr
  have hlevels : ∀ rules' : List Rule, (∀ r, r ∈ rules ↔ r ∈ rules') →
      (∃ levels, (DependencyGraph.ofRules rules').strata = .ok levels) →
      ∃ levels, (DependencyGraph.ofRules rules).strata = .ok levels :=
    fun _ h hstrata => by rwa [DependencyGraph.ofRules_congr h]
  by_cases hstep : stepRule ∈ rules <;> by_cases hchain : chainRule ∈ rules
  · exact hlevels [stepRule, chainRule] (by grind) ⟨_, DependencyGraph.strata_eq_ok rfl rfl⟩
  · exact hlevels [stepRule] (by grind) ⟨_, DependencyGraph.strata_eq_ok rfl rfl⟩
  · exact hlevels [chainRule] (by grind) ⟨_, DependencyGraph.strata_eq_ok rfl rfl⟩
  · exact hlevels [] (by grind) ⟨_, DependencyGraph.strata_eq_ok rfl rfl⟩

/-- The rules are accepted in every order, repeated or not. -/
theorem acceptedOf_reach {p : Program} {rs : List Rule} (hp : p.rules ⊆ [stepRule, chainRule])
    (hrs : rs ⊆ [stepRule, chainRule]) : p.acceptedOf rs = rs := by
  induction rs generalizing p with
  | nil => rfl
  | cons r rest ih =>
    obtain ⟨hr, hrest⟩ := List.cons_subset.1 hrs
    have hrules : p.rules ++ [r] ⊆ [stepRule, chainRule] :=
      List.append_subset.2 ⟨hp, List.cons_subset.2 ⟨hr, List.nil_subset _⟩⟩
    obtain ⟨levels, hstrata⟩ := exists_strata_reach hrules
    rw [acceptedOf, addRule_eq_ok (fault?_reach hp hr) hstrata]
    exact congrArg (r :: ·) (ih hrules hrest)

/-- After a call that offers them the rules are there in the order of the call. -/
theorem rules_performAll_reach (settings : Settings) {rs : List Rule}
    (hrs : rs ⊆ [stepRule, chainRule]) :
    ((empty settings).performAll [.several rs]).rules = rs := by
  rw [rules_performAll, accepted, accepted, offered, acceptedOf_reach (List.nil_subset _) hrs]
  simp [empty]

/-- No rule is rejected. -/
theorem addRules_reach (settings : Settings) {rs : List Rule}
    (hrs : rs ⊆ [stepRule, chainRule]) :
    (empty settings).addRules rs = ((empty settings).performAll [.several rs], none) := by
  have haccepted := addRules_acceptedOf (empty settings) rs
  rwa [acceptedOf_reach (List.nil_subset _) hrs] at haccepted

/-- The program is one of rules that were read. -/
theorem isParsed_reach (settings : Settings) {rs : List Rule}
    (hrs : rs ⊆ [stepRule, chainRule]) :
    ((empty settings).performAll [.several rs]).IsParsed :=
  isParsed_of_subset parse_reachText ((rules_performAll_reach settings hrs).symm ▸ hrs)

/-- No text of the rules is one with a separator. -/
theorem lacks_reach : ∀ c ∈ separators, ∀ r ∈ [stepRule, chainRule], r.head.Lacks c := by
  simp [stepRule, chainRule, Literal.Lacks]

/-- The facts of a path. -/
theorem toList_facts_pathStore (nodes : List (String × String)) :
    (pathStore nodes).facts.toList = nodes.map fun n => ⟨n.1, "next", .text n.2⟩ := by
  rw [pathStore, Store.toList_facts_addFacts]
  rfl

/-- A path has no links. -/
theorem toList_links_pathStore (nodes : List (String × String)) :
    (pathStore nodes).links.toList = [] := by
  rw [pathStore, Store.links_addFacts]
  rfl

/-- No text in a path holds a separator if no name of a node does. -/
theorem lacks_pathStore {nodes : List (String × String)}
    (hnodes : ∀ c ∈ separators, ∀ n ∈ nodes, c ∉ n.1.toList ∧ c ∉ n.2.toList) :
    ∀ c ∈ separators, (pathStore nodes).Lacks c := by
  intro c hc
  constructor
  · rw [toList_facts_pathStore]
    intro f hf
    obtain ⟨n, hn, rfl⟩ := List.mem_map.1 hf
    have hnext : ∀ c ∈ separators, c ∉ "next".toList := by simp [separators]
    intro a ha
    have ha : a = .text n.1 ∨ a = .text "next" ∨ a = .text n.2 := by simpa [Fact.toTuple] using ha
    rcases ha with rfl | rfl | rfl
    · exact (hnodes c hc n hn).1
    · exact hnext c hc
    · exact (hnodes c hc n hn).2
  · rw [toList_links_pathStore]
    simp

end Program

end Factbase
