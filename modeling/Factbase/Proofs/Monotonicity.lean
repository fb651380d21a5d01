import Factbase.Proofs.DistinctAnswers
import Factbase.Proofs.DistinctTuples
import Factbase.Proofs.StratifiedEvaluation

/-! # More facts, more answers

Without negation, whatever is derived from some facts is derived from more of them too. Two
saturations with the same rules are compared application by application: the working set of the
second covers that of the first (`WorkingSet.Below`), and each rule and each pass keeps it so
(`Rule.IsMonotone.apply`). The two may stop at different passes. Where the second stops first, its
rules add nothing any more, so what the first goes on to derive is there already; where the first
stops, the second only adds (`Saturation.below_ofLevel`). So whatever number of passes is allowed,
every answer over a store is one over each store that extends it
(`Program.within_evaluate_of_subset`). -/

namespace Factbase

/-- Every answer of one result is, up to canonical texts, among those of another. -/
def Answers.Within (a a' : Answers) : Prop := ∀ d ∈ a.bindings, ∃ d' ∈ a'.bindings, d.Same d'

namespace Goal

variable {I I' J J' : Interpretation} {b b' c : Binding}

/-- Nothing in a goal stands under a negation. -/
inductive IsPositive : Goal → Prop where
  | literal (l : Literal) : IsPositive (.literal l)
  | anyOf {branches : List (List Goal)} :
      (∀ branch ∈ branches, ∀ goal ∈ branch, IsPositive goal) → IsPositive (.anyOf branches)

/-- Solutions of a positive goal grow with the relations. -/
theorem IsPositive.yields_mono {goal : Goal} (hgoal : goal.IsPositive)
    (hI : ∀ name, Covers (I' name) (I name)) (hsame : b.Same c) (hb : Yields I J goal b b') :
    ∃ c', b'.Same c' ∧ Yields I' J' goal c c' := by
  induction goal generalizing b b' c with
  | literal l =>
    -- a literal does not look at the relations for negated goals
    have hplain : Yields I J' (.literal l) b b' := by
      rw [Yields] at hb ⊢
      exact hb
    exact Goal.yields_mono (readsWithin_all _) (fun name _ => hI name)
      (fun _ _ => ⟨.refl _, .refl _⟩) hsame hplain
  | not goal => cases hgoal
  | anyOf branches ih =>
    cases hgoal with
    | anyOf hbranches =>
      rw [Yields, yieldsAny_iff] at hb
      obtain ⟨branch, hbranch, hb⟩ := hb
      obtain ⟨c', hc, hc'⟩ := yieldsEach_of_yields (fun goal hmem b b' c hsame hb =>
        ih branch hbranch goal hmem (hbranches branch hbranch goal hmem) hsame hb) hsame hb
      refine ⟨c', hc, ?_⟩
      rw [Yields, yieldsAny_iff]
      exact ⟨branch, hbranch, hc'⟩

/-- Solutions of a conjunction of positive goals grow with the relations. -/
theorem yieldsEach_mono_of_isPositive {goals : List Goal} (hgoals : ∀ goal ∈ goals, goal.IsPositive)
    (hI : ∀ name, Covers (I' name) (I name)) (hb : YieldsEach I J goals b b') :
    ∃ c, b'.Same c ∧ YieldsEach I' J' goals b c :=
  yieldsEach_of_yields
    (fun goal hgoal _ _ _ hsame hb => (hgoals goal hgoal).yields_mono hI hsame hb) (.refl b) hb

end Goal

/-- Two working sets without separators of which the second covers the first. -/
structure WorkingSet.Below (w w' : WorkingSet) : Prop where
  lacks : ∀ c ∈ separators, w.Lacks c
  lacks' : ∀ c ∈ separators, w'.Lacks c
  covers : ∀ name, Covers (w'.interpretation name) (w.interpretation name)

/-- What makes a rule derive more from more: its goals are positive, its variables legible, and its
head holds no separator. -/
structure Rule.IsMonotone (r : Rule) : Prop where
  isPositive : ∀ goal ∈ r.body, goal.IsPositive
  isLegible : ∀ goal ∈ r.body, ∀ l, goal.Mentions l → l.IsLegible
  lacks : ∀ c ∈ separators, r.head.Lacks c

section Apply

open Deriving

variable {r : Rule} {w w' w₁ w₁' : WorkingSet} {n n' : Nat}

/-- A rule that is applied to the greater of two working sets leaves it the greater one. -/
theorem WorkingSet.Below.apply_right (h : w.Below w') (hlacks : ∀ c ∈ separators, r.head.Lacks c)
    (happly : outcome (r.apply w') = .ok (n, w₁')) : w.Below w₁' := by
  obtain ⟨tuples, hinsert, -, -⟩ := Rule.apply_ok happly
  refine ⟨h.lacks, fun c hc => Rule.lacks_apply (hlacks c hc) (h.lacks' c hc) happly, ?_⟩
  intro name
  refine (Covers.of_subset fun t ht => ?_).trans (h.covers name)
  have hkept : t ∈ (w'.insertEach r.headName tuples).2.tuples name :=
    WorkingSet.mem_tuples_insertEach_of_mem ht
  rwa [hinsert] at hkept

/-- A monotone rule that is applied to two working sets keeps one below the other. -/
theorem Rule.IsMonotone.apply (hr : r.IsMonotone) (h : w.Below w')
    (happly : outcome (r.apply w) = .ok (n, w₁)) (happly' : outcome (r.apply w') = .ok (n', w₁')) :
    w₁.Below w₁' := by
  have hright := h.apply_right hr.lacks happly'
  obtain ⟨tuples, hinsert, hfrom, -⟩ := apply_ok happly
  obtain ⟨tuples', hinsert', -, hto⟩ := apply_ok happly'
  refine ⟨fun c hc => lacks_apply (hr.lacks c hc) (h.lacks c hc) happly, hright.lacks', ?_⟩
  intro name t ht
  have hmem : t ∈ (w.insertEach r.headName tuples).2.tuples name := by
    rw [hinsert]
    exact ht
  rcases WorkingSet.mem_of_mem_tuples_insertEach hmem with hold | ⟨rfl, hnew⟩
  · exact hright.covers name t hold
  · -- the solution of the body is one over the greater working set, and its head tuple is inserted
    obtain ⟨b, hb, hhead⟩ := hfrom t hnew
    have hspec := fun {w : WorkingSet} (hw : w.Lacks (Char.ofNat 0x1E)) =>
      Goal.solutionsEach_spec hw hr.isLegible
        (fun goal hgoal _ hb => Goal.solutions_spec hw (hr.isLegible goal hgoal) hb)
        Binding.isLegible_empty
    obtain ⟨c, hbc, hc⟩ := Goal.yieldsEach_mono_of_isPositive hr.isPositive h.covers
      ((hspec (h.lacks _ (by decide))).1 b hb)
    obtain ⟨d, hd, hcd⟩ := (hspec (h.lacks' _ (by decide))).2 c hc
    obtain ⟨t', ht', hhead'⟩ := hto d hd
    obtain ⟨u, hu, htu⟩ := Program.exists_headTuple (hbc.trans hcd) hhead
    obtain rfl : u = t' := Option.some.inj (hu.symm.trans hhead')
    obtain ⟨t'', ht'', hkey⟩ := w'.exists_mem_tuples_insertEach r.headName ht'
    rw [hinsert'] at ht''
    have hlacks : Tuple.Lacks (Char.ofNat 0x1F) u :=
      lacks_headTuple (hr.lacks _ (by decide)) (h.lacks' _ (by decide)) hd hhead'
    exact ⟨t'', ht'',
      htu.trans (canonical_of_tupleKey_eq (hright.lacks' _ (by decide) _ _ ht'') hlacks hkey).symm⟩

end Apply

namespace Saturation

open Deriving

variable {rules : List Rule} {w w' w₁ w₁' : WorkingSet} {n n' : Nat}

/-- A pass over monotone rules keeps one working set below another. -/
theorem below_pass (hrules : ∀ r ∈ rules, r.IsMonotone) (h : w.Below w')
    (hpass : outcome (pass rules w) = .ok (n, w₁))
    (hpass' : outcome (pass rules w') = .ok (n', w₁')) : w₁.Below w₁' := by
  induction rules generalizing w w' n n' with
  | nil =>
    obtain ⟨-, rfl⟩ : 0 = n ∧ w = w₁ := by simpa [pass] using hpass
    obtain ⟨-, rfl⟩ : 0 = n' ∧ w' = w₁' := by simpa [pass] using hpass'
    exact h
  | cons r rest ih =>
    rw [List.forall_mem_cons] at hrules
    obtain ⟨first, w₂, others, hfirst, hothers, -⟩ := outcome_pass_cons.1 hpass
    obtain ⟨first', w₂', others', hfirst', hothers', -⟩ := outcome_pass_cons.1 hpass'
    exact ih hrules.2 (hrules.1.apply h hfirst hfirst') hothers hothers'

/-- As many passes over monotone rules are allowed from two working sets, one below the other. Then
one stays below the other, whichever stops first. -/
theorem below_ofLevel (hrules : ∀ r ∈ rules, r.IsMonotone) (h : w.Below w') {s t : Saturation}
    (hlevel : outcome (ofLevel rules n w) = .ok s)
    (hlevel' : outcome (ofLevel rules n w') = .ok t) : s.result.Below t.result := by
  induction n generalizing w w' s t with
  | zero =>
    obtain rfl : _ = s := by simpa [ofLevel] using hlevel
    obtain rfl : _ = t := by simpa [ofLevel] using hlevel'
    exact h
  | succ n ih =>
    obtain ⟨added, w₁, hpass, hcases⟩ := outcome_ofLevel_succ.1 hlevel
    obtain ⟨added', w₁', hpass', hcases'⟩ := outcome_ofLevel_succ.1 hlevel'
    have hbelow := below_pass hrules h hpass hpass'
    rcases hcases with ⟨-, rfl⟩ | ⟨-, rest, hrest, rfl⟩
    · rcases hcases' with ⟨-, rfl⟩ | ⟨-, rest', hrest', rfl⟩
      · exact hbelow
      · -- the second goes on and only adds
        exact preserved_ofLevel (P := fun w' => w₁.Below w') (s := rest')
          (fun r hr _ _ _ hw happly => hw.apply_right (hrules r hr).lacks happly) hbelow hrest'
    · rcases hcases' with ⟨rfl, rfl⟩ | ⟨-, rest', hrest', rfl⟩
      · -- the second has stopped, so that applying a rule to it changes nothing
        obtain ⟨rfl, hnone⟩ := apply_of_pass_zero hpass'
        exact preserved_ofLevel (P := fun w => w.Below w₁') (s := rest)
          (fun r hr _ _ _ hw happly => (hrules r hr).apply hw happly (hnone r hr)) hbelow hrest
      · exact ih (s := rest) (t := rest') hbelow hrest hrest'

/-- Saturating level after level with monotone rules keeps one working set below another. -/
theorem below_ofLevels {levels : List (List Rule)}
    (hrules : ∀ rules ∈ levels, ∀ r ∈ rules, r.IsMonotone) (h : w.Below w') {s t : Saturation}
    (hlevels : outcome (ofLevels n levels w) = .ok s)
    (hlevels' : outcome (ofLevels n levels w') = .ok t) : s.result.Below t.result := by
  induction levels generalizing w w' s t with
  | nil =>
    obtain rfl : _ = s := by simpa [ofLevels] using hlevels
    obtain rfl : _ = t := by simpa [ofLevels] using hlevels'
    exact h
  | cons rules rest ih =>
    rw [List.forall_mem_cons] at hrules
    obtain ⟨first, others, hfirst, hothers, rfl⟩ := outcome_ofLevels_cons.1 hlevels
    obtain ⟨first', others', hfirst', hothers', rfl⟩ := outcome_ofLevels_cons.1 hlevels'
    exact ih (s := others) (t := others') hrules.2 (below_ofLevel hrules.1 h hfirst hfirst')
      hothers hothers'

end Saturation

section Seed

variable {s s' : Store} {w w' : WorkingSet}

/-- Seeding from a store and from one with more facts and links gives working sets one below the
other. -/
theorem WorkingSet.below_seed (hfacts : s.facts.toList ⊆ s'.facts.toList)
    (hlinks : s.links.toList ⊆ s'.links.toList) (hs : ∀ c ∈ separators, s'.Lacks c) :
    (w.seed s).Below (w'.seed s') := by
  refine ⟨fun c hc => lacks_seed ⟨?_, ?_⟩, fun c hc => lacks_seed (hs c hc), ?_⟩
  · exact fun f hf => (hs c hc).facts f (hfacts hf)
  · exact fun l hl => (hs c hc).links l (hlinks hl)
  · intro name t ht
    rcases mem_of_mem_tuples_seed ht with ⟨rfl, f, hf, rfl⟩ | ⟨rfl, l, hl, rfl⟩
    · obtain ⟨t, ht, halike⟩ := Relation.exists_alike_seed_fact (hs _ (by decide)) w' (hfacts hf)
      exact ⟨t, ht, halike.symm⟩
    · obtain ⟨t, ht, halike⟩ := Relation.exists_alike_seed_link (hs _ (by decide)) w' (hlinks hl)
      exact ⟨t, ht, halike.symm⟩

end Seed

namespace Program

variable {p p' : Program} {s s' : Store} {w w' w₁ w₁' : WorkingSet} {q : GoalQuery} {a a' : Answers}

/-- The answers of one evaluation are among those of another, to a query with the same variables, if
the goals of that yield, up to canonical texts, the same bindings over the working set which it
leaves. -/
theorem within_of_yieldsEach_of_answer_eq {q' : GoalQuery} (hanswer : q.answer = q'.answer)
    (heval : p.evaluateIn s w q = .ok (a, w₁)) (heval' : p'.evaluateIn s' w' q' = .ok (a', w₁'))
    (hw : w₁.Lacks (Char.ofNat 0x1E)) (hw' : w₁'.Lacks (Char.ofNat 0x1E))
    (hgoals : ∀ goal ∈ q.goals, ∀ l, goal.Mentions l → l.IsLegible)
    (hgoals' : ∀ goal ∈ q'.goals, ∀ l, goal.Mentions l → l.IsLegible)
    (hyields : ∀ c, Goal.YieldsEach w₁.interpretation w₁.interpretation q.goals .empty c →
      ∃ c', c.Same c' ∧ Goal.YieldsEach w₁'.interpretation w₁'.interpretation q'.goals .empty c') :
    a.Within a' := by
  intro d hd
  rw [bindings_evaluateIn heval] at hd
  obtain ⟨c, hc, rfl⟩ := List.mem_map.1 (mem_of_mem_distinctBy hd)
  have hyielded := (Goal.solutionsEach_spec hw hgoals
    (fun goal hgoal b hb => Goal.solutions_spec hw (hgoals goal hgoal) hb)
    Binding.isLegible_empty).1 c hc
  obtain ⟨c', hcc', hc'⟩ := hyields c hyielded
  obtain ⟨d', hd', hsame⟩ := exists_same_of_yieldsEach heval' hw' hgoals' hc'
  rw [hanswer]
  exact ⟨d', hd', (hcc'.answer q'.answer).trans hsame.symm⟩

/-- The answers of one evaluation are among those of another if the goals yield, up to canonical
texts, the same bindings over the working set that the other one leaves. -/
theorem within_of_yieldsEach (heval : p.evaluateIn s w q = .ok (a, w₁))
    (heval' : p'.evaluateIn s' w' q = .ok (a', w₁')) (hw : w₁.Lacks (Char.ofNat 0x1E))
    (hw' : w₁'.Lacks (Char.ofNat 0x1E))
    (hgoals : ∀ goal ∈ q.goals, ∀ l, goal.Mentions l → l.IsLegible)
    (hyields : ∀ c, Goal.YieldsEach w₁.interpretation w₁.interpretation q.goals .empty c →
      ∃ c', c.Same c' ∧ Goal.YieldsEach w₁'.interpretation w₁'.interpretation q.goals .empty c') :
    a.Within a' :=
  within_of_yieldsEach_of_answer_eq rfl heval heval' hw hw' hgoals hgoals hyields

/-- Evaluating with the same monotone rules over a store and over one with more facts and links
leaves working sets one below the other. -/
theorem below_evaluateIn_of_rulesFor_eq {q' : GoalQuery} (hq : p.rulesFor q = p.rulesFor q')
    (hrules : ∀ r ∈ p.rules, r.IsMonotone) (hfacts : s.facts.toList ⊆ s'.facts.toList)
    (hlinks : s.links.toList ⊆ s'.links.toList) (hs : ∀ c ∈ separators, s'.Lacks c)
    (heval : p.evaluateIn s w q = .ok (a, w₁)) (heval' : p.evaluateIn s' w' q' = .ok (a', w₁')) :
    w₁.Below w₁' := by
  obtain ⟨t, hlevels, rfl, -⟩ := evaluateIn_eq_ok.1 heval
  obtain ⟨t', hlevels', rfl, -⟩ := evaluateIn_eq_ok.1 heval'
  rw [← hq] at hlevels'
  refine Saturation.below_ofLevels ?_ (WorkingSet.below_seed hfacts hlinks hs) hlevels hlevels'
  exact fun level hlevel r hr => hrules r (mem_of_mem_rulesFor (mem_of_mem_levels hlevel hr))

/-- Evaluating with monotone rules over a store and over one with more facts and links leaves
working sets one below the other. -/
theorem below_evaluateIn (hrules : ∀ r ∈ p.rules, r.IsMonotone)
    (hfacts : s.facts.toList ⊆ s'.facts.toList) (hlinks : s.links.toList ⊆ s'.links.toList)
    (hs : ∀ c ∈ separators, s'.Lacks c) (heval : p.evaluateIn s w q = .ok (a, w₁))
    (heval' : p.evaluateIn s' w' q = .ok (a', w₁')) : w₁.Below w₁' :=
  below_evaluateIn_of_rulesFor_eq rfl hrules hfacts hlinks hs heval heval'

end Program

end Factbase
