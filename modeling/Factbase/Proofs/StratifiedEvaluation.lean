import Factbase.Proofs.BaseRelations
import Factbase.Proofs.Convergence
import Factbase.Proofs.Legibility
import Factbase.Proofs.Registration
import Factbase.Proofs.RequiredRelations
import Factbase.Proofs.RuleText
import Factbase.Proofs.StratifiedModel

/-! # Evaluation reaches the stratified model

An evaluation that converges leaves in its working set, for every relation that the query depends
on, the tuples of the stratified model, up to canonical texts. Level after level the working set
agrees with the model on the relations whose rules are evaluated (`Program.Agrees`): what the rules
of the level add belongs to the model, because negated relations are finished, and since they add
nothing in the end, the relations are closed and contain the model. -/

namespace Factbase

/-- The tuples that a working set covers in some relations, and all tuples in the others. -/
def WorkingSet.coveredOn (w : WorkingSet) (names : String → Prop) : Interpretation := fun name =>
  {t | names name → ∃ t' ∈ w.interpretation name, t.map Atom.canonical = t'.map Atom.canonical}

theorem WorkingSet.covers_coveredOn {w : WorkingSet} {names : String → Prop} {name : String}
    (hname : names name) : Covers (w.interpretation name) (w.coveredOn names name) :=
  fun _ ht => ht hname

namespace Program

/-- A derived relation that the goals of a query mention, or the rules of one that it needs. -/
inductive Needs (p : Program) (q : GoalQuery) : String → Prop where
  | mentioned {name : String} : name ∈ q.derivedNames → Needs p q name
  | through {r : Rule} {e : Reference} : r ∈ p.rules → Needs p q r.headName →
      e ∈ r.references → Needs p q e.name

/-- All rules of a relation are evaluated for a query. -/
def IsLive (p : Program) (q : GoalQuery) (name : String) : Prop :=
  ∀ r ∈ p.rules, r.headName = name → r ∈ p.rulesFor q

section Live

variable {p : Program} {q : GoalQuery} {r : Rule} {name : String}

/-- With a rule the rules of the relations that it mentions are evaluated. -/
theorem isLive_reference (h : r ∈ p.rulesFor q) {e : Reference} (he : e ∈ r.references) :
    p.IsLive q e.name := by
  intro r' hr' hname
  unfold rulesFor at h ⊢
  split at h
  · next hprune =>
    rw [if_pos hprune]
    split at h
    · simp at h
    · rw [List.mem_filter, List.contains_iff_mem] at h ⊢
      refine ⟨hr', hname ▸ ?_⟩
      exact DependencyGraph.required_closed _ _ h.2 e
        (DependencyGraph.mem_edges_ofRules.2 ⟨r, h.1, rfl, he⟩)
  · next hprune =>
    rw [if_neg hprune]
    exact hr'

/-- The rules of every needed relation are evaluated. -/
theorem Needs.isLive (h : p.Needs q name) : p.IsLive q name := by
  induction h with
  | mentioned hname =>
    intro r' hr' heq
    unfold rulesFor
    split
    · split
      · next hnil => rw [hnil] at hname; simp at hname
      · rw [List.mem_filter, List.contains_iff_mem]
        exact ⟨hr', heq ▸ DependencyGraph.subset_required _ hname⟩
    · exact hr'
  | through hr _ he ih => exact isLive_reference (ih _ hr rfl) he

end Live

/-- What evaluation needs of a program: its rules derive into no base relation, from relations on
their level or below, from negated ones below it, with variables and constants that separate in
keys. -/
structure IsRegular (p : Program) : Prop where
  isDerived : ∀ r ∈ p.rules, WorkingSet.isBase r.headName = false
  isLeveled : ∀ r ∈ p.rules, ∀ e ∈ r.references,
    p.strata.level e.name + e.negated.toNat ≤ p.strata.level r.headName
  isLegible : ∀ r ∈ p.rules, ∀ goal ∈ r.body, ∀ l, goal.Mentions l → l.IsLegible
  lacks : ∀ c ∈ separators, ∀ r ∈ p.rules, r.head.Lacks c

/-- A relation that is finished below a level: a base relation, or one of the lower relations whose
rules are evaluated. -/
def IsFinished (p : Program) (q : GoalQuery) (n : Nat) (name : String) : Prop :=
  WorkingSet.isBase name = true ∨ p.IsLive q name ∧ p.strata.level name < n

/-- A working set agrees with the model below a level: it holds tuples of the model only, and all of
them in the relations that are finished. -/
structure Agrees (p : Program) (s : Store) (q : GoalQuery) (n : Nat) (w : WorkingSet) : Prop where
  lacks : ∀ c ∈ separators, w.Lacks c
  sound : ∀ name, Covers (p.modelBelow s n name) (w.interpretation name)
  complete : ∀ name, p.IsFinished q n name →
    Covers (w.interpretation name) (p.modelBelow s n name)

/-- While the rules of a level are applied, the working set holds tuples of the model with that
level only, and the base relations and those below stay as they were. -/
structure Climbs (p : Program) (s : Store) (n : Nat) (w w' : WorkingSet) : Prop where
  lacks : ∀ c ∈ separators, w'.Lacks c
  sound : ∀ name, Covers (p.modelBelow s (n + 1) name) (w'.interpretation name)
  frame : ∀ name, WorkingSet.isBase name = true ∨ p.strata.level name < n →
    w'.tuples name = w.tuples name

section Step

variable {p : Program} {s : Store} {q : GoalQuery} {n : Nat} {w w' w'' : WorkingSet} {r : Rule}

/-- Before any rule of a level is applied. -/
theorem Agrees.climbs (h : p.Agrees s q n w) : p.Climbs s n w w :=
  ⟨h.lacks, fun name => (Covers.of_subset (modelBelow_le_succ n name)).trans (h.sound name),
    fun _ _ => rfl⟩

/-- On finished relations the working set and the model agree while a level is applied. -/
theorem Climbs.covers_of_finished (hw' : p.Climbs s n w w') (hw : p.Agrees s q n w) {name : String}
    (hname : p.IsFinished q n name) :
    Covers (p.modelBelow s n name) (w'.interpretation name) ∧
      Covers (w'.interpretation name) (p.modelBelow s n name) := by
  have hsame : w'.interpretation name = w.interpretation name := by
    unfold WorkingSet.interpretation
    rw [hw'.frame name (hname.imp_right And.right)]
  rw [hsame]
  exact ⟨hw.sound name, hw.complete name hname⟩

/-- The goals of an evaluated rule read plainly what is live on its level or below, and under a
negation what is live below it. -/
theorem IsRegular.readsWithin (hp : p.IsRegular) (hr : r ∈ p.rulesFor q)
    (hlevel : p.strata.level r.headName = n) {goal : Goal} (hgoal : goal ∈ r.body) :
    goal.ReadsWithin (p.IsFinished q (n + 1)) (p.IsFinished q n) := by
  refine ⟨fun e he => ?_, fun name hname => ⟨.inl hname, .inl hname⟩⟩
  have hreference : e ∈ r.references := Goal.mem_referencesInEach.2 ⟨goal, hgoal, he⟩
  have hlive := isLive_reference hr hreference
  have hle := hp.isLeveled r (mem_of_mem_rulesFor hr) e hreference
  rw [hlevel] at hle
  constructor
  · exact fun _ => .inr ⟨hlive, by omega⟩
  · intro hnegated
    rw [hnegated, Bool.toNat_true] at hle
    exact .inr ⟨hlive, by omega⟩

/-- The solutions of a body are what the body yields over the relations of the working set. -/
theorem IsRegular.solutionsEach_spec (hp : p.IsRegular) (hr : r ∈ p.rules)
    (hw : ∀ c ∈ separators, w.Lacks c) :
    (∀ b ∈ Goal.solutionsEach w r.body [.empty],
        Goal.YieldsEach w.interpretation w.interpretation r.body .empty b) ∧
      ∀ c, Goal.YieldsEach w.interpretation w.interpretation r.body .empty c →
        ∃ d ∈ Goal.solutionsEach w r.body [.empty], c.Same d := by
  have hrecord : w.Lacks (Char.ofNat 0x1E) := hw _ (by decide)
  exact Goal.solutionsEach_spec hrecord (hp.isLegible r hr)
    (fun goal hgoal b hb => Goal.solutions_spec hrecord (hp.isLegible r hr goal hgoal) hb)
    Binding.isLegible_empty

/-- Bindings that are the same give head tuples with the same canonical texts. -/
theorem exists_headTuple {b c : Binding} (h : b.Same c) {terms : List Term} {t : Tuple}
    (ht : terms.mapM b.resolve = some t) :
    ∃ t', terms.mapM c.resolve = some t' ∧ t.map Atom.canonical = t'.map Atom.canonical := by
  have hvalues := h.mapM_resolve terms
  rw [ht, Option.map_some, eq_comm, Option.map_eq_some_iff] at hvalues
  obtain ⟨t', ht', heq⟩ := hvalues
  exact ⟨t', ht', heq.symm⟩

/-- An application of a rule of the level adds tuples of the model. -/
theorem Climbs.apply (hp : p.IsRegular) (hw : p.Agrees s q n w) (hr : r ∈ p.rulesFor q)
    (hlevel : p.strata.level r.headName = n) (hw' : p.Climbs s n w w') {added : Nat}
    (happly : Deriving.outcome (r.apply w') = .ok (added, w'')) : p.Climbs s n w w'' := by
  have hrule := mem_of_mem_rulesFor hr
  obtain ⟨tuples, hinsert, hfrom, -⟩ := Rule.apply_ok happly
  have hold : ∀ name, ∀ t ∈ w''.tuples name,
      t ∈ w'.tuples name ∨ name = r.headName ∧ t ∈ tuples := by
    intro name t ht
    have hmem : t ∈ (w'.insertEach r.headName tuples).2.tuples name := by
      rw [hinsert]
      exact ht
    exact WorkingSet.mem_of_mem_tuples_insertEach hmem
  constructor
  · intro c hc
    exact Rule.lacks_apply (hp.lacks c hc r hrule) (hw'.lacks c hc) happly
  · intro name t ht
    rcases hold name t ht with hkept | ⟨rfl, hadded⟩
    · exact hw'.sound name t hkept
    · obtain ⟨b, hb, hhead⟩ := hfrom t hadded
      -- the solution is one in the model, up to canonical texts
      have hyields := (hp.solutionsEach_spec hrule hw'.lacks).1 b hb
      obtain ⟨c, hbc, hc⟩ : ∃ c, b.Same c ∧
          Goal.YieldsEach (p.modelBelow s (n + 1)) (p.modelBelow s n) r.body .empty c :=
        Goal.yieldsEach_of_yields (fun goal hgoal b b' c hsame hb =>
          Goal.yields_mono (hp.readsWithin hr hlevel hgoal) (fun name _ => hw'.sound name)
            (fun name hname => hw'.covers_of_finished hw hname) hsame hb) (.refl .empty) hyields
      obtain ⟨t', ht', hcanonical⟩ := exists_headTuple hbc hhead
      refine ⟨t', ?_, hcanonical⟩
      have hmem : r ∈ p.levelRules n := List.mem_filter.2 ⟨hrule, by simp [hlevel]⟩
      exact isClosedUnder_levelModel r hmem c t' hc ht'
  · intro name hname
    rw [Rule.tuples_apply_of_ne happly, hw'.frame name hname]
    -- the head is no base relation and not below its own level
    rintro rfl
    rcases hname with hname | hname
    · rw [hp.isDerived r hrule] at hname
      simp at hname
    · omega

/-- The store has no tuples in relations other than the base relations. -/
theorem interpretation_of_not_isBase {name : String} (h : WorkingSet.isBase name = false) :
    s.interpretation name = ∅ := by
  simp only [WorkingSet.isBase, Bool.or_eq_false_iff, beq_eq_false_iff_ne] at h
  simp [Store.interpretation, h.1, h.2]

/-- A relation that is not finished below a level is a base relation or empty there. -/
theorem modelBelow_eq_empty {name : String} (hbase : ¬ WorkingSet.isBase name = true)
    (hlevel : n ≤ p.strata.level name) : p.modelBelow s n name = ∅ := by
  rw [modelBelow_of_le hlevel, interpretation_of_not_isBase (by simpa using hbase)]

/-- What the working set covers contains the model below the level. -/
theorem Climbs.modelBelow_le (hw : p.Agrees s q n w) (hw' : p.Climbs s n w w') :
    p.modelBelow s n ≤ w'.coveredOn (p.IsFinished q (n + 1)) := by
  rintro name t ht hname
  by_cases hfinished : p.IsFinished q n name
  · exact (hw'.covers_of_finished hw hfinished).2 t ht
  · -- a relation on the level itself is still empty in the model
    have hbase : ¬ WorkingSet.isBase name = true := fun h => hfinished (.inl h)
    obtain ⟨hlive, -⟩ := hname.resolve_left hbase
    have hlevel : n ≤ p.strata.level name :=
      Nat.le_of_not_lt fun hlt => hfinished (.inr ⟨hlive, hlt⟩)
    rw [modelBelow_eq_empty hbase hlevel] at ht
    exact absurd ht (Set.notMem_empty t)

/-- Where the rules of a level add nothing any more, what the working set covers is closed under
them. -/
theorem Climbs.isClosedUnder (hp : p.IsRegular) (hw : p.Agrees s q n w)
    (hw' : p.Climbs s n w w') (hclosed : ∀ r ∈ p.rulesFor q, p.strata.level r.headName = n →
      Deriving.outcome (r.apply w') = .ok (0, w')) :
    IsClosedUnder (p.levelRules n) (p.modelBelow s n) (w'.coveredOn (p.IsFinished q (n + 1))) := by
  intro r hr b t hb ht hname
  obtain ⟨hrule, hlevel⟩ := List.mem_filter.1 hr
  replace hlevel : p.strata.level r.headName = n := by simpa using hlevel
  have hlive : p.IsLive q r.headName := by
    rcases hname with hname | hname
    · rw [hp.isDerived r hrule] at hname
      simp at hname
    · exact hname.1
  have hr := hlive r hrule rfl
  obtain ⟨c, hbc, hc⟩ : ∃ c, b.Same c ∧
      Goal.YieldsEach w'.interpretation w'.interpretation r.body .empty c :=
    Goal.yieldsEach_of_yields (fun goal hgoal b b' c hsame hb =>
      Goal.yields_mono (hp.readsWithin hr hlevel hgoal)
        (fun name hname => WorkingSet.covers_coveredOn hname)
        (fun name hname => (hw'.covers_of_finished hw hname).symm) hsame hb) (.refl .empty) hb
  -- the solution is found, and its head tuple is there
  obtain ⟨d, hd, hcd⟩ := (hp.solutionsEach_spec hrule hw'.lacks).2 c hc
  obtain ⟨tuples, hinsert, -, hto⟩ := Rule.apply_ok (hclosed r hr hlevel)
  obtain ⟨t', ht', hhead⟩ := hto d hd
  obtain ⟨t'', ht'', hkey⟩ := w'.exists_mem_tuples_insertEach r.headName ht'
  rw [hinsert] at ht''
  obtain ⟨u, hu, htu⟩ := exists_headTuple (hbc.trans hcd) ht
  obtain rfl : u = t' := Option.some.inj (hu.symm.trans hhead)
  -- one with its key is there, and that has the same canonical texts
  refine ⟨t'', ht'', htu.trans (canonical_of_tupleKey_eq ?_ ?_ hkey).symm⟩
  · exact hw'.lacks _ (by decide) _ _ ht''
  · exact Rule.lacks_headTuple (hp.lacks _ (by decide) r hrule) (hw'.lacks _ (by decide)) hd hhead

/-- Where the rules of a level add nothing any more, the working set has all tuples of the model on
that level. -/
theorem Climbs.agrees (hp : p.IsRegular) (hw : p.Agrees s q n w) (hw' : p.Climbs s n w w')
    (hclosed : ∀ r ∈ p.rulesFor q, p.strata.level r.headName = n →
      Deriving.outcome (r.apply w') = .ok (0, w')) : p.Agrees s q (n + 1) w' := by
  refine ⟨hw'.lacks, hw'.sound, fun name hname t ht => ?_⟩
  -- the model is the least that is closed
  exact levelModel_le (hw'.modelBelow_le hw) (hw'.isClosedUnder hp hw hclosed) name ht hname

/-- A level without evaluated rules is skipped. -/
theorem Agrees.skip (hp : p.IsRegular) (hw : p.Agrees s q n w)
    (hnone : ∀ r ∈ p.rulesFor q, p.strata.level r.headName ≠ n) : p.Agrees s q (n + 1) w :=
  hw.climbs.agrees hp hw fun r hr hlevel => absurd hlevel (hnone r hr)

/-- Levels without evaluated rules are skipped. -/
theorem Agrees.skip_to (hp : p.IsRegular) {m : Nat} (hw : p.Agrees s q n w) (hle : n ≤ m)
    (hnone : ∀ r ∈ p.rulesFor q, p.strata.level r.headName < n ∨ m ≤ p.strata.level r.headName) :
    p.Agrees s q m w := by
  induction m, hle using Nat.le_induction with
  | base => exact hw
  | succ m hle ih =>
    refine (ih fun r hr => ?_).skip hp fun r hr heq => ?_
    · rcases hnone r hr with h | h
      · exact .inl h
      · exact .inr (by omega)
    · rcases hnone r hr with h | h <;> omega

/-- A level that converges makes the working set agree with the model on that level too. -/
theorem Agrees.ofLevel (hp : p.IsRegular) (hw : p.Agrees s q n w) {m : Nat} {t : Saturation}
    (h : Deriving.outcome (Saturation.ofLevel
      ((p.rulesFor q).filter fun r => p.strata.level r.headName = n) m w) = .ok t)
    (hconverged : t.converged = true) : p.Agrees s q (n + 1) t.result := by
  have hclimbs : p.Climbs s n w t.result := by
    refine Saturation.preserved_ofLevel (P := p.Climbs s n w) ?_ hw.climbs h
    intro r hr w₁ added w₂ hw₁ happly
    obtain ⟨hr, hlevel⟩ := List.mem_filter.1 hr
    exact hw₁.apply hp hw hr (by simpa using hlevel) happly
  refine hclimbs.agrees hp hw fun r hr hlevel => ?_
  exact Saturation.apply_of_converged h hconverged r (List.mem_filter.2 ⟨hr, by simp [hlevel]⟩)

/-- Levels that converge make the working set agree with the model on all levels from some on. -/
theorem Agrees.ofLevels (hp : p.IsRegular) (hw : p.Agrees s q n w) {levels : List Nat}
    (hsorted : levels.Pairwise (· < ·)) (hlow : ∀ l ∈ levels, n ≤ l)
    (hall : ∀ r ∈ p.rulesFor q, p.strata.level r.headName < n ∨ p.strata.level r.headName ∈ levels)
    {m : Nat} {t : Saturation}
    (h : Deriving.outcome (Saturation.ofLevels m (levels.map fun l =>
      (p.rulesFor q).filter fun r => p.strata.level r.headName = l) w) = .ok t)
    (hconverged : t.converged = true) :
    ∃ top, ∀ k, top ≤ k → p.Agrees s q k t.result := by
  induction levels generalizing n w t with
  | nil =>
    obtain rfl : _ = t := by simpa [Saturation.ofLevels] using h
    refine ⟨n, fun k hk => hw.skip_to hp hk fun r hr => ?_⟩
    exact (hall r hr).imp_right fun h => absurd h List.not_mem_nil
  | cons l rest ih =>
    obtain ⟨hfirst, hsorted⟩ := List.pairwise_cons.1 hsorted
    obtain ⟨first, others, hl, hrest, rfl⟩ := Saturation.outcome_ofLevels_cons.1 h
    obtain ⟨hconverged, hconverged'⟩ := Bool.and_eq_true_iff.1 hconverged
    -- no rule is evaluated on the levels before the first of the list
    have hskip := hw.skip_to hp (hlow l List.mem_cons_self) fun r hr => by
      rcases hall r hr with h | h
      · exact .inl h
      · rcases List.mem_cons.1 h with h | h
        · exact .inr (Nat.le_of_eq h.symm)
        · exact .inr (Nat.le_of_lt (hfirst _ h))
    refine ih (t := others) (hskip.ofLevel hp hl hconverged) hsorted (fun l' hl' => hfirst l' hl')
      ?_ hrest hconverged'
    intro r hr
    rcases hall r hr with h | h
    · have hle := hlow l List.mem_cons_self
      exact .inl (by omega)
    · rcases List.mem_cons.1 h with h | h
      · exact .inl (by omega)
      · exact .inr h

/-- A seeded working set agrees with the model below all levels. -/
theorem agrees_seed (hs : ∀ c ∈ separators, s.Lacks c) : p.Agrees s q 0 (w.seed s) := by
  have hlacks : ∀ c ∈ separators, (w.seed s).Lacks c := fun c hc => WorkingSet.lacks_seed (hs c hc)
  have hunit : Char.ofNat 0x1F ∈ separators := by decide
  refine ⟨hlacks, fun name => Covers.of_subset fun t ht => WorkingSet.mem_of_mem_tuples_seed ht, ?_⟩
  rintro name - t (⟨rfl, f, hf, rfl⟩ | ⟨rfl, l, hl, rfl⟩)
  · obtain ⟨t, ht, hkey⟩ := WorkingSet.exists_mem_tuples_seed_fact (w := w) hf
    exact ⟨t, ht, (canonical_of_tupleKey_eq (hlacks _ hunit _ t ht)
      ((hs _ hunit).facts f hf) hkey).symm⟩
  · obtain ⟨t, ht, hkey⟩ := WorkingSet.exists_mem_tuples_seed_link (w := w) hl
    exact ⟨t, ht, (canonical_of_tupleKey_eq (hlacks _ hunit _ t ht)
      ((hs _ hunit).links l hl) hkey).symm⟩

/-- An evaluation that converges leaves the tuples of the model in every relation whose rules are
evaluated. -/
theorem IsRegular.covers_evaluateIn (hp : p.IsRegular) (hs : ∀ c ∈ separators, s.Lacks c)
    {a : Answers} (heval : p.evaluateIn s w q = .ok (a, w')) (hconverged : a.plan.converged = true)
    {name : String} (hname : p.IsLive q name) :
    Covers (p.model s name) (w'.interpretation name) ∧
      Covers (w'.interpretation name) (p.model s name) := by
  obtain ⟨t, hlevels, rfl, rfl⟩ := evaluateIn_eq_ok.1 heval
  have hsorted : (orderedSet compare ((p.rulesFor q).map
      fun r => p.strata.level r.headName)).Pairwise (· < ·) :=
    pairwise_orderedSet.imp fun h => Nat.compare_eq_lt.1 h
  obtain ⟨top, htop⟩ := (agrees_seed hs).ofLevels hp hsorted (fun _ _ => Nat.zero_le _)
    (fun r hr => .inr (mem_orderedSet.2 (List.mem_map.2 ⟨r, hr, rfl⟩))) hlevels hconverged
  -- above its level the relation is finished
  have hagrees := htop (max top (p.strata.level name + 1)) (Nat.le_max_left _ _)
  have hlevel : p.strata.level name < max top (p.strata.level name + 1) := by omega
  rw [← modelBelow_of_lt hlevel]
  exact ⟨hagrees.sound name, hagrees.complete name (.inr ⟨hname, hlevel⟩)⟩

/-- A valid program is regular if its rules were read from texts and their heads hold no
separator. -/
theorem IsValid.isRegular (hp : p.IsValid) (hparsed : p.IsParsed)
    (hlacks : ∀ c ∈ separators, ∀ r ∈ p.rules, r.head.Lacks c) : p.IsRegular :=
  ⟨hp.isBase_of_isParsed hparsed, fun _ hr _ he => hp.level_add_le hr he,
    fun r hr goal hgoal l hl => ((hparsed.isReadable r hr).body goal hgoal l hl).isLegible, hlacks⟩

/-- A program of rules that were read is regular. -/
theorem isRegular_of_parseAll {settings : Settings} {text : String} {rules : List Rule}
    (hparse : Rule.parseAll text = .ok rules) (hadd : (empty settings).addRules rules = (p, none))
    (hlacks : ∀ c ∈ separators, ∀ r ∈ rules, r.head.Lacks c) : p.IsRegular := by
  have hvalid : p.IsValid := by
    have hvalid := (isValid_empty settings).addRules rules
    rwa [hadd] at hvalid
  have hrules : p.rules = rules := by
    have hrules := rules_addRules (empty settings) rules
    rw [acceptedOf_eq_self hadd, hadd] at hrules
    simpa [empty] using hrules
  rw [← hrules] at hparse hlacks
  exact hvalid.isRegular (isParsed_of_subset hparse (List.Subset.refl _)) hlacks

/-- Two nodes, one after the other, are a solution for what comes next. -/
theorem yields_next {I : Interpretation} (J : Interpretation) {nodes : List (String × String)}
    {a b : String} (hI : (pathStore nodes).interpretation ≤ I) (h : (a, b) ∈ nodes) :
    Goal.Yields I J (.literal ⟨.attr, [.var "x", .const (.text "next"), .var "y"]⟩) .empty
      ((Binding.empty.insert "x" (.text a)).insert "y" (.text b)) := by
  have hfact : [.text a, .text "next", .text b] ∈
      (pathStore nodes).interpretation attrRelation := by
    refine .inl ⟨rfl, ⟨a, "next", .text b⟩, ?_, rfl⟩
    rw [toList_facts_pathStore]
    exact List.mem_map.2 ⟨(a, b), h, rfl⟩
  refine ⟨_, hI _ hfact, ?_, (Binding.keeps_insert rfl _).trans (Binding.keeps_insert rfl _), ?_⟩
  · simp [Literal.Agrees, Binding.resolve, Binding.get?_insert]
  · intro name hname
    rcases Binding.isSome_or_eq_of_insert hname with hname | rfl
    · exact (Binding.isSome_or_eq_of_insert hname).imp_right fun heq => by simp [heq]
    · exact .inr (by simp)

/-- What is connected by a path is reached in the model. -/
theorem mem_model_reach (hrules : p.rules = [stepRule, chainRule])
    {nodes : List (String × String)} {a b : String}
    (h : Relation.TransGen (fun a b => (a, b) ∈ nodes) a b) :
    [.text a, .text b] ∈ p.model (pathStore nodes) "reach" := by
  induction h using Relation.TransGen.head_induction_on with
  | single hab =>
    have hstep : stepRule ∈ p.rules := by simp [hrules]
    refine mem_model_of_yieldsEach hstep (Goal.yieldsEach_singleton.2
      (yields_next _ (interpretation_le_modelBelow _ _ _) hab)) ?_
    simp [stepRule, Binding.resolve, Binding.get?_insert]
  | @head a c hac _ ih =>
    have hchain : chainRule ∈ p.rules := by simp [hrules]
    have hreach : Literal.Extends [.var "y", .var "z"]
        ((Binding.empty.insert "x" (.text a)).insert "y" (.text c)) [.text c, .text b]
        (((Binding.empty.insert "x" (.text a)).insert "y" (.text c)).insert "z" (.text b)) := by
      refine ⟨?_, Binding.keeps_insert ?_ _, fun name hname => ?_⟩
      · simp [Literal.Agrees, Binding.resolve, Binding.get?_insert]
      · simp [Binding.get?_insert]
      · exact (Binding.isSome_or_eq_of_insert hname).imp_right fun heq => by simp [heq]
    have hnext := interpretation_le_modelBelow p (pathStore nodes)
    refine mem_model_of_yieldsEach hchain
      ⟨_, yields_next _ (hnext _) hac, Goal.yieldsEach_singleton.2 ⟨_, ih, hreach⟩⟩ ?_
    simp [chainRule, Binding.resolve, Binding.get?_insert]

end Step

end Program

end Factbase
