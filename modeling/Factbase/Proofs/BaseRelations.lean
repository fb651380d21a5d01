import Factbase.Proofs.Passes
import Factbase.Proofs.Registration
import Factbase.Proofs.RuleText

/-! # The base relations

An evaluation loads the relations of facts and of links from the store. Rules derive into relations
by name, so these two stay images of the store (`WorkingSet.HoldsBase`) as long as no head has the
name of one of them. The examination of rules does not ensure that: it asks whether the predicate of
a head is built in, and a derived relation that is called `attr` is not. -/

namespace Factbase

/-- The base relations hold images of facts and links of the store only. -/
structure WorkingSet.HoldsBase (s : Store) (w : WorkingSet) : Prop where
  facts : ∀ t ∈ w.tuples attrRelation, ∃ f ∈ s.facts.toList, t = f.toTuple
  links : ∀ t ∈ w.tuples linkRelation, ∃ l ∈ s.links.toList, t = l.toTuple

namespace Program

/-- An evaluation leaves the relations alone into which no rule derives. -/
theorem tuples_evaluateIn {p : Program} {s : Store} {w w' : WorkingSet} {q : GoalQuery}
    {a : Answers} (h : p.evaluateIn s w q = .ok (a, w')) {name : String}
    (hname : ∀ r ∈ p.rules, r.headName ≠ name) : w'.tuples name = (w.seed s).tuples name := by
  obtain ⟨t, hlevels, rfl, -⟩ := evaluateIn_eq_ok.1 h
  refine Saturation.tuples_ofLevels_of_forall_ne hlevels fun level hlevel r hr => ?_
  exact hname r (mem_of_mem_rulesFor (mem_of_mem_levels hlevel hr))

/-- A seeded working set holds images of the store. -/
theorem holdsBase_seed (s : Store) (w : WorkingSet) : (w.seed s).HoldsBase s := by
  constructor
  · intro t ht
    rcases WorkingSet.mem_of_mem_tuples_seed ht with ⟨-, hf⟩ | ⟨hname, -⟩
    · exact hf
    · exact absurd hname (by decide)
  · intro t ht
    rcases WorkingSet.mem_of_mem_tuples_seed ht with ⟨hname, -⟩ | ⟨-, hl⟩
    · exact absurd hname (by decide)
    · exact hl

/-- Rules that were read from texts derive into no base relation. -/
theorem IsValid.isBase_of_isParsed {p : Program} (hp : p.IsValid) (hparsed : p.IsParsed) :
    ∀ r ∈ p.rules, WorkingSet.isBase r.headName = false :=
  fun r hr => (hparsed.isReadable r hr).head.isDerived _ (hp.isDerived r hr)

/-- The rule that derives a row of nulls into the relation of a name. -/
def nullRule (name : String) : Rule :=
  ⟨⟨.derived name, [.const .null, .const .null, .const .null]⟩, []⟩

/-- The settings of two passes over all rules. -/
def twoPasses : Settings := ⟨2, false⟩

/-- The program of that rule. -/
def nullProgram (name : String) : Program := ⟨twoPasses, [nullRule name], [(name, 0)]⟩

/-- The rule is accepted whatever name its relation has. -/
theorem addRule_nullRule (name : String) :
    (empty twoPasses).addRule (nullRule name) = .ok (nullProgram name) := by
  have hfault : (nullRule name).fault? [] = none := rfl
  have hstrata : (DependencyGraph.ofRules [nullRule name]).strata = .ok [(name, 0)] := by
    have hraise : (DependencyGraph.ofRules [nullRule name]).raiseAll [(name, 0)] = [(name, 0)] := by
      show putEntry name (Strata.level [(name, 0)] name) [(name, 0)] = [(name, 0)]
      exact putEntry_of_lookup (List.pairwise_singleton _ _) (by simp [Strata.level])
    have hcycle : (DependencyGraph.ofRules [nullRule name]).negativeCycle? = none := rfl
    have hsettle : (DependencyGraph.ofRules [nullRule name]).settle 3 [(name, 0)] =
        some [(name, 0)] := by
      rw [DependencyGraph.settle, hraise, if_pos rfl]
    exact DependencyGraph.strata_eq_ok hcycle hsettle
  exact addRule_eq_ok hfault hstrata

/-- Offering the rule gives the program. -/
theorem performAll_nullRule (name : String) :
    (empty twoPasses).performAll [.one (nullRule name)] = nullProgram name := by
  rw [performAll, List.foldl_cons, List.foldl_nil, perform, addRule_nullRule]

/-- Evaluated over a store, the rule derives its row, and nothing else in the second pass. -/
theorem exists_evaluateIn_nullProgram (name : String) (s : Store) (w : WorkingSet)
    (q : GoalQuery) :
    ∃ a w', (nullProgram name).evaluateIn s w q = .ok (a, w') ∧ a.plan.converged = true ∧
      ∃ t ∈ w'.tuples name, tupleKey t = tupleKey [.null, .null, .null] := by
  have hlevels : (nullProgram name).levels [nullRule name] = [[nullRule name]] := by
    simp [levels, orderedSet, insertOrdered]
  have hpass : ∀ w₁ : WorkingSet, Deriving.outcome (Saturation.pass [nullRule name] w₁) =
      .ok (w₁.insertEach name [[.null, .null, .null]]) := by
    intro w₁
    have happly : Deriving.outcome ((nullRule name).apply w₁) =
        .ok (w₁.insertEach name [[.null, .null, .null]]) :=
      (Deriving.outcome_bind_eq_ok fun _ => Deriving.isCacheFree_pure _).2
        ⟨[[.null, .null, .null]], rfl, rfl⟩
    exact Saturation.outcome_pass_cons.2 ⟨_, _, 0, happly, rfl, rfl⟩
  obtain ⟨result, hresult⟩ :
      ∃ w', w' = ((w.seed s).insertEach name [[.null, .null, .null]]).2 := ⟨_, rfl⟩
  have hrow : ∃ t ∈ result.tuples name, tupleKey t = tupleKey [.null, .null, .null] := by
    rw [hresult]
    exact WorkingSet.exists_mem_tuples_insertEach _ _ (List.mem_singleton.2 rfl)
  have hagain : result.insertEach name [[.null, .null, .null]] = (0, result) :=
    WorkingSet.insertEach_of_forall_exists (by simpa using hrow)
  obtain ⟨t, hlevel, hconverged, ht⟩ : ∃ t, Deriving.outcome
      (Saturation.ofLevel [nullRule name] 2 (w.seed s)) = .ok t ∧ t.converged = true ∧
        t.result = result := by
    -- the store may hold the row under this name; then the first pass adds nothing
    by_cases hzero : ((w.seed s).insertEach name [[.null, .null, .null]]).1 = 0
    · exact ⟨_, Saturation.outcome_ofLevel_succ.2 ⟨_, _, hpass _, .inl ⟨hzero, rfl⟩⟩, rfl,
        hresult.symm⟩
    · have hsecond : Deriving.outcome (Saturation.ofLevel [nullRule name] 1 result) =
          .ok ⟨1, 0, true, result⟩ :=
        Saturation.outcome_ofLevel_succ.2
          ⟨0, result, (hpass _).trans (congrArg _ hagain), .inl ⟨rfl, rfl⟩⟩
      rw [hresult] at hsecond ⊢
      exact ⟨_, Saturation.outcome_ofLevel_succ.2
        ⟨_, _, hpass _, .inr ⟨hzero, _, hsecond, rfl⟩⟩, rfl, rfl⟩
  have hall : Deriving.outcome (Saturation.ofLevels 2 [[nullRule name]] (w.seed s)) = .ok _ :=
    Saturation.outcome_ofLevels_cons.2 ⟨t, ⟨0, 0, true, t.result⟩, hlevel, rfl, rfl⟩
  rw [← hlevels] at hall
  refine ⟨_, t.result, evaluateIn_eq_ok.2 ⟨_, hall, rfl, rfl⟩, ?_, ?_⟩
  · simp [hconverged]
  · rw [ht]
    exact hrow

/-- A row that starts with a text has not the key of a row of nulls. -/
theorem tupleKey_text_ne (text : String) (rest : Tuple) :
    tupleKey (.text text :: rest) ≠ tupleKey [.null, .null, .null] := by
  intro h
  have htext : (tupleKey (.text text :: rest)).toList.head? = some 's' := by
    cases rest <;> simp [tupleKey, Atom.canonical]
  have hnull : (tupleKey [.null, .null, .null]).toList.head? = some 'n' := by
    simp [tupleKey, Atom.canonical]
  rw [h, hnull] at htext
  exact absurd htext (by decide)

/-- A rule with the name of a base relation spoils it. -/
theorem exists_not_holdsBase {name : String} (hname : name = attrRelation ∨ name = linkRelation)
    (s : Store) (w : WorkingSet) (q : GoalQuery) :
    ∃ a w', (nullProgram name).evaluateIn s w q = .ok (a, w') ∧ ¬ w'.HoldsBase s := by
  obtain ⟨a, w', heval, -, t, ht, hkey⟩ := exists_evaluateIn_nullProgram name s w q
  refine ⟨a, w', heval, ?_⟩
  rintro ⟨hfacts, hlinks⟩
  -- images of facts and of links start with a text, the row with a null
  rcases hname with rfl | rfl
  · obtain ⟨f, -, rfl⟩ := hfacts t ht
    exact tupleKey_text_ne _ _ hkey
  · obtain ⟨l, -, rfl⟩ := hlinks t ht
    exact tupleKey_text_ne _ _ hkey

/-- Not every evaluation of an accepted program keeps the base relations: a rule whose head is the
derived relation with the name `attr` is accepted, and derives a row that no fact has. -/
theorem not_holdsBase_evaluateIn :
    ¬ ∀ settings calls s w q a w',
      ((empty settings).performAll calls).evaluateIn s w q = .ok (a, w') → w'.HoldsBase s := by
  intro h
  obtain ⟨a, w', heval, hspoilt⟩ :=
    exists_not_holdsBase (.inl rfl) (.empty .default) .empty ⟨[], []⟩
  rw [← performAll_nullRule] at heval
  exact hspoilt (h _ _ _ _ _ a w' heval)

/-- Exactly the names of the base relations have to be kept out of the heads: when the heads of the
registered rules have names of a given kind, every evaluation keeps the base relations to images of
the store if and only if neither `attr` nor `link` is of that kind. -/
theorem holdsBase_evaluateIn_iff (names : String → Prop) :
    (∀ settings calls, (∀ r ∈ ((empty settings).performAll calls).rules, names r.headName) →
      ∀ s w q a w', ((empty settings).performAll calls).evaluateIn s w q = .ok (a, w') →
        w'.HoldsBase s) ↔
      ¬ names attrRelation ∧ ¬ names linkRelation := by
  constructor
  · intro h
    have hnot : ∀ name, name = attrRelation ∨ name = linkRelation → ¬ names name := by
      intro name hname hallowed
      obtain ⟨a, w', heval, hspoilt⟩ :=
        exists_not_holdsBase hname (.empty .default) .empty ⟨[], []⟩
      rw [← performAll_nullRule] at heval
      refine hspoilt (h twoPasses [.one (nullRule name)] ?_ _ _ _ a w' heval)
      rw [performAll_nullRule]
      intro r hr
      obtain rfl : r = nullRule name := by simpa [nullProgram] using hr
      exact hallowed
    exact ⟨hnot _ (.inl rfl), hnot _ (.inr rfl)⟩
  · -- no rule derives into a base relation, so both stay as they were loaded
    rintro ⟨hattr, hlink⟩ settings calls hnames s w q a w' heval
    have hseed := holdsBase_seed s w
    have hframe : ∀ name, ¬ names name → w'.tuples name = (w.seed s).tuples name := by
      intro name hname
      refine tuples_evaluateIn heval fun r hr heq => hname ?_
      rw [← heq]
      exact hnames r hr
    constructor
    · rw [hframe _ hattr]
      exact hseed.facts
    · rw [hframe _ hlink]
      exact hseed.links

end Program

end Factbase
