import Factbase.Engine
import Factbase.Proofs.Indexing
import Factbase.Proofs.Registration

/-! # The kept catalog

An engine keeps the catalog that it was asked for until a fact is added. Links do not count for the
catalog, so what is kept is at all times the catalog of the store (`Engine.IsFresh`), and an engine
tells and answers what it would without keeping anything (`Engine.uncached`).

Apart from what is kept, a sequence of calls leads to the store of what was added and the program of
the rules that were accepted (`Engine.uncached_performAll`); catalogs and queries in between leave
no trace. So the engine is as good as one that is built anew (`Engine.rebuilt_performAll`). -/

namespace Factbase

/-- The catalog does not depend on links. -/
theorem Store.catalog_addLinks (s : Store) (ls : List Link) :
    (s.addLinks ls).catalog = s.catalog :=
  unchanged_addLinks (fun _ _ => rfl) s ls

/-- A call of an engine. -/
inductive EngineCall where
  | add (call : StoreCall)
  | rule (r : Rule)
  | ruleText (text : String)
  | catalog
  | stats
  | query (text : String)

namespace EngineCall

/-- What a call adds to the store. -/
def storeCalls : EngineCall → List StoreCall
  | add call => [call]
  | rule _ | ruleText _ | catalog | stats | query _ => []

/-- The rules that a call offers; a text that is not read offers none. -/
def ruleCalls : EngineCall → List RuleCall
  | rule r => [.one r]
  | ruleText text =>
    match Rule.parseAll text with
    | .ok rules => [.several rules]
    | .error _ => []
  | add _ | catalog | stats | query _ => []

end EngineCall

namespace Engine

/-- Adds facts or links. -/
def add (e : Engine) : StoreCall → Engine
  | .fact f => e.addFact f
  | .facts fs => e.addFacts fs
  | .link l => e.addLink l
  | .links ls => e.addLinks ls

/-- The engine after a call, be it answered or not. -/
def perform (e : Engine) : EngineCall → Engine
  | .add call => e.add call
  | .rule r =>
    match e.addRule r with
    | .ok extended => extended
    | .error _ => e
  | .ruleText text => (e.addRuleText text).1
  | .catalog => e.catalog.2
  | .stats => e
  | .query text => (e.query text).2

/-- The engine after calls in order. -/
def performAll (e : Engine) (calls : List EngineCall) : Engine := calls.foldl perform e

/-- The engine without the catalog that it keeps. -/
def uncached (e : Engine) : Engine := { e with cachedCatalog := none }

/-- A catalog that is kept is that of the store. -/
def IsFresh (e : Engine) : Prop :=
  ∀ entries, e.cachedCatalog = some entries → e.store.catalog = entries

section Fresh

variable {e : Engine}

/-- A new engine keeps no catalog. -/
theorem isFresh_empty (config : EngineConfig) : (empty config).IsFresh := by
  simp [IsFresh, empty]

/-- The catalog is that of the store. -/
theorem IsFresh.catalog_fst (h : e.IsFresh) : e.catalog.1 = e.store.catalog := by
  unfold Engine.catalog
  split
  · next entries hentries => exact (h entries hentries).symm
  · rfl

/-- Asking for the catalog changes what is kept only. -/
theorem uncached_catalog (e : Engine) : e.catalog.2.uncached = e.uncached := by
  unfold Engine.catalog
  split <;> rfl

/-- After asking for the catalog, that of the store is kept. -/
theorem IsFresh.catalog_snd (h : e.IsFresh) : e.catalog.2.IsFresh := by
  unfold Engine.catalog
  split
  · exact h
  · exact fun entries hentries => Option.some.inj hentries

/-- Reading a query text asks for the catalog where attributes are resolved against it. -/
theorem process_eq (e : Engine) (text : String) :
    e.process text =
      if e.config.resolveAttributes then
        (Find.process e.config.compiler .anyCase (e.catalog.1.map (·.attr)) text, e.catalog.2)
      else (Find.process e.config.compiler .exact [] text, e) := by
  unfold process Engine.catalog
  cases e.cachedCatalog <;> rfl

/-- Reading a query text changes what is kept only. -/
theorem uncached_process (e : Engine) (text : String) :
    (e.process text).2.uncached = e.uncached := by
  rw [process_eq]
  split
  · exact e.uncached_catalog
  · rfl

/-- After a query text is read, nothing is kept or the catalog of the store. -/
theorem IsFresh.process_snd (h : e.IsFresh) (text : String) : (e.process text).2.IsFresh := by
  rw [process_eq]
  split
  · exact h.catalog_snd
  · exact h

/-- A query leaves the engine as reading its text does. -/
theorem query_snd (e : Engine) (text : String) : (e.query text).2 = (e.process text).2 := by
  unfold query
  rcases e.process text with ⟨processed, e'⟩
  cases processed <;> rfl

/-- The answer to a query depends on what was read, and on the store and the program. -/
theorem query_fst (e : Engine) (text : String) :
    (e.query text).1 =
      match (e.process text).1 with
      | .error errors => .error (.invalidQuery text errors)
      | .ok p => e.answer p := by
  have hanswer : ∀ p, (e.process text).2.answer p = e.answer p := by
    intro p
    -- an answer does not look at what is kept
    change (e.process text).2.uncached.answer p = e.uncached.answer p
    rw [uncached_process]
  unfold query
  rcases hprocess : e.process text with ⟨processed, e'⟩
  rw [hprocess] at hanswer
  cases processed with
  | error errors => rfl
  | ok p => exact hanswer p

/-- A query is answered as it is when nothing is kept. -/
theorem IsFresh.query_uncached (h : e.IsFresh) (text : String) :
    (e.uncached.query text).1 = (e.query text).1 := by
  have hprocess : (e.uncached.process text).1 = (e.process text).1 := by
    rw [process_eq, process_eq, h.catalog_fst]
    cases hresolve : e.config.resolveAttributes <;> simp [uncached, hresolve, Engine.catalog]
  rw [query_fst, query_fst, hprocess]
  rfl

end Fresh

section Calls

variable {e : Engine}

/-- Adding leads to the store with what is added. -/
theorem uncached_add (e : Engine) (call : StoreCall) :
    (e.add call).uncached = { e.uncached with store := e.store.perform call } := by
  cases call <;> rfl

/-- A catalog that is kept while something is added is still that of the store. -/
theorem IsFresh.add (h : e.IsFresh) (call : StoreCall) : (e.add call).IsFresh := by
  cases call with
  | fact f => simp [Engine.add, IsFresh, addFact]
  | facts fs => simp [Engine.add, IsFresh, addFacts]
  | link l => exact h
  | links ls =>
    intro entries hentries
    exact (e.store.catalog_addLinks ls).trans (h entries hentries)

/-- A rule that is added leads to the program with it, if it is accepted. -/
theorem perform_rule (e : Engine) (r : Rule) :
    e.perform (.rule r) =
      { e with program := e.program.performAll (EngineCall.rule r).ruleCalls } := by
  cases hadd : e.program.addRule r <;>
    simp [perform, addRule, hadd, EngineCall.ruleCalls, Program.performAll, Program.perform]

/-- A rule text leads to the program with the rules that are accepted of it. -/
theorem addRuleText_fst (e : Engine) (text : String) :
    (e.addRuleText text).1 =
      { e with program := e.program.performAll (EngineCall.ruleText text).ruleCalls } := by
  cases hparse : Rule.parseAll text with
  | error error =>
    simp only [addRuleText, EngineCall.ruleCalls, hparse]
    rfl
  | ok rules =>
    simp only [addRuleText, EngineCall.ruleCalls, hparse]
    rw [Program.performAll, List.foldl_cons, List.foldl_nil, Program.perform]
    rcases e.program.addRules rules with ⟨program, rejected⟩
    cases rejected <;> rfl

/-- What a call does, apart from what is kept. -/
theorem uncached_perform (e : Engine) (call : EngineCall) :
    (e.perform call).uncached =
      ⟨e.config, e.store.performAll call.storeCalls, e.program.performAll call.ruleCalls,
        none⟩ := by
  cases call with
  | add call => exact e.uncached_add call
  | rule r => exact congrArg uncached (e.perform_rule r)
  | ruleText text => exact congrArg uncached (e.addRuleText_fst text)
  | catalog => exact e.uncached_catalog
  | stats => rfl
  | query text => exact (congrArg uncached (e.query_snd text)).trans (e.uncached_process text)

/-- After a call, nothing is kept or the catalog of the store. -/
theorem IsFresh.perform (h : e.IsFresh) (call : EngineCall) : (e.perform call).IsFresh := by
  cases call with
  | add call => exact h.add call
  | rule r =>
    rw [perform_rule]
    exact h
  | ruleText text =>
    rw [Engine.perform, addRuleText_fst]
    exact h
  | catalog => exact h.catalog_snd
  | stats => exact h
  | query text =>
    rw [Engine.perform, query_snd]
    exact h.process_snd text

/-- What a sequence of calls does, apart from what is kept. -/
theorem uncached_performAll (e : Engine) (calls : List EngineCall) :
    (e.performAll calls).uncached =
      ⟨e.config, e.store.performAll (calls.flatMap (·.storeCalls)),
        e.program.performAll (calls.flatMap (·.ruleCalls)), none⟩ := by
  induction calls generalizing e with
  | nil => rfl
  | cons call rest ih =>
    have hconfig := congrArg Engine.config (e.uncached_perform call)
    have hstore := congrArg Engine.store (e.uncached_perform call)
    have hprogram := congrArg Engine.program (e.uncached_perform call)
    dsimp only [uncached] at hconfig hstore hprogram
    rw [performAll, List.foldl_cons, ← performAll, ih, hconfig, hstore, hprogram,
      List.flatMap_cons, List.flatMap_cons, Store.performAll_append, Program.performAll_append]

/-- After a sequence of calls, nothing is kept or the catalog of the store. -/
theorem IsFresh.performAll (h : e.IsFresh) (calls : List EngineCall) :
    (e.performAll calls).IsFresh := by
  induction calls generalizing e with
  | nil => exact h
  | cons call rest ih => exact ih (h.perform call)

end Calls

/-! ## Engines built anew -/

/-- The facts that are added in a sequence of calls. -/
def addedFacts (calls : List EngineCall) : List Fact :=
  (calls.flatMap (·.storeCalls)).flatMap (·.addedFacts)

/-- The links that are added in a sequence of calls. -/
def addedLinks (calls : List EngineCall) : List Link :=
  (calls.flatMap (·.storeCalls)).flatMap (·.addedLinks)

/-- The rules that a new engine accepts in a sequence of calls. -/
def acceptedRules (config : EngineConfig) (calls : List EngineCall) : List Rule :=
  (Program.empty config.evaluator).accepted (calls.flatMap (·.ruleCalls))

/-- A new engine to which facts, links and rules were added. -/
def build (config : EngineConfig) (facts : List Fact) (links : List Link) (rules : List Rule) :
    Engine :=
  (empty config).performAll
    (.add (.facts facts) :: .add (.links links) :: rules.map .rule)

/-- What a new engine holds to which facts, links and rules were added, apart from what is kept. -/
theorem uncached_build (config : EngineConfig) (facts : List Fact) (links : List Link)
    (rules : List Rule) : (build config facts links rules).uncached =
      ⟨config, ((Store.empty config.catalog).addFacts facts).addLinks links,
        (Program.empty config.evaluator).performAll (rules.map .one), none⟩ := by
  have hstore : (rules.map EngineCall.rule).flatMap (·.storeCalls) = [] := by
    simp [EngineCall.storeCalls]
  have hrules : (rules.map EngineCall.rule).flatMap (·.ruleCalls) = rules.map .one := by
    rw [List.flatMap_map, List.map_eq_flatMap]
    rfl
  rw [build, uncached_performAll, List.flatMap_cons, List.flatMap_cons, List.flatMap_cons,
    List.flatMap_cons, hstore, hrules]
  rfl

/-- Apart from what is kept, calls lead to the engine that is built anew. -/
theorem uncached_performAll_eq_build (config : EngineConfig) (calls : List EngineCall) :
    ((empty config).performAll calls).uncached =
      (build config (addedFacts calls) (addedLinks calls)
        (acceptedRules config calls)).uncached := by
  rw [uncached_performAll, uncached_build, Store.performAll_eq, acceptedRules,
    Program.performAll_one (Program.addRules_accepted _ _)]
  rfl

/-- Whatever is called of a new engine, and whatever was asked before: its catalog is made of all
facts that were added, and a query is answered as by an engine that is built anew from the facts,
the links and the accepted rules, all of which it accepts. -/
theorem rebuilt_performAll (config : EngineConfig) (calls : List EngineCall) :
    ((empty config).performAll calls).catalog.1 =
        ((Store.empty config.catalog).addFacts (addedFacts calls)).catalog ∧
      (build config (addedFacts calls) (addedLinks calls)
        (acceptedRules config calls)).program.rules = acceptedRules config calls ∧
      ∀ text, (((empty config).performAll calls).query text).1 =
        ((build config (addedFacts calls) (addedLinks calls)
          (acceptedRules config calls)).query text).1 := by
  have hfresh := (isFresh_empty config).performAll calls
  have hsame := uncached_performAll_eq_build config calls
  have hbuild := uncached_build config (addedFacts calls) (addedLinks calls)
    (acceptedRules config calls)
  refine ⟨?_, ?_, fun text => ?_⟩
  · have hstore : ((empty config).performAll calls).store =
        ((Store.empty config.catalog).addFacts (addedFacts calls)).addLinks (addedLinks calls) :=
      congrArg Engine.store (hsame.trans hbuild)
    rw [hfresh.catalog_fst, hstore, Store.catalog_addLinks]
  · have hprogram := congrArg Engine.program hbuild
    have hrules := congrArg Program.rules hprogram
    rw [acceptedRules, Program.performAll_one (Program.addRules_accepted _ _),
      Program.rules_performAll] at hrules
    exact hrules.trans (List.nil_append _)
  · rw [← hfresh.query_uncached, hsame]
    exact ((isFresh_empty config).performAll _).query_uncached text

end Engine

end Factbase
