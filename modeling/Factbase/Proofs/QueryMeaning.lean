import Factbase.Proofs.DistinctTuples
import Factbase.Proofs.QueryRecords
import Factbase.Proofs.QueryText

/-! # What a query text returns

The goals of a plain query look up facts only, so all such queries are evaluated over one working
set, whatever rules there are, and it has the facts of the store
(`Program.IsValid.exists_evaluate_of_isFactual`). Every plain query text therefore returns the maps
that describe the entities which the query finds there (`Engine.exists_records_query`); its fields
are looked up under the attributes that are meant (`Engine.lookedUp?_aliases`). Where no text holds
a separator, the working set shows what the facts of the store say (`Store.Shows`). -/

namespace Factbase

namespace Goal

variable {w : WorkingSet} {goal : Goal} {goals : List Goal} {c : Binding}

/-- A derived relation that a goal mentions is that of a literal in it. -/
theorem exists_mentions_of_mem_references {negated : Bool} {e : Reference}
    (h : e ∈ referencesUnder negated goal) :
    ∃ l, goal.Mentions l ∧ l.predicate = .derived e.name := by
  induction goal generalizing negated with
  | literal l =>
    obtain ⟨predicate, terms⟩ := l
    cases predicate with
    | derived name =>
      obtain rfl : e = ⟨name, negated⟩ := by simpa [referencesUnder] using h
      exact ⟨_, .literal _, rfl⟩
    | _ => simp [referencesUnder] at h
  | not goal ih =>
    rw [referencesUnder] at h
    obtain ⟨l, hl, hpredicate⟩ := ih h
    exact ⟨l, .not hl, hpredicate⟩
  | anyOf branches ih =>
    rw [referencesUnder, mem_referencesInBranches] at h
    obtain ⟨branch, hbranch, goal, hgoal, h⟩ := h
    obtain ⟨l, hl, hpredicate⟩ := ih branch hbranch goal hgoal h
    exact ⟨l, .anyOf hbranch hgoal hl, hpredicate⟩

/-- Goals that look up facts only mention no derived relation. -/
theorem referencesInEach_of_isFactual (h : ∀ goal ∈ goals, goal.IsFactual) :
    referencesInEach false goals = [] := by
  refine List.eq_nil_iff_forall_not_mem.2 fun e he => ?_
  obtain ⟨goal, hgoal, he⟩ := mem_referencesInEach.1 he
  obtain ⟨l, hl, hpredicate⟩ := exists_mentions_of_mem_references he
  have hattr := (h goal hgoal l hl).2 (by rw [hpredicate]; rfl)
  rw [hpredicate] at hattr
  simp at hattr

/-- Solutions of goals that look up facts only are legible where the facts lack the separator. -/
theorem isLegible_of_isFactual (hw : ∀ t ∈ w.tuples attrRelation, t.Lacks (Char.ofNat 0x1E))
    (h : ∀ goal ∈ goals, goal.IsFactual) (hc : c ∈ solutionsEach w goals [.empty]) :
    c.IsLegible := by
  refine forall_entries_of_mem_solutionsEach (fun goal hgoal b d hb hd =>
    forall_entries_of_mem_solutions (fun l hl hrelation name value t hname ht hvalue => ?_) hb hd)
    Binding.isLegible_empty hc
  obtain ⟨hlegible, hattr⟩ := h goal hgoal l hl
  rw [hattr hrelation] at ht
  exact ⟨hlegible name hname, hw t ht value hvalue⟩

end Goal

namespace Program

variable {p : Program}

/-- No rule that is evaluated for facts derives facts: unused rules are left out, or no head has the
name of the relation. -/
def KeepsFacts (p : Program) : Prop :=
  p.settings.pruneUnusedRules = true ∨ ∀ r ∈ p.rules, r.headName ≠ attrRelation

/-- Rules that were read from texts derive no facts. -/
theorem IsValid.keepsFacts_of_isParsed (hp : p.IsValid) (hparsed : p.IsParsed) :
    p.KeepsFacts := by
  refine .inr fun r hr heq => ?_
  have hbase := hp.isBase_of_isParsed hparsed r hr
  rw [heq] at hbase
  exact absurd hbase (by decide)

/-- All queries that look up facts only are evaluated over one working set, and that has the facts
of the store unless rules derive some. -/
theorem IsValid.exists_evaluate_of_isFactual (hp : p.IsValid) (s : Store) :
    ∃ w : WorkingSet,
      (p.KeepsFacts → w.tuples attrRelation = (WorkingSet.ofStore s).tuples attrRelation) ∧
      ∀ q : GoalQuery, (∀ goal ∈ q.goals, goal.IsFactual) →
        ∃ a, p.evaluate s q = .ok a ∧ a.bindings = distinctBy Binding.canonical
          ((Goal.solutionsEach w q.goals [.empty]).map (·.answer q.answer)) := by
  obtain ⟨a₀, w, heval₀⟩ := hp.exists_evaluateIn s .empty ⟨[], []⟩
  obtain ⟨t, hlevels, rfl, -⟩ := evaluateIn_eq_ok.1 heval₀
  refine ⟨t.result, ?_, fun q hq => ?_⟩
  · rintro (hprune | hheads)
    · have hnone : p.rulesFor ⟨[], []⟩ = [] := by
        rw [rulesFor, if_pos hprune]
        rfl
      rw [hnone] at hlevels
      obtain rfl : _ = t := by
        simpa [levels, orderedSet, Saturation.ofLevels] using hlevels
      rfl
    · exact tuples_evaluateIn heval₀ hheads
  · -- without derived relations the same rules are evaluated for all queries
    have hnames : q.derivedNames = GoalQuery.derivedNames ⟨[], []⟩ := by
      rw [GoalQuery.derivedNames, Goal.referencesInEach_of_isFactual hq]
      rfl
    have hrules : p.rulesFor q = p.rulesFor ⟨[], []⟩ := by
      rw [rulesFor, rulesFor, hnames]
    rw [← hrules] at hlevels
    have heval := evaluateIn_eq_ok.2 ⟨t, hlevels, rfl, rfl⟩
    exact ⟨_, evaluate_eq_ok.2 ⟨_, heval⟩, bindings_evaluateIn heval⟩

end Program

namespace Find

/-- The attribute that is meant by a name. -/
def Resolution.meant (name : String) : Resolution → String
  | .substitute other => other
  | _ => name

/-- Among the aliases of some names are those of them that stand for another name. -/
theorem lookup_aliases (resolve : String → Resolution) (names : List String) (name : String) :
    ((names.map fun n => (n, resolve n)).filterMap fun r => r.2.alias? r.1).lookup name =
      if name ∈ names then ((resolve name).alias? name).map (·.2) else none := by
  induction names with
  | nil => rfl
  | cons n rest ih =>
    rw [List.map_cons, List.filterMap_cons]
    cases hresolve : resolve n with
    | substitute other =>
      refine (lookup_cons_eq_ite n other name _).trans ?_
      rw [ih]
      by_cases hname : name = n
      · simp [hname, hresolve, Resolution.alias?]
      · simp [hname]
    | exact | unknown =>
      refine ih.trans ?_
      by_cases hname : name = n
      · simp [hname, hresolve, Resolution.alias?]
      · simp [hname]

/-- Among known attributes the fields of a query are looked up under those that are meant. -/
theorem lookedUp?_resolutions {known : List String} (hknown : known ≠ []) {q : Query} {f : Field}
    (hf : f ∈ q.fields) :
    Compile.lookedUp? ((resolutions .anyCase known q).filterMap fun r => r.2.alias? r.1) f =
      f.attr?.map fun attr => (Resolver.anyCase.resolve known attr).meant attr := by
  unfold Compile.lookedUp?
  cases hattr : f.attr? with
  | none => rfl
  | some attr =>
    have hmem : attr ∈ q.attributes :=
      mem_nameSet.2 (List.mem_filterMap.2 ⟨f, hf, hattr⟩)
    rw [Option.map_some, Option.map_some, resolutions, if_neg (by simpa using hknown),
      lookup_aliases, if_pos hmem]
    cases Resolver.anyCase.resolve known attr <;> simp [Resolution.alias?, Resolution.meant]

end Find

namespace Engine

open Find (Aliases Field Query Resolver resolutions)
open Find.Compile (lookedUp? outputFields isFactual_compile compile_eq)

/-- The attributes that a query names with those that they are looked up under. -/
def aliases (e : Engine) (q : Query) : Aliases :=
  (if e.config.resolveAttributes then resolutions .anyCase (e.catalog.1.map (·.attr)) q
    else resolutions .exact [] q).filterMap fun r => r.2.alias? r.1

/-- The attribute that is meant by a name in a query. -/
def attrFor (e : Engine) (name : String) : String :=
  if e.config.resolveAttributes then
    (Resolver.anyCase.resolve (e.catalog.1.map (·.attr)) name).meant name
  else name

/-- The fields of a query are looked up under the attributes that are meant. -/
theorem lookedUp?_aliases (e : Engine) {q : Query} {f : Field} (hf : f ∈ q.fields) :
    lookedUp? (e.aliases q) f = f.attr?.map e.attrFor := by
  have hnone : lookedUp? [] f = f.attr? := by simp [lookedUp?]
  unfold aliases attrFor
  cases e.config.resolveAttributes with
  | false => simpa [resolutions] using hnone
  | true =>
    simp only [if_true]
    cases hknown : e.catalog.1.map (·.attr) with
    | nil => simpa [resolutions, Resolver.resolve, Resolver.sameUpToCase?, Resolver.sameLoosely?,
        Find.Resolution.meant] using hnone
    | cons known rest => exact Find.lookedUp?_resolutions (by simp) hf

/-- A query text that is read is compiled with its aliases, and answered. -/
theorem query_of_parse (e : Engine) {text : String} {q : Query} (h : Query.parse text = .ok q) :
    ∃ warnings, (e.query text).1 =
      e.answer ⟨q.compile e.config.compiler (e.aliases q), warnings⟩ := by
  unfold Engine.query process aliases catalog Find.process
  rw [h]
  -- the catalog is resolved against or not, and is kept or made
  cases e.config.resolveAttributes
  · exact ⟨_, rfl⟩
  · cases e.cachedCatalog <;> exact ⟨_, rfl⟩

/-- Over the one working set that is saturated for a store, every plain query text is answered, and
without limit with the maps that describe the entities which the query finds. For that the facts
have to lack the separator, unless the variable is the only column and nothing is sorted. -/
theorem exists_records_query (e : Engine) (hp : e.program.IsValid) :
    ∃ w : WorkingSet,
      (e.program.KeepsFacts →
        w.tuples attrRelation = (WorkingSet.ofStore e.store).tuples attrRelation) ∧
      ∀ text q, Query.parse text = .ok q → q.IsPlain →
        ∃ o, (e.query text).1 = .ok o ∧ (q.limit = none →
          ((∀ t ∈ w.tuples attrRelation, t.Lacks (Char.ofNat 0x1E)) ∨
            (∀ f ∈ outputFields q, f.attr? = none) ∧ q.sortField = none) →
          o.records = {m | ∃ x, q.FindsAt w e.config.compiler.orMode (e.aliases q) x ∧
            q.DescribesAt w (e.aliases q) x m}) := by
  obtain ⟨w, hfacts, heval⟩ := hp.exists_evaluate_of_isFactual e.store
  refine ⟨w, hfacts, fun text q hparse hplain => ?_⟩
  have hdollar := Find.not_mem_var_of_parse hparse (c := '$') (by decide)
  have hequals := Find.not_mem_var_of_parse hparse (c := '=') (by decide)
  obtain ⟨warnings, hquery⟩ := e.query_of_parse hparse
  have hfactual := isFactual_compile e.config.compiler (e.aliases q) hequals hplain
  obtain ⟨a, ha, hbindings⟩ := heval _ hfactual
  refine ⟨_, hquery.trans (by rw [answer, ha]), fun hlimit hcolumns => ?_⟩
  have htells : (q.compile e.config.compiler (e.aliases q)).TellsApart
      (Goal.solutionsEach w (q.compile e.config.compiler (e.aliases q)).query.goals [.empty]) := by
    intro b hb d hd htext
    rcases hcolumns with hlacks | ⟨hvariable, hsort⟩
    · exact Binding.same_of_canonical_eq ((Goal.isLegible_of_isFactual hlacks hfactual hb).answer _)
        ((Goal.isLegible_of_isFactual hlacks hfactual hd).answer _) htext
    · obtain ⟨x, -, hx, -⟩ := Query.sound_compile w _ _ hdollar hplain hb
      obtain ⟨y, -, hy, -⟩ := Query.sound_compile w _ _ hdollar hplain hd
      exact Binding.same_answer_of_single
        (Query.mem_answer_compile_iff _ _ hdollar hplain hvariable hsort) hx hy htext
  ext m
  have hlimit' : (q.compile e.config.compiler (e.aliases q)).limit = none := by
    rw [compile_eq]
    exact hlimit
  refine (Find.Compiled.exists_row_iff hlimit').trans ?_
  rw [hbindings, Find.Compiled.exists_answer_iff htells (Query.carriers_compile _ _)]
  exact Query.exists_solution_iff w e.config.compiler (e.aliases q) hdollar hplain

end Engine

/-- A value that a store has for an entity: one in a fact with an attribute, or without attribute
the entity itself. -/
def Store.Shows (s : Store) (entity : String) : Option String → Atom → Prop
  | none, v => v = .text entity
  | some attr, v => ⟨entity, attr, v⟩ ∈ s.facts.toList

/-- A value with the canonical text of a text is that text. -/
theorem Atom.eq_text_of_canonical_eq {a : Atom} {text : String}
    (h : a.canonical = (Atom.text text).canonical) : a = .text text := by
  rcases eq_or_of_canonical_eq h with h | ⟨_, _, _, h, _⟩
  · exact h
  · simp at h

namespace WorkingSet

variable {s : Store} {w : WorkingSet} {entity : String} {x v : Atom}

/-- The rows of a working set with the facts of a store lack what the store lacks. -/
theorem lacks_of_tuples_eq {c : Char}
    (hw : w.tuples attrRelation = (ofStore s).tuples attrRelation) (hs : s.Lacks c) :
    ∀ t ∈ w.tuples attrRelation, t.Lacks c := by
  rw [hw]
  exact lacks_seed hs attrRelation

/-- The rows of the working set of a store are facts. -/
theorem exists_fact_of_mem_tuples {name : Atom}
    (h : [x, name, v] ∈ (ofStore s).tuples attrRelation) :
    ∃ entity attr, x = .text entity ∧ name = .text attr ∧ ⟨entity, attr, v⟩ ∈ s.facts.toList := by
  rcases mem_of_mem_tuples_seed h with ⟨-, f, hf, heq⟩ | ⟨hname, -⟩
  · simp only [Fact.toTuple, List.cons.injEq, and_true] at heq
    obtain ⟨rfl, rfl, rfl⟩ := heq
    exact ⟨f.entity, f.attr, rfl, rfl, hf⟩
  · exact absurd hname (by decide)

/-- A fact has a row, up to the canonical text of its value. -/
theorem exists_tuple_of_fact (hs : s.Lacks (Char.ofNat 0x1F)) {attr : String}
    (h : ⟨entity, attr, v⟩ ∈ s.facts.toList) :
    ∃ v', v'.canonical = v.canonical ∧
      [.text entity, .text attr, v'] ∈ (ofStore s).tuples attrRelation := by
  obtain ⟨t, ht, halike⟩ := Relation.exists_alike_seed_fact hs empty h
  obtain ⟨a₀, rest, rfl, hentity, hrest⟩ := List.map_eq_cons_iff.1 halike
  obtain ⟨a₁, rest', rfl, hattr, hrest'⟩ := List.map_eq_cons_iff.1 hrest
  obtain ⟨v', rest'', rfl, hvalue, hnil⟩ := List.map_eq_cons_iff.1 hrest'
  obtain rfl := List.map_eq_nil_iff.1 hnil
  obtain rfl := Atom.eq_text_of_canonical_eq hentity
  obtain rfl := Atom.eq_text_of_canonical_eq hattr
  exact ⟨v', hvalue, ht⟩

/-- What has a type is an entity with a fact that says so. -/
theorem exists_fact_of_isOfType (hw : w.tuples attrRelation = (ofStore s).tuples attrRelation)
    {entityType : String} (h : w.IsOfType x entityType) :
    ∃ entity, x = .text entity ∧ Fact.ofType entity entityType ∈ s.facts.toList := by
  obtain ⟨name, value, ht, hname, hvalue⟩ := h
  rw [hw] at ht
  obtain ⟨entity, attr, rfl, rfl, hf⟩ := exists_fact_of_mem_tuples ht
  obtain rfl := Atom.text.inj (Atom.eq_text_of_canonical_eq hname)
  obtain rfl := Atom.eq_text_of_canonical_eq hvalue
  exact ⟨entity, rfl, hf⟩

/-- What has a value for an attribute is an entity with a fact that says so. -/
theorem exists_fact_of_hasValue (hw : w.tuples attrRelation = (ofStore s).tuples attrRelation)
    {attr : String} (h : w.HasValue x attr v) :
    ∃ entity, x = .text entity ∧ ⟨entity, attr, v⟩ ∈ s.facts.toList := by
  obtain ⟨a₀, a₁, ht, hentity, hattr⟩ := h
  rw [hw] at ht
  obtain ⟨entity, name, rfl, rfl, hf⟩ := exists_fact_of_mem_tuples ht
  obtain rfl := Atom.text.inj (Atom.eq_text_of_canonical_eq hattr)
  exact ⟨entity, Atom.eq_text_of_canonical_eq hentity.symm, hf⟩

/-- Entities of a type are those with a fact that says so. -/
theorem isOfType_iff (hs : s.Lacks (Char.ofNat 0x1F))
    (hw : w.tuples attrRelation = (ofStore s).tuples attrRelation) {entityType : String} :
    w.IsOfType x entityType ↔
      ∃ entity, x = .text entity ∧ Fact.ofType entity entityType ∈ s.facts.toList := by
  constructor
  · exact exists_fact_of_isOfType hw
  · rintro ⟨entity, rfl, hf⟩
    obtain ⟨value, hvalue, ht⟩ := exists_tuple_of_fact hs hf
    exact ⟨_, value, hw ▸ ht, rfl, hvalue⟩

/-- What an entity shows is in a fact. -/
theorem shows_of_shows (hw : w.tuples attrRelation = (ofStore s).tuples attrRelation)
    {look : Option String} (h : w.Shows (.text entity) look v) : s.Shows entity look v := by
  cases look with
  | none => exact h
  | some attr =>
    obtain ⟨other, heq, hf⟩ := exists_fact_of_hasValue hw h
    obtain rfl := Atom.text.inj heq
    exact hf

/-- What is in a fact an entity shows, up to canonical texts. -/
theorem exists_shows_of_shows (hs : s.Lacks (Char.ofNat 0x1F))
    (hw : w.tuples attrRelation = (ofStore s).tuples attrRelation) {look : Option String}
    (h : s.Shows entity look v) :
    ∃ v', v'.canonical = v.canonical ∧ w.Shows (.text entity) look v' := by
  cases look with
  | none => exact ⟨v, rfl, h⟩
  | some attr =>
    obtain ⟨v', hvalue, ht⟩ := exists_tuple_of_fact hs h
    exact ⟨v', hvalue, _, _, hw ▸ ht, rfl, rfl⟩

end WorkingSet

end Factbase
