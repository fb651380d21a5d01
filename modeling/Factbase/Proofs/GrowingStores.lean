import Factbase.Proofs.CatalogCaching
import Factbase.Proofs.QueryMeaning
import Factbase.Proofs.RenamedAttributes

/-! # Rows stay when facts are added

Without negation a query text keeps its rows when facts are added
(`Engine.records_subset_query_add`), as long as its attributes keep their meaning. A name with a
fact means itself from then on, and one without has no rows to lose, unless a rule derives into the
relation of facts (`Engine.exists_query_of_subset`). What can change is the meaning of a name that
stands for another attribute, for the attributes are resolved against the catalog anew for each
query: a fact with that very name takes it away from the attribute it stood for
(`Engine.not_records_subset_query_add`). -/

namespace Factbase

/-- The attributes of the catalog are those that occur. -/
theorem Store.map_attr_catalog (s : Store) : s.catalog.map (·.attr) = s.attributes := by
  simp [catalog, CatalogEntry.ofValues, Function.comp_def]

namespace Engine

open Find (Query Resolver Resolution)
open Find.Compile (IsKept lookedUp?)

variable {e e' : Engine} {text : String} {q : Query} {o : QueryOutput}

/-- The name of an attribute that occurs in a fact means that attribute. -/
theorem IsFresh.attrFor_eq_self (h : e.IsFresh) (hstore : e.store.IsIndexed) {f : Fact}
    (hf : f ∈ e.store.facts.toList) : e.attrFor f.attr = f.attr := by
  have hknown : f.attr ∈ e.catalog.1.map (·.attr) := by
    rw [h.catalog_fst, Store.map_attr_catalog, hstore.mem_attributes_iff]
    exact ⟨f, hf, rfl⟩
  unfold attrFor
  split
  · simp only [Resolver.resolve, List.contains_iff_mem.2 hknown, if_true]
    rfl
  · rfl

/-- A name that no fact has means the one attribute that differs in case only. -/
theorem IsFresh.attrFor_eq_of_case (h : e.IsFresh) (hstore : e.store.IsIndexed)
    (hresolve : e.config.resolveAttributes = true) {name attr : String}
    (hmem : attr ∈ e.store.facts.toList.map (·.attr))
    (hcase : Text.equalIgnoringAsciiCase attr name = true)
    (hother : ∀ other ∈ e.store.facts.toList.map (·.attr),
      other ≠ name ∧ (Text.equalIgnoringAsciiCase other name = true → other = attr)) :
    e.attrFor name = attr := by
  have hknown : ∀ other, other ∈ e.catalog.1.map (·.attr) ↔
      other ∈ e.store.facts.toList.map (·.attr) := by
    intro other
    rw [h.catalog_fst, Store.map_attr_catalog, hstore.mem_attributes_iff, List.mem_map]
  have hunknown : (e.catalog.1.map (·.attr)).contains name = false := by
    rw [Bool.eq_false_iff, Ne, List.contains_iff_mem, hknown]
    exact fun hname => (hother name hname).1 rfl
  have hfound : Resolver.sameUpToCase? (e.catalog.1.map (·.attr)) name = some attr := by
    unfold Resolver.sameUpToCase?
    cases hfind : (e.catalog.1.map (·.attr)).find? fun k => Text.equalIgnoringAsciiCase k name with
    | none => exact absurd hcase (List.find?_eq_none.1 hfind attr ((hknown attr).2 hmem))
    | some other =>
      have hsame : Text.equalIgnoringAsciiCase other name = true := by
        simpa using List.find?_some hfind
      rw [(hother other ((hknown other).1 (List.mem_of_find?_eq_some hfind))).2 hsame]
  rw [attrFor, if_pos hresolve, Resolver.resolve, hunknown, hfound]
  rfl

/-- A field of a query is kept where it means the same attribute afterwards; and where its name
means itself and no rule derives into the relation of facts, for an attribute in a fact keeps its
meaning, and another one has no tuple. -/
theorem IsFresh.isKept_of_meant (hfresh : e'.IsFresh) (hstore : e'.store.IsIndexed)
    (hfacts : e.store.facts.toList ⊆ e'.store.facts.toList) {w : WorkingSet} {goals : GoalQuery}
    {a : Answers} (heval : e.program.evaluateIn e.store .empty goals = .ok (a, w))
    (hmeant : ∀ attr ∈ q.attributes,
      (e.attrFor attr ≠ attr ∨ ∃ r ∈ e.program.rules, r.headName = attrRelation) →
        e'.attrFor attr = e.attrFor attr) {f : Find.Field} (hf : f ∈ q.fields) :
    IsKept w.interpretation (e.aliases q) (e'.aliases q) f := by
  unfold IsKept
  rw [e.lookedUp?_aliases hf, e'.lookedUp?_aliases hf]
  cases hattr : f.attr? with
  | none => exact .inl rfl
  | some attr =>
    have hmem : attr ∈ q.attributes := mem_nameSet.2 (List.mem_filterMap.2 ⟨f, hf, hattr⟩)
    by_cases hsame : e'.attrFor attr = e.attrFor attr
    · exact .inl (by rw [Option.map_some, Option.map_some, hsame])
    · obtain ⟨hself, hheads⟩ := not_or.1 (mt (hmeant attr hmem) hsame)
      rw [not_not] at hself
      simp only [not_exists, not_and] at hheads
      refine .inr ⟨_, _, rfl, rfl, fun x name v ht hname => hsame ?_⟩
      -- a fact with the name would have kept its meaning
      have hseed : [x, name, v] ∈ (WorkingSet.ofStore e.store).tuples attrRelation :=
        Program.tuples_evaluateIn heval hheads ▸ ht
      obtain ⟨entity, other, -, rfl, hfact⟩ := WorkingSet.exists_fact_of_mem_tuples hseed
      rw [hself] at hname ⊢
      obtain rfl := Atom.text.inj (Atom.eq_text_of_canonical_eq hname)
      exact hfresh.attrFor_eq_self hstore (hfacts hfact)

/-- With the same rules over a store with more facts and links, the rows of a query without limit
stay. The rules are monotone and no text of the larger store holds a separator; and an attribute
that the query names keeps its meaning if its name stands for another one, or if a rule derives into
the relation of facts. -/
theorem exists_query_of_subset (hfresh : e'.IsFresh) (hstore : e'.store.IsIndexed)
    (hconfig : e'.config = e.config) (hprogram : e'.program = e.program)
    (hvalid : e.program.IsValid) (hrules : ∀ r ∈ e.program.rules, r.IsMonotone)
    (hfacts : e.store.facts.toList ⊆ e'.store.facts.toList)
    (hlinks : e.store.links.toList ⊆ e'.store.links.toList)
    (hlacks : ∀ c ∈ separators, e'.store.Lacks c) (hparse : Query.parse text = .ok q)
    (hlimit : q.limit = none) (hquery : (e.query text).1 = .ok o)
    (hmeant : ∀ attr ∈ q.attributes,
      (e.attrFor attr ≠ attr ∨ ∃ r ∈ e.program.rules, r.headName = attrRelation) →
        e'.attrFor attr = e.attrFor attr) :
    ∃ o', (e'.query text).1 = .ok o' ∧ o'.columns = o.columns ∧ o.records ⊆ o'.records := by
  obtain ⟨q₀, a, hparse₀, heval, hcolumns, hrows⟩ := exists_of_query_eq_ok hquery
  obtain rfl : q = q₀ := Except.ok.inj (hparse.symm.trans hparse₀)
  obtain ⟨w, heval⟩ := Program.evaluate_eq_ok.1 heval
  have hkept : ∀ f ∈ q.fields, IsKept w.interpretation (e.aliases q) (e'.aliases q) f :=
    fun f hf => hfresh.isKept_of_meant hstore hfacts heval hmeant hf
  obtain ⟨goals, htransfers, hcompile⟩ := Query.exists_compile_eq e.config.compiler hkept
  have hwords := Find.isWord_of_parse hparse
  have hlegible := Query.isLegible_compile e.config.compiler (e.aliases q) hwords
  have hlegible' := Query.isLegible_compile e.config.compiler (e'.aliases q) hwords
  obtain ⟨warnings, hquery'⟩ := e'.query_of_parse hparse
  rw [hconfig] at hquery'
  rw [hcompile] at hquery' hlegible'
  have hlimit' : (q.compile e.config.compiler (e.aliases q)).limit = none := by
    rw [Find.Compile.compile_eq]
    exact hlimit
  generalize q.compile e.config.compiler (e.aliases q) = c at *
  -- the same rules are evaluated, for the goals mention the same relations
  have hneeded : e.program.rulesFor c.query = e.program.rulesFor ⟨goals, c.query.answer⟩ := by
    unfold Program.rulesFor GoalQuery.derivedNames
    rw [htransfers.references]
  obtain ⟨a', w', heval'⟩ :=
    hvalid.exists_evaluateIn e'.store .empty ⟨goals, c.query.answer⟩
  have hbelow := Program.below_evaluateIn_of_rulesFor_eq hneeded hrules hfacts hlinks hlacks heval
    heval'
  have hanswer : c.query.answer = GoalQuery.answer ⟨goals, c.query.answer⟩ := rfl
  have hwithin : a.Within a' := by
    refine Program.within_of_yieldsEach_of_answer_eq hanswer heval heval'
      (hbelow.lacks _ (by decide)) (hbelow.lacks' _ (by decide)) hlegible hlegible' fun b hb => ?_
    exact htransfers.yields hbelow.covers (.refl _) hb
  rw [answer, hprogram, Program.evaluate_eq_ok.2 ⟨w', heval'⟩] at hquery'
  refine ⟨_, hquery', hcolumns.symm, ?_⟩
  rintro m ⟨row, hrow, rfl⟩
  rw [hrows] at hrow
  rw [hcolumns]
  obtain ⟨b, hb, hrecord⟩ := (Find.Compiled.exists_row_iff hlimit').1 ⟨row, hrow, rfl⟩
  obtain ⟨d, hd, hsame⟩ := hwithin b hb
  rw [hrecord, Find.Compiled.record_congr hsame]
  exact (Find.Compiled.exists_row_iff (c := { c with query := ⟨goals, c.query.answer⟩ }) hlimit').2
    ⟨d, hd, rfl⟩

section Calls

variable (config : EngineConfig) (calls : List EngineCall)

/-- What a new engine stores in a sequence of calls. -/
theorem store_performAll : ((empty config).performAll calls).store =
    (Store.empty config.catalog).performAll (calls.flatMap (·.storeCalls)) :=
  congrArg (·.store) ((empty config).uncached_performAll calls)

/-- The program of a new engine after a sequence of calls. -/
theorem program_performAll : ((empty config).performAll calls).program =
    (Program.empty config.evaluator).performAll (calls.flatMap (·.ruleCalls)) :=
  congrArg (·.program) ((empty config).uncached_performAll calls)

/-- The store of a new engine is indexed whatever is called. -/
theorem isIndexed_performAll : ((empty config).performAll calls).store.IsIndexed := by
  rw [store_performAll, Store.performAll_eq]
  exact ((Store.isIndexed_empty _).addFacts _).addLinks _

/-- The program of a new engine is valid whatever is called. -/
theorem isValid_performAll : ((empty config).performAll calls).program.IsValid := by
  rw [program_performAll]
  exact (Program.isValid_empty _).performAll _

end Calls

/-- The query for the titles of posts. -/
def postTitles : Query where
  entityType := "post"
  var := "p"
  clause := none
  returns := [⟨"p", ["title"]⟩]
  sortField := none
  limit := none

/-- Two passes, and attributes are resolved. -/
def resolvingConfig : EngineConfig := ⟨Program.twoPasses, .default, .default, true⟩

/-- A rule is added, and a post with a title, whose attribute has a capital letter. -/
def titledCalls : List EngineCall :=
  [.rule (Program.nullRule "p"),
    .add (.facts [.ofType "p1" "post", ⟨"p1", "Title", .text "Hello"⟩])]

theorem parse_postTitles : Query.parse "FIND post AS ?p RETURN ?p.title" = .ok postTitles := rfl

/-- The rule is monotone. -/
theorem isMonotone_nullRule (name : String) : (Program.nullRule name).IsMonotone where
  isPositive := List.forall_mem_nil _
  isLegible := List.forall_mem_nil _
  lacks c _ a ha := by
    have hnull : a = .null := by simpa [Program.nullRule] using ha
    rw [hnull]
    trivial

/-- The program after calls that add the rule. -/
theorem program_of_nullRule (calls : List EngineCall)
    (hrules : calls.flatMap (·.ruleCalls) = [.one (Program.nullRule "p")]) :
    ((empty resolvingConfig).performAll calls).program = Program.nullProgram "p" := by
  rw [program_performAll, hrules]
  exact Program.performAll_nullRule "p"

/-- After calls that add no other rule the titles of posts are asked for: there is a row if some
post has a value for the attribute that is meant. -/
theorem exists_query_postTitles (calls : List EngineCall)
    (hrules : calls.flatMap (·.ruleCalls) = [.one (Program.nullRule "p")])
    (hlacks : ∀ c ∈ separators, ((empty resolvingConfig).performAll calls).store.Lacks c) :
    ∃ o, (((empty resolvingConfig).performAll calls).query
        "FIND post AS ?p RETURN ?p.title").1 = .ok o ∧
      (o.records.Nonempty ↔ ∃ entity v,
        Fact.ofType entity "post" ∈
          ((empty resolvingConfig).performAll calls).store.facts.toList ∧
        ⟨entity, ((empty resolvingConfig).performAll calls).attrFor "title", v⟩ ∈
          ((empty resolvingConfig).performAll calls).store.facts.toList) := by
  have hkeeps : ((empty resolvingConfig).performAll calls).program.KeepsFacts := by
    rw [program_of_nullRule calls hrules]
    exact .inr (List.forall_mem_singleton.2 (by decide))
  have hvalid := isValid_performAll resolvingConfig calls
  generalize (empty resolvingConfig).performAll calls = e at *
  have hplain : postTitles.IsPlain := by
    constructor <;> simp [postTitles, Query.conditions]
  obtain ⟨w, hw, hrecords⟩ := e.exists_records_query hvalid
  replace hw := hw hkeeps
  have hunit := hlacks (Char.ofNat 0x1F) (by decide)
  obtain ⟨o, hquery, ho⟩ := hrecords _ _ parse_postTitles hplain
  replace ho := ho rfl (.inl (WorkingSet.lacks_of_tuples_eq hw
    (hlacks (Char.ofNat 0x1E) (by decide))))
  have hlooked : lookedUp? (e.aliases postTitles) ⟨"p", ["title"]⟩ = some (e.attrFor "title") :=
    e.lookedUp?_aliases (by decide)
  refine ⟨o, hquery, ?_⟩
  rw [ho]
  constructor
  · rintro ⟨m, x, hx, hm⟩
    obtain ⟨entity, rfl, htype⟩ := (WorkingSet.isOfType_iff hunit hw).1 hx.isOfType
    obtain ⟨v, hv, -⟩ := hm.column ⟨"p", ["title"]⟩ (by decide)
    rw [hlooked] at hv
    exact ⟨entity, v, htype, WorkingSet.shows_of_shows hw hv⟩
  · rintro ⟨entity, v, htype, htitle⟩
    have hfinds : postTitles.FindsAt w e.config.compiler.orMode (e.aliases postTitles)
        (.text entity) := by
      refine ⟨(WorkingSet.isOfType_iff hunit hw).2 ⟨entity, rfl, htype⟩, ?_, ?_⟩
      · simp [postTitles]
      · simp [postTitles]
    have hshown : e.store.Shows entity (some (e.attrFor "title")) v := htitle
    obtain ⟨v', -, hv'⟩ := WorkingSet.exists_shows_of_shows hunit hw hshown
    obtain ⟨m, hm⟩ := Query.exists_describesAt w (e.aliases postTitles) hplain
      (List.forall_mem_singleton.2 ⟨v', hlooked ▸ hv'⟩)
    exact ⟨m, _, hfinds, hm⟩

/-- No text of the post or of its title holds a separator, and none of what is added if that has
none. -/
theorem lacks_titledCalls (attr value : String) (hattr : ∀ c ∈ separators, c ∉ attr.toList)
    (hvalue : ∀ c ∈ separators, c ∉ value.toList) :
    (∀ c ∈ separators, ((empty resolvingConfig).performAll titledCalls).store.Lacks c) ∧
      ∀ c ∈ separators, ((empty resolvingConfig).performAll
        (titledCalls ++ [.query "FIND post AS ?p RETURN ?p.title",
          .add (.facts [⟨"p2", attr, .text value⟩])])).store.Lacks c := by
  have hlacks : ∀ c ∈ separators, ((empty resolvingConfig).performAll
        (titledCalls ++ [.query "FIND post AS ?p RETURN ?p.title",
          .add (.facts [⟨"p2", attr, .text value⟩])])).store.Lacks c := by
    intro c hc
    have hattr := hattr c hc
    have hvalue := hvalue c hc
    simp only [separators, List.mem_cons, List.not_mem_nil, or_false] at hc
    rw [store_performAll]
    constructor <;>
      simp [titledCalls, EngineCall.storeCalls, Store.performAll, Store.perform, Store.addFacts,
        Store.addFact, Store.empty, Tuple.Lacks, Atom.Lacks, Fact.toTuple, Fact.ofType,
        typeAttribute, hattr, hvalue]
    rcases hc with rfl | rfl <;> decide
  refine ⟨fun c hc => ⟨fun f hf => (hlacks c hc).facts f ?_, fun l hl => ?_⟩, hlacks⟩
  · rw [store_performAll] at hf ⊢
    exact List.mem_append_left [_] hf
  · rw [store_performAll] at hl
    exact absurd hl List.not_mem_nil

/-- The attribute with the capital letter is meant as long as no fact has one that is written as in
the query. -/
theorem attrFor_titledCalls (calls : List EngineCall)
    (hmem : "Title" ∈ ((empty resolvingConfig).performAll calls).store.facts.toList.map (·.attr))
    (hother : ∀ other ∈ ((empty resolvingConfig).performAll calls).store.facts.toList.map (·.attr),
      other = "type" ∨ other = "Title") :
    ((empty resolvingConfig).performAll calls).attrFor "title" = "Title" := by
  have hresolve : ((empty resolvingConfig).performAll calls).config.resolveAttributes = true :=
    congrArg (·.config.resolveAttributes) ((empty resolvingConfig).uncached_performAll calls)
  refine ((isFresh_empty _).performAll calls).attrFor_eq_of_case (isIndexed_performAll _ calls)
    hresolve hmem (by decide) fun other h => ?_
  rcases hother other h with rfl | rfl <;> decide

/-- The attribute with the capital letter is meant at first, and there is a row for the title. -/
theorem exists_query_titledCalls :
    ((empty resolvingConfig).performAll titledCalls).attrFor "title" = "Title" ∧
    ∃ o, (((empty resolvingConfig).performAll titledCalls).query
        "FIND post AS ?p RETURN ?p.title").1 = .ok o ∧ o.records.Nonempty := by
  have hmeant : ((empty resolvingConfig).performAll titledCalls).attrFor "title" = "Title" := by
    refine attrFor_titledCalls _ ?_ ?_ <;> rw [store_performAll] <;> decide
  obtain ⟨o, hquery, hrows⟩ := exists_query_postTitles titledCalls rfl
    (lacks_titledCalls "Title" "Bye" (by simp [separators]) (by simp [separators])).1
  refine ⟨hmeant, o, hquery, hrows.2 ⟨"p1", .text "Hello", ?_⟩⟩
  rw [hmeant, store_performAll]
  decide

end Engine

end Factbase
