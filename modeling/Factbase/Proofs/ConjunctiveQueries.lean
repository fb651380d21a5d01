import Factbase.Proofs.QueryMeaning

/-! # The meaning of conjunctive queries

Where OR means AND and attributes are not resolved, a plain query without limit returns what can be
read off the facts of the store (`Engine.records_query_conjunctive`): for every entity of the type
that has for each condition a value which passes its test, and a value to sort by, the maps from
columns to values of the entity. -/

namespace Factbase

namespace Find

/-- A condition does not tell values apart that are written alike. -/
theorem Condition.accepts_congr {c : Condition} {var : String} (hplain : c.IsPlain var)
    {v v' : Atom} (h : v.canonical = v'.canonical) : c.accepts v = c.accepts v' := by
  obtain ⟨f, predicate, values, -, -, -, -, haccepts⟩ := Compile.conditionGoals_eq [] hplain
  have hvalues : (v :: values).map Atom.canonical = (v' :: values).map Atom.canonical := by
    rw [List.map_cons, List.map_cons, h]
  rw [← haccepts, ← haccepts, Filter.passesOf, Filter.passesOf,
    Filter.holdsOf_congr predicate hvalues]

namespace Query

/-- The fields that are columns: those to return, or the variable where none are given, and those
whose text is matched. -/
def HasColumn (q : Query) (f : Field) : Prop :=
  f ∈ q.returns ∨ (q.returns = [] ∧ f = ⟨q.var, []⟩) ∨
    ∃ body flags, Condition.matching f body flags ∈ q.conditions

/-- An entity is found by a conjunctive query: a fact gives it the type, for each condition it has a
value that passes the test, and it has a value to sort by, unless that is a column. -/
structure Finds (s : Store) (q : Query) (entity : String) : Prop where
  isOfType : Fact.ofType entity q.entityType ∈ s.facts.toList
  tests : ∀ c ∈ q.conditions,
    ∃ f v, c.field? = some f ∧ s.Shows entity f.attr? v ∧ c.accepts v = true
  sorted : ∀ key, q.sortField = some key → (∀ f, q.HasColumn f → f.display ≠ key.field.display) →
    ∃ v, s.Shows entity key.field.attr? v

/-- A map from columns to canonical texts describes an entity: each column has one of its values. -/
structure Describes (s : Store) (q : Query) (entity : String) (m : String → Option String) :
    Prop where
  column : ∀ f, q.HasColumn f →
    ∃ v, s.Shows entity f.attr? v ∧ m f.display = some v.canonical
  other : ∀ name, (∀ f, q.HasColumn f → f.display ≠ name) → m name = none

variable {s : Store} {w : WorkingSet} {q : Query} {entity : String} {m : String → Option String}

theorem mem_outputFields_iff {f : Field} : f ∈ Compile.outputFields q ↔ q.HasColumn f := by
  rw [Compile.mem_outputFields, HasColumn, or_assoc]

/-- Without aliases a field is looked up under its attribute. -/
theorem lookedUp?_nil (f : Field) : Compile.lookedUp? [] f = f.attr? := by
  simp [Compile.lookedUp?]

/-- The entities that a query finds over the facts of a store. -/
theorem findsAt_iff (hs : s.Lacks (Char.ofNat 0x1F))
    (hw : w.tuples attrRelation = (WorkingSet.ofStore s).tuples attrRelation) (hplain : q.IsPlain)
    {x : Atom} :
    q.FindsAt w .conjunctive [] x ↔ ∃ entity, x = .text entity ∧ q.Finds s entity := by
  have hclause : (∀ c, q.clause = some c → c.Meets .conjunctive (·.HoldsAt w [] x)) ↔
      ∀ c ∈ q.conditions, c.HoldsAt w [] x := by
    unfold conditions
    cases q.clause <;> simp [Clause.meets_conjunctive]
  have hcolumns : ∀ name, (∃ f ∈ Compile.outputFields q, f.display = name) ↔
      ¬ ∀ f, q.HasColumn f → f.display ≠ name := by
    intro name
    simp [mem_outputFields_iff]
  constructor
  · rintro ⟨htype, hmeets, hsorted⟩
    obtain ⟨entity, rfl, hf⟩ := (WorkingSet.isOfType_iff hs hw).1 htype
    refine ⟨entity, rfl, hf, fun c hc => ?_, fun key hkey hnone => ?_⟩
    · obtain ⟨f, v, hfield, hshows, haccepts⟩ := hclause.1 hmeets c hc
      rw [lookedUp?_nil] at hshows
      exact ⟨f, v, hfield, WorkingSet.shows_of_shows hw hshows, haccepts⟩
    · obtain ⟨v, hshows⟩ := (hsorted key hkey).resolve_left fun h => (hcolumns _).1 h hnone
      rw [lookedUp?_nil] at hshows
      exact ⟨v, WorkingSet.shows_of_shows hw hshows⟩
  · rintro ⟨entity, rfl, hf, htests, hsorted⟩
    refine ⟨(WorkingSet.isOfType_iff hs hw).2 ⟨entity, rfl, hf⟩, hclause.2 fun c hc => ?_,
      fun key hkey => ?_⟩
    · obtain ⟨f, v, hfield, hshows, haccepts⟩ := htests c hc
      obtain ⟨v', hsame, hshows'⟩ := WorkingSet.exists_shows_of_shows hs hw hshows
      refine ⟨f, v', hfield, by rwa [lookedUp?_nil], ?_⟩
      rw [Condition.accepts_congr (hplain.conditions c hc) hsame, haccepts]
    · rw [hcolumns, or_iff_not_imp_left, not_not]
      intro hnone
      obtain ⟨v, hshows⟩ := hsorted key hkey hnone
      obtain ⟨v', -, hshows'⟩ := WorkingSet.exists_shows_of_shows hs hw hshows
      exact ⟨v', by rwa [lookedUp?_nil]⟩

/-- The maps that describe an entity over the facts of a store. -/
theorem describesAt_iff (hs : s.Lacks (Char.ofNat 0x1F))
    (hw : w.tuples attrRelation = (WorkingSet.ofStore s).tuples attrRelation) :
    q.DescribesAt w [] (.text entity) m ↔ q.Describes s entity m := by
  constructor
  · rintro ⟨hcolumn, hother⟩
    refine ⟨fun f hf => ?_, fun name hname =>
      hother name fun f hf => hname f (mem_outputFields_iff.1 hf)⟩
    obtain ⟨v, hshows, hm⟩ := hcolumn f (mem_outputFields_iff.2 hf)
    rw [lookedUp?_nil] at hshows
    exact ⟨v, WorkingSet.shows_of_shows hw hshows, hm⟩
  · rintro ⟨hcolumn, hother⟩
    refine ⟨fun f hf => ?_, fun name hname =>
      hother name fun f hf => hname f (mem_outputFields_iff.2 hf)⟩
    obtain ⟨v, hshows, hm⟩ := hcolumn f (mem_outputFields_iff.1 hf)
    obtain ⟨v', hsame, hshows'⟩ := WorkingSet.exists_shows_of_shows hs hw hshows
    exact ⟨v', by rwa [lookedUp?_nil], hsame ▸ hm⟩

end Query

end Find

namespace Engine

open Find (Query)

/-- A conjunctive query returns what the facts say. Where no rule that is evaluated derives facts,
attributes are looked up as they are written, without being resolved to known ones, and no text of
the store holds a separator, a text that is read as a plain query without limit is answered, and as
maps from columns to canonical texts the rows are exactly those that describe an entity which the
query finds. -/
theorem records_query_conjunctive (e : Engine) (settings : Settings) (calls : List RuleCall)
    (hprogram : e.program = (Program.empty settings).performAll calls)
    (hfacts : e.program.KeepsFacts) (hmode : e.config.compiler.orMode = .conjunctive)
    (hresolve : e.config.resolveAttributes = false) (hs : ∀ c ∈ separators, e.store.Lacks c)
    {text : String} {q : Query} (hparse : Query.parse text = .ok q) (hplain : q.IsPlain)
    (hlimit : q.limit = none) :
    ∃ o, (e.query text).1 = .ok o ∧
      o.records = {m | ∃ entity, q.Finds e.store entity ∧ q.Describes e.store entity m} := by
  have hp : e.program.IsValid := by
    rw [hprogram]
    exact (Program.isValid_empty settings).performAll calls
  have hunit : e.store.Lacks (Char.ofNat 0x1F) := hs _ (by decide)
  obtain ⟨w, hw, hrecords⟩ := e.exists_records_query hp
  replace hw := hw hfacts
  have hlacks := WorkingSet.lacks_of_tuples_eq hw (hs (Char.ofNat 0x1E) (by decide))
  have haliases : e.aliases q = [] := by
    rw [aliases, hresolve]
    rfl
  obtain ⟨o, hquery, ho⟩ := hrecords text q hparse hplain
  replace ho := ho hlimit (.inl hlacks)
  rw [haliases, hmode] at ho
  refine ⟨o, hquery, ho.trans (Set.ext fun m => ⟨?_, ?_⟩)⟩
  · rintro ⟨x, hx, hm⟩
    obtain ⟨entity, rfl, hfinds⟩ := (Query.findsAt_iff hunit hw hplain).1 hx
    exact ⟨entity, hfinds, (Query.describesAt_iff hunit hw).1 hm⟩
  · rintro ⟨entity, hfinds, hm⟩
    exact ⟨_, (Query.findsAt_iff hunit hw hplain).2 ⟨entity, rfl, hfinds⟩,
      (Query.describesAt_iff hunit hw).2 hm⟩

/-- A post with two colours and no name. -/
def colouredStore : Store :=
  (Store.empty .default).addFacts
    [.ofType "p1" "post", ⟨"p1", "color", .text "red"⟩, ⟨"p1", "color", .text "blue"⟩]

/-- No text of the store holds a separator. -/
theorem lacks_colouredStore : ∀ c ∈ separators, colouredStore.Lacks c := by
  simp only [separators, List.forall_mem_cons, List.not_mem_nil, false_implies, implies_true,
    and_true]
  constructor <;> constructor <;>
    simp [colouredStore, Store.addFacts, Store.addFact, Store.empty, Tuple.Lacks, Atom.Lacks,
      Fact.toTuple, Fact.ofType, typeAttribute]

/-- An engine with that store and a rule, which is evaluated for every query. -/
def colouredEngine : Engine :=
  ⟨⟨Program.twoPasses, .default, .default, false⟩, colouredStore, .nullProgram "p", none⟩

/-- The query for the red posts with their colours. -/
def redPosts : Query where
  entityType := "post"
  var := "p"
  clause := some (.condition (.compare ⟨"p", ["color"]⟩ .eq (.text "red")))
  returns := [⟨"p", []⟩, ⟨"p", ["color"]⟩]
  sortField := none
  limit := none

/-- A post that is found for one of its colours is returned with the other too. -/
theorem records_query_redPosts :
    ∃ o, (colouredEngine.query "FIND post AS ?p WHERE ?p.color = \"red\" RETURN ?p, ?p.color").1 =
        .ok o ∧
      ∃ m ∈ o.records, m "?p" = some "s:p1" ∧ m "?p.color" = some "s:blue" := by
  have hparse : Query.parse "FIND post AS ?p WHERE ?p.color = \"red\" RETURN ?p, ?p.color" =
      .ok redPosts := by decide +kernel
  have hprogram := Program.performAll_nullRule "p"
  have hfacts : (Program.nullProgram "p").KeepsFacts := by
    have hrule : Rule.parseAll "p(null, null, null)." = .ok [Program.nullRule "p"] := rfl
    rw [← hprogram]
    refine ((Program.isValid_empty _).performAll _).keepsFacts_of_isParsed ?_
    rw [hprogram]
    exact Program.isParsed_of_subset hrule (List.Subset.refl _)
  have hconditions : redPosts.conditions = [.compare ⟨"p", ["color"]⟩ .eq (.text "red")] := rfl
  have hplain : redPosts.IsPlain := by
    constructor
    · rw [hconditions, List.forall_mem_singleton]
      exact ⟨rfl, rfl⟩
    · simp [redPosts]
    · simp [redPosts]
  have hcolumn : ∀ f, redPosts.HasColumn f ↔ f = ⟨"p", []⟩ ∨ f = ⟨"p", ["color"]⟩ := by
    intro f
    rw [Query.HasColumn, hconditions]
    simp [redPosts]
  obtain ⟨o, hquery, ho⟩ := records_query_conjunctive colouredEngine Program.twoPasses _
    hprogram.symm hfacts rfl rfl lacks_colouredStore hparse hplain rfl
  refine ⟨o, hquery, ?_⟩
  rw [ho]
  refine ⟨fun name => if name = "?p" then some "s:p1" else
    if name = "?p.color" then some "s:blue" else none, ⟨"p1", ?_, ?_⟩, rfl, rfl⟩
  · constructor
    · decide
    · rw [hconditions, List.forall_mem_singleton]
      exact ⟨_, .text "red", rfl, show _ ∈ colouredStore.facts.toList by decide, rfl⟩
    · simp [redPosts]
  · constructor
    · simp only [hcolumn, forall_eq_or_imp, forall_eq]
      exact ⟨⟨.text "p1", rfl, rfl⟩, .text "blue",
        show _ ∈ colouredStore.facts.toList by decide, rfl⟩
    · intro name hname
      have hvar : "?p" ≠ name := hname ⟨"p", []⟩ ((hcolumn _).2 (.inl rfl))
      have hcolor : "?p.color" ≠ name := hname ⟨"p", ["color"]⟩ ((hcolumn _).2 (.inr rfl))
      rw [if_neg hvar.symm, if_neg hcolor.symm]

end Engine

end Factbase
