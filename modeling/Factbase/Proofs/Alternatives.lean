import Factbase.Proofs.ConjunctiveQueries

/-! # Queries with alternatives

Where OR means either, a query for the entities that meet one of two clauses returns what the
queries for each clause return together, with one exception: fields whose text is matched are
columns, so an entity is only returned if it has a value in all of them, those of the other clause
too (`Engine.values_query_either`). -/

namespace Factbase

open Find (Clause Query)

namespace Find

/-- The clause matches the text of a field. -/
def Clause.Matches (c : Clause) (f : Field) : Prop :=
  ∃ body flags, Condition.matching f body flags ∈ c.conditions

/-- An entity shows a value that passes the test, in the attribute that is meant by the field. -/
def Condition.HoldsFor (w : WorkingSet) (attrFor : String → String) (x : Atom) (c : Condition) :
    Prop :=
  ∃ f v, c.field? = some f ∧ w.Shows x (f.attr?.map attrFor) v ∧ c.accepts v = true

/-- An entity is found for a clause: it has the type, meets the clause, where OR means either, and
has a value in each field whose text is matched. -/
structure Clause.Finds (w : WorkingSet) (attrFor : String → String) (entityType : String)
    (c : Clause) (x : Atom) : Prop where
  isOfType : w.IsOfType x entityType
  meets : c.Meets .disjunctive fun condition => ∃ f v, condition.field? = some f ∧
    w.Shows x (f.attr?.map attrFor) v ∧ condition.accepts v = true
  columns : ∀ f, c.Matches f → ∃ v, w.Shows x (f.attr?.map attrFor) v

namespace Clause

variable {a b c : Clause} {f : Field}

/-- Meeting a clause depends on its conditions only. -/
theorem meets_congr {mode : OrMode} {met met' : Condition → Prop}
    (h : ∀ condition ∈ c.conditions, (met condition ↔ met' condition)) :
    c.Meets mode met ↔ c.Meets mode met' := by
  induction c with
  | both left right hleft hright =>
    rw [conditions, List.forall_mem_append] at h
    exact and_congr (hleft h.1) (hright h.2)
  | either left right hleft hright =>
    rw [conditions, List.forall_mem_append] at h
    cases mode
    · exact and_congr (hleft h.1) (hright h.2)
    · exact or_congr (hleft h.1) (hright h.2)
  | condition condition => exact h condition List.mem_cons_self

theorem matches_either : (either a b).Matches f ↔ a.Matches f ∨ b.Matches f := by
  simp only [Matches, conditions, List.mem_append, exists_or]

/-- What is found for an alternative is found for one of the clauses and has a value in each field
whose text one of the clauses matches. -/
theorem finds_either {w : WorkingSet} {attrFor : String → String} {entityType : String} {x : Atom} :
    (either a b).Finds w attrFor entityType x ↔
      (a.Finds w attrFor entityType x ∨ b.Finds w attrFor entityType x) ∧
        ∀ f, (either a b).Matches f → ∃ v, w.Shows x (f.attr?.map attrFor) v := by
  constructor
  · rintro ⟨htype, hmeets | hmeets, hcolumns⟩
    · exact ⟨.inl ⟨htype, hmeets, fun f hf => hcolumns f (matches_either.2 (.inl hf))⟩, hcolumns⟩
    · exact ⟨.inr ⟨htype, hmeets, fun f hf => hcolumns f (matches_either.2 (.inr hf))⟩, hcolumns⟩
  · rintro ⟨hfinds | hfinds, hcolumns⟩
    · exact ⟨hfinds.isOfType, .inl hfinds.meets, hcolumns⟩
    · exact ⟨hfinds.isOfType, .inr hfinds.meets, hcolumns⟩

end Clause

namespace Query

/-- The query for the entities of a type that meet a clause. -/
def ofClause (entityType var : String) (c : Clause) : Query :=
  ⟨entityType, var, some c, [⟨var, []⟩], none, none⟩

variable {w : WorkingSet} {aliases : Aliases} {attrFor : String → String} {entityType var : String}
  {c : Clause} {x : Atom} {f : Field}

theorem isPlain_ofClause (entityType : String)
    (h : ∀ condition ∈ c.conditions, condition.IsPlain var) : (ofClause entityType var c).IsPlain :=
  ⟨h, List.forall_mem_singleton.2 rfl, fun _ hkey => absurd hkey (Option.some_ne_none _).symm⟩

theorem mem_outputFields_ofClause :
    f ∈ Compile.outputFields (ofClause entityType var c) ↔ f = ⟨var, []⟩ ∨ c.Matches f := by
  simp [Compile.mem_outputFields, ofClause, Clause.Matches, conditions]

/-- The fields of conditions are fields of the query. -/
theorem mem_fields_ofClause {condition : Condition} (hcondition : condition ∈ c.conditions)
    (hf : condition.field? = some f) : f ∈ (ofClause entityType var c).fields :=
  List.mem_append_left _ (List.mem_append_left _ (List.mem_filterMap.2 ⟨condition, hcondition, hf⟩))

/-- A clause asks the same of the attributes that are meant and of those that are looked up. -/
theorem meets_holdsAt_iff {mode : OrMode}
    (haliases : ∀ f ∈ (ofClause entityType var c).fields,
      Compile.lookedUp? aliases f = f.attr?.map attrFor) :
    c.Meets mode (·.HoldsAt w aliases x) ↔ c.Meets mode (·.HoldsFor w attrFor x) := by
  refine Clause.meets_congr fun condition hcondition => exists_congr fun f => ?_
  refine exists_congr fun v => and_congr_right fun hf => ?_
  rw [haliases f (mem_fields_ofClause hcondition hf)]

/-- An entity is found for a clause if the query finds it and some map describes it. -/
theorem finds_iff (hplain : (ofClause entityType var c).IsPlain)
    (haliases : ∀ f ∈ (ofClause entityType var c).fields,
      Compile.lookedUp? aliases f = f.attr?.map attrFor) :
    c.Finds w attrFor entityType x ↔
      (ofClause entityType var c).FindsAt w .disjunctive aliases x ∧
        ∃ m, (ofClause entityType var c).DescribesAt w aliases x m := by
  have hmeets : c.Meets .disjunctive (·.HoldsAt w aliases x) ↔
      c.Meets .disjunctive (·.HoldsFor w attrFor x) := meets_holdsAt_iff haliases
  have hmatched : ∀ f, c.Matches f → Compile.lookedUp? aliases f = f.attr?.map attrFor :=
    fun f ⟨_, _, hcondition⟩ => haliases f (mem_fields_ofClause hcondition rfl)
  constructor
  · rintro ⟨htype, hclause, hcolumns⟩
    refine ⟨⟨htype, fun c' hc' => ?_, fun key hkey => absurd hkey (Option.some_ne_none _).symm⟩,
      exists_describesAt w aliases hplain fun f hf => ?_⟩
    · obtain rfl := Option.some.inj hc'
      exact hmeets.2 hclause
    · rcases mem_outputFields_ofClause.1 hf with rfl | hf
      · exact ⟨x, rfl⟩
      · rw [hmatched f hf]
        exact hcolumns f hf
  · rintro ⟨⟨htype, hclause, -⟩, m, hm⟩
    refine ⟨htype, hmeets.1 (hclause c rfl), fun f hf => ?_⟩
    obtain ⟨v, hv, -⟩ := hm.column f (mem_outputFields_ofClause.2 (.inr hf))
    exact ⟨v, hmatched f hf ▸ hv⟩

/-- The column of the variable has the entity. -/
theorem DescribesAt.var_column {m : String → Option String}
    (h : (ofClause entityType var c).DescribesAt w aliases x m) :
    m ("?" ++ var) = some x.canonical := by
  obtain ⟨v, rfl, hm⟩ := h.column ⟨var, []⟩ (mem_outputFields_ofClause.2 (.inl rfl))
  exact hm

end Query

end Find

namespace Engine

/-- Over the one working set that is saturated for a store, the queries for the entities that meet a
clause are answered with those that are found for it. Where the text of an attribute is matched, the
facts have to lack the separator. -/
theorem exists_values_query (e : Engine) (hp : e.program.IsValid)
    (hmode : e.config.compiler.orMode = .disjunctive) :
    ∃ w : WorkingSet,
      (e.program.KeepsFacts →
        w.tuples attrRelation = (WorkingSet.ofStore e.store).tuples attrRelation) ∧
      ∀ text entityType var c, Query.parse text = .ok (.ofClause entityType var c) →
        (∀ condition ∈ c.conditions, condition.IsPlain var) →
        ∃ o, (e.query text).1 = .ok o ∧
          ((∀ t ∈ w.tuples attrRelation, t.Lacks (Char.ofNat 0x1E)) ∨
            (∀ f, c.Matches f → f.attr? = none) →
          o.values ("?" ++ var) =
            {value | ∃ x, c.Finds w e.attrFor entityType x ∧ x.canonical = value}) := by
  obtain ⟨w, hfacts, hrecords⟩ := e.exists_records_query hp
  refine ⟨w, hfacts, fun text entityType var c hparse hconditions => ?_⟩
  have hplain := Query.isPlain_ofClause entityType hconditions
  have hfinds := fun x =>
    Query.finds_iff (w := w) (x := x) hplain fun f hf => e.lookedUp?_aliases hf
  obtain ⟨o, hquery, ho⟩ := hrecords text _ hparse hplain
  refine ⟨o, hquery, fun hcolumns => ?_⟩
  replace ho := ho rfl <| hcolumns.imp_right fun hnone => ⟨fun f hf => ?_, rfl⟩
  · rw [hmode] at ho
    ext value
    rw [QueryOutput.mem_values_iff, ho]
    constructor
    · rintro ⟨m, ⟨x, hx, hm⟩, hvalue⟩
      exact ⟨x, (hfinds x).2 ⟨hx, m, hm⟩, Option.some.inj (hm.var_column.symm.trans hvalue)⟩
    · rintro ⟨x, hx, rfl⟩
      obtain ⟨hx, m, hm⟩ := (hfinds x).1 hx
      exact ⟨m, ⟨x, hx, hm⟩, hm.var_column⟩
  · rcases Query.mem_outputFields_ofClause.1 hf with rfl | hf
    · rfl
    · exact hnone f hf

/-- Over that working set, the queries for two clauses together return what is found for one of
them, and the query for either returns what of this has a value in each field whose text is
matched. -/
theorem exists_values_either (e : Engine) (hp : e.program.IsValid)
    (hmode : e.config.compiler.orMode = .disjunctive) {left right either entityType var : String}
    {a b : Clause} (hleft : Query.parse left = .ok (.ofClause entityType var a))
    (hright : Query.parse right = .ok (.ofClause entityType var b))
    (heither : Query.parse either = .ok (.ofClause entityType var (.either a b)))
    (hplain : ∀ condition ∈ (Clause.either a b).conditions, condition.IsPlain var) :
    ∃ w : WorkingSet, ∃ o₁ o₂ o,
      (e.program.KeepsFacts →
        w.tuples attrRelation = (WorkingSet.ofStore e.store).tuples attrRelation) ∧
      (e.query left).1 = .ok o₁ ∧ (e.query right).1 = .ok o₂ ∧ (e.query either).1 = .ok o ∧
      ((∀ t ∈ w.tuples attrRelation, t.Lacks (Char.ofNat 0x1E)) ∨
          (∀ f, (Clause.either a b).Matches f → f.attr? = none) →
        (∀ value, value ∈ o₁.values ("?" ++ var) ∪ o₂.values ("?" ++ var) ↔
          ∃ x, (a.Finds w e.attrFor entityType x ∨ b.Finds w e.attrFor entityType x) ∧
            x.canonical = value) ∧
        ∀ value, value ∈ o.values ("?" ++ var) ↔
          ∃ x, (a.Finds w e.attrFor entityType x ∨ b.Finds w e.attrFor entityType x) ∧
            (∀ f, (Clause.either a b).Matches f → ∃ v, w.Shows x (f.attr?.map e.attrFor) v) ∧
            x.canonical = value) := by
  obtain ⟨w, hw, hvalues⟩ := e.exists_values_query hp hmode
  rw [Clause.conditions, List.forall_mem_append] at hplain
  obtain ⟨o₁, hquery₁, ho₁⟩ := hvalues _ _ _ _ hleft hplain.1
  obtain ⟨o₂, hquery₂, ho₂⟩ := hvalues _ _ _ _ hright hplain.2
  obtain ⟨o, hquery, ho⟩ := hvalues _ _ _ _ heither (List.forall_mem_append.2 hplain)
  refine ⟨w, o₁, o₂, o, hw, hquery₁, hquery₂, hquery, fun hcolumns => ?_⟩
  rw [ho₁ (hcolumns.imp_right fun hnone f hf => hnone f (Clause.matches_either.2 (.inl hf))),
    ho₂ (hcolumns.imp_right fun hnone f hf => hnone f (Clause.matches_either.2 (.inr hf))),
    ho hcolumns]
  constructor
  · intro value
    simp only [or_and_right, exists_or]
    rfl
  · intro value
    simp only [← and_assoc, ← Clause.finds_either]
    rfl

/-- Where OR means either, alternatives return what their queries return together, less the entities
that lack a value in a field whose text is matched. The three query texts are answered by every
engine. Where the text of no attribute is matched, the values for the variable are exactly those for
one clause or the other. Else, as long as rules derive no facts and no text of the store holds a
separator, they are those of the entities among them that have a value in each field which one of
the clauses matches. -/
theorem values_query_either (e : Engine) (settings : Settings) (calls : List RuleCall)
    (hprogram : e.program = (Program.empty settings).performAll calls)
    (hmode : e.config.compiler.orMode = .disjunctive) {left right either entityType var : String}
    {a b : Clause} (hleft : Query.parse left = .ok (.ofClause entityType var a))
    (hright : Query.parse right = .ok (.ofClause entityType var b))
    (heither : Query.parse either = .ok (.ofClause entityType var (.either a b)))
    (hplain : ∀ condition ∈ (Clause.either a b).conditions, condition.IsPlain var) :
    ∃ o₁ o₂ o, (e.query left).1 = .ok o₁ ∧ (e.query right).1 = .ok o₂ ∧
      (e.query either).1 = .ok o ∧
      ((∀ f, (Clause.either a b).Matches f → f.attr? = none) →
        o.values ("?" ++ var) = o₁.values ("?" ++ var) ∪ o₂.values ("?" ++ var)) ∧
      (e.program.KeepsFacts → (∀ c ∈ separators, e.store.Lacks c) →
        o.values ("?" ++ var) =
          {value ∈ o₁.values ("?" ++ var) ∪ o₂.values ("?" ++ var) |
            ∃ entity, (Atom.text entity).canonical = value ∧ ∀ f, (Clause.either a b).Matches f →
              ∃ v, e.store.Shows entity (f.attr?.map e.attrFor) v}) := by
  have hp : e.program.IsValid := by
    rw [hprogram]
    exact (Program.isValid_empty settings).performAll calls
  obtain ⟨w, o₁, o₂, o, hw, hquery₁, hquery₂, hquery, hfound⟩ :=
    e.exists_values_either hp hmode hleft hright heither hplain
  refine ⟨o₁, o₂, o, hquery₁, hquery₂, hquery, fun hnone => ?_, fun hfacts hs => ?_⟩
  · obtain ⟨hunion, halternatives⟩ := hfound (.inr hnone)
    have hcolumns : ∀ (x : Atom) f, (Clause.either a b).Matches f →
        ∃ v, w.Shows x (f.attr?.map e.attrFor) v := by
      intro x f hf
      rw [hnone f hf]
      exact ⟨x, rfl⟩
    ext value
    rw [halternatives, hunion]
    exact exists_congr fun x => and_congr_right fun _ => and_iff_right (hcolumns x)
  · have hunit : e.store.Lacks (Char.ofNat 0x1F) := hs _ (by decide)
    replace hw := hw hfacts
    have hlacks := WorkingSet.lacks_of_tuples_eq hw (hs (Char.ofNat 0x1E) (by decide))
    obtain ⟨hunion, halternatives⟩ := hfound (.inl hlacks)
    ext value
    rw [halternatives, Set.mem_sep_iff, hunion]
    constructor
    · rintro ⟨x, hx, hcolumns, rfl⟩
      obtain ⟨entity, rfl, -⟩ :=
        (WorkingSet.isOfType_iff hunit hw).1 (hx.elim (·.isOfType) (·.isOfType))
      refine ⟨⟨_, hx, rfl⟩, entity, rfl, fun f hf => ?_⟩
      exact (hcolumns f hf).imp fun v hv => WorkingSet.shows_of_shows hw hv
    · rintro ⟨⟨x, hx, hvalue⟩, entity, rfl, hcolumns⟩
      obtain rfl := Atom.eq_text_of_canonical_eq hvalue
      refine ⟨_, hx, fun f hf => ?_, rfl⟩
      obtain ⟨v, hv⟩ := hcolumns f hf
      obtain ⟨v', -, hv'⟩ := WorkingSet.exists_shows_of_shows hunit hw hv
      exact ⟨v', hv'⟩

/-- An engine with the post of two colours and without rules, where OR means either. -/
def alternativesEngine : Engine :=
  ⟨⟨.default, .default, ⟨.disjunctive⟩, false⟩, colouredStore, .empty .default, none⟩

/-- The condition on a post to have a colour. -/
def hasColour (colour : String) : Clause :=
  .condition (.compare ⟨"p", ["color"]⟩ .eq (.text colour))

/-- The condition on a post to have an x in its name. -/
def hasNameWithX : Clause := .condition (.matching ⟨"p", ["name"]⟩ "x" "")

theorem parse_hasNameWithX : Query.parse "FIND post AS ?p WHERE ?p.name MATCHES /x/ RETURN ?p" =
    .ok (.ofClause "post" "p" hasNameWithX) := by decide +kernel

theorem parse_hasColour_red : Query.parse "FIND post AS ?p WHERE ?p.color = \"red\" RETURN ?p" =
    .ok (.ofClause "post" "p" (hasColour "red")) := by decide +kernel

theorem parse_either : Query.parse
      "FIND post AS ?p WHERE (?p.name MATCHES /x/) OR (?p.color = \"red\") RETURN ?p" =
    .ok (.ofClause "post" "p" (.either hasNameWithX (hasColour "red"))) := by decide +kernel

/-- The conditions are on the post. -/
theorem isPlain_either : ∀ condition ∈ (Clause.either hasNameWithX (hasColour "red")).conditions,
    condition.IsPlain "p" :=
  List.forall_mem_cons.2 ⟨rfl, List.forall_mem_singleton.2 ⟨rfl, rfl⟩⟩

/-- The post has no name. -/
theorem not_shows_name (v : Atom) : ¬ colouredStore.Shows "p1" (some "name") v := by
  intro h
  simp [Store.Shows, colouredStore, Store.addFacts, Store.addFact, Store.empty, Fact.ofType,
    typeAttribute] at h

/-- Posts of either of two colours are those of the one and those of the other. The post without
name is not returned where its name is matched, though an alternative is that it is red. -/
theorem values_query_colours :
    (∃ o₁ o₂ o,
      (alternativesEngine.query "FIND post AS ?p WHERE ?p.color = \"red\" RETURN ?p").1 = .ok o₁ ∧
      (alternativesEngine.query "FIND post AS ?p WHERE ?p.color = \"blue\" RETURN ?p").1 = .ok o₂ ∧
      (alternativesEngine.query
        "FIND post AS ?p WHERE (?p.color = \"red\") OR (?p.color = \"blue\") RETURN ?p").1 = .ok o ∧
      o.values "?p" = o₁.values "?p" ∪ o₂.values "?p") ∧
    ∃ o, (alternativesEngine.query
        "FIND post AS ?p WHERE (?p.name MATCHES /x/) OR (?p.color = \"red\") RETURN ?p").1 = .ok o ∧
      "s:p1" ∉ o.values "?p" := by
  constructor
  · have hblue : Query.parse "FIND post AS ?p WHERE ?p.color = \"blue\" RETURN ?p" =
        .ok (.ofClause "post" "p" (hasColour "blue")) := by decide +kernel
    have hcolours : Query.parse
        "FIND post AS ?p WHERE (?p.color = \"red\") OR (?p.color = \"blue\") RETURN ?p" =
        .ok (.ofClause "post" "p" (.either (hasColour "red") (hasColour "blue"))) := by
      decide +kernel
    obtain ⟨o₁, o₂, o, hquery₁, hquery₂, hquery, hunion, -⟩ :=
      values_query_either alternativesEngine .default [] rfl rfl parse_hasColour_red hblue hcolours
        (List.forall_mem_cons.2 ⟨⟨rfl, rfl⟩, List.forall_mem_singleton.2 ⟨rfl, rfl⟩⟩)
    refine ⟨o₁, o₂, o, hquery₁, hquery₂, hquery, hunion fun f hf => ?_⟩
    obtain ⟨body, flags, hcondition⟩ := hf
    simp [hasColour, Clause.conditions] at hcondition
  · obtain ⟨o₁, o₂, o, -, -, hquery, -, hvalues⟩ :=
      values_query_either alternativesEngine .default [] rfl rfl parse_hasNameWithX
        parse_hasColour_red parse_either isPlain_either
    refine ⟨o, hquery, fun hmem => ?_⟩
    rw [show "?p" = "?" ++ "p" from rfl, hvalues (.inl rfl) lacks_colouredStore] at hmem
    obtain ⟨-, entity, hentity, hcolumns⟩ := hmem
    obtain rfl : entity = "p1" := Atom.text.inj (Atom.eq_text_of_canonical_eq hentity)
    obtain ⟨v, hv⟩ := hcolumns ⟨"p", ["name"]⟩ ⟨"x", "", List.mem_cons_self⟩
    exact not_shows_name v hv

/-- The values for an alternative are not always those for one clause or the other. A red post
without name is returned for being red, and not for having an x in its name or being red, since its
name is a column. -/
theorem not_values_query_either :
    ¬ ∀ (e : Engine) (settings : Settings) (calls : List RuleCall),
      e.program = (Program.empty settings).performAll calls →
      e.config.compiler.orMode = .disjunctive →
      ∀ (left right either entityType var : String) (a b : Clause) (o₁ o₂ o : QueryOutput),
        Query.parse left = .ok (.ofClause entityType var a) →
        Query.parse right = .ok (.ofClause entityType var b) →
        Query.parse either = .ok (.ofClause entityType var (.either a b)) →
        (∀ condition ∈ (Clause.either a b).conditions, condition.IsPlain var) →
        (e.query left).1 = .ok o₁ → (e.query right).1 = .ok o₂ → (e.query either).1 = .ok o →
        o.values ("?" ++ var) = o₁.values ("?" ++ var) ∪ o₂.values ("?" ++ var) := by
  intro h
  obtain ⟨w, hw, hvalues⟩ :=
    alternativesEngine.exists_values_query (Program.isValid_empty .default) rfl
  replace hw := hw (.inl rfl)
  have hunit : colouredStore.Lacks (Char.ofNat 0x1F) := lacks_colouredStore _ (by decide)
  have hlacks :=
    WorkingSet.lacks_of_tuples_eq hw (lacks_colouredStore (Char.ofNat 0x1E) (by decide))
  have hplain := isPlain_either
  rw [Clause.conditions, List.forall_mem_append] at hplain
  obtain ⟨o₁, hquery₁, -⟩ := hvalues _ _ _ _ parse_hasNameWithX hplain.1
  obtain ⟨o₂, hquery₂, ho₂⟩ := hvalues _ _ _ _ parse_hasColour_red hplain.2
  obtain ⟨o, hquery, ho⟩ := hvalues _ _ _ _ parse_either isPlain_either
  have hunion := h alternativesEngine .default [] rfl rfl _ _ _ _ _ _ _ o₁ o₂ o parse_hasNameWithX
    parse_hasColour_red parse_either isPlain_either hquery₁ hquery₂ hquery
  -- the post is red
  have hred : "s:p1" ∈ o₂.values ("?" ++ "p") := by
    rw [ho₂ (.inl hlacks)]
    have hfact : colouredStore.Shows "p1" (some "color") (.text "red") :=
      show _ ∈ colouredStore.facts.toList by decide
    obtain ⟨v, hv, hshows⟩ := WorkingSet.exists_shows_of_shows hunit hw hfact
    obtain rfl := Atom.eq_text_of_canonical_eq hv
    refine ⟨.text "p1", ⟨(WorkingSet.isOfType_iff hunit hw).2 ⟨"p1", rfl, by decide⟩,
      ⟨_, .text "red", rfl, hshows, rfl⟩, fun f hf => ?_⟩, rfl⟩
    obtain ⟨body, flags, hcondition⟩ := hf
    simp [hasColour, Clause.conditions] at hcondition
  -- it has no name
  have hmissing : "s:p1" ∉ o.values ("?" ++ "p") := by
    rw [ho (.inl hlacks)]
    rintro ⟨x, hx, hvalue⟩
    obtain rfl : x = .text "p1" := Atom.eq_text_of_canonical_eq hvalue
    obtain ⟨v, hv⟩ := hx.columns ⟨"p", ["name"]⟩ ⟨"x", "", List.mem_cons_self⟩
    exact not_shows_name v (WorkingSet.shows_of_shows hw hv)
  rw [hunion] at hmissing
  exact hmissing (.inr hred)

end Engine

end Factbase
