import Factbase.Proofs.CompiledVariables
import Factbase.Proofs.ConjunctiveQueries

/-! # Rows that facts back

Every row that a query text returns is taken from one solution of its goals. There each column with
an attribute carries a value that was looked up for the entity of its variable, whatever the clause
binds before, as the variable that carries it is left open until then
(`Find.Compile.backs_columns`). Rules that are read from texts derive no facts, so the row is backed
by facts of the store about one entity for each variable (`Engine.backed_query`). -/

namespace Factbase

open Find (Aliases Field IsWord Projection CompilerOptions)
open Find.Compile (Writes attrGoal bind columns freshName_ne lookedUp? outputFields writes_bind)

/-! ## Columns of a solution -/

/-- A variable carries a value that an entity, bound to another variable, has for an attribute;
without attribute it is that variable itself. -/
def Binding.Backs (w : WorkingSet) (look : Option String) (var carrier : String) (b : Binding) :
    Prop :=
  match look with
  | none => carrier = var
  | some attr => ∃ x v, b.get? var = some x ∧ b.get? carrier = some v ∧ w.HasValue x attr v

/-- The name of the entity that a variable is bound to. -/
def Binding.entity (b : Binding) (var : String) : String :=
  ((b.get? var).bind Atom.text?).getD ""

theorem Binding.entity_eq {b : Binding} {var entity : String}
    (h : b.get? var = some (.text entity)) : b.entity var = entity := by
  rw [Binding.entity, h]
  rfl

/-- What a binding backs a binding backs that keeps its values. -/
theorem Binding.Backs.of_keeps {w : WorkingSet} {look : Option String} {var carrier : String}
    {b c : Binding} (h : b.Backs w look var carrier) (hkeeps : c.Keeps b) :
    c.Backs w look var carrier := by
  cases look with
  | none => exact h
  | some attr =>
    obtain ⟨x, v, hx, hv, hvalue⟩ := h
    exact ⟨x, v, hkeeps var x hx, hkeeps carrier v hv, hvalue⟩

/-- Looking up an attribute binds a variable without value to a value of the entity, whether the
entity was bound before or is bound now. -/
theorem Goal.backs_of_mem_solutions {w : WorkingSet} {var name attr : String} {b c : Binding}
    (hname : b.get? name = none) (hne : name ≠ var)
    (h : c ∈ solutions w (attrGoal (.var var) (.const (.text attr)) (.var name)) b) :
    c.Backs w (some attr) var name := by
  cases hvar : b.get? var with
  | some x =>
    obtain ⟨v, hvalue, rfl⟩ := (mem_solutions_attrGoal hvar hname).1 h
    refine ⟨x, v, ?_, ?_, hvalue⟩
    · rw [Binding.get?_insert, if_neg hne.symm, hvar]
    · rw [Binding.get?_insert, if_pos rfl]
  | none =>
    rw [attrGoal, solutions_literal, if_pos (show Predicate.attr.isRelation = true from rfl),
      Literal.mem_lookup] at h
    obtain ⟨-, t, ht, hfits, hbind⟩ := h
    simp only [List.map_cons, List.map_nil, Binding.resolve, hvar, hname] at hfits
    obtain ⟨x, a, v, rfl⟩ := TuplePattern.exists_of_fits_three hfits
    have hattr : a.canonical = (Atom.text attr).canonical := by
      simpa [TuplePattern.fits] using hfits
    obtain rfl : (b.insert var x).insert name v = c := by
      simpa [Literal.bind?, Binding.unify?_def, hvar, Binding.get?_insert, hne, hname] using hbind
    refine ⟨x, v, ?_, ?_, x, a, ht, rfl, hattr⟩
    · rw [Binding.get?_insert, if_neg hne.symm, Binding.get?_insert, if_pos rfl]
    · rw [Binding.get?_insert, if_pos rfl]

namespace Find

/-- Fields whose variables are words name the same variable if they are written alike. -/
theorem Field.var_eq_of_display_eq {f g : Field} (hf : IsWord f.var) (hg : IsWord g.var)
    (h : f.display = g.display) : f.var = g.var := by
  -- with one more dot every variable ends at a dot
  have hends : ∀ f : Field, ∃ rest,
      f.display.toList ++ ['.'] = '?' :: (f.var.toList ++ '.' :: rest) := by
    intro f
    rw [toList_display]
    cases f.attr? with
    | none => exact ⟨[], by simp⟩
    | some attr => exact ⟨attr.toList ++ ['.'], by simp⟩
  obtain ⟨rest, hrest⟩ := hends f
  obtain ⟨rest', hrest'⟩ := hends g
  rw [h, hrest', List.cons.injEq] at hrest
  have hsame := append_mark_inj (hg.not_mem (by decide)) (hf.not_mem (by decide)) hrest.2
  exact (String.toList_injective hsame.1).symm

namespace Compile

variable {w : WorkingSet} {aliases : Aliases}

/-- Binding a field backs the variable that carries it. -/
theorem backs_bind {letter : Char} {f : Field} (hf : IsWord f.var) {n : Nat} {b c : Binding}
    (hb : b.Spares n) (hc : c ∈ Goal.solutionsEach w ((bind aliases letter f).run n).1.2 [b]) :
    c.Backs w (lookedUp? aliases f) f.var ((bind aliases letter f).run n).1.1 := by
  unfold bind at hc ⊢
  cases hlook : lookedUp? aliases f with
  | none => rfl
  | some attr =>
    rw [hlook] at hc
    obtain ⟨d, hd, hc⟩ := Goal.mem_solutionsEach_cons.1 hc
    obtain rfl : c = d := by simpa using hc
    exact Goal.backs_of_mem_solutions (hb letter n (Nat.le_refl n))
      (freshName_ne (hf.not_mem (by decide)) letter n) hd

/-- Columns that stand for some of the fields, each backed by a binding. -/
def BacksAll (w : WorkingSet) (aliases : Aliases) (fields : List Field) (projection : Projection)
    (b : Binding) : Prop :=
  ∀ e ∈ projection, ∃ f ∈ fields, f.display = e.1 ∧ b.Backs w (lookedUp? aliases f) f.var e.2

/-- Binding the columns of fields backs them. -/
theorem backs_columns {all fields : List Field} (hall : ∀ f ∈ all, IsWord f.var)
    (hfields : fields ⊆ all) {projection : Projection} {n : Nat} {b c : Binding} (hb : b.Spares n)
    (hprojection : BacksAll w aliases all projection b)
    (hc : c ∈ Goal.solutionsEach w ((columns aliases projection fields).run n).1.2 [b]) :
    BacksAll w aliases all ((columns aliases projection fields).run n).1.1 c := by
  induction fields generalizing projection n b with
  | nil =>
    obtain rfl : c = b := List.mem_singleton.1 hc
    exact hprojection
  | cons f rest ih =>
    obtain ⟨hmem, hrest⟩ := List.cons_subset.1 hfields
    rw [columns] at hc ⊢
    split at hc
    · next hknown =>
      rw [if_pos hknown]
      exact ih hrest hb hprojection hc
    · next hnew =>
      rw [if_neg hnew]
      obtain ⟨d, hd, hc⟩ := Goal.mem_solutionsEach_append.1 hc
      have hwrites := (writes_bind aliases (show 'o' ≠ '=' by decide) (hall f hmem) n).2
      refine ih hrest (hwrites.spares hb hd) (List.forall_mem_append.2 ⟨fun e he => ?_, ?_⟩) hc
      · obtain ⟨g, hg, hdisplay, hbacks⟩ := hprojection e he
        exact ⟨g, hg, hdisplay, hbacks.of_keeps (Goal.keeps_of_mem_solutionsEach hd)⟩
      · exact List.forall_mem_singleton.2 ⟨f, hmem, rfl, backs_bind (hall f hmem) hb hd⟩

/-- The columns that are bound are those that were there and those of the fields. -/
theorem mem_columns {fields : List Field} {projection : Projection} {n : Nat} {name : String} :
    name ∈ ((columns aliases projection fields).run n).1.1.map (·.1) ↔
      name ∈ projection.map (·.1) ∨ ∃ f ∈ fields, f.display = name := by
  induction fields generalizing projection n with
  | nil => exact (or_iff_left (by simp)).symm
  | cons f rest ih =>
    rw [columns]
    split
    · next hknown =>
      obtain ⟨carrier, hcarrier⟩ := Option.isSome_iff_exists.1 hknown
      have hmem := List.mem_map_of_mem (f := Prod.fst) (mem_of_lookup_eq_some hcarrier)
      rw [ih]
      constructor
      · rintro (hname | ⟨g, hg, hdisplay⟩)
        · exact .inl hname
        · exact .inr ⟨g, List.mem_cons_of_mem f hg, hdisplay⟩
      · rintro (hname | ⟨g, hg, rfl⟩)
        · exact .inl hname
        · rcases List.mem_cons.1 hg with rfl | hg
          · exact .inl hmem
          · exact .inr ⟨g, hg, rfl⟩
    · refine ih.trans ?_
      rw [List.map_append, List.mem_append, List.map_singleton, List.mem_singleton, or_assoc,
        eq_comm (a := name)]
      simp only [List.mem_cons, exists_eq_or_imp]

end Compile

namespace Query

open Compile (BacksAll backs_columns clauseTests compile_eq mem_columns mem_solutions_typeGoal
  typeGoal writes_clause)

variable {q : Query}

/-- The variables of the columns are variables of the query. -/
theorem mem_vars_of_mem_outputFields {f : Field} (hf : f ∈ outputFields q) :
    f.var ∈ q.vars := by
  rcases Compile.mem_outputFields.1 hf with (hf | ⟨-, rfl⟩) | ⟨body, flags, hc⟩
  · exact List.mem_cons_of_mem _ (List.mem_append_right _
      (List.mem_map_of_mem (List.mem_append_left _ hf)))
  · exact List.mem_cons_self
  · refine List.mem_cons_of_mem _ (List.mem_append_left _ (List.mem_flatMap.2 ⟨_, hc, ?_⟩))
    exact Condition.mem_vars.2 (.inl ⟨f, rfl, rfl⟩)

/-- The columns of a compiled query are those of its fields. -/
theorem mem_columns_compile (options : CompilerOptions) (aliases : Aliases) {name : String} :
    name ∈ (q.compile options aliases).projection.map (·.1) ↔
      ∃ f ∈ outputFields q, f.display = name := by
  rw [compile_eq]
  exact mem_columns.trans (by simp)

/-- The goals of a query are that of its type, those of its clause, those of its columns, and those
of its sort key. -/
theorem exists_goals_compile (options : CompilerOptions) (aliases : Aliases) :
    ∃ keyGoals, (q.compile options aliases).query.goals =
        typeGoal q :: (((clauseTests options aliases q).run 0).1 ++
          ((columns aliases [] (outputFields q)).run
            ((clauseTests options aliases q).run 0).2).1.2 ++ keyGoals) ∧
      (q.compile options aliases).projection =
        ((columns aliases [] (outputFields q)).run
          ((clauseTests options aliases q).run 0).2).1.1 := by
  rw [compile_eq]
  exact ⟨_, rfl, rfl⟩

/-- The goals of its clause write the variables of a query. -/
theorem writes_clauseTests (options : CompilerOptions) (aliases : Aliases)
    (hwords : ∀ name ∈ q.vars, IsWord name) (n : Nat) :
    Writes n ((clauseTests options aliases q).run n).2
      ((clauseTests options aliases q).run n).1 := by
  unfold clauseTests
  cases hclause : q.clause with
  | none => exact .nil n
  | some c =>
    refine (writes_clause options aliases (fun name hname => hwords name ?_) n).1
    refine List.mem_cons_of_mem _ (List.mem_append_left _ ?_)
    rw [conditions, hclause]
    exact hname

/-- In every solution of the goals of a query the variable has something of the type, and all
columns are backed. -/
theorem backs_compile (w : WorkingSet) (options : CompilerOptions) (aliases : Aliases)
    (hwords : ∀ name ∈ q.vars, IsWord name) {b : Binding}
    (hb : b ∈ Goal.solutionsEach w (q.compile options aliases).query.goals [.empty]) :
    (∃ x, w.IsOfType x q.entityType ∧ b.get? q.var = some x) ∧
      BacksAll w aliases (outputFields q) (q.compile options aliases).projection b := by
  have hvar : IsWord q.var := hwords _ List.mem_cons_self
  obtain ⟨keyGoals, hgoals, hprojection⟩ := exists_goals_compile (q := q) options aliases
  rw [hgoals, Goal.mem_solutionsEach_cons] at hb
  simp only [Goal.mem_solutionsEach_append] at hb
  obtain ⟨c₀, htype, c₂, ⟨c₁, hc₁, hc₂⟩, hb⟩ := hb
  obtain ⟨x, hx, rfl⟩ := mem_solutions_typeGoal.1 htype
  have hstart : (Binding.empty.insert q.var x).Spares 0 :=
    (Binding.isReady_insert_empty (hvar.not_mem (by decide))).fresh
  have hspares := (writes_clauseTests options aliases hwords 0).spares hstart hc₁
  have hcolumns := backs_columns (fun f hf => hwords _ (mem_vars_of_mem_outputFields hf))
    (List.Subset.refl _) hspares (List.forall_mem_nil _) hc₂
  have hkeeps : b.Keeps c₂ := Goal.keeps_of_mem_solutionsEach hb
  refine ⟨⟨x, hx, ?_⟩, fun e he => ?_⟩
  · have hfirst : b.Keeps (Binding.empty.insert q.var x) := hkeeps.trans
      ((Goal.keeps_of_mem_solutionsEach hc₂).trans (Goal.keeps_of_mem_solutionsEach hc₁))
    exact hfirst q.var x ((Binding.empty.get?_insert _ x _).trans (if_pos rfl))
  · rw [hprojection] at he
    obtain ⟨f, hf, hdisplay, hbacks⟩ := hcolumns e he
    exact ⟨f, hf, hdisplay, hbacks.of_keeps hkeeps⟩

end Query

/-! ## Rows of the answers -/

/-- A row that is returned is taken from an answer. -/
theorem Compiled.exists_of_mem_rows {c : Compiled} {bindings : List Binding} {row : List Atom}
    (h : row ∈ c.rows bindings) : ∃ b ∈ bindings, row = c.row b := by
  have hdistinct : row ∈ distinctBy (fun row : List Atom => row.map Atom.canonical)
      ((c.sorted bindings).map c.row) := by
    unfold rows at h
    split at h
    · exact List.mem_of_mem_take h
    · exact h
  obtain ⟨b, hb, rfl⟩ := List.mem_map.1 (mem_of_mem_distinctBy hdistinct)
  refine ⟨b, ?_, rfl⟩
  unfold sorted at hb
  split at hb
  · exact List.mem_mergeSort.1 hb
  · exact hb

/-- The cells of a row with their columns are what the carriers of the columns have. -/
theorem Compiled.mem_zip_row_iff {c : Compiled} {b : Binding} {e : String × Atom} :
    e ∈ (c.projection.map (·.1)).zip (c.row b) ↔
      ∃ column ∈ c.projection, column.1 = e.1 ∧ b.cell column.2 = e.2 := by
  rw [row, List.zip_map', List.mem_map]
  simp only [Prod.ext_iff]

/-- A row is backed by facts about one entity for each variable. A column with an attribute has the
value of a fact, for the attribute that is meant by it, and a column without attribute has the
entity, if its variable is that of the query or has an attribute in another column. The entity of
the query is of the type that was asked for. -/
structure Query.IsBacked (s : Store) (attrFor : String → String) (q : Query)
    (columns : List String) (row : List Atom) (entity : String → String) : Prop where
  length_eq : row.length = columns.length
  dotted : ∀ f attr v, q.HasColumn f → f.attr? = some attr → (f.display, v) ∈ columns.zip row →
    ⟨entity f.var, attrFor attr, v⟩ ∈ s.facts.toList
  plain : ∀ f v, q.HasColumn f → f.attr? = none → (f.display, v) ∈ columns.zip row →
    (f.var = q.var ∨ ∃ g, q.HasColumn g ∧ g.var = f.var ∧ g.attr?.isSome) →
    v = .text (entity f.var)
  isOfType : Fact.ofType (entity q.var) q.entityType ∈ s.facts.toList

namespace Query

variable {q : Query} {s : Store} {w : WorkingSet} {options : CompilerOptions} {aliases : Aliases}
  {attrFor : String → String} {b : Binding}

/-- A column with an attribute is that of a field of the query. -/
theorem mem_fields_of_hasColumn {f : Field} (hf : q.HasColumn f) {attr : String}
    (hattr : f.attr? = some attr) : f ∈ q.fields := by
  rcases hf with hf | ⟨-, rfl⟩ | ⟨body, flags, hc⟩
  · exact List.mem_append_left _ (List.mem_append_right _ hf)
  · simp [Field.attr?] at hattr
  · exact List.mem_append_left _ (List.mem_append_left _ (List.mem_filterMap.2 ⟨_, hc, rfl⟩))

section Backed

variable (hwords : ∀ name ∈ q.vars, IsWord name)
  (hb : b ∈ Goal.solutionsEach w (q.compile options aliases).query.goals [.empty])

include hwords hb

/-- The column of a field is backed as the field is looked up. -/
theorem backs_column {f : Field} (hf : q.HasColumn f) {column : String × String}
    (hcolumn : column ∈ (q.compile options aliases).projection) (hname : column.1 = f.display) :
    b.Backs w (lookedUp? aliases f) f.var column.2 := by
  obtain ⟨g, hg, hdisplay, hbacks⟩ := (backs_compile w options aliases hwords hb).2 column hcolumn
  rw [hname] at hdisplay
  have hvar : g.var = f.var := Field.var_eq_of_display_eq
    (hwords _ (mem_vars_of_mem_outputFields hg))
    (hwords _ (mem_vars_of_mem_outputFields (mem_outputFields_iff.2 hf))) hdisplay
  rwa [hvar, lookedUp?_eq_of_display_eq aliases hvar hdisplay] at hbacks

variable (hw : w.tuples attrRelation = (WorkingSet.ofStore s).tuples attrRelation)

include hw

/-- The column of a field with an attribute carries the value of a fact about the entity of its
variable. -/
theorem exists_fact_of_column (haliases : ∀ f ∈ q.fields, lookedUp? aliases f = f.attr?.map attrFor)
    {f : Field} (hf : q.HasColumn f) {attr : String} (hattr : f.attr? = some attr)
    {column : String × String} (hcolumn : column ∈ (q.compile options aliases).projection)
    (hname : column.1 = f.display) :
    ∃ entity v, b.get? f.var = some (.text entity) ∧ b.get? column.2 = some v ∧
      ⟨entity, attrFor attr, v⟩ ∈ s.facts.toList := by
  have hbacks := backs_column hwords hb hf hcolumn hname
  rw [haliases f (mem_fields_of_hasColumn hf hattr), hattr] at hbacks
  obtain ⟨x, v, hx, hv, hvalue⟩ := hbacks
  obtain ⟨entity, rfl, hfact⟩ := WorkingSet.exists_fact_of_hasValue hw hvalue
  exact ⟨entity, v, hx, hv, hfact⟩

/-- The variable of the query, and those that have an attribute in a column, are bound to
entities. -/
theorem get?_of_used (haliases : ∀ f ∈ q.fields, lookedUp? aliases f = f.attr?.map attrFor)
    {var : String} (hused : var = q.var ∨ ∃ g, q.HasColumn g ∧ g.var = var ∧ g.attr?.isSome) :
    b.get? var = some (.text (b.entity var)) := by
  suffices ∃ entity, b.get? var = some (.text entity) by
    obtain ⟨entity, hvar⟩ := this
    rw [Binding.entity_eq hvar, hvar]
  rcases hused with rfl | ⟨g, hg, rfl, hsome⟩
  · obtain ⟨x, htype, hx⟩ := (backs_compile w options aliases hwords hb).1
    obtain ⟨entity, rfl, -⟩ := WorkingSet.exists_fact_of_isOfType hw htype
    exact ⟨entity, hx⟩
  · obtain ⟨attr, hattr⟩ := Option.isSome_iff_exists.1 hsome
    obtain ⟨column, hcolumn, hname⟩ := List.mem_map.1
      ((mem_columns_compile options aliases).2 ⟨g, mem_outputFields_iff.2 hg, rfl⟩)
    obtain ⟨entity, -, hentity, -⟩ :=
      exists_fact_of_column hwords hb hw haliases hg hattr hcolumn hname
    exact ⟨entity, hentity⟩

/-- The row of a solution is backed by the store whose facts were looked up. -/
theorem isBacked_row (haliases : ∀ f ∈ q.fields, lookedUp? aliases f = f.attr?.map attrFor) :
    q.IsBacked s attrFor ((q.compile options aliases).projection.map (·.1))
      ((q.compile options aliases).row (b.answer (q.compile options aliases).query.answer))
      b.entity := by
  have hcell : ∀ {name v}, (name, v) ∈ ((q.compile options aliases).projection.map (·.1)).zip
      ((q.compile options aliases).row (b.answer (q.compile options aliases).query.answer)) →
      ∃ column ∈ (q.compile options aliases).projection, column.1 = name ∧ b.cell column.2 = v := by
    intro name v h
    obtain ⟨column, hcolumn, hname, hv⟩ := Compiled.mem_zip_row_iff.1 h
    refine ⟨column, hcolumn, hname, ?_⟩
    rwa [Binding.cell, Binding.get?_answer (carriers_compile options aliases column hcolumn)] at hv
  constructor
  · simp [Compiled.row]
  · intro f attr v hf hattr h
    obtain ⟨column, hcolumn, hname, rfl⟩ := hcell h
    obtain ⟨entity, v, hvar, hv, hfact⟩ :=
      exists_fact_of_column hwords hb hw haliases hf hattr hcolumn hname
    rw [Binding.entity_eq hvar, Binding.cell, hv]
    exact hfact
  · intro f v hf hattr h hused
    obtain ⟨column, hcolumn, hname, rfl⟩ := hcell h
    have hcarrier := backs_column hwords hb hf hcolumn hname
    rw [lookedUp?, hattr] at hcarrier
    rw [Binding.cell, show column.2 = f.var from hcarrier,
      get?_of_used hwords hb hw haliases hused]
    rfl
  · obtain ⟨x, htype, hx⟩ := (backs_compile w options aliases hwords hb).1
    obtain ⟨entity, rfl, hfact⟩ := WorkingSet.exists_fact_of_isOfType hw htype
    rw [Binding.entity_eq hx]
    exact hfact

end Backed

end Query

end Find

/-! ## Engines with rule texts -/

namespace Engine

open Find (Query)

/-- The engine after rule texts were added in order. Of a text with a rejected rule the rules before
that stay. -/
def addRuleTexts (e : Engine) (texts : List String) : Engine :=
  texts.foldl (fun e text => (e.addRuleText text).1) e

/-- A rule text that is not read changes nothing; else its rules are added. -/
theorem program_addRuleText (e : Engine) (text : String) :
    (e.addRuleText text).1.program = e.program ∨ ∃ rules, Rule.parseAll text = .ok rules ∧
      (e.addRuleText text).1.program = (e.program.addRules rules).1 := by
  unfold addRuleText
  cases Rule.parseAll text with
  | error error => exact .inl rfl
  | ok rules =>
    refine .inr ⟨rules, rfl, ?_⟩
    cases hadd : e.program.addRules rules with
    | mk program rejected => cases rejected <;> simp [hadd]

/-- Rule texts keep a program valid, and its rules are read from texts. -/
theorem isValid_addRuleTexts {e : Engine} (hvalid : e.program.IsValid)
    (hparsed : e.program.IsParsed) (texts : List String) :
    (e.addRuleTexts texts).program.IsValid ∧ (e.addRuleTexts texts).program.IsParsed := by
  induction texts generalizing e with
  | nil => exact ⟨hvalid, hparsed⟩
  | cons text rest ih =>
    rw [addRuleTexts, List.foldl_cons]
    rcases e.program_addRuleText text with hsame | ⟨rules, hparse, hadded⟩
    · exact ih (hsame ▸ hvalid) (hsame ▸ hparsed)
    · refine ih (hadded ▸ hvalid.addRules rules) fun r hr => ?_
      rw [hadded, Program.rules_addRules, List.mem_append] at hr
      rcases hr with hr | hr
      · exact hparsed r hr
      · exact ⟨text, rules, hparse, Program.acceptedOf_subset _ _ hr⟩

/-- A query text that is answered was read, and its answer shapes the bindings of an evaluation. -/
theorem exists_of_query_eq_ok {e : Engine} {text : String} {o : QueryOutput}
    (h : (e.query text).1 = .ok o) : ∃ q a, Query.parse text = .ok q ∧
      e.program.evaluate e.store (q.compile e.config.compiler (e.aliases q)).query = .ok a ∧
      o.columns = (q.compile e.config.compiler (e.aliases q)).projection.map (·.1) ∧
      o.rows = (q.compile e.config.compiler (e.aliases q)).rows a.bindings := by
  cases hparse : Query.parse text with
  | error errors =>
    have herror : ∃ errors, (e.query text).1 = .error (.invalidQuery text errors) := by
      unfold query process Find.process
      rw [hparse]
      cases e.config.resolveAttributes <;> exact ⟨errors, rfl⟩
    obtain ⟨errors, herror⟩ := herror
    simp [herror] at h
  | ok q =>
    obtain ⟨warnings, hquery⟩ := e.query_of_parse hparse
    rw [hquery] at h
    unfold answer at h
    split at h
    · simp at h
    · next a ha =>
      obtain rfl := Except.ok.inj h
      exact ⟨q, a, rfl, ha, rfl, rfl⟩

/-- Every row that is returned is backed. Where the rules of an engine were read from texts,
whatever its configuration and its store, the columns of an answered query text are those of its
fields, and for each row there are entities of the variables such that facts of the store back
it. -/
theorem backed_query (e : Engine) (config : EngineConfig) (texts : List String)
    (hprogram : e.program = ((empty config).addRuleTexts texts).program) {text : String}
    {o : QueryOutput} (hquery : (e.query text).1 = .ok o) :
    ∃ q, Query.parse text = .ok q ∧
      (∀ name, name ∈ o.columns ↔ ∃ f, q.HasColumn f ∧ f.display = name) ∧
      ∀ row ∈ o.rows, ∃ entity, q.IsBacked e.store e.attrFor o.columns row entity := by
  have hvalid := isValid_addRuleTexts (e := empty config) (Program.isValid_empty config.evaluator)
    (List.forall_mem_nil _) texts
  rw [← hprogram] at hvalid
  obtain ⟨q, a, hparse, heval, hcolumns, hrows⟩ := exists_of_query_eq_ok hquery
  have hwords := Find.isWord_of_parse hparse
  refine ⟨q, hparse, fun name => ?_, fun row hrow => ?_⟩
  · rw [hcolumns, Query.mem_columns_compile]
    simp only [Query.mem_outputFields_iff]
  obtain ⟨w, heval⟩ := Program.evaluate_eq_ok.1 heval
  have hw : w.tuples attrRelation = (WorkingSet.ofStore e.store).tuples attrRelation := by
    refine Program.tuples_evaluateIn heval fun r hr heq => ?_
    have hbase := hvalid.1.isBase_of_isParsed hvalid.2 r hr
    rw [heq] at hbase
    exact absurd hbase (by decide)
  rw [hrows] at hrow
  obtain ⟨b, hb, rfl⟩ := Find.Compiled.exists_of_mem_rows hrow
  rw [Program.bindings_evaluateIn heval] at hb
  obtain ⟨c, hc, rfl⟩ := List.mem_map.1 (mem_of_mem_distinctBy hb)
  rw [hcolumns]
  exact ⟨_, Query.isBacked_row hwords hc hw fun f hf => e.lookedUp?_aliases hf⟩

/-- An engine with the post of two colours and one rule, which was added as a text. -/
def ruledEngine : Engine :=
  { (empty colouredEngine.config).addRuleTexts ["p(null, null, null)."] with
    store := colouredStore }

/-- The query for posts with their colours. -/
def postColours : Query where
  entityType := "post"
  var := "p"
  clause := none
  returns := [⟨"p", []⟩, ⟨"p", ["color"]⟩]
  sortField := none
  limit := none

/-- The post is returned with one of its colours, and facts back that. -/
theorem backed_query_postColours :
    ∃ o row v, ∃ entity : String → String,
      (ruledEngine.query "FIND post AS ?p RETURN ?p, ?p.color").1 = .ok o ∧ row ∈ o.rows ∧
      ("?p.color", v) ∈ o.columns.zip row ∧
      ⟨entity "p", "color", v⟩ ∈ colouredStore.facts.toList ∧
      Fact.ofType (entity "p") "post" ∈ colouredStore.facts.toList := by
  have hparse : Query.parse "FIND post AS ?p RETURN ?p, ?p.color" = .ok postColours := rfl
  have hplain : postColours.IsPlain := by
    constructor <;> simp [postColours, Query.conditions]
  have hcolor : postColours.HasColumn ⟨"p", ["color"]⟩ := .inl (by decide)
  obtain ⟨hvalid, hparsed⟩ := isValid_addRuleTexts (e := empty colouredEngine.config)
    (Program.isValid_empty _) (List.forall_mem_nil _) ["p(null, null, null)."]
  have hunit := lacks_colouredStore (Char.ofNat 0x1F) (by decide)
  obtain ⟨w, hw, hrecords⟩ := ruledEngine.exists_records_query hvalid
  replace hw := hw (hvalid.keepsFacts_of_isParsed hparsed)
  obtain ⟨o, hquery, ho⟩ := hrecords _ _ hparse hplain
  replace ho := ho rfl (.inl (WorkingSet.lacks_of_tuples_eq hw
    (lacks_colouredStore (Char.ofNat 0x1E) (by decide))))
  -- the post is found, and so there is a row with a value for the colour
  have hfinds : postColours.FindsAt w .conjunctive [] (.text "p1") := by
    refine ⟨(WorkingSet.isOfType_iff hunit hw).2 ⟨"p1", rfl, ?_⟩, ?_, ?_⟩
    · exact show _ ∈ colouredStore.facts.toList by decide
    · simp [postColours]
    · simp [postColours]
  have hshows : ∀ f ∈ outputFields postColours,
      ∃ v, w.Shows (.text "p1") (lookedUp? [] f) v := by
    have hred : colouredStore.Shows "p1" (some "color") (.text "red") :=
      show _ ∈ colouredStore.facts.toList by decide
    obtain ⟨v, -, hv⟩ := WorkingSet.exists_shows_of_shows hunit hw hred
    exact List.forall_mem_cons.2 ⟨⟨_, rfl⟩, List.forall_mem_singleton.2 ⟨v, hv⟩⟩
  obtain ⟨m, hm⟩ := Query.exists_describesAt w [] hplain hshows
  have hmem : m ∈ o.records := ho ▸ ⟨_, hfinds, hm⟩
  obtain ⟨row, hrow, rfl⟩ := hmem
  obtain ⟨u, -, hu⟩ := hm.column _ (Query.mem_outputFields_iff.2 hcolor)
  obtain ⟨v, hlookup, -⟩ := Option.map_eq_some_iff.1 hu
  have hcell := mem_of_lookup_eq_some hlookup
  obtain ⟨q, hq, -, hbacked⟩ := backed_query ruledEngine colouredEngine.config
    ["p(null, null, null)."] rfl hquery
  obtain rfl : postColours = q := Except.ok.inj (hparse.symm.trans hq)
  obtain ⟨entity, hentity⟩ := hbacked row hrow
  exact ⟨o, row, v, entity, hquery, hrow, hcell, hentity.dotted _ _ v hcolor rfl hcell,
    hentity.isOfType⟩

end Engine

end Factbase
