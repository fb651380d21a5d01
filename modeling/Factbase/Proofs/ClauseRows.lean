import Factbase.Proofs.Alternatives

/-! # The rows of a query for a clause

A query for the entities of a type that meet a clause, in which the text of no field is matched, has
one column and a row for each of these entities (`Engine.exists_rows_query`). They stand in the
order of the facts that give them the type, whatever the clause looks up, since the goals of the
clause only test an entity. So the rows of two such queries are the same, in the same order, where
the same entities meet both clauses. -/

namespace Factbase

open Find (Aliases Clause Condition Field OrMode Query)

section Distinct

variable {α β κ : Type} [BEq κ] [Hashable κ] [LawfulBEq κ] [LawfulHashable κ] {key : α → κ}

/-- Of some copies of one element the first is left. -/
theorem distinctAfter_append_of_forall_eq {a : α} {copies rest : List α}
    (h : ∀ x ∈ copies, x = a) (seen : Std.HashSet κ) :
    distinctAfter key seen (copies ++ rest) =
      distinctAfter key seen (if copies.isEmpty then rest else a :: rest) := by
  induction copies generalizing seen with
  | nil => rfl
  | cons x copies ih =>
    obtain ⟨rfl, h⟩ := List.forall_mem_cons.1 h
    simp only [List.cons_append, distinctAfter, List.isEmpty_cons, Bool.false_eq_true, if_false,
      ih h]
    -- the key of the first copy has been seen by the others
    split <;> cases copies.isEmpty <;> simp [distinctAfter, *]

/-- Of lists of copies of one element each, the elements of those are left that are not empty. -/
theorem distinctBy_flatMap_of_forall_eq {copies : β → List α} {a : β → α} {bs : List β}
    (h : ∀ b ∈ bs, ∀ x ∈ copies b, x = a b) :
    distinctBy key (bs.flatMap copies) =
      distinctBy key ((bs.filter fun b => !(copies b).isEmpty).map a) := by
  have hafter : ∀ seen : Std.HashSet κ, distinctAfter key seen (bs.flatMap copies) =
      distinctAfter key seen ((bs.filter fun b => !(copies b).isEmpty).map a) := by
    induction bs with
    | nil => exact fun _ => rfl
    | cons b bs ih =>
      intro seen
      obtain ⟨hb, hbs⟩ := List.forall_mem_cons.1 h
      rw [List.flatMap_cons, distinctAfter_append_of_forall_eq hb]
      cases hempty : (copies b).isEmpty <;> simp [hempty, distinctAfter, ih hbs]
  exact hafter ∅

end Distinct

/-- The entity to which a row of the relation of facts gives a type. -/
def Tuple.typed? (entityType : String) : Tuple → Option Atom
  | [x, name, value] =>
    if name.canonical = (Atom.text typeAttribute).canonical ∧
        value.canonical = (Atom.text entityType).canonical then some x
    else none
  | _ => none

/-- The entities of a type, in the order of the facts that give it to them. -/
def WorkingSet.ofType (w : WorkingSet) (entityType : String) : List Atom :=
  (w.tuples attrRelation).filterMap (Tuple.typed? entityType)

namespace Find

namespace Compile

/-- Looking up a type binds the variable to the entities of the type, one after the other. -/
theorem solutions_typeGoal (w : WorkingSet) (q : Query) :
    Goal.solutions w (typeGoal q) .empty =
      (w.ofType q.entityType).map fun x => Binding.empty.insert q.var x := by
  rw [typeGoal, attrGoal, Goal.solutions_literal,
    if_pos (show Predicate.attr.isRelation = true from rfl), Literal.lookup_eq rfl,
    WorkingSet.ofType, List.map_filterMap, List.filterMap_filter]
  refine List.filterMap_congr fun t _ => ?_
  simp only [List.map_cons, List.map_nil, Binding.resolve, Binding.get?_empty]
  -- only a fact of three columns fits the pattern of the goal
  rcases t with _ | ⟨x, _ | ⟨name, _ | ⟨value, _ | ⟨_, _⟩⟩⟩⟩
  case cons.cons.cons.nil =>
    simp [TuplePattern.fits, Tuple.typed?, Literal.bind?, Binding.unify?_def]
  all_goals simp [TuplePattern.fits, Tuple.typed?]

/-- The parts of a compiled query for a clause in which no text is matched. -/
theorem compile_ofClause (options : CompilerOptions) (aliases : Aliases) (entityType var : String)
    {c : Clause} (hmatches : ∀ f, ¬ c.Matches f) :
    (Query.ofClause entityType var c).compile options aliases =
      { query := ⟨typeGoal (.ofClause entityType var c) ::
          ((clauseGoals options aliases c).run 0).1, [var]⟩
        projection := [(Field.display ⟨var, []⟩, var)]
        sortKey := none
        limit := none
        entityType } := by
  have hfields : outputFields (Query.ofClause entityType var c) = [⟨var, []⟩] := by
    rw [outputFields, List.filterMap_eq_nil_iff.2]
    · rfl
    · intro condition hcondition
      split
      · next f body flags => exact absurd ⟨body, flags, hcondition⟩ (hmatches f)
      · rfl
  rw [compile_eq, hfields, ← List.append_nil ((clauseGoals options aliases c).run 0).1,
    ← List.append_nil (_ ++ _)]
  rfl

/-- Restricted to its variable, a solution that is ready for an entity binds that alone. -/
theorem answer_of_isReady {b : Binding} {var : String} {x : Atom} {n : Nat}
    (h : b.IsReady var x n) : b.answer [var] = Binding.empty.insert var x := by
  have hentries : (b.answer [var]).entries = [(var, x)] :=
    Binding.entries_answer_of_single (fun _ => List.mem_singleton) h.entity
  have hext : ∀ c d : Binding, c.entries = d.entries → c = d := by
    rintro ⟨_, _⟩ ⟨_, _⟩ rfl
    rfl
  exact hext _ _ hentries

open Classical in
/-- The answers to goals that test some entities are those that pass, each once. -/
theorem distinctBy_answer_of_tests {w : WorkingSet} {var : String} {goals : List Goal} {n : Nat}
    {holds : Atom → Prop} (hvar : '$' ∉ var.toList)
    (h : Tests (fun b => Goal.solutionsEach w goals [b]) var 0 n holds) (xs : List Atom) :
    distinctBy Binding.canonical ((Goal.solutionsEach w goals
        (xs.map fun x => Binding.empty.insert var x)).map (·.answer [var])) =
      (distinctBy Atom.canonical (xs.filter fun x => holds x)).map
        fun x => Binding.empty.insert var x := by
  have hready : ∀ x, (Binding.empty.insert var x).IsReady var x 0 := fun x =>
    Binding.isReady_insert_empty hvar
  have hpasses : ∀ x, (!((Goal.solutionsEach w goals [Binding.empty.insert var x]).map
      (·.answer [var])).isEmpty) = decide (holds x) := by
    intro x
    rw [Bool.eq_iff_iff, decide_eq_true_iff, ← h.exists_iff x _ (hready x), List.isEmpty_map,
      Bool.not_eq_true', List.isEmpty_eq_false_iff_exists_mem]
  have hcopies : ∀ x ∈ xs, ∀ b ∈ (Goal.solutionsEach w goals [Binding.empty.insert var x]).map
      (·.answer [var]), b = Binding.empty.insert var x := by
    intro x _ b hb
    obtain ⟨d, hd, rfl⟩ := List.mem_map.1 hb
    exact answer_of_isReady (h.ready x _ d (hready x) hd)
  rw [Goal.solutionsEach_eq_flatMap, List.flatMap_map, List.map_flatMap,
    distinctBy_flatMap_of_forall_eq hcopies, distinctBy_map,
    distinctBy_congr fun x y => Binding.canonical_eq_iff_of_single rfl rfl]
  simp only [hpasses]

end Compile

/-- Where a binding of one variable is given for each row, the rows are the values. -/
theorem Compiled.rows_of_single {c : Compiled} {column var : String}
    (hprojection : c.projection = [(column, var)]) (hsort : c.sortKey = none)
    (hlimit : c.limit = none) {xs : List Atom}
    (hxs : xs.Pairwise fun x y => x.canonical ≠ y.canonical) :
    c.rows (xs.map fun x => Binding.empty.insert var x) = xs.map ([·]) := by
  have hrow : ∀ x, c.row (Binding.empty.insert var x) = [x] := by
    intro x
    simp [row, hprojection, Binding.cell, Binding.get?_insert]
  have hdistinct : (xs.map ([·])).Pairwise fun row row' : List Atom =>
      row.map Atom.canonical ≠ row'.map Atom.canonical :=
    List.pairwise_map.2 (hxs.imp fun hne => by simpa using hne)
  simp only [rows, sorted, hsort, hlimit, List.map_map, Function.comp_def, hrow]
  exact distinctBy_of_pairwise hdistinct

end Find

namespace Engine

open Find.Compile (compile_ofClause distinctBy_answer_of_tests isFactual_compile solutions_typeGoal
  tests_clause)

open Classical in
/-- Over the one working set that is saturated for a store, a query for the entities of a type that
meet a clause, in which no text is matched, has them as its rows, each once and in the order of the
facts. -/
theorem exists_rows_query (e : Engine) (hp : e.program.IsValid) :
    ∃ w : WorkingSet, ∀ text entityType var c,
      Query.parse text = .ok (.ofClause entityType var c) →
      (∀ condition ∈ c.conditions, condition.IsPlain var) → (∀ f, ¬ c.Matches f) →
      ∃ o, (e.query text).1 = .ok o ∧ o.columns = [Field.display ⟨var, []⟩] ∧
        o.rows = (distinctBy Atom.canonical ((w.ofType entityType).filter fun x =>
          c.Meets e.config.compiler.orMode (·.HoldsFor w e.attrFor x))).map ([·]) := by
  obtain ⟨w, -, heval⟩ := hp.exists_evaluate_of_isFactual e.store
  refine ⟨w, fun text entityType var c hparse hconditions hmatches => ?_⟩
  have hplain := Query.isPlain_ofClause entityType hconditions
  have hdollar : '$' ∉ var.toList := Find.not_mem_var_of_parse hparse (by decide)
  have hequals : '=' ∉ var.toList := Find.not_mem_var_of_parse hparse (by decide)
  obtain ⟨warnings, hquery⟩ := e.query_of_parse hparse
  have hfactual := isFactual_compile e.config.compiler
    (e.aliases (.ofClause entityType var c)) hequals hplain
  rw [compile_ofClause _ _ _ _ hmatches] at hquery hfactual
  obtain ⟨a, ha, hbindings⟩ := heval _ hfactual
  refine ⟨_, hquery.trans (by rw [answer, ha]), rfl, ?_⟩
  -- the goals of the clause test the entities one by one
  have htests := ((tests_clause w e.config.compiler (e.aliases (.ofClause entityType var c))
    hdollar hconditions 0).1).congr fun x =>
      Query.meets_holdsAt_iff fun f hf => e.lookedUp?_aliases hf
  rw [Goal.solutionsEach_cons, List.flatMap_singleton, solutions_typeGoal] at hbindings
  replace hbindings := hbindings.trans (distinctBy_answer_of_tests hdollar htests _)
  simp only [hbindings]
  exact Find.Compiled.rows_of_single rfl rfl rfl pairwise_distinctBy

end Engine

end Factbase
