import Factbase.Proofs.CompiledClauses

/-! # What the goals of a query find

The solutions of a compiled query are described entity by entity. In every solution the variable of
the query has an entity that the query finds (`Find.Query.FindsAt`), and each column carries a value
that the entity shows (`Find.Query.sound_compile`). For every entity that is found and every choice
of shown values there is a solution whose columns carry them (`Find.Query.complete_compile`). -/

namespace Factbase

open Find (Aliases Field Projection OrMode)
open Find.Compile (lookedUp?)

/-- Each column carries a value that an entity shows in a field of that name. -/
def Binding.Bears (w : WorkingSet) (aliases : Aliases) (var : String) (x : Atom)
    (projection : Projection) (b : Binding) : Prop :=
  ∀ e ∈ projection, ∃ f : Field, ∃ v, f.var = var ∧ f.display = e.1 ∧ b.get? e.2 = some v ∧
    w.Shows x (lookedUp? aliases f) v

/-- Each column carries a given value. -/
def Binding.Gives (value : String → Atom) (projection : Projection) (b : Binding) : Prop :=
  ∀ e ∈ projection, b.get? e.2 = some (value e.1)

section Columns

variable {w : WorkingSet} {aliases : Aliases} {var : String} {x : Atom} {value : String → Atom}
  {projection : Projection} {b c : Binding}

/-- Columns carry the same values in a binding that keeps them. -/
theorem Binding.Bears.of_keeps (h : b.Bears w aliases var x projection) (hkeeps : c.Keeps b) :
    c.Bears w aliases var x projection := by
  intro e he
  obtain ⟨f, v, hf, hdisplay, hv, hshows⟩ := h e he
  exact ⟨f, v, hf, hdisplay, hkeeps e.2 v hv, hshows⟩

/-- Columns carry the same values in a binding that keeps them. -/
theorem Binding.Gives.of_keeps (h : b.Gives value projection) (hkeeps : c.Keeps b) :
    c.Gives value projection := fun e he => hkeeps e.2 _ (h e he)

end Columns

namespace Find

namespace Field

variable {f g : Field}

/-- A field is written as a variable, with the attribute after a dot if there is one. -/
theorem toList_display (f : Field) :
    f.display.toList =
      '?' :: (f.var.toList ++ (f.attr?.map fun attr => '.' :: attr.toList).getD []) := by
  obtain ⟨var, path⟩ := f
  cases path <;> simp [display, attr?]

/-- Fields of a variable that are written alike name the same attribute. -/
theorem attr?_eq_of_display_eq (hvar : f.var = g.var) (h : f.display = g.display) :
    f.attr? = g.attr? := by
  have hchars := congrArg String.toList h
  rw [toList_display, toList_display, hvar, List.cons.injEq, List.append_cancel_left_eq] at hchars
  cases hf : f.attr? <;> cases hg : g.attr? <;> simp_all [String.toList_inj]

end Field

/-- A query about its own variable, with operands that are written out. -/
structure Query.IsPlain (q : Query) : Prop where
  conditions : ∀ c ∈ q.conditions, c.IsPlain q.var
  returns : ∀ f ∈ q.returns, f.var = q.var
  sortField : ∀ key, q.sortField = some key → key.field.var = q.var

namespace Compile

open Goal

variable {w : WorkingSet} {aliases : Aliases} {options : CompilerOptions} {var : String} {q : Query}

/-- The fields to return: those asked for, or the variable if none are, and those whose text is
matched. -/
theorem mem_outputFields {f : Field} :
    f ∈ outputFields q ↔ (f ∈ q.returns ∨ q.returns = [] ∧ f = ⟨q.var, []⟩) ∨
      ∃ body flags, Condition.matching f body flags ∈ q.conditions := by
  unfold outputFields
  rw [List.mem_append, List.mem_filterMap]
  refine or_congr ?_ ⟨?_, ?_⟩
  · cases q.returns <;> simp
  · rintro ⟨c, hc, hf⟩
    split at hf
    · next field body flags =>
      obtain rfl := Option.some.inj hf
      exact ⟨body, flags, hc⟩
    · simp at hf
  · rintro ⟨body, flags, hc⟩
    exact ⟨_, hc, rfl⟩

/-- The fields to return are fields of the variable. -/
theorem var_outputFields (hplain : q.IsPlain) :
    ∀ f ∈ outputFields q, f.var = q.var := by
  intro f hf
  rcases mem_outputFields.1 hf with (hf | ⟨-, rfl⟩) | ⟨body, flags, hc⟩
  · exact hplain.returns f hf
  · rfl
  · exact hplain.conditions _ hc

/-- What goals that bind columns do: there are columns of exactly the given fields, solutions carry
shown values there, and whatever the entity shows is carried by a solution. -/
structure Columns (w : WorkingSet) (aliases : Aliases) (var : String) (n n' : Nat)
    (fields : List Field) (before after : Projection) (goals : List Goal) : Prop where
  le : n ≤ n'
  displays : ∀ name, (after.lookup name).isSome ↔
    (before.lookup name).isSome ∨ ∃ f ∈ fields, f.display = name
  carriers : ∀ e ∈ after, e ∈ before ∨
    ∃ f ∈ fields, f.display = e.1 ∧ (lookedUp? aliases f = none → e.2 = var)
  ready : ∀ x b c, b.IsReady var x n → c ∈ solutionsEach w goals [b] → c.IsReady var x n'
  sound : ∀ x b c, b.IsReady var x n → b.Bears w aliases var x before →
    c ∈ solutionsEach w goals [b] → c.Bears w aliases var x after
  complete : ∀ x b value, b.IsReady var x n → b.Gives value before →
    (∀ f ∈ fields, w.Shows x (lookedUp? aliases f) (value f.display)) →
    ∃ c ∈ solutionsEach w goals [b], c.Gives value after

section Steps

variable {n n' n'' : Nat} {f : Field} {fields : List Field} {before after : Projection}
  {goals more : List Goal}

/-- Without fields nothing is bound. -/
theorem Columns.nil : Columns w aliases var n n [] before before [] := by
  have hself : ∀ {b c}, c ∈ solutionsEach w [] [b] → c = b := fun h => by simpa using h
  refine ⟨Nat.le_refl n, fun name => by simp, fun e he => .inl he, fun x b c hb hc => ?_,
    fun x b c hb hbears hc => ?_, fun x b value hb hgives _ => ⟨b, by simp, hgives⟩⟩
  · rw [hself hc]
    exact hb
  · rw [hself hc]
    exact hbears

/-- A field whose column is there is passed over. -/
theorem Columns.skip (hknown : (before.lookup f.display).isSome)
    (h : Columns w aliases var n n' fields before after goals) :
    Columns w aliases var n n' (f :: fields) before after goals := by
  refine ⟨h.le, fun name => ?_, fun e he => ?_, h.ready, h.sound,
    fun x b value hb hgives hshows => ?_⟩
  · simp only [h.displays, List.mem_cons, exists_eq_or_imp, ← or_assoc]
    refine or_congr_left ⟨.inl, ?_⟩
    rintro (hname | rfl)
    · exact hname
    · exact hknown
  · exact (h.carriers e he).imp_right fun ⟨g, hg, hcarrier⟩ =>
      ⟨g, List.mem_cons_of_mem f hg, hcarrier⟩
  · exact h.complete x b value hb hgives fun g hg => hshows g (List.mem_cons_of_mem f hg)

/-- A field without column gets one, and then the others do. -/
theorem Columns.add {carrier : String} (hf : f.var = var)
    (hcarries : Carries w var (lookedUp? aliases f) n n' carrier goals)
    (hcarrier : lookedUp? aliases f = none → carrier = var)
    (h : Columns w aliases var n' n'' fields (before ++ [(f.display, carrier)]) after more) :
    Columns w aliases var n n'' (f :: fields) before after (goals ++ more) := by
  refine ⟨Nat.le_trans hcarries.le h.le, fun name => ?_, fun e he => ?_, fun x b c hb hc => ?_,
    fun x b c hb hbears hc => ?_, fun x b value hb hgives hshows => ?_⟩
  · have hnew : (([(f.display, carrier)] : Projection).lookup name).isSome ↔ f.display = name := by
      rw [lookup_cons_eq_ite]
      split <;> simp_all [eq_comm]
    rw [h.displays, List.lookup_append, Option.isSome_or, Bool.or_eq_true, hnew, or_assoc]
    simp only [List.mem_cons, exists_eq_or_imp]
  · rcases h.carriers e he with he | ⟨g, hg, hcarrier'⟩
    · rcases List.mem_append.1 he with he | he
      · exact .inl he
      · obtain rfl := List.mem_singleton.1 he
        exact .inr ⟨f, List.mem_cons_self, rfl, hcarrier⟩
    · exact .inr ⟨g, List.mem_cons_of_mem f hg, hcarrier'⟩
  · obtain ⟨d, hd, hc⟩ := mem_solutionsEach_append.1 hc
    exact h.ready x d c (hcarries.ready x b d hb hd) hc
  · obtain ⟨d, hd, hc⟩ := mem_solutionsEach_append.1 hc
    obtain ⟨v, hv, hshows⟩ := hcarries.sound x b d hb hd
    refine h.sound x d c (hcarries.ready x b d hb hd) (List.forall_mem_append.2 ⟨?_, ?_⟩) hc
    · exact hbears.of_keeps (keeps_of_mem_solutionsEach hd)
    · exact List.forall_mem_singleton.2 ⟨f, v, hf, rfl, hv, hshows⟩
  · rw [List.forall_mem_cons] at hshows
    obtain ⟨d, hd, hv⟩ := hcarries.complete x b _ hb hshows.1
    obtain ⟨c, hc, hgives'⟩ := h.complete x d value (hcarries.ready x b d hb hd)
      (List.forall_mem_append.2 ⟨hgives.of_keeps (keeps_of_mem_solutionsEach hd),
        List.forall_mem_singleton.2 hv⟩) hshows.2
    exact ⟨c, mem_solutionsEach_append.2 ⟨d, hd, hc⟩, hgives'⟩

end Steps

/-- A field without attribute is carried by its variable. -/
theorem carrier_bind {letter : Char} {f : Field} (hf : lookedUp? aliases f = none) (n : Nat) :
    ((bind aliases letter f).run n).1.1 = f.var := by
  unfold bind
  rw [hf]
  rfl

/-- Binding the columns of fields does that. -/
theorem columns_columns (w : WorkingSet) (aliases : Aliases) (hvar : '$' ∉ var.toList)
    {fields : List Field} (hfields : ∀ f ∈ fields, f.var = var) (projection : Projection)
    (n : Nat) :
    Columns w aliases var n ((columns aliases projection fields).run n).2 fields projection
      ((columns aliases projection fields).run n).1.1
      ((columns aliases projection fields).run n).1.2 := by
  induction fields generalizing projection n with
  | nil => exact .nil
  | cons f rest ih =>
    rw [List.forall_mem_cons] at hfields
    rw [columns]
    by_cases hknown : (projection.lookup f.display).isSome
    · rw [if_pos hknown]
      exact (ih hfields.2 projection n).skip hknown
    · rw [if_neg hknown]
      exact .add hfields.1 (carries_bind w aliases hvar 'o' hfields.1 n)
        (fun hf => (carrier_bind hf n).trans hfields.1) (ih hfields.2 _ _)

/-- Binding the columns of fields looks up facts only. -/
theorem isFactual_columns (hvar : '=' ∉ var.toList) {fields : List Field}
    (hfields : ∀ f ∈ fields, f.var = var) (projection : Projection) (n : Nat) :
    ∀ goal ∈ ((columns aliases projection fields).run n).1.2, goal.IsFactual := by
  induction fields generalizing projection n with
  | nil => exact fun _ hgoal => absurd hgoal List.not_mem_nil
  | cons f rest ih =>
    rw [List.forall_mem_cons] at hfields
    rw [columns]
    by_cases hknown : (projection.lookup f.display).isSome
    · rw [if_pos hknown]
      exact ih hfields.2 projection n
    · rw [if_neg hknown]
      exact List.forall_mem_append.2
        ⟨(isFactual_bind aliases hvar (show 'o' ≠ '=' by decide) hfields.1 n).2, ih hfields.2 _ _⟩

/-- The goals of a sort key test whether the entity shows a value to sort by, unless that is a
column. -/
theorem tests_sortKey (w : WorkingSet) (aliases : Aliases) (hvar : '$' ∉ var.toList)
    {key : SortField} (hkey : key.field.var = var) (projection : Projection) (n : Nat) :
    Tests (fun b => solutionsEach w ((sortKey aliases projection key).run n).1.2 [b]) var n
      ((sortKey aliases projection key).run n).2 fun x =>
        (projection.lookup key.field.display).isSome ∨
          ∃ v, w.Shows x (lookedUp? aliases key.field) v := by
  unfold sortKey
  cases hlookup : projection.lookup key.field.display with
  | some carrier => exact Tests.nil.congr fun x => by simp
  | none => exact (carries_bind w aliases hvar 's' hkey n).tests.congr fun x => by simp

/-- The goals of a sort key look up facts only. -/
theorem isFactual_sortKey (hvar : '=' ∉ var.toList) {key : SortField} (hkey : key.field.var = var)
    (projection : Projection) (n : Nat) :
    ∀ goal ∈ ((sortKey aliases projection key).run n).1.2, goal.IsFactual := by
  unfold sortKey
  cases projection.lookup key.field.display with
  | some carrier => exact fun _ hgoal => absurd hgoal List.not_mem_nil
  | none => exact (isFactual_bind aliases hvar (show 's' ≠ '=' by decide) hkey n).2

end Compile

end Find

/-- The binding of an entity alone is ready for all added variables. -/
theorem Binding.isReady_insert_empty {var : String} (hvar : '$' ∉ var.toList) {x : Atom} :
    (Binding.empty.insert var x).IsReady var x 0 := by
  constructor
  · rw [Binding.get?_insert, if_pos rfl]
  · intro letter m _
    rw [Binding.get?_insert, if_neg (Find.Compile.freshName_ne hvar letter m), Binding.get?_empty]

/-- The relation of facts gives an entity a type. -/
def WorkingSet.IsOfType (w : WorkingSet) (x : Atom) (entityType : String) : Prop :=
  ∃ name value, [x, name, value] ∈ w.tuples attrRelation ∧
    name.canonical = (Atom.text typeAttribute).canonical ∧
    value.canonical = (Atom.text entityType).canonical

namespace Find

namespace Compile

/-- The goal of a type. -/
def typeGoal (q : Query) : Goal :=
  attrGoal (.var q.var) (.const (.text typeAttribute)) (.const (.text q.entityType))

/-- Looking up a type binds the variable to one of the entities of the type. -/
theorem mem_solutions_typeGoal {w : WorkingSet} {q : Query} {c : Binding} :
    c ∈ Goal.solutions w (typeGoal q) .empty ↔
      ∃ x, w.IsOfType x q.entityType ∧ c = Binding.empty.insert q.var x := by
  rw [typeGoal, attrGoal, Goal.solutions_literal,
    if_pos (show Predicate.attr.isRelation = true from rfl), Literal.mem_lookup]
  simp only [List.map_cons, List.map_nil, Binding.resolve, Binding.get?_empty]
  constructor
  · rintro ⟨-, t, ht, hfits, hc⟩
    obtain ⟨x, name, value, rfl⟩ := TuplePattern.exists_of_fits_three hfits
    obtain ⟨hname, hvalue⟩ : name.canonical = (Atom.text typeAttribute).canonical ∧
        value.canonical = (Atom.text q.entityType).canonical := by
      simpa [TuplePattern.fits] using hfits
    exact ⟨x, ⟨name, value, ht, hname, hvalue⟩,
      by simpa [Literal.bind?, Binding.unify?_def] using hc.symm⟩
  · rintro ⟨x, ⟨name, value, ht, hname, hvalue⟩, rfl⟩
    exact ⟨rfl, [x, name, value], ht, by simp [TuplePattern.fits, hname, hvalue],
      by simp [Literal.bind?, Binding.unify?_def]⟩

/-- The goals that test the clause of a query. -/
def clauseTests (options : CompilerOptions) (aliases : Aliases) (q : Query) :
    Compiling (List Goal) :=
  match q.clause with
  | some c => clauseGoals options aliases c
  | none => pure []

/-- The sort key of a query with its goals. -/
def sortTests (aliases : Aliases) (projection : Projection) (q : Query) :
    Compiling (Option SortKey × List Goal) :=
  match q.sortField with
  | some s => do
    let (key, goals) ← sortKey aliases projection s
    return (some key, goals)
  | none => pure (none, [])

section Parts

variable (w : WorkingSet) (options : CompilerOptions) (aliases : Aliases) {q : Query} (n : Nat)

/-- The goals for the clause of a query test whether the entity meets it. -/
theorem tests_clauseTests (hvar : '$' ∉ q.var.toList) (hplain : q.IsPlain) :
    Tests (fun b => Goal.solutionsEach w ((clauseTests options aliases q).run n).1 [b]) q.var n
      ((clauseTests options aliases q).run n).2
      fun x => ∀ c, q.clause = some c → c.Meets options.orMode (·.HoldsAt w aliases x) := by
  have hconditions := hplain.conditions
  unfold clauseTests Query.conditions at *
  cases hclause : q.clause with
  | none => exact Tests.nil.congr fun x => by simp
  | some c =>
    rw [hclause] at hconditions
    exact (tests_clause w options aliases hvar hconditions n).1.congr fun x => by simp

/-- The goals for the clause of a query look up facts only. -/
theorem isFactual_clauseTests (hvar : '=' ∉ q.var.toList) (hplain : q.IsPlain) :
    ∀ goal ∈ ((clauseTests options aliases q).run n).1, goal.IsFactual := by
  have hconditions := hplain.conditions
  unfold clauseTests Query.conditions at *
  cases hclause : q.clause with
  | none => exact fun _ hgoal => absurd hgoal List.not_mem_nil
  | some c =>
    rw [hclause] at hconditions
    exact (isFactual_clause options aliases hvar hconditions n).1

/-- The goals for the sort key of a query test whether there is a value to sort by. -/
theorem tests_sortTests (hvar : '$' ∉ q.var.toList) (hplain : q.IsPlain)
    (projection : Projection) :
    Tests (fun b => Goal.solutionsEach w ((sortTests aliases projection q).run n).1.2 [b]) q.var n
      ((sortTests aliases projection q).run n).2 fun x => ∀ key, q.sortField = some key →
        (projection.lookup key.field.display).isSome ∨
          ∃ v, w.Shows x (lookedUp? aliases key.field) v := by
  have hsort := hplain.sortField
  unfold sortTests
  cases hkey : q.sortField with
  | none => exact Tests.nil.congr fun x => by simp
  | some key =>
    exact (tests_sortKey w aliases hvar (hsort key hkey) projection n).congr fun x => by simp

/-- The goals for the sort key of a query look up facts only. -/
theorem isFactual_sortTests (hvar : '=' ∉ q.var.toList) (hplain : q.IsPlain)
    (projection : Projection) :
    ∀ goal ∈ ((sortTests aliases projection q).run n).1.2, goal.IsFactual := by
  have hsort := hplain.sortField
  unfold sortTests
  cases hkey : q.sortField with
  | none => exact fun _ hgoal => absurd hgoal List.not_mem_nil
  | some key => exact isFactual_sortKey hvar (hsort key hkey) projection n

end Parts

end Compile

/-- An entity that a query finds: it has the type, meets the clause, and shows a value to sort by
unless that is a column. -/
structure Query.FindsAt (w : WorkingSet) (mode : OrMode) (aliases : Aliases) (q : Query)
    (x : Atom) : Prop where
  isOfType : w.IsOfType x q.entityType
  meets : ∀ c, q.clause = some c → c.Meets mode (·.HoldsAt w aliases x)
  sorted : ∀ key, q.sortField = some key →
    (∃ f ∈ Compile.outputFields q, f.display = key.field.display) ∨
      ∃ v, w.Shows x (lookedUp? aliases key.field) v

section Compile

open Compile

variable (w : WorkingSet) (options : CompilerOptions) (aliases : Aliases) {q : Query}

/-- A compiled query is put together from the three parts. -/
theorem Compile.compile_eq :
    q.compile options aliases =
      let (tests, n) := (clauseTests options aliases q).run 0
      let ((projection, lookups), n) := (columns aliases [] (outputFields q)).run n
      let (key, keyGoals) := ((sortTests aliases projection q).run n).1
      { query := ⟨typeGoal q :: (tests ++ lookups ++ keyGoals), answerVariables projection key⟩
        projection, sortKey := key, limit := q.limit, entityType := q.entityType } := by
  obtain ⟨entityType, var, clause, returns, sortField, limit⟩ := q
  cases clause <;> cases sortField <;> rfl

/-- What the goals of a query do, part by part. -/
theorem Compile.exists_parts (hvar : '$' ∉ q.var.toList) (hplain : q.IsPlain) :
    ∃ tests lookups keyGoals n₁ n₂ n₃,
      (q.compile options aliases).query.goals = typeGoal q :: (tests ++ lookups ++ keyGoals) ∧
      Tests (fun b => Goal.solutionsEach w tests [b]) q.var 0 n₁
        (fun x => ∀ c, q.clause = some c → c.Meets options.orMode (·.HoldsAt w aliases x)) ∧
      Columns w aliases q.var n₁ n₂ (outputFields q) [] (q.compile options aliases).projection
        lookups ∧
      Tests (fun b => Goal.solutionsEach w keyGoals [b]) q.var n₂ n₃
        (fun x => ∀ key, q.sortField = some key →
          ((q.compile options aliases).projection.lookup key.field.display).isSome ∨
            ∃ v, w.Shows x (lookedUp? aliases key.field) v) := by
  rw [compile_eq]
  exact ⟨_, _, _, _, _, _, rfl, tests_clauseTests w options aliases 0 hvar hplain,
    columns_columns w aliases hvar (var_outputFields hplain) [] _,
    tests_sortTests w aliases _ hvar hplain _⟩

/-- The goals of a query look up facts only. -/
theorem Compile.isFactual_compile (hvar : '=' ∉ q.var.toList) (hplain : q.IsPlain) :
    ∀ goal ∈ (q.compile options aliases).query.goals, goal.IsFactual := by
  have htype : (typeGoal q).IsFactual := Goal.isFactual_attrGoal fun name hname => by
    obtain rfl : name = q.var := by simpa using hname
    exact hvar
  rw [compile_eq]
  refine List.forall_mem_cons.2 ⟨htype, List.forall_mem_append.2 ⟨List.forall_mem_append.2 ⟨?_, ?_⟩,
    ?_⟩⟩
  · exact isFactual_clauseTests options aliases 0 hvar hplain
  · exact isFactual_columns hvar (var_outputFields hplain) [] _
  · exact isFactual_sortTests aliases _ hvar hplain _

/-- The columns of a query are those of its fields; a field without attribute is carried by the
variable. -/
theorem Compile.columns_compile (hvar : '$' ∉ q.var.toList) (hplain : q.IsPlain) :
    (∀ name, ((q.compile options aliases).projection.lookup name).isSome ↔
        ∃ f ∈ outputFields q, f.display = name) ∧
      ∀ e ∈ (q.compile options aliases).projection, ∃ f ∈ outputFields q, f.display = e.1 ∧
        (lookedUp? aliases f = none → e.2 = q.var) := by
  obtain ⟨_, _, _, _, _, _, -, -, hcolumns, -⟩ :=
    exists_parts WorkingSet.empty options aliases hvar hplain
  refine ⟨fun name => (hcolumns.displays name).trans (by simp), fun e he => ?_⟩
  exact (hcolumns.carriers e he).resolve_left List.not_mem_nil

/-- In every solution of the goals of a query the variable has an entity that the query finds, and
each column carries a value that the entity shows. -/
theorem Query.sound_compile (hvar : '$' ∉ q.var.toList) (hplain : q.IsPlain) {b : Binding}
    (hb : b ∈ Goal.solutionsEach w (q.compile options aliases).query.goals [.empty]) :
    ∃ x, q.FindsAt w options.orMode aliases x ∧ b.get? q.var = some x ∧
      b.Bears w aliases q.var x (q.compile options aliases).projection := by
  obtain ⟨tests, lookups, keyGoals, n₁, n₂, n₃, hgoals, htests, hcolumns, hkey⟩ :=
    exists_parts w options aliases hvar hplain
  rw [hgoals, Goal.mem_solutionsEach_cons] at hb
  simp only [Goal.mem_solutionsEach_append] at hb
  obtain ⟨c₀, htype, c₂, ⟨c₁, hc₁, hc₂⟩, hb⟩ := hb
  obtain ⟨x, hx, rfl⟩ := mem_solutions_typeGoal.1 htype
  have hready₁ := htests.ready x _ c₁ (Binding.isReady_insert_empty hvar) hc₁
  have hready₂ := hcolumns.ready x c₁ c₂ hready₁ hc₂
  have hbears : c₂.Bears w aliases q.var x (q.compile options aliases).projection :=
    hcolumns.sound x c₁ c₂ hready₁ (fun e he => absurd he List.not_mem_nil) hc₂
  refine ⟨x, ⟨hx, ?_, ?_⟩, (hkey.ready x c₂ b hready₂ hb).entity, ?_⟩
  · exact (htests.exists_iff x _ (Binding.isReady_insert_empty hvar)).1 ⟨c₁, hc₁⟩
  · intro key hsort
    have hsorted := (hkey.exists_iff x c₂ hready₂).1 ⟨b, hb⟩ key hsort
    rwa [(columns_compile options aliases hvar hplain).1] at hsorted
  · exact hbears.of_keeps (Goal.keeps_of_mem_solutionsEach hb)

/-- For every entity that a query finds and every choice of shown values there is a solution of its
goals whose columns carry them. -/
theorem Query.complete_compile (hvar : '$' ∉ q.var.toList) (hplain : q.IsPlain) {x : Atom}
    (hx : q.FindsAt w options.orMode aliases x) {value : String → Atom}
    (hshows : ∀ f ∈ outputFields q, w.Shows x (lookedUp? aliases f) (value f.display)) :
    ∃ b ∈ Goal.solutionsEach w (q.compile options aliases).query.goals [.empty],
      b.get? q.var = some x ∧ b.Gives value (q.compile options aliases).projection := by
  obtain ⟨tests, lookups, keyGoals, n₁, n₂, n₃, hgoals, htests, hcolumns, hkey⟩ :=
    exists_parts w options aliases hvar hplain
  have hready := Binding.isReady_insert_empty (x := x) hvar
  obtain ⟨c₁, hc₁⟩ := (htests.exists_iff x _ hready).2 hx.meets
  have hready₁ := htests.ready x _ c₁ hready hc₁
  obtain ⟨c₂, hc₂, hgives⟩ := hcolumns.complete x c₁ value hready₁
    (fun e he => absurd he List.not_mem_nil) hshows
  have hready₂ := hcolumns.ready x c₁ c₂ hready₁ hc₂
  obtain ⟨b, hb⟩ := (hkey.exists_iff x c₂ hready₂).2 fun key hsort => by
    rw [(columns_compile options aliases hvar hplain).1]
    exact hx.sorted key hsort
  refine ⟨b, ?_, (hkey.ready x c₂ b hready₂ hb).entity,
    hgives.of_keeps (Goal.keeps_of_mem_solutionsEach hb)⟩
  rw [hgoals, Goal.mem_solutionsEach_cons]
  simp only [Goal.mem_solutionsEach_append]
  exact ⟨_, mem_solutions_typeGoal.2 ⟨x, hx.isOfType, rfl⟩, c₂, ⟨c₁, hc₁, hc₂⟩, hb⟩

end Compile

end Find

end Factbase
