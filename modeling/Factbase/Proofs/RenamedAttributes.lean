import Mathlib.Data.List.Forall2
import Factbase.Proofs.BackedRows
import Factbase.Proofs.Monotonicity

/-! # Queries whose attributes are looked up under other names

A query can be compiled with different aliases. What it writes differs in the looked-up attributes
only, for the same variables are taken in the same order (`Find.Compile.Related`). Where each
attribute is the same, or occurs in no fact of some relations, the solutions over these are kept
over relations that cover them (`Goal.Transfers`, `Find.Query.exists_compile_eq`): looking up an
attribute without facts has no solution that could be lost. -/

namespace Factbase

namespace Goal

variable {I : Interpretation} {goals goals' front front' back back' : List Goal} {l l' : Literal}
  {branches branches' : List (List Goal)}

/-- What goals yield over some relations others yield over all relations that cover these, and both
mention the same relations. -/
structure Transfers (I : Interpretation) (goals goals' : List Goal) : Prop where
  yields : ∀ {I' b b' c}, (∀ name, Covers (I' name) (I name)) → b.Same c →
    YieldsEach I I goals b b' → ∃ c', b'.Same c' ∧ YieldsEach I' I' goals' c c'
  references : referencesInEach false goals = referencesInEach false goals'

namespace Transfers

theorem nil : Transfers I [] [] :=
  ⟨fun {_ _ _ c} _ hsame hb => ⟨c, hb ▸ hsame, rfl⟩, rfl⟩

theorem append (hfront : Transfers I front front') (hback : Transfers I back back') :
    Transfers I (front ++ back) (front' ++ back') := by
  have happend : ∀ front back : List Goal, referencesInEach false (front ++ back) =
      referencesInEach false front ++ referencesInEach false back := by
    intro front back
    induction front with
    | nil => rfl
    | cons goal rest ih => simp [referencesInEach, ih]
  refine ⟨fun hI hsame hb => ?_, by rw [happend, happend, hfront.references, hback.references]⟩
  obtain ⟨d, hd, hb⟩ := yieldsEach_append.1 hb
  obtain ⟨d', hdd', hd'⟩ := hfront.yields hI hsame hd
  obtain ⟨c', hc, hc'⟩ := hback.yields hI hdd' hb
  exact ⟨c', hc, yieldsEach_append.2 ⟨d', hd', hc'⟩⟩

/-- A literal keeps its solutions. -/
theorem literal (l : Literal) : Transfers I [.literal l] [.literal l] := by
  refine ⟨fun hI hsame hb => ?_, rfl⟩
  rw [yieldsEach_singleton] at hb
  obtain ⟨c', hc, hc'⟩ := (IsPositive.literal l).yields_mono hI hsame hb
  exact ⟨c', hc, yieldsEach_singleton.2 hc'⟩

/-- A literal without solutions has none that another literal would have to keep. -/
theorem of_not_yields (h : ∀ b c, ¬ Yields I I (.literal l) b c)
    (hreferences : referencesUnder false (.literal l) = referencesUnder false (.literal l')) :
    Transfers I [.literal l] [.literal l'] := by
  refine ⟨fun _ _ hb => absurd (yieldsEach_singleton.1 hb) (h _ _), ?_⟩
  rw [referencesInEach, referencesInEach, hreferences]
  rfl

/-- Choices keep solutions branch by branch. -/
theorem anyOf (h : List.Forall₂ (Transfers I) branches branches') :
    Transfers I [.anyOf branches] [.anyOf branches'] := by
  have hbranches : (∀ branch ∈ branches, ∃ branch' ∈ branches', Transfers I branch branch') ∧
      referencesInBranches false branches = referencesInBranches false branches' := by
    induction h with
    | nil => exact ⟨List.forall_mem_nil _, rfl⟩
    | @cons branch branch' _ rest' hfirst _ ih =>
      refine ⟨List.forall_mem_cons.2 ⟨⟨branch', List.mem_cons_self, hfirst⟩,
        fun other hother => ?_⟩, ?_⟩
      · obtain ⟨other', hother', htransfers⟩ := ih.1 other hother
        exact ⟨other', List.mem_cons_of_mem _ hother', htransfers⟩
      · rw [referencesInBranches, referencesInBranches, hfirst.references, ih.2]
  refine ⟨fun hI hsame hb => ?_, ?_⟩
  · rw [yieldsEach_singleton, Yields, yieldsAny_iff] at hb
    obtain ⟨branch, hbranch, hb⟩ := hb
    obtain ⟨branch', hbranch', htransfers⟩ := hbranches.1 branch hbranch
    obtain ⟨c', hc, hc'⟩ := htransfers.yields hI hsame hb
    refine ⟨c', hc, ?_⟩
    rw [yieldsEach_singleton, Yields, yieldsAny_iff]
    exact ⟨branch', hbranch', hc'⟩
  · simp only [referencesInEach, referencesUnder, hbranches.2]

end Transfers

end Goal

namespace Find

namespace Compile

open Goal (Transfers)

/-! ## Compilations that take the same variables -/

/-- Two compilations take as many variables, whichever the next one is, and their results are
related. -/
def Related {α β : Type} (R : α → β → Prop) (x : Compiling α) (y : Compiling β) : Prop :=
  ∀ n, R (x.run n).1 (y.run n).1 ∧ (x.run n).2 = (y.run n).2

namespace Related

variable {α β γ δ : Type} {R : α → β → Prop} {S : γ → δ → Prop} {x : Compiling α} {y : Compiling β}

theorem pure {a : α} {b : β} (h : R a b) : Related R (Pure.pure a) (Pure.pure b) :=
  fun _ => ⟨h, rfl⟩

theorem bind {f : α → Compiling γ} {g : β → Compiling δ} (hx : Related R x y)
    (hf : ∀ a b, R a b → Related S (f a) (g b)) : Related S (x >>= f) (y >>= g) := by
  intro n
  obtain ⟨hresult, hnext⟩ := hx n
  rcases hx' : x.run n with ⟨a, m⟩
  rcases hy' : y.run n with ⟨b, m'⟩
  rw [hx', hy'] at hresult hnext
  obtain rfl : m = m' := hnext
  simp only [StateT.run_bind, hx', hy']
  exact hf a b hresult m

/-- Compilations of the same are related to themselves. -/
theorem refl {R : α → α → Prop} (hR : ∀ a, R a a) (x : Compiling α) : Related R x x :=
  fun _ => ⟨hR _, rfl⟩

end Related

/-- A field is looked up alike, or once under an attribute which no tuple has. -/
def IsKept (I : Interpretation) (aliases aliases' : Aliases) (f : Field) : Prop :=
  lookedUp? aliases f = lookedUp? aliases' f ∨
    ∃ attr attr', lookedUp? aliases f = some attr ∧ lookedUp? aliases' f = some attr' ∧
      ∀ x name v, [x, name, v] ∈ I attrRelation → name.canonical ≠ (Atom.text attr).canonical

section Parts

variable {I : Interpretation} {aliases aliases' : Aliases} (options : CompilerOptions)

/-- The look-up of a field that is kept keeps its solutions, with the same variable. -/
theorem related_bind {f : Field} (hf : IsKept I aliases aliases' f) (letter : Char) :
    Related (fun p p' => p.1 = p'.1 ∧ Transfers I p.2 p'.2) (bind aliases letter f)
      (bind aliases' letter f) := by
  unfold bind
  rcases hf with hsame | ⟨attr, attr', hattr, hattr', hnone⟩
  · rw [hsame]
    cases lookedUp? aliases' f with
    | none => exact .pure ⟨rfl, .nil⟩
    | some attr =>
      refine .bind (.refl (fun _ => rfl) _) ?_
      rintro value _ rfl
      exact .pure ⟨rfl, .literal _⟩
  · -- the two look-ups differ, but the first finds nothing
    rw [hattr, hattr']
    refine .bind (.refl (fun _ => rfl) _) ?_
    rintro value _ rfl
    refine .pure ⟨rfl, .of_not_yields (fun b c hb => ?_) rfl⟩
    obtain ⟨t, ht, hextends⟩ := hb
    have hagrees := hextends.agrees
    match t with
    | [x, name, v] =>
      rw [Literal.agrees_cons, Literal.agrees_cons] at hagrees
      exact hnone x name v ht (Option.some.inj hagrees.2.1).symm
    | [] | [_] | [_, _] | _ :: _ :: _ :: _ :: _ => simp [Literal.Agrees] at hagrees

/-- The test of a field that is kept keeps its solutions. -/
theorem related_test {f : Field} (hf : IsKept I aliases aliases' f) (predicate : Predicate)
    (operands : List Term) :
    Related (Transfers I) (testGoals aliases f predicate operands)
      (testGoals aliases' f predicate operands) := by
  refine .bind (related_bind hf 't') ?_
  rintro ⟨value, goals⟩ ⟨_, goals'⟩ ⟨rfl, hgoals⟩
  exact .pure (hgoals.append (.literal _))

/-- The goals of a condition keep their solutions. -/
theorem related_condition {c : Condition}
    (hc : ∀ f, c.field? = some f → IsKept I aliases aliases' f) :
    Related (Transfers I) (conditionGoals aliases c) (conditionGoals aliases' c) := by
  cases c with
  | call name operands => exact .pure (.literal _)
  | _ => exact related_test (hc _ rfl) _ _

/-- The goals of a clause keep their solutions, and so do its branches one by one. -/
theorem related_clause {c : Clause} (hc : ∀ f ∈ c.fields, IsKept I aliases aliases' f) :
    Related (Transfers I) (clauseGoals options aliases c) (clauseGoals options aliases' c) ∧
      Related (List.Forall₂ (Transfers I)) (clauseBranches options aliases c)
        (clauseBranches options aliases' c) := by
  -- goals and branches in one induction, for a choice is compiled to the branches of its sides
  induction c with
  | both left right hleft hright =>
    rw [Clause.fields, Clause.conditions, List.filterMap_append, List.forall_mem_append] at hc
    constructor
    · refine .bind (hleft hc.1).1 fun front front' hfront => ?_
      exact .bind (hright hc.2).1 fun back back' hback => .pure (hfront.append hback)
    · refine .bind (hleft hc.1).1 fun front front' hfront => ?_
      exact .bind (hright hc.2).1 fun back back' hback => .pure (.cons (hfront.append hback) .nil)
  | either left right hleft hright =>
    rw [Clause.fields, Clause.conditions, List.filterMap_append, List.forall_mem_append] at hc
    constructor
    · rw [clauseGoals, clauseGoals]
      cases options.orMode with
      | conjunctive =>
        refine .bind (hleft hc.1).1 fun front front' hfront => ?_
        exact .bind (hright hc.2).1 fun back back' hback => .pure (hfront.append hback)
      | disjunctive =>
        refine .bind (hleft hc.1).2 fun front front' hfront => ?_
        refine .bind (hright hc.2).2 fun back back' hback => .pure (.anyOf ?_)
        exact List.rel_append hfront hback
    · refine .bind (hleft hc.1).2 fun front front' hfront => ?_
      exact .bind (hright hc.2).2 fun back back' hback => .pure (List.rel_append hfront hback)
  | condition c =>
    have hfield : ∀ f, c.field? = some f → IsKept I aliases aliases' f := by
      intro f hf
      exact hc f (List.mem_filterMap.2 ⟨c, List.mem_singleton_self c, hf⟩)
    have hgoals := related_condition hfield
    exact ⟨hgoals, .bind hgoals fun _ _ h => .pure (.cons h .nil)⟩

/-- The look-ups of columns that are kept keep their solutions. -/
theorem related_columns {fields : List Field} (hfields : ∀ f ∈ fields, IsKept I aliases aliases' f)
    (projection : Projection) :
    Related (fun p p' => p.1 = p'.1 ∧ Transfers I p.2 p'.2)
      (columns aliases projection fields) (columns aliases' projection fields) := by
  induction fields generalizing projection with
  | nil => exact .pure ⟨rfl, .nil⟩
  | cons f rest ih =>
    obtain ⟨hf, hrest⟩ := List.forall_mem_cons.1 hfields
    unfold columns
    split
    · exact ih hrest projection
    · refine .bind (related_bind hf 'o') ?_
      rintro ⟨value, goals⟩ ⟨_, goals'⟩ ⟨rfl, hgoals⟩
      refine .bind (ih hrest _) ?_
      rintro ⟨projection', more⟩ ⟨_, more'⟩ ⟨rfl, hmore⟩
      exact .pure ⟨rfl, hgoals.append hmore⟩

/-- The look-up of a sort key that is kept keeps its solutions. -/
theorem related_sortTests {q : Query}
    (hsort : ∀ s, q.sortField = some s → IsKept I aliases aliases' s.field)
    (projection : Projection) :
    Related (fun p p' => p.1 = p'.1 ∧ Transfers I p.2 p'.2)
      (sortTests aliases projection q) (sortTests aliases' projection q) := by
  unfold sortTests
  cases hs : q.sortField with
  | none => exact .pure ⟨rfl, .nil⟩
  | some s =>
    have hkey : Related (fun p p' => p.1 = p'.1 ∧ Transfers I p.2 p'.2)
        (sortKey aliases projection s) (sortKey aliases' projection s) := by
      unfold sortKey
      cases projection.lookup s.field.display with
      | some value => exact .pure ⟨rfl, .nil⟩
      | none =>
        refine .bind (related_bind (hsort s hs) 's') ?_
        rintro ⟨value, goals⟩ ⟨_, goals'⟩ ⟨rfl, hgoals⟩
        exact .pure ⟨rfl, hgoals⟩
    refine .bind hkey ?_
    rintro ⟨key, goals⟩ ⟨_, goals'⟩ ⟨rfl, hgoals⟩
    exact .pure ⟨rfl, hgoals⟩

end Parts

/-- A query is compiled part by part. -/
theorem query_eq (options : CompilerOptions) (aliases : Aliases) (q : Query) :
    query options aliases q = (do
      let tests ← clauseTests options aliases q
      let (projection, lookups) ← columns aliases [] (outputFields q)
      let (key, keyGoals) ← sortTests aliases projection q
      return {
        query := ⟨typeGoal q :: (tests ++ lookups ++ keyGoals), answerVariables projection key⟩
        projection, sortKey := key, limit := q.limit, entityType := q.entityType }) := by
  obtain ⟨entityType, var, clause, returns, sortField, limit⟩ := q
  cases clause <;> cases sortField <;> rfl

/-- The look-ups of columns write the variables of the fields. -/
theorem writes_columns (aliases : Aliases) {fields : List Field}
    (hfields : ∀ f ∈ fields, IsWord f.var) (projection : Projection) (n : Nat) :
    Writes n ((columns aliases projection fields).run n).2
      ((columns aliases projection fields).run n).1.2 := by
  induction fields generalizing projection n with
  | nil => exact .nil n
  | cons f rest ih =>
    obtain ⟨hf, hrest⟩ := List.forall_mem_cons.1 hfields
    unfold columns
    split
    · exact ih hrest projection n
    · exact (writes_bind aliases (show 'o' ≠ '=' by decide) hf n).2.append (ih hrest _ _)

/-- The look-up of a sort key writes the variable of its field. -/
theorem writes_sortTests (aliases : Aliases) {q : Query}
    (hsort : ∀ s, q.sortField = some s → IsWord s.field.var) (projection : Projection) (n : Nat) :
    Writes n ((sortTests aliases projection q).run n).2
      ((sortTests aliases projection q).run n).1.2 := by
  unfold sortTests
  cases hs : q.sortField with
  | none => exact .nil n
  | some s =>
    dsimp only
    unfold sortKey
    cases projection.lookup s.field.display with
    | some value => exact .nil n
    | none => exact (writes_bind aliases (show 's' ≠ '=' by decide) (hsort s hs) n).2

end Compile

open Compile in
/-- No variable of a compiled query holds an equals sign if those of the query are words. -/
theorem Query.isLegible_compile (options : CompilerOptions) (aliases : Aliases) {q : Query}
    (hwords : ∀ name ∈ q.vars, IsWord name) :
    ∀ goal ∈ (q.compile options aliases).query.goals, ∀ l, goal.Mentions l → l.IsLegible := by
  have htype : (typeGoal q).AllVariables (IsVariable 0) := by
    refine Goal.allVariables_literal.2 fun name hname => .inl (hwords _ ?_)
    obtain rfl : name = q.var := by simpa using hname
    exact List.mem_cons_self
  have hcolumns : ∀ f ∈ outputFields q, IsWord f.var := fun f hf =>
    hwords _ (mem_vars_of_mem_outputFields hf)
  have hsort : ∀ s, q.sortField = some s → IsWord s.field.var := by
    intro s hs
    refine hwords _ (List.mem_cons_of_mem _ (List.mem_append_right _ (List.mem_map_of_mem ?_)))
    simp [hs]
  rw [compile_eq]
  refine List.forall_mem_cons.2 ⟨fun l hl name hname => (htype l hl name hname).not_mem, ?_⟩
  exact (((writes_clauseTests options aliases hwords 0).append
    (writes_columns aliases hcolumns [] _)).append (writes_sortTests aliases hsort _ _)).isLegible

open Compile in
/-- Compiled with aliases under which its fields are kept, a query differs in its goals only, and
these keep their solutions. -/
theorem Query.exists_compile_eq {I : Interpretation} {aliases aliases' : Aliases} {q : Query}
    (options : CompilerOptions) (hfields : ∀ f ∈ q.fields, IsKept I aliases aliases' f) :
    ∃ goals, Goal.Transfers I (q.compile options aliases).query.goals goals ∧
      q.compile options aliases' =
        { q.compile options aliases with
          query := ⟨goals, (q.compile options aliases).query.answer⟩ } := by
  have htests : Related (Goal.Transfers I) (clauseTests options aliases q)
      (clauseTests options aliases' q) := by
    unfold clauseTests
    cases hclause : q.clause with
    | none => exact .pure .nil
    | some c =>
      refine (related_clause options fun f hf => hfields f ?_).1
      rw [Query.fields, Query.conditions, hclause]
      exact List.mem_append_left _ (List.mem_append_left _ hf)
  have hcolumns : ∀ f ∈ outputFields q, IsKept I aliases aliases' f := by
    intro f hf
    rcases mem_outputFields.1 hf with (hf | ⟨-, rfl⟩) | ⟨body, flags, hc⟩
    · exact hfields f (List.mem_append_left _ (List.mem_append_right _ hf))
    · exact .inl rfl
    · exact hfields f (List.mem_append_left _ (List.mem_append_left _
        (List.mem_filterMap.2 ⟨_, hc, rfl⟩)))
  have hsort : ∀ s, q.sortField = some s → IsKept I aliases aliases' s.field := by
    intro s hs
    refine hfields _ (List.mem_append_right _ ?_)
    simp [hs]
  have hquery : Related (fun c c' : Compiled => ∃ goals,
      Goal.Transfers I c.query.goals goals ∧ c' = { c with query := ⟨goals, c.query.answer⟩ })
      (query options aliases q) (query options aliases' q) := by
    rw [query_eq, query_eq]
    refine .bind htests fun tests tests' htests => ?_
    refine .bind (related_columns hcolumns []) ?_
    rintro ⟨projection, lookups⟩ ⟨_, lookups'⟩ ⟨rfl, hlookups⟩
    refine .bind (related_sortTests hsort projection) ?_
    rintro ⟨key, keyGoals⟩ ⟨_, keyGoals'⟩ ⟨rfl, hkeyGoals⟩
    refine .pure ⟨_, ?_, rfl⟩
    exact (Goal.Transfers.literal _).append ((htests.append hlookups).append hkeyGoals)
  exact (hquery 0).1

end Find

end Factbase
