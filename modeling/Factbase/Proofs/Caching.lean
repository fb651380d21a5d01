import Factbase.Evaluation

/-! # Values of computations with a pattern cache

What was compiled before does not change what a computation gives (`Matching.IsCacheFree`): the
cache saves work only. So solving has a value, the solutions, with an equation for each kind of
goal, and saturating has an outcome that can be taken apart step by step. -/

namespace Factbase

namespace Matching

variable {α β : Type}

/-- The value of a computation that starts with an empty cache. -/
def value (m : Matching α) : α := (StateT.run m .empty).1

/-- A computation with the same value whatever was compiled before. -/
def IsCacheFree (m : Matching α) : Prop := ∀ cache, (StateT.run m cache).1 = value m

@[simp] theorem value_pure (a : α) : value (pure a : Matching α) = a := rfl

theorem isCacheFree_pure (a : α) : IsCacheFree (pure a : Matching α) := fun _ => rfl

/-- The value of two computations one after the other. -/
theorem value_bind {m : Matching α} {f : α → Matching β} (hf : ∀ a, IsCacheFree (f a)) :
    value (m >>= f) = value (f (value m)) :=
  hf (value m) _

theorem IsCacheFree.bind {m : Matching α} {f : α → Matching β} (hm : IsCacheFree m)
    (hf : ∀ a, IsCacheFree (f a)) : IsCacheFree (m >>= f) := by
  intro cache
  have hfirst : (StateT.run (m >>= f) cache).1 = value (f (StateT.run m cache).1) := hf _ _
  rw [hfirst, hm cache, value_bind hf]

end Matching

namespace Filter

open Matching

theorem value_matchText (written text : String) :
    value (matchText written text) = (Matcher.compile written).isMatch text := by
  show ((PatternCache.empty.get written).1.isMatch text) = _
  rw [PatternCache.get_fst]

theorem isCacheFree_matchText (written text : String) : IsCacheFree (matchText written text) := by
  intro cache
  rw [value_matchText]
  show ((cache.get written).1.isMatch text) = _
  rw [PatternCache.get_fst]

theorem isCacheFree_regex (a pattern : Atom) : IsCacheFree (regex a pattern) := by
  unfold regex
  split
  · exact isCacheFree_matchText _ _
  · exact isCacheFree_pure false

theorem isCacheFree_contains (a needle : Atom) : IsCacheFree (contains a needle) := by
  unfold contains
  split
  · split
    · exact isCacheFree_matchText _ _
    · exact isCacheFree_pure _
  · exact isCacheFree_pure false

theorem isCacheFree_holdsOf (predicate : Predicate) (values : List Atom) :
    IsCacheFree (holdsOf predicate values) := by
  unfold holdsOf
  split
  -- only the filters that match a pattern read the cache
  case h_4 => exact isCacheFree_regex _ _
  case h_5 => exact isCacheFree_contains _ _
  all_goals exact isCacheFree_pure _

theorem isCacheFree_holds (predicate : Predicate) (terms : List Term) (b : Binding) :
    IsCacheFree (holds predicate terms b) := by
  unfold holds
  split
  · exact isCacheFree_holdsOf _ _
  · exact isCacheFree_pure false

/-- Whether a filter lets some values pass. -/
def passesOf (predicate : Predicate) (values : List Atom) : Bool := value (holdsOf predicate values)

/-- Whether a filter lets a binding pass. -/
def passes (predicate : Predicate) (terms : List Term) (b : Binding) : Bool :=
  value (holds predicate terms b)

/-- A filter lets a binding pass when all terms have values and these pass. -/
theorem passes_iff {predicate : Predicate} {terms : List Term} {b : Binding} :
    passes predicate terms b = true ↔
      ∃ values, terms.mapM b.resolve = some values ∧ passesOf predicate values = true := by
  unfold passes holds
  cases terms.mapM b.resolve with
  | none => simp
  | some values => simp [passesOf]

end Filter

namespace Goal

open Matching

variable {w : WorkingSet}

/-- The solutions of a goal that extend a binding. -/
def solutions (w : WorkingSet) (goal : Goal) (b : Binding) : List Binding := value (solve w goal b)

/-- The solutions of a conjunction that extend one of some bindings. -/
def solutionsEach (w : WorkingSet) (goals : List Goal) (bindings : List Binding) : List Binding :=
  value (solveEach w goals bindings)

/-- The solutions of the branches of a choice. -/
def solutionsAny (w : WorkingSet) (branches : List (List Goal)) (b : Binding) : List Binding :=
  value (solveAny w branches b)

theorem isCacheFree_solveFrom {solve : Binding → Matching (List Binding)}
    (h : ∀ b, IsCacheFree (solve b)) (bindings : List Binding) :
    IsCacheFree (solveFrom solve bindings) := by
  induction bindings with
  | nil => exact isCacheFree_pure _
  | cons b rest ih => exact (h b).bind fun _ => ih.bind fun _ => isCacheFree_pure _

theorem value_solveFrom {solve : Binding → Matching (List Binding)}
    (h : ∀ b, IsCacheFree (solve b)) (bindings : List Binding) :
    value (solveFrom solve bindings) = bindings.flatMap fun b => value (solve b) := by
  induction bindings with
  | nil => rfl
  | cons b rest ih =>
    rw [solveFrom, value_bind fun _ => (isCacheFree_solveFrom h rest).bind fun _ =>
      isCacheFree_pure _, value_bind fun _ => isCacheFree_pure _, value_pure, ih, List.flatMap_cons]

theorem isCacheFree_solveEach {goals : List Goal}
    (h : ∀ goal ∈ goals, ∀ b, IsCacheFree (solve w goal b)) (bindings : List Binding) :
    IsCacheFree (solveEach w goals bindings) := by
  induction goals generalizing bindings with
  | nil => exact isCacheFree_pure _
  | cons goal rest ih =>
    rw [List.forall_mem_cons] at h
    rw [solveEach]
    exact (isCacheFree_solveFrom h.1 bindings).bind fun _ => ih h.2 _

theorem isCacheFree_solveAny {branches : List (List Goal)}
    (h : ∀ branch ∈ branches, ∀ goal ∈ branch, ∀ b, IsCacheFree (solve w goal b)) (b : Binding) :
    IsCacheFree (solveAny w branches b) := by
  induction branches with
  | nil => exact isCacheFree_pure _
  | cons branch rest ih =>
    rw [List.forall_mem_cons] at h
    rw [solveAny]
    exact (isCacheFree_solveEach h.1 _).bind fun _ => (ih h.2).bind fun _ => isCacheFree_pure _

/-- Solving a goal gives the same solutions whatever was compiled before. -/
theorem isCacheFree_solve (goal : Goal) (b : Binding) : IsCacheFree (solve w goal b) := by
  induction goal generalizing b with
  | literal l =>
    rw [solve]
    split
    · exact isCacheFree_pure _
    · exact (Filter.isCacheFree_holds _ _ _).bind fun _ => isCacheFree_pure _
  | not goal ih =>
    rw [solve]
    exact (ih b).bind fun _ => isCacheFree_pure _
  | anyOf branches ih =>
    rw [solve]
    exact (isCacheFree_solveAny ih b).bind fun _ => isCacheFree_pure _

/-- The solutions of a literal: what is looked up, or the binding itself if the filter holds. -/
theorem solutions_literal (l : Literal) (b : Binding) :
    solutions w (.literal l) b =
      if l.predicate.isRelation then l.lookup w b
      else if Filter.passes l.predicate l.terms b then [b] else [] := by
  rw [solutions, solve]
  split
  · rfl
  · rw [value_bind fun _ => isCacheFree_pure _]
    rfl

/-- The solutions of a negated goal: the binding itself if the goal has none. -/
theorem solutions_not (goal : Goal) (b : Binding) :
    solutions w (.not goal) b = if (solutions w goal b).isEmpty then [b] else [] := by
  rw [solutions, solve, value_bind fun _ => isCacheFree_pure _]
  rfl

/-- A negated goal holds where the goal has no solution. -/
theorem solutions_not_of_eq_nil {goal : Goal} {b : Binding} (h : solutions w goal b = []) :
    solutions w (.not goal) b = [b] := by
  rw [solutions_not, h]
  rfl

/-- The solutions of a choice: those of its branches, each once. -/
theorem solutions_anyOf (branches : List (List Goal)) (b : Binding) :
    solutions w (.anyOf branches) b = distinctBy Binding.canonical (solutionsAny w branches b) := by
  rw [solutions, solve, value_bind fun _ => isCacheFree_pure _]
  rfl

@[simp] theorem solutionsEach_nil (bindings : List Binding) :
    solutionsEach w [] bindings = bindings := by
  rw [solutionsEach, solveEach]
  rfl

theorem solutionsEach_cons (goal : Goal) (rest : List Goal) (bindings : List Binding) :
    solutionsEach w (goal :: rest) bindings =
      solutionsEach w rest (bindings.flatMap (solutions w goal)) := by
  rw [solutionsEach, solveEach,
    value_bind fun _ => isCacheFree_solveEach (fun goal _ => isCacheFree_solve goal) _,
    value_solveFrom (isCacheFree_solve goal)]
  rfl

/-- A last goal is solved from the solutions of the goals before. -/
theorem solutionsEach_concat (goals : List Goal) (goal : Goal) (bindings : List Binding) :
    solutionsEach w (goals ++ [goal]) bindings =
      (solutionsEach w goals bindings).flatMap (solutions w goal) := by
  induction goals generalizing bindings with
  | nil => simp [solutionsEach_cons]
  | cons first rest ih => rw [List.cons_append, solutionsEach_cons, ih, ← solutionsEach_cons]

@[simp] theorem solutionsAny_nil (b : Binding) : solutionsAny w [] b = [] := by
  rw [solutionsAny, solveAny]
  rfl

theorem solutionsAny_cons (branch : List Goal) (rest : List (List Goal)) (b : Binding) :
    solutionsAny w (branch :: rest) b =
      solutionsEach w branch [b] ++ solutionsAny w rest b := by
  have hrest : IsCacheFree (solveAny w rest b) :=
    isCacheFree_solveAny (fun _ _ goal _ => isCacheFree_solve goal) b
  rw [solutionsAny, solveAny, value_bind fun _ => hrest.bind fun _ => isCacheFree_pure _,
    value_bind fun _ => isCacheFree_pure _]
  rfl

/-- The solutions from several bindings are those from each of them, one after the other. -/
theorem solutionsEach_eq_flatMap (goals : List Goal) (bindings : List Binding) :
    solutionsEach w goals bindings = bindings.flatMap fun b => solutionsEach w goals [b] := by
  induction goals generalizing bindings with
  | nil => simp
  | cons goal rest ih =>
    -- the solutions of the first goal are again bindings from which the others are solved
    rw [solutionsEach_cons, ih, List.flatMap_assoc]
    simp only [solutionsEach_cons, List.flatMap_singleton, ← ih]

theorem mem_solutionsEach {goals : List Goal} {bindings : List Binding} {c : Binding} :
    c ∈ solutionsEach w goals bindings ↔ ∃ b ∈ bindings, c ∈ solutionsEach w goals [b] := by
  rw [solutionsEach_eq_flatMap, List.mem_flatMap]

/-- A solution of a conjunction solves its first goal, and from there the others. -/
theorem mem_solutionsEach_cons {goal : Goal} {rest : List Goal} {b d : Binding} :
    d ∈ solutionsEach w (goal :: rest) [b] ↔
      ∃ c ∈ solutions w goal b, d ∈ solutionsEach w rest [c] := by
  rw [solutionsEach_cons, List.flatMap_singleton, mem_solutionsEach]

/-- A solution of two conjunctions solves the first, and from there the second. -/
theorem mem_solutionsEach_append {front back : List Goal} {b d : Binding} :
    d ∈ solutionsEach w (front ++ back) [b] ↔
      ∃ c ∈ solutionsEach w front [b], d ∈ solutionsEach w back [c] := by
  induction front generalizing b with
  | nil => simp
  | cons goal rest ih =>
    simp only [List.cons_append, mem_solutionsEach_cons, ih]
    constructor
    · rintro ⟨c, hc, c', hc', hd⟩
      exact ⟨c', ⟨c, hc, hc'⟩, hd⟩
    · rintro ⟨c', ⟨c, hc, hc'⟩, hd⟩
      exact ⟨c, hc, c', hc', hd⟩

/-- A solution of the branches solves one of them. -/
theorem mem_solutionsAny {branches : List (List Goal)} {b c : Binding} :
    c ∈ solutionsAny w branches b ↔ ∃ branch ∈ branches, c ∈ solutionsEach w branch [b] := by
  induction branches with
  | nil => simp
  | cons branch rest ih =>
    simp only [solutionsAny_cons, List.mem_append, ih, List.mem_cons, exists_eq_or_imp]

end Goal

end Factbase
