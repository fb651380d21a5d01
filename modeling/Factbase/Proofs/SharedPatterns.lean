import Factbase.Proofs.Passes

/-! # One cache for all patterns

The patterns that filters look up are compiled once and kept in a cache, which is handed on from
test to test: along the goals of a conjunction, into negations and choices, from rule to rule, from
pass to pass and from level to level. The same computations can be carried out with a new cache for
every single test, while they record which patterns are looked up (`Recording`). Both give the same
results, and at every point the cache holds the patterns that were recorded so far, each with the
matcher that is compiled from it, and no others (`Matching.Shares`). This is so for one test
(`Filter.shares_holds`) and is handed on by sequencing (`Matching.Shares.bind`). -/

namespace Factbase

/-! ## Computations without a shared cache -/

/-- Computations that record the patterns that they look up, in order. -/
abbrev Recording := StateM (List String)

namespace Filter

/-- The pattern that a filter looks up for some values. One that searches a text looks up what it
searches for, unless that is no pattern. -/
def lookedUp? (predicate : Predicate) (values : List Atom) : Option String :=
  match predicate, values with
  | .regex, [value, pattern] =>
    match value.searched?, pattern.text? with
    | some _, some written => some written
    | _, _ => none
  | .contains, [value, needle] =>
    match value.searched?, needle.text? with
    | some _, some written =>
      if (splitDelimited written.toList).isSome then some written else none
    | _, _ => none
  | _, _ => none

/-- Whether a filter holds of terms under a binding, tested with a new cache. -/
def holdsUnshared (predicate : Predicate) (terms : List Term) (b : Binding) : Recording Bool :=
  modifyGet fun looked =>
    ((StateT.run (holds predicate terms b) .empty).1,
      looked ++ ((terms.mapM b.resolve).bind (lookedUp? predicate)).toList)

end Filter

/-- Solves a goal for each of some bindings. -/
def solveFromUnshared (solve : Binding → Recording (List Binding)) :
    List Binding → Recording (List Binding)
  | [] => pure []
  | b :: rest => do
    let solutions ← solve b
    return solutions ++ (← solveFromUnshared solve rest)

namespace Goal

mutual

/-- The solutions of a goal, with a new cache for every test. -/
def solveUnshared (w : WorkingSet) : Goal → Binding → Recording (List Binding)
  | .literal l, b =>
    if l.predicate.isRelation then pure (l.lookup w b)
    else do
      let isTrue ← Filter.holdsUnshared l.predicate l.terms b
      return if isTrue then [b] else []
  | .not goal, b => do
    let solutions ← solveUnshared w goal b
    return if solutions.isEmpty then [b] else []
  | .anyOf branches, b => do
    let solutions ← solveAnyUnshared w branches b
    return distinctBy Binding.canonical solutions

/-- The solutions of a conjunction, with a new cache for every test. -/
def solveEachUnshared (w : WorkingSet) : List Goal → List Binding → Recording (List Binding)
  | [], bindings => pure bindings
  | goal :: rest, bindings => do
    let solutions ← solveFromUnshared (solveUnshared w goal) bindings
    solveEachUnshared w rest solutions

/-- The solutions of the branches of a choice, with a new cache for every test. -/
def solveAnyUnshared (w : WorkingSet) : List (List Goal) → Binding → Recording (List Binding)
  | [], _ => pure []
  | branch :: rest, b => do
    let solutions ← solveEachUnshared w branch [b]
    return solutions ++ (← solveAnyUnshared w rest b)

end

end Goal

/-- Applies a rule once, with a new cache for every test. -/
def Rule.applyUnshared (r : Rule) (w : WorkingSet) :
    ExceptT RuleError Recording (Nat × WorkingSet) := do
  let solutions ← (Goal.solveEachUnshared w r.body [.empty] : Recording (List Binding))
  let tuples ← ExceptT.mk (pure (solutions.mapM r.headTuple))
  return w.insertEach r.headName tuples

namespace Saturation

/-- Applies each rule once, with a new cache for every test. -/
def passUnshared : List Rule → WorkingSet → ExceptT RuleError Recording (Nat × WorkingSet)
  | [], w => return (0, w)
  | r :: rest, w => do
    let (added, w) ← r.applyUnshared w
    let (more, w) ← passUnshared rest w
    return (added + more, w)

/-- Passes over the rules of a level, with a new cache for every test. -/
def ofLevelUnshared (rules : List Rule) :
    Nat → WorkingSet → ExceptT RuleError Recording Saturation
  | 0, w => return ⟨0, 0, false, w⟩
  | n + 1, w => do
    let (added, w) ← passUnshared rules w
    if added = 0 then return ⟨1, 0, true, w⟩
    else
      let s ← ofLevelUnshared rules n w
      return { s with iterations := s.iterations + 1, derived := s.derived + added }

/-- Saturates level after level, with a new cache for every test. -/
def ofLevelsUnshared (maxIterations : Nat) :
    List (List Rule) → WorkingSet → ExceptT RuleError Recording Saturation
  | [], w => return ⟨0, 0, true, w⟩
  | rules :: rest, w => do
    let s ← ofLevelUnshared rules maxIterations w
    let t ← ofLevelsUnshared maxIterations rest s.result
    return ⟨s.iterations + t.iterations, s.derived + t.derived, s.converged && t.converged,
      t.result⟩

end Saturation

/-! ## What a shared cache holds -/

/-- A cache that holds some patterns, each with its matcher, and no others. -/
def PatternCache.Holds (cache : PatternCache) (looked : List String) : Prop :=
  ∀ written, cache.matchers[written]? =
    if written ∈ looked then some (Matcher.compile written) else none

namespace PatternCache

/-- The empty cache holds no pattern. -/
theorem holds_empty : empty.Holds [] := by
  intro written
  simp [empty]

/-- Looking up a pattern makes the cache hold it too. -/
theorem Holds.get {cache : PatternCache} {looked : List String} (h : cache.Holds looked)
    (written : String) : (cache.get written).2.Holds (looked ++ [written]) := by
  intro other
  unfold PatternCache.get
  split
  · next m hm =>
    -- the pattern is there already, so it was looked up before
    have hmem : written ∈ looked := by
      rw [h written] at hm
      split at hm
      · next hmem => exact hmem
      · simp at hm
    have hiff : other ∈ looked ++ [written] ↔ other ∈ looked := by
      simp only [List.mem_append, List.mem_singleton, or_iff_left_iff_imp]
      rintro rfl
      exact hmem
    simp only [hiff]
    exact h other
  · show (cache.matchers.insert written (Matcher.compile written))[other]? = _
    rw [Std.HashMap.getElem?_insert]
    by_cases heq : written = other
    · subst heq
      simp
    · have hiff : other ∈ looked ++ [written] ↔ other ∈ looked := by
        simp [Ne.symm heq]
      rw [if_neg (by simpa using heq)]
      simp only [hiff]
      exact h other

end PatternCache

namespace Matching

variable {α β : Type}

/-- A computation that shares a cache gives what one gives that does not, whatever was looked up
before, and leaves in the cache what that one has recorded. -/
def Shares (m : Matching α) (unshared : Recording α) : Prop :=
  ∀ (cache : PatternCache) (looked : List String), cache.Holds looked →
    (StateT.run m cache).1 = (StateT.run unshared looked).1 ∧
      (StateT.run m cache).2.Holds (StateT.run unshared looked).2

namespace Shares

variable {m : Matching α} {unshared : Recording α}

theorem pure (a : α) : Shares (Pure.pure a) (Pure.pure a) := fun _ _ h => ⟨rfl, h⟩

/-- What the first computation leaves in the cache is there for the second. -/
theorem bind {f : α → Matching β} {g : α → Recording β} (h : Shares m unshared)
    (hf : ∀ a, Shares (f a) (g a)) : Shares (m >>= f) (unshared >>= g) := by
  intro cache looked hlooked
  obtain ⟨hvalue, hcache⟩ := h cache looked hlooked
  have hnext := hf (StateT.run m cache).1 _ _ hcache
  show (StateT.run (f (StateT.run m cache).1) (StateT.run m cache).2).1 =
      (StateT.run (g (StateT.run unshared looked).1) (StateT.run unshared looked).2).1 ∧
    (StateT.run (f (StateT.run m cache).1) (StateT.run m cache).2).2.Holds
      (StateT.run (g (StateT.run unshared looked).1) (StateT.run unshared looked).2).2
  rwa [← hvalue]

end Shares

end Matching

open Matching (Shares)

/-! ## Tests, goals and rules -/

namespace Filter

/-- After a test the cache holds the pattern that was looked up for it, if there is one. -/
theorem holds_run_holdsOf {cache : PatternCache} {looked : List String} (h : cache.Holds looked)
    (predicate : Predicate) (values : List Atom) :
    (StateT.run (holdsOf predicate values) cache).2.Holds
      (looked ++ (lookedUp? predicate values).toList) := by
  have hnone : cache.Holds (looked ++ (none : Option String).toList) := by
    simpa using h
  unfold holdsOf lookedUp?
  split
  case h_4 value pattern =>
    unfold regex
    dsimp only
    cases value.searched? with
    | none => exact hnone
    | some text =>
      cases pattern.text? with
      | none => exact hnone
      | some written => exact h.get written
  case h_5 value needle =>
    unfold contains
    dsimp only
    cases value.searched? with
    | none => exact hnone
    | some text =>
      cases needle.text? with
      | none => exact hnone
      | some written =>
        dsimp only
        by_cases hpattern : (splitDelimited written.toList).isSome = true
        · rw [if_pos hpattern, if_pos hpattern]
          exact h.get written
        · rw [if_neg hpattern, if_neg hpattern]
          exact hnone
  case h_8 hregex hcontains _ _ =>
    split
    · next => exact absurd rfl (hregex _ _ rfl)
    · next => exact absurd rfl (hcontains _ _ rfl)
    · exact hnone
  all_goals exact hnone

theorem shares_holds (predicate : Predicate) (terms : List Term) (b : Binding) :
    Shares (holds predicate terms b) (holdsUnshared predicate terms b) := by
  intro cache looked h
  refine ⟨isCacheFree_holds predicate terms b cache, ?_⟩
  show (StateT.run (holds predicate terms b) cache).2.Holds
    (looked ++ ((terms.mapM b.resolve).bind (lookedUp? predicate)).toList)
  unfold holds
  cases terms.mapM b.resolve with
  | none =>
    show cache.Holds (looked ++ (none : Option String).toList)
    simpa using h
  | some values => exact holds_run_holdsOf h predicate values

end Filter

namespace Goal

variable {w : WorkingSet}

theorem shares_solveFrom {solve : Binding → Matching (List Binding)}
    {unshared : Binding → Recording (List Binding)} (h : ∀ b, Shares (solve b) (unshared b))
    (bindings : List Binding) :
    Shares (solveFrom solve bindings) (solveFromUnshared unshared bindings) := by
  induction bindings with
  | nil => exact .pure _
  | cons b rest ih => exact (h b).bind fun _ => ih.bind fun _ => .pure _

theorem shares_solveEach_of_forall {goals : List Goal}
    (h : ∀ goal ∈ goals, ∀ b, Shares (solve w goal b) (solveUnshared w goal b))
    (bindings : List Binding) :
    Shares (solveEach w goals bindings) (solveEachUnshared w goals bindings) := by
  induction goals generalizing bindings with
  | nil =>
    rw [solveEach, solveEachUnshared]
    exact .pure _
  | cons goal rest ih =>
    rw [List.forall_mem_cons] at h
    rw [solveEach, solveEachUnshared]
    exact (shares_solveFrom h.1 bindings).bind fun _ => ih h.2 _

theorem shares_solveAny {branches : List (List Goal)}
    (h : ∀ branch ∈ branches, ∀ goal ∈ branch, ∀ b,
      Shares (solve w goal b) (solveUnshared w goal b)) (b : Binding) :
    Shares (solveAny w branches b) (solveAnyUnshared w branches b) := by
  induction branches with
  | nil =>
    rw [solveAny, solveAnyUnshared]
    exact .pure _
  | cons branch rest ih =>
    rw [List.forall_mem_cons] at h
    rw [solveAny, solveAnyUnshared]
    exact (shares_solveEach_of_forall h.1 _).bind fun _ => (ih h.2).bind fun _ => .pure _

/-- A goal is solved with a shared cache as with a new one for every test. -/
theorem shares_solve (goal : Goal) (b : Binding) :
    Shares (solve w goal b) (solveUnshared w goal b) := by
  induction goal generalizing b with
  | literal l =>
    rw [solve, solveUnshared]
    split
    · exact .pure _
    · exact (Filter.shares_holds _ _ _).bind fun _ => .pure _
  | not goal ih =>
    rw [solve, solveUnshared]
    exact (ih b).bind fun _ => .pure _
  | anyOf branches ih =>
    rw [solve, solveUnshared]
    exact (shares_solveAny ih b).bind fun _ => .pure _

theorem shares_solveEach (goals : List Goal) (bindings : List Binding) :
    Shares (solveEach w goals bindings) (solveEachUnshared w goals bindings) :=
  shares_solveEach_of_forall (fun goal _ => shares_solve goal) bindings

end Goal

namespace Deriving

variable {α β : Type}

theorem shares_pure (a : α) :
    Shares (ExceptT.run (pure a : Deriving α))
      (ExceptT.run (pure a : ExceptT RuleError Recording α)) :=
  .pure _

/-- Where a computation fails, so does the one that shares no cache. -/
theorem shares_bind {d : Deriving α} {e : ExceptT RuleError Recording α} {f : α → Deriving β}
    {g : α → ExceptT RuleError Recording β} (h : Shares (ExceptT.run d) (ExceptT.run e))
    (hf : ∀ a, Shares (ExceptT.run (f a)) (ExceptT.run (g a))) :
    Shares (ExceptT.run (d >>= f)) (ExceptT.run (e >>= g)) := by
  show Shares (ExceptT.run d >>= ExceptT.bindCont f) (ExceptT.run e >>= ExceptT.bindCont g)
  refine h.bind fun result => ?_
  cases result with
  | ok a => exact hf a
  | error fault => exact .pure _

end Deriving

open Deriving (shares_pure shares_bind)

namespace Saturation

theorem shares_apply (r : Rule) (w : WorkingSet) :
    Shares (ExceptT.run (r.apply w)) (ExceptT.run (r.applyUnshared w)) := by
  have hsolve : Shares
      (ExceptT.run (liftM (Goal.solveEach w r.body [.empty]) : Deriving (List Binding)))
      (ExceptT.run (liftM (Goal.solveEachUnshared w r.body [.empty]) :
        ExceptT RuleError Recording (List Binding))) :=
    (Goal.shares_solveEach r.body _).bind fun _ => .pure _
  unfold Rule.apply Rule.derive Rule.applyUnshared
  rw [bind_assoc]
  exact shares_bind hsolve fun _ => shares_bind (.pure _) fun _ => shares_pure _

theorem shares_pass (rules : List Rule) (w : WorkingSet) :
    Shares (ExceptT.run (pass rules w)) (ExceptT.run (passUnshared rules w)) := by
  induction rules generalizing w with
  | nil => exact shares_pure _
  | cons r rest ih =>
    exact shares_bind (shares_apply r w) fun _ => shares_bind (ih _) fun _ => shares_pure _

theorem shares_ofLevel (rules : List Rule) (n : Nat) (w : WorkingSet) :
    Shares (ExceptT.run (ofLevel rules n w)) (ExceptT.run (ofLevelUnshared rules n w)) := by
  induction n generalizing w with
  | zero => exact shares_pure _
  | succ n ih =>
    refine shares_bind (shares_pass rules w) fun result => ?_
    dsimp only
    split
    · exact shares_pure _
    · exact shares_bind (ih _) fun _ => shares_pure _

theorem shares_ofLevels (n : Nat) (levels : List (List Rule)) (w : WorkingSet) :
    Shares (ExceptT.run (ofLevels n levels w)) (ExceptT.run (ofLevelsUnshared n levels w)) := by
  induction levels generalizing w with
  | nil => exact shares_pure _
  | cons rules rest ih =>
    exact shares_bind (shares_ofLevel rules n w) fun _ =>
      shares_bind (ih _) fun _ => shares_pure _

end Saturation

/-- Conjunctions that are solved one after the other with one cache, in whatever relations and from
whatever bindings, have the solutions that they have with a new cache for every single test, and so
has a saturation, along all its rules, passes and levels. A new cache holds no pattern, and after
each of these computations it holds the patterns that were looked up so far, each with the matcher
that is compiled from it, and no others. -/
theorem Matching.shares_solving :
    PatternCache.empty.Holds [] ∧
    (∀ asked : List (WorkingSet × List Goal × Binding),
      Shares (asked.mapM fun (w, goals, b) => Goal.solveEach w goals [b])
        (asked.mapM fun (w, goals, b) => Goal.solveEachUnshared w goals [b])) ∧
    ∀ (maxIterations : Nat) (levels : List (List Rule)) (w : WorkingSet),
      Shares (ExceptT.run (Saturation.ofLevels maxIterations levels w))
        (ExceptT.run (Saturation.ofLevelsUnshared maxIterations levels w)) := by
  refine ⟨PatternCache.holds_empty, fun asked => ?_, Saturation.shares_ofLevels⟩
  induction asked with
  | nil => exact .pure _
  | cons first rest ih =>
    rw [List.mapM_cons, List.mapM_cons]
    exact (Goal.shares_solveEach first.2.1 _).bind fun _ => ih.bind fun _ => .pure _

end Factbase
