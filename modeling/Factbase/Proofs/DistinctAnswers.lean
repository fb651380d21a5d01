import Factbase.Proofs.BaseRelations
import Factbase.Proofs.Satisfaction
import Factbase.Proofs.Totality

/-! # No distinct answer is dropped

Of the answers to a query, and of the solutions of a choice, only the first with each canonical text
is kept. Where no value holds the separator and no variable an equals sign, bindings with one
canonical text are the same up to canonical texts of values; then what is kept represents everything
that was found, and nothing twice (`Binding.represents_distinctBy`,
`Program.represents_evaluateIn`). A value that holds the separator reads like two entries, and one
of two answers gets lost (`Program.not_represents_evaluateIn`). -/

namespace Factbase

namespace Binding

variable {b c : Binding} {bs : List Binding}

/-- The part of a binding that answers a query: the values of the given variables, or of all of them
if none are given. -/
def answer (b : Binding) (names : List String) : Binding :=
  if names.isEmpty then b else b.restrict names

/-- Bindings that are the same give the same answer. -/
theorem Same.answer (h : b.Same c) (names : List String) :
    (b.answer names).Same (c.answer names) := by
  unfold Binding.answer
  split
  · exact h
  · exact h.restrict names

/-- The answer of a legible binding is legible. -/
theorem IsLegible.answer (h : b.IsLegible) (names : List String) : (b.answer names).IsLegible := by
  unfold Binding.answer
  split
  · exact h
  · exact h.restrict names

/-- Of some bindings those that are kept stand for all of them, and no two are the same. -/
structure Represents (kept all : List Binding) : Prop where
  sublist : kept.Sublist all
  complete : ∀ c ∈ all, ∃ d ∈ kept, d.Same c
  distinct : kept.Pairwise fun d e => ¬ d.Same e

/-- Legible bindings are represented by the first with each canonical text. -/
theorem represents_distinctBy (h : ∀ b ∈ bs, b.IsLegible) :
    Represents (distinctBy Binding.canonical bs) bs := by
  refine ⟨sublist_distinctAfter, ?_, ?_⟩
  · intro c hc
    obtain ⟨d, hd, htext⟩ := exists_mem_distinctBy Binding.canonical hc
    exact ⟨d, hd, same_of_canonical_eq (h d (mem_of_mem_distinctBy hd)) (h c hc) htext⟩
  · exact pairwise_distinctBy.imp fun htext hsame => htext hsame.canonical_eq

end Binding

/-- The answers are the first with each canonical text among those of the solutions. -/
theorem Answers.project_eq (names : List String) (solutions : List Binding) :
    Answers.project names solutions =
      distinctBy Binding.canonical (solutions.map (·.answer names)) := by
  unfold Answers.project Binding.answer
  split <;> simp

/-- The solutions of a choice are those of its branches, none dropped but repeated ones. -/
theorem Goal.represents_solutions_anyOf {w : WorkingSet} {branches : List (List Goal)} {b : Binding}
    (hw : w.Lacks (Char.ofNat 0x1E))
    (hbranches : ∀ branch ∈ branches, ∀ goal ∈ branch, ∀ l, goal.Mentions l → l.IsLegible)
    (hb : b.IsLegible) :
    Binding.Represents (Goal.solutions w (.anyOf branches) b) (Goal.solutionsAny w branches b) := by
  rw [Goal.solutions_anyOf]
  refine Binding.represents_distinctBy fun c hc => ?_
  obtain ⟨branch, hbranch, hc⟩ := Goal.mem_solutionsAny.1 hc
  exact Goal.isLegible_of_mem_solutionsEach hw (hbranches branch hbranch) hb hc

namespace Program

open Binding (Represents)

variable {p : Program} {s : Store} {w w' : WorkingSet} {q : GoalQuery} {a : Answers}

/-- The bindings of a result are the first with each canonical text among the answers of the
solutions over the saturated working set. -/
theorem bindings_evaluateIn (heval : p.evaluateIn s w q = .ok (a, w')) :
    a.bindings = distinctBy Binding.canonical
      ((Goal.solutionsEach w' q.goals [.empty]).map (·.answer q.answer)) := by
  obtain ⟨t, -, rfl, rfl⟩ := evaluateIn_eq_ok.1 heval
  exact Answers.project_eq q.answer _

/-- The bindings of a result represent the answers of the solutions that the solver finds. -/
theorem represents_bindings (heval : p.evaluateIn s w q = .ok (a, w'))
    (hw : w'.Lacks (Char.ofNat 0x1E))
    (hgoals : ∀ goal ∈ q.goals, ∀ l, goal.Mentions l → l.IsLegible) :
    Represents a.bindings ((Goal.solutionsEach w' q.goals [.empty]).map (·.answer q.answer)) := by
  rw [bindings_evaluateIn heval]
  refine Binding.represents_distinctBy (List.forall_mem_map.2 fun c hc => ?_)
  exact (Goal.isLegible_of_mem_solutionsEach hw hgoals Binding.isLegible_empty hc).answer q.answer

/-- Whatever the goals of a query yield, its answer is among the bindings of a result. -/
theorem exists_same_of_yieldsEach (heval : p.evaluateIn s w q = .ok (a, w'))
    (hw : w'.Lacks (Char.ofNat 0x1E))
    (hgoals : ∀ goal ∈ q.goals, ∀ l, goal.Mentions l → l.IsLegible)
    {c : Binding} (hc : Goal.YieldsEach w'.interpretation w'.interpretation q.goals .empty c) :
    ∃ d ∈ a.bindings, d.Same (c.answer q.answer) := by
  -- the solver finds a solution that is the same
  obtain ⟨c', hc', hsame⟩ := (Goal.solutionsEach_spec hw hgoals
    (fun goal hgoal b hb => Goal.solutions_spec hw (hgoals goal hgoal) hb)
    Binding.isLegible_empty).2 c hc
  obtain ⟨d, hd, hsame'⟩ :=
    (represents_bindings heval hw hgoals).complete _ (List.mem_map_of_mem hc')
  exact ⟨d, hd, hsame'.trans (hsame.symm.answer q.answer)⟩

/-- No evaluation drops a distinct answer. Whatever rules are offered, where no text of the store or
of a head holds the separator and no variable of the query an equals sign: the bindings of the
result represent the answers of all solutions of the goals over the saturated working set, those
that the solver finds and those that the goals yield. Over every working set without the separator
the solutions of a choice represent those of its branches in the same way. -/
theorem represents_evaluateIn (settings : Settings) (calls : List RuleCall)
    (hs : s.Lacks (Char.ofNat 0x1E))
    (hheads : ∀ r ∈ ((empty settings).performAll calls).rules, r.head.Lacks (Char.ofNat 0x1E))
    (hgoals : ∀ goal ∈ q.goals, ∀ l, goal.Mentions l → l.IsLegible) (w : WorkingSet) :
    (∃ a w', ((empty settings).performAll calls).evaluateIn s w q = .ok (a, w') ∧
      ((empty settings).performAll calls).evaluate s q = .ok a ∧
      Represents a.bindings
        ((Goal.solutionsEach w' q.goals [.empty]).map (·.answer q.answer)) ∧
      ∀ c, Goal.YieldsEach w'.interpretation w'.interpretation q.goals .empty c →
        ∃ d ∈ a.bindings, d.Same (c.answer q.answer)) ∧
    ∀ (w : WorkingSet) (branches : List (List Goal)) (b : Binding), w.Lacks (Char.ofNat 0x1E) →
      (∀ branch ∈ branches, ∀ goal ∈ branch, ∀ l, goal.Mentions l → l.IsLegible) → b.IsLegible →
      Represents (Goal.solutions w (.anyOf branches) b) (Goal.solutionsAny w branches b) := by
  refine ⟨?_, fun w branches b hw hbranches hb => Goal.represents_solutions_anyOf hw hbranches hb⟩
  have hp := (isValid_empty settings).performAll calls
  obtain ⟨a, w', heval⟩ := hp.exists_evaluateIn s w q
  have hw := lacks_evaluateIn hs hheads heval
  refine ⟨a, w', heval, ?_, represents_bindings heval hw hgoals,
    fun c hc => exists_same_of_yieldsEach heval hw hgoals hc⟩
  -- what the working set held before makes no difference
  rw [evaluate, show evaluateIn _ s .empty q = evaluateIn _ s w q from rfl, heval]
  rfl

end Program

/-- Asks for the entities with their values. -/
def entityValues : Goal := .literal ⟨.attr, [.var "e", .const (.text "k"), .var "v"]⟩

/-- An entity with its value. -/
def entityValue (entity value : String) : Binding :=
  (Binding.empty.insert "e" (.text entity)).insert "v" (.text value)

/-- Variables without equals sign. -/
theorem isLegible_entityValues {l : Literal} (hl : entityValues.Mentions l) : l.IsLegible := by
  obtain ⟨⟩ := hl
  intro name hname
  have hname : name = "e" ∨ name = "v" := by simpa using hname
  rcases hname with rfl | rfl <;> decide

/-- Two facts of different entities with different values. Where the entity of the one ends and its
value begins cannot be told from the canonical text of an answer. -/
def mergedStore : Store :=
  (Store.empty .default).addFacts
    [⟨"x\u001ev=s:y", "k", .text "z"⟩, ⟨"x", "k", .text "y\u001ev=s:z"⟩]

/-- Two facts of different entities with one value. -/
def sharedStore : Store :=
  (Store.empty .default).addFacts [⟨"e1", "k", .text "1"⟩, ⟨"e2", "k", .text "1"⟩]

/-- Both facts are found. -/
theorem solutions_entityValues :
    Goal.solutions (WorkingSet.empty.seed mergedStore) entityValues .empty =
      [entityValue "x\u001ev=s:y" "z", entityValue "x" "y\u001ev=s:z"] := by
  rw [entityValues, Goal.solutions_attr (by decide)]
  rfl

/-- One answer is left for both. -/
theorem distinctBy_entityValue :
    distinctBy Binding.canonical [entityValue "x\u001ev=s:y" "z", entityValue "x" "y\u001ev=s:z"] =
      [entityValue "x\u001ev=s:y" "z"] := by
  have htext : (entityValue "x" "y\u001ev=s:z").canonical =
      (entityValue "x\u001ev=s:y" "z").canonical := by decide
  simp [distinctBy, distinctAfter, htext]

/-- The answer for both is not the same as the second. -/
theorem not_same_entityValue :
    ¬ (entityValue "x\u001ev=s:y" "z").Same (entityValue "x" "y\u001ev=s:z") :=
  fun h => absurd (h "e") (by decide)

namespace Program

open Binding (Represents)

/-- A value with the separator in it reads like two entries of a binding. Of two different answers
one is then dropped, and so is one of two different solutions of a choice. -/
theorem not_represents_evaluateIn :
    (¬ ∀ settings calls s w q a w',
        ((empty settings).performAll calls).evaluateIn s w q = .ok (a, w') →
        Represents a.bindings
          ((Goal.solutionsEach w' q.goals [.empty]).map (·.answer q.answer))) ∧
      ¬ ∀ (w : WorkingSet) (branches : List (List Goal)) (b : Binding),
        Represents (Goal.solutions w (.anyOf branches) b) (Goal.solutionsAny w branches b) := by
  have hsolutions : Goal.solutionsEach (WorkingSet.empty.seed mergedStore) [entityValues] [.empty] =
      [entityValue "x\u001ev=s:y" "z", entityValue "x" "y\u001ev=s:z"] := by
    rw [Goal.solutionsEach_cons, Goal.solutionsEach_nil, List.flatMap_singleton,
      solutions_entityValues]
  -- what is kept has nothing for the second solution
  have hlost : ¬ Represents [entityValue "x\u001ev=s:y" "z"]
      [entityValue "x\u001ev=s:y" "z", entityValue "x" "y\u001ev=s:z"] := by
    intro h
    obtain ⟨d, hd, hsame⟩ := h.complete (entityValue "x" "y\u001ev=s:z") (by simp)
    obtain rfl := List.mem_singleton.1 hd
    exact not_same_entityValue hsame
  constructor
  · intro h
    obtain ⟨a, heval, -⟩ :=
      exists_evaluateIn_empty .default mergedStore .empty ⟨[entityValues], []⟩
    have hrepresents := h .default [] mergedStore .empty ⟨[entityValues], []⟩ a _ heval
    have hall : ([entityValue "x\u001ev=s:y" "z", entityValue "x" "y\u001ev=s:z"].map
        (·.answer [])) = [entityValue "x\u001ev=s:y" "z", entityValue "x" "y\u001ev=s:z"] := rfl
    rw [bindings_evaluateIn heval, hsolutions, hall, distinctBy_entityValue] at hrepresents
    exact hlost hrepresents
  · intro h
    have hrepresents := h (WorkingSet.empty.seed mergedStore) [[entityValues]] .empty
    rw [Goal.solutions_anyOf, Goal.solutionsAny_cons, Goal.solutionsAny_nil, List.append_nil,
      hsolutions, distinctBy_entityValue] at hrepresents
    exact hlost hrepresents

/-- Two facts have one value, and the answer has it once; their entities are told apart. -/
theorem represents_evaluateIn_entityValues :
    ∃ a w', ((empty twoPasses).performAll [.one (nullRule "p")]).evaluateIn
          sharedStore .empty ⟨[entityValues], ["v"]⟩ = .ok (a, w') ∧
        Represents a.bindings
          ((Goal.solutionsEach w' [entityValues] [.empty]).map (·.answer ["v"])) ∧
        Represents (Goal.solutions (.ofStore sharedStore) (.anyOf [[entityValues]]) .empty)
          (Goal.solutionsAny (.ofStore sharedStore) [[entityValues]] .empty) := by
  have hs : sharedStore.Lacks (Char.ofNat 0x1E) := by
    constructor <;>
      simp [sharedStore, Store.addFacts, Store.addFact, Store.empty, Fact.toTuple, Tuple.Lacks,
        Atom.Lacks]
  have hheads : ∀ r ∈ ((empty twoPasses).performAll [.one (nullRule "p")]).rules,
      r.head.Lacks (Char.ofNat 0x1E) := by
    rw [performAll_nullRule]
    simp [nullProgram, nullRule, Literal.Lacks, Atom.Lacks]
  have hgoals : ∀ goal ∈ GoalQuery.goals ⟨[entityValues], ["v"]⟩,
      ∀ l, goal.Mentions l → l.IsLegible := by
    intro goal hgoal l hl
    obtain rfl := List.mem_singleton.1 hgoal
    exact isLegible_entityValues hl
  obtain ⟨⟨a, w', heval, -, hrepresents, -⟩, hchoice⟩ :=
    represents_evaluateIn twoPasses [.one (nullRule "p")] hs hheads hgoals .empty
  exact ⟨a, w', heval, hrepresents, hchoice _ _ _ (WorkingSet.lacks_seed hs) (by simpa using hgoals)
    Binding.isLegible_empty⟩

end Program

end Factbase
