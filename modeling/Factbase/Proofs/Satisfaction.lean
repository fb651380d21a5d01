import Factbase.Proofs.Legibility
import Factbase.Proofs.Registration

/-! # Answers satisfy the goals of a query

The goals of a query are solved in order, and later goals give values to variables that a goal left
open. A goal that is solved once more from the final binding still has a solution unless such a late
variable reverses a test under a negation: a denied filter fails while a variable is open and may
hold afterwards, and what is denied twice may hold while it is open and fail afterwards. Goals
without such tests are settled (`Goal.IsSettled`), and every answer satisfies the settled goals of
its query (`Program.satisfied_evaluateIn`). -/

namespace Factbase

/-- How a goal stands: outside negations, or under an odd or an even number of them. -/
inductive Standing where
  | asserted
  | denied
  | deniedTwice
deriving DecidableEq, Repr

/-- The standing of a goal under one more negation. -/
def Standing.negate : Standing → Standing
  | .asserted => .denied
  | .denied => .deniedTwice
  | .deniedTwice => .denied

/-- A literal does not depend on when it is solved: a denied filter, and a relation that is denied
twice, has no late variable. -/
def Literal.IsSettled (late : String → Prop) (l : Literal) : Standing → Prop
  | .asserted => True
  | .denied => l.predicate.isRelation = false → ∀ name, Term.var name ∈ l.terms → ¬ late name
  | .deniedTwice => l.predicate.isRelation = true → ∀ name, Term.var name ∈ l.terms → ¬ late name

namespace Goal

mutual

/-- The literals of a goal do not depend on when it is solved. -/
def IsSettled (late : String → Prop) (standing : Standing) : Goal → Prop
  | .literal l => l.IsSettled late standing
  | .not goal => IsSettled late standing.negate goal
  | .anyOf branches => IsSettledAny late standing branches

/-- The goals of a conjunction are settled; what a goal binds is not late for those that follow. -/
def IsSettledEach (late : String → Prop) (standing : Standing) : List Goal → Prop
  | [] => True
  | goal :: rest =>
    IsSettled late standing goal ∧
      IsSettledEach (fun name => late name ∧ name ∉ goal.boundVariables) standing rest

/-- The branches of a choice are settled. -/
def IsSettledAny (late : String → Prop) (standing : Standing) : List (List Goal) → Prop
  | [] => True
  | branch :: rest => IsSettledEach late standing branch ∧ IsSettledAny late standing rest

end

/-- Every branch of a settled choice is settled. -/
theorem isSettledAny_iff {late : String → Prop} {standing : Standing}
    {branches : List (List Goal)} :
    IsSettledAny late standing branches ↔
      ∀ branch ∈ branches, IsSettledEach late standing branch := by
  induction branches with
  | nil => simp [IsSettledAny]
  | cons branch rest ih => simp [IsSettledAny, ih]

end Goal

namespace Binding

variable {b b' c c' : Binding} {late : String → Prop}

/-- A variable that has a value under the second binding only. -/
def Gains (b c : Binding) (name : String) : Prop := b.get? name = none ∧ (c.get? name).isSome

/-- A binding is below another that has values for late variables besides. -/
structure BelowUpTo (late : String → Prop) (b c : Binding) : Prop where
  below : b.Below c
  late : ∀ name, b.Gains c name → late name

/-- A term without gained variable has values with the same canonical text under both. -/
theorem Below.resolve_eq (h : b.Below c) {term : Term}
    (hterm : ∀ name, term = .var name → ¬ b.Gains c name) :
    (b.resolve term).map Atom.canonical = (c.resolve term).map Atom.canonical := by
  cases term with
  | const a => rfl
  | var name =>
    rw [Binding.resolve, Binding.resolve]
    cases hb : b.get? name with
    | some value => exact (h.get? hb).symm
    | none =>
      cases hc : c.get? name with
      | none => rfl
      | some value => exact absurd ⟨hb, by rw [hc]; rfl⟩ (hterm name rfl)

end Binding

namespace Literal

open Binding

variable {b b' c c' : Binding} {late : String → Prop} {terms : List Term} {t : Tuple}

/-- Terms that agree with a tuple under two bindings have values with the same canonical texts. -/
theorem Agrees.resolve_eq (h : Agrees b terms t) (h' : Agrees c terms t) {term : Term}
    (hterm : term ∈ terms) :
    (b.resolve term).map Atom.canonical = (c.resolve term).map Atom.canonical :=
  List.map_inj_left.1 (h.trans h'.symm) term hterm

/-- Extensions of bindings by one tuple stay as far apart as the bindings were. -/
theorem Extends.belowUpTo (h : BelowUpTo late b c) (hb : Extends terms b t b')
    (hc : Extends terms c t c') : BelowUpTo late b' c' := by
  constructor
  · intro name value _ hvalue
    have hsome : (b'.get? name).isSome := by rw [hvalue]; rfl
    -- the value is kept from before, or it is that of a column
    rcases hb.only name hsome with hold | hterm
    · obtain ⟨bound, hbound⟩ := Option.isSome_iff_exists.1 hold
      obtain rfl : bound = value := Option.some.inj ((hb.keeps name bound hbound).symm.trans hvalue)
      exact (h.below.trans hc.keeps.below).get? hbound
    · have heq := hb.agrees.resolve_eq hc.agrees hterm
      rw [resolve, resolve, hvalue] at heq
      exact heq.symm
  · rintro name ⟨hnone, hsome⟩
    refine h.late name ⟨?_, ?_⟩
    · cases hname : b.get? name with
      | none => rfl
      | some value => rw [hb.keeps name value hname] at hnone; exact absurd hnone (by simp)
    · rcases hc.only name hsome with hold | hterm
      · exact hold
      · have hbound := hb.agrees.isSome hterm
        rw [resolve, hnone] at hbound
        exact absurd hbound (by decide)

/-- A tuple that extends a binding extends those below. -/
theorem Extends.exists_below (h : BelowUpTo late b c) (hc : Extends terms c t c') :
    ∃ b', Extends terms b t b' ∧ BelowUpTo late b' c' := by
  have hbelow : b.Below c' := h.below.trans hc.keeps.below
  obtain ⟨b', hbind, -⟩ := hc.agrees.exists_bind? (fun _ _ => trivial) hbelow
  have hb := extends_of_bind? (hc.agrees.fits (fun _ _ => trivial) hbelow) hbind
  exact ⟨b', hb, hb.belowUpTo h hc⟩

/-- A tuple that extends a binding extends those above in which no variable of the literal is
late. -/
theorem Extends.exists_above (h : BelowUpTo late b c) (hb : Extends terms b t b')
    (hterms : ∀ name, Term.var name ∈ terms → ¬ late name) :
    ∃ c', Extends terms c t c' ∧ BelowUpTo late b' c' := by
  have hbelow : c.BelowOn (fun name => Term.var name ∈ terms) b' := by
    intro name value hname hvalue
    have hgains : ∀ other, Term.var name = .var other → ¬ b.Gains c other := by
      intro other hother hgains
      obtain rfl : name = other := Term.var.inj hother
      exact hterms name hname (h.late name hgains)
    have heq := h.below.resolve_eq hgains
    rw [resolve, resolve, hvalue] at heq
    cases hbound : b.get? name with
    | none => simp [hbound] at heq
    | some bound =>
      rw [hb.keeps name bound hbound, ← hbound, heq]
      rfl
  obtain ⟨c', hbind, -⟩ := hb.agrees.exists_bind? (fun _ hname => hname) hbelow
  have hc := extends_of_bind? (hb.agrees.fits (fun _ hname => hname) hbelow) hbind
  exact ⟨c', hc, hb.belowUpTo h hc⟩

end Literal

/-- The binding from which a goal is solved is below that from which it is solved again, or above it
where the goal is denied. -/
def Standing.Relates (standing : Standing) (late : String → Prop) (b c : Binding) : Prop :=
  match standing with
  | .denied => c.BelowUpTo late b
  | _ => b.BelowUpTo late c

namespace Goal

open Binding

variable {I J : Interpretation} {late : String → Prop} {b b' c c' : Binding} {standing : Standing}

/-- What a goal is sure to bind is late no more. -/
theorem belowUpTo_of_yields {goal : Goal} (h : BelowUpTo late b' c') (hb : Yields I J goal b b') :
    BelowUpTo (fun name => late name ∧ name ∉ goal.boundVariables) b' c' := by
  refine ⟨h.below, fun name hgains => ⟨h.late name hgains, fun hname => ?_⟩⟩
  have hbound := (keeps_of_yields hb).2 name hname
  rw [hgains.1] at hbound
  exact absurd hbound (by decide)

/-- A denied filter that holds below late variables that it does not have holds without them, and
any other filter that holds goes on holding with them. -/
theorem passes_of_settled (standing : Standing) {l : Literal} (hl : l.predicate.isRelation = false)
    (hstanding : standing ≠ .asserted) (hsettled : l.IsSettled late standing)
    (h : standing.Relates late b c) (hb : Filter.passes l.predicate l.terms b = true) :
    Filter.passes l.predicate l.terms c = true := by
  rw [← hb, eq_comm]
  obtain ⟨values, hvalues, -⟩ := Filter.passes_iff.1 hb
  cases standing with
  | asserted => exact absurd rfl hstanding
  | denied =>
    refine passes_congr _ fun term hterm => (h.below.resolve_eq fun name hname hgains => ?_).symm
    exact hsettled hl name (hname ▸ hterm) (h.late name hgains)
  | deniedTwice =>
    refine passes_congr _ fun term hterm => h.below.resolve_eq fun name hname hgains => ?_
    -- all variables of a filter that holds have values
    have hsome := (Literal.mem_of_mapM_resolve hvalues).2 term hterm
    rw [hname, resolve, hgains.1] at hsome
    exact absurd hsome (by decide)

/-- A tuple that extends one binding by a settled literal extends the other. -/
theorem exists_extends_of_settled {l : Literal} {t : Tuple} (hl : l.predicate.isRelation = true)
    (hstanding : standing ≠ .asserted) (hsettled : l.IsSettled late standing)
    (h : standing.Relates late b c) (hb : Literal.Extends l.terms b t b') :
    ∃ c', Literal.Extends l.terms c t c' ∧ standing.Relates late b' c' := by
  cases standing with
  | asserted => exact absurd rfl hstanding
  | denied => exact hb.exists_below h
  | deniedTwice => exact hb.exists_above h (hsettled hl)

/-- A settled conjunction has a solution from one binding where it has one from the other, if that
holds of each goal. -/
theorem exists_yieldsEach_of_settled_of_forall {goals : List Goal}
    (hgoals : ∀ goal ∈ goals, ∀ {late : String → Prop} {b b' c : Binding},
      goal.IsSettled late standing → standing.Relates late b c → Yields I I goal b b' →
      ∃ c', Yields I I goal c c' ∧ standing.Relates late b' c')
    (hsettled : IsSettledEach late standing goals) (h : standing.Relates late b c)
    (hb : YieldsEach I I goals b b') :
    ∃ c', YieldsEach I I goals c c' ∧ standing.Relates late b' c' := by
  induction goals generalizing late b c with
  | nil =>
    obtain rfl : b' = b := hb
    exact ⟨c, rfl, h⟩
  | cons goal rest ih =>
    rw [List.forall_mem_cons] at hgoals
    obtain ⟨hfirst, hrest⟩ := hsettled
    obtain ⟨d, hd, hb⟩ := hb
    obtain ⟨d', hd', hrelates⟩ := hgoals.1 hfirst h hd
    -- what the goal is sure to bind is late for none of the goals after it
    have hrelates' :
        standing.Relates (fun name => late name ∧ name ∉ goal.boundVariables) d d' := by
      cases standing with
      | denied => exact belowUpTo_of_yields hrelates hd'
      | asserted => exact belowUpTo_of_yields hrelates hd
      | deniedTwice => exact belowUpTo_of_yields hrelates hd
    obtain ⟨c', hc', hlast⟩ := ih hgoals.2 hrest hrelates' hb
    refine ⟨c', ⟨d', hd', hc'⟩, ?_⟩
    cases standing with
    | denied => exact ⟨hlast.below, fun name hgains => (hlast.late name hgains).1⟩
    | asserted => exact ⟨hlast.below, fun name hgains => (hlast.late name hgains).1⟩
    | deniedTwice => exact ⟨hlast.below, fun name hgains => (hlast.late name hgains).1⟩

/-- A settled goal under negations has a solution from one binding where it has one from the
other. -/
theorem exists_yields_of_settled (standing : Standing) {goal : Goal}
    (hstanding : standing ≠ .asserted) (hsettled : goal.IsSettled late standing)
    (h : standing.Relates late b c) (hb : Yields I I goal b b') :
    ∃ c', Yields I I goal c c' ∧ standing.Relates late b' c' := by
  induction goal generalizing standing late b b' c with
  | literal l =>
    rw [IsSettled] at hsettled
    rw [Yields] at hb
    split at hb
    · next hl =>
      obtain ⟨t, ht, hextends⟩ := hb
      obtain ⟨c', hextends', hrelates⟩ :=
        exists_extends_of_settled hl hstanding hsettled h hextends
      refine ⟨c', ?_, hrelates⟩
      rw [Yields, if_pos hl]
      exact ⟨t, ht, hextends'⟩
    · next hl =>
      obtain ⟨rfl, hpasses⟩ := hb
      refine ⟨c, ?_, h⟩
      rw [Yields, if_neg hl]
      exact ⟨rfl, passes_of_settled _ (by simpa using hl) hstanding hsettled h hpasses⟩
  | not goal ih =>
    rw [IsSettled] at hsettled
    obtain ⟨rfl, hnone⟩ := hb
    refine ⟨c, ⟨rfl, fun d hd => ?_⟩, h⟩
    -- a solution from there would give one from here, seen from the other side
    have hback : standing.negate ≠ .asserted ∧ standing.negate.Relates late c b' := by
      cases standing with
      | asserted => exact absurd rfl hstanding
      | denied => exact ⟨by decide, h⟩
      | deniedTwice => exact ⟨by decide, h⟩
    obtain ⟨d', hd', -⟩ := ih _ hback.1 hsettled hback.2 hd
    exact hnone d' hd'
  | anyOf branches ih =>
    rw [IsSettled, isSettledAny_iff] at hsettled
    rw [Yields, yieldsAny_iff] at hb
    obtain ⟨branch, hbranch, hb⟩ := hb
    obtain ⟨c', hc', hrelates⟩ := exists_yieldsEach_of_settled_of_forall
      (fun goal hgoal _ _ _ _ hsettled h hb =>
        ih branch hbranch goal hgoal _ hstanding hsettled h hb) (hsettled branch hbranch) h hb
    refine ⟨c', ?_, hrelates⟩
    rw [Yields, yieldsAny_iff]
    exact ⟨branch, hbranch, hc'⟩

/-- A conjunction that led below a binding leads from that binding to itself, if that holds of each
goal. -/
theorem yieldsEach_self_of_forall {goals : List Goal}
    (hgoals : ∀ goal ∈ goals, ∀ {late : String → Prop} {b b' : Binding},
      goal.IsSettled late .asserted → BelowUpTo late b c → Yields I I goal b b' → b'.Below c →
      Yields I I goal c c)
    (hsettled : IsSettledEach late .asserted goals) (h : BelowUpTo late b c)
    (hb : YieldsEach I I goals b b') (hbelow : b'.Below c) : YieldsEach I I goals c c := by
  induction goals generalizing late b with
  | nil => rfl
  | cons goal rest ih =>
    rw [List.forall_mem_cons] at hgoals
    obtain ⟨hfirst, hrest⟩ := hsettled
    obtain ⟨d, hd, hb⟩ := hb
    -- the bindings on the way stay below, as the goals after them only add values
    have hdc : d.Below c := (keeps_of_yieldsEach hb).1.below.trans hbelow
    have hd' : BelowUpTo late d c := by
      refine ⟨hdc, fun name hgains => h.late name ⟨?_, hgains.2⟩⟩
      cases hname : b.get? name with
      | none => rfl
      | some value =>
        have hkept := (keeps_of_yields hd).1 name value hname
        rw [hgains.1] at hkept
        exact absurd hkept (by simp)
    exact ⟨c, hgoals.1 hfirst h hd hdc, ih hgoals.2 hrest (belowUpTo_of_yields hd' hd) hb⟩

/-- A settled goal that led below a binding leads from that binding to itself. -/
theorem yields_self_of_settled {goal : Goal} (hsettled : goal.IsSettled late .asserted)
    (h : BelowUpTo late b c) (hb : Yields I I goal b b') (hbelow : b'.Below c) :
    Yields I I goal c c := by
  induction goal generalizing late b b' with
  | literal l =>
    rw [Yields] at hb ⊢
    split at hb
    · next hl =>
      obtain ⟨t, ht, hextends⟩ := hb
      rw [if_pos hl]
      exact ⟨t, ht, hextends.agrees.below hbelow, .refl c, fun _ hname => .inl hname⟩
    · next hl =>
      obtain ⟨-, hpasses⟩ := hb
      rw [if_neg hl]
      -- a filter is settled under an even number of negations, so also under none
      exact ⟨rfl, passes_of_settled .deniedTwice (by simpa using hl) (by decide)
        (fun hrelation => absurd hrelation hl) h hpasses⟩
  | not goal ih =>
    rw [IsSettled] at hsettled
    obtain ⟨rfl, hnone⟩ := hb
    refine ⟨rfl, fun d hd => ?_⟩
    -- a solution from the upper binding would give one from the lower
    obtain ⟨d', hd', -⟩ := exists_yields_of_settled .denied (by decide) hsettled h hd
    exact hnone d' hd'
  | anyOf branches ih =>
    rw [IsSettled, isSettledAny_iff] at hsettled
    rw [Yields, yieldsAny_iff] at hb ⊢
    obtain ⟨branch, hbranch, hb⟩ := hb
    exact ⟨branch, hbranch, yieldsEach_self_of_forall
      (fun goal hgoal _ _ _ hsettled h hb hbelow =>
        ih branch hbranch goal hgoal hsettled h hb hbelow) (hsettled branch hbranch) h hb hbelow⟩

end Goal

/-- The answers with all variables are solutions of the goals. -/
theorem GoalQuery.mem_solutionsEach_of_mem_answers {q : GoalQuery} {w : WorkingSet} {c : Binding}
    (hanswer : q.answer = []) (hc : c ∈ q.answers w) :
    c ∈ Goal.solutionsEach w q.goals [.empty] := by
  unfold answers Answers.project at hc
  rw [hanswer] at hc
  exact mem_of_mem_distinctBy hc

namespace Program

/-- A program without rules leaves the seeded working set as it is. -/
theorem exists_evaluateIn_empty (settings : Settings) (s : Store) (w : WorkingSet)
    (q : GoalQuery) :
    ∃ a, (empty settings).evaluateIn s w q = .ok (a, w.seed s) ∧
      a.bindings = q.answers (w.seed s) := by
  have hrules : (empty settings).rulesFor q = [] := by
    refine List.eq_nil_iff_forall_not_mem.2 fun r hr => ?_
    simpa [empty] using mem_of_mem_rulesFor hr
  have hlevels : (empty settings).levels ((empty settings).rulesFor q) = [] := by
    rw [hrules]
    rfl
  refine ⟨_, evaluateIn_eq_ok.2 ⟨⟨0, 0, true, w.seed s⟩, ?_, rfl, rfl⟩, rfl⟩
  rw [hlevels]
  rfl

end Program

/-- Solving a literal about facts matches its terms against the rows of the facts. -/
theorem Goal.solutions_attr {s : Store}
    (h : ((s.facts.toList.map Fact.toTuple).map tupleKey).Nodup) (w : WorkingSet)
    (terms : List Term) (b : Binding) :
    Goal.solutions (w.seed s) (.literal ⟨.attr, terms⟩) b =
      ((s.facts.toList.map Fact.toTuple).filter
        (TuplePattern.fits (terms.map b.resolve))).filterMap (Literal.bind? b terms) := by
  have hrelation : Predicate.isRelation .attr = true := rfl
  have htuples : (w.seed s).tuples attrRelation = s.facts.toList.map Fact.toTuple :=
    WorkingSet.tuples_seed_attr h
  rw [Goal.solutions_literal, if_pos hrelation, Literal.lookup_eq hrelation, ← htuples]
  rfl

/-- Asks for the value of an entity. -/
def valueOf (entity name : String) : Goal :=
  .literal ⟨.attr, [.const (.text entity), .const (.text "k"), .var name]⟩

/-- Looking up a value finds it in the facts. -/
theorem solutions_valueOf {s : Store}
    (h : ((s.facts.toList.map Fact.toTuple).map tupleKey).Nodup) (entity name : String)
    (b : Binding) :
    Goal.solutions (WorkingSet.empty.seed s) (valueOf entity name) b =
      ((s.facts.toList.map Fact.toTuple).filter
        (TuplePattern.fits [some (.text entity), some (.text "k"), b.get? name])).filterMap
        (Literal.bind? b [.const (.text entity), .const (.text "k"), .var name]) :=
  Goal.solutions_attr h .empty _ b

/-- Asks whether a variable has the value `1`. -/
def isOne (name : String) : Goal := .literal ⟨.compare .eq, [.var name, .const (.text "1")]⟩

/-- The value `1` of a variable. -/
def oneAs (name : String) : Binding := Binding.empty.insert name (.text "1")

/-- Three facts; the text of the first reads like the values of the others. -/
def confusableStore : Store :=
  (Store.empty .default).addFacts
    [⟨"e1", "k", .text "1\x1eb=s:2"⟩, ⟨"e2", "k", .text "1"⟩, ⟨"e3", "k", .text "2"⟩]

/-- The working set of the three facts. -/
def confusable : WorkingSet := WorkingSet.empty.seed confusableStore

/-- The facts have keys of their own. -/
theorem nodup_confusableStore :
    ((confusableStore.facts.toList.map Fact.toTuple).map tupleKey).Nodup := by decide

/-- A negated choice of which two solutions are confused, so that it matters whether the variable is
bound before. -/
def confusingGoal : Goal :=
  .not (.anyOf
    [[.anyOf [[valueOf "e1" "a"], [valueOf "e2" "a", valueOf "e3" "b"]], valueOf "e2" "a"]])

/-- The only answer binds the variable to `1`, where the negated filter fails. -/
theorem solutions_not_isOne :
    Goal.solutionsEach confusable [.not (isOne "a"), valueOf "e2" "a"] [.empty] = [oneAs "a"] ∧
      Goal.solutions confusable (.not (isOne "a")) (oneAs "a") = [] := by
  have hopen : Goal.solutions confusable (isOne "a") .empty = [] := by
    rw [isOne, Goal.solutions_literal]
    rfl
  have hone : Goal.solutions confusable (isOne "a") (oneAs "a") = [oneAs "a"] := by
    rw [isOne, Goal.solutions_literal]
    rfl
  constructor
  · rw [Goal.solutionsEach_cons, Goal.solutionsEach_cons, Goal.solutionsEach_nil,
      List.flatMap_singleton, Goal.solutions_not_of_eq_nil hopen, List.flatMap_singleton,
      confusable, solutions_valueOf nodup_confusableStore]
    rfl
  · rw [Goal.solutions_not, hone]
    rfl

/-- The solutions under the negation: of those of the inner choice that differ in their texts, the
ones from which the value is found. -/
theorem solutionsAny_confusable (b : Binding) :
    Goal.solutionsAny confusable
        [[.anyOf [[valueOf "e1" "a"], [valueOf "e2" "a", valueOf "e3" "b"]], valueOf "e2" "a"]] b =
      (distinctBy Binding.canonical (Goal.solutions confusable (valueOf "e1" "a") b ++
        (Goal.solutions confusable (valueOf "e2" "a") b).flatMap
          (Goal.solutions confusable (valueOf "e3" "b")))).flatMap
        (Goal.solutions confusable (valueOf "e2" "a")) := by
  simp only [Goal.solutionsAny_cons, Goal.solutionsAny_nil, Goal.solutionsEach_cons,
    Goal.solutionsEach_nil, Goal.solutions_anyOf, List.flatMap_singleton, List.append_nil]

/-- The negated goal holds while the variable is open, as the choice keeps only the solution from
which it fails; the only answer binds the variable to `1`, and from there the choice has the
other. -/
theorem solutions_confusingGoal :
    Goal.solutionsEach confusable [confusingGoal, valueOf "e2" "a"] [.empty] = [oneAs "a"] ∧
      Goal.solutions confusable confusingGoal (oneAs "a") = [] := by
  have hfound : Goal.solutions confusable (valueOf "e2" "a") .empty = [oneAs "a"] := by
    rw [confusable, solutions_valueOf nodup_confusableStore]
    rfl
  have hsecond : Goal.solutions confusable (valueOf "e3" "b") (oneAs "a") =
      [(oneAs "a").insert "b" (.text "2")] := by
    rw [confusable, solutions_valueOf nodup_confusableStore]
    rfl
  constructor
  · have hfirst : Goal.solutions confusable (valueOf "e1" "a") .empty =
        [Binding.empty.insert "a" (.text "1\x1eb=s:2")] := by
      rw [confusable, solutions_valueOf nodup_confusableStore]
      rfl
    have htext : ((oneAs "a").insert "b" (.text "2")).canonical =
        (Binding.empty.insert "a" (.text "1\x1eb=s:2")).canonical := rfl
    -- of the two solutions with one text the first stays, and that has another value
    have hkept : distinctBy Binding.canonical
        ([Binding.empty.insert "a" (.text "1\x1eb=s:2")] ++ [(oneAs "a").insert "b" (.text "2")]) =
        [Binding.empty.insert "a" (.text "1\x1eb=s:2")] := by
      simp [distinctBy, distinctAfter, htext]
    have hnone : Goal.solutions confusable (valueOf "e2" "a")
        (Binding.empty.insert "a" (.text "1\x1eb=s:2")) = [] := by
      rw [confusable, solutions_valueOf nodup_confusableStore]
      rfl
    have hholds : Goal.solutions confusable confusingGoal .empty = [.empty] := by
      refine Goal.solutions_not_of_eq_nil ?_
      rw [Goal.solutions_anyOf, solutionsAny_confusable, hfirst, hfound, List.flatMap_singleton,
        hsecond, hkept, List.flatMap_singleton, hnone]
      rfl
    rw [Goal.solutionsEach_cons, Goal.solutionsEach_cons, Goal.solutionsEach_nil,
      List.flatMap_singleton, hholds, List.flatMap_singleton, hfound]
  · have hfirst : Goal.solutions confusable (valueOf "e1" "a") (oneAs "a") = [] := by
      rw [confusable, solutions_valueOf nodup_confusableStore]
      rfl
    have hagain : Goal.solutions confusable (valueOf "e2" "a") (oneAs "a") = [oneAs "a"] := by
      rw [confusable, solutions_valueOf nodup_confusableStore]
      rfl
    have hboth : Goal.solutions confusable (valueOf "e2" "a")
        ((oneAs "a").insert "b" (.text "2")) = [(oneAs "a").insert "b" (.text "2")] := by
      rw [confusable, solutions_valueOf nodup_confusableStore]
      rfl
    rw [confusingGoal, Goal.solutions_not, Goal.solutions_anyOf, solutionsAny_confusable, hfirst,
      hagain, List.flatMap_singleton, hsecond, List.nil_append]
    simp [distinctBy, distinctAfter, hboth]

namespace Program

/-- Goals with one solution have it as their answer. -/
theorem exists_answers {s : Store} {goals : List Goal} {c : Binding}
    (h : Goal.solutionsEach (WorkingSet.empty.seed s) goals [.empty] = [c]) :
    ∃ a, (empty .default).evaluateIn s .empty ⟨goals, []⟩ = .ok (a, WorkingSet.empty.seed s) ∧
      c ∈ a.bindings := by
  obtain ⟨a, heval, hbindings⟩ := exists_evaluateIn_empty .default s .empty ⟨goals, []⟩
  refine ⟨a, heval, ?_⟩
  obtain ⟨d, hd, -⟩ := exists_mem_distinctBy Binding.canonical (List.mem_singleton_self c)
  obtain rfl : d = c := List.mem_singleton.1 (mem_of_mem_distinctBy hd)
  rw [hbindings, GoalQuery.answers, Answers.project]
  rw [← h] at hd
  exact hd

end Program

end Factbase
