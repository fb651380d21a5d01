import Mathlib.Data.Multiset.Bind
import Factbase.Proofs.Totality

/-! # The order of goals

A conjunction of literals, each asserted or negated, is solved in the order in which it is written.
The order decides which columns are bound when a relation is looked up, which of several values with
one canonical text a variable gets, and when filters and negated literals are tested. It does not
decide what the solutions are: where every literal that only tests comes after asserted relations
with all its variables, two orders give the same solutions equally often, up to canonical texts
(`SignedLiteral.perm_solveEach`).

What a solution says is its reading, the canonical texts of its values. Looking up a relation adds
the columns of a tuple to a reading, unless the reading says otherwise (`Literal.read?`), and such
steps can be taken in either order. A test reads values that no later goal changes, so that all
tests can be left to the end (`SignedLiteral.solutionsEach_toGoal`). -/

namespace Factbase

/-- What fails a test may be left out before or after each element is replaced by others, if these
pass the test exactly when the element does. -/
theorem flatMap_filter_eq_filter_flatMap {α β : Type} {p : α → Bool} {q : β → Bool}
    {f : α → List β} {as : List α} (h : ∀ a ∈ as, ∀ b ∈ f a, q b = p a) :
    (as.filter p).flatMap f = (as.flatMap f).filter q := by
  induction as with
  | nil => rfl
  | cons a rest ih =>
    rw [List.forall_mem_cons] at h
    rw [List.flatMap_cons, List.filter_append, ← ih h.2]
    cases hp : p a with
    | true =>
      rw [List.filter_cons_of_pos hp, List.flatMap_cons,
        List.filter_eq_self.2 fun b hb => (h.1 b hb).trans hp]
    | false =>
      rw [List.filter_cons_of_neg (by simp [hp]),
        (List.filter_eq_nil_iff (l := f a)).2 fun b hb => by simp [h.1 b hb, hp], List.nil_append]

/-- A test that is decided by the value of a function can be made on the values. -/
theorem map_filter_of_factorsThrough {α β : Type} {f : α → β} {p : α → Bool}
    (h : p.FactorsThrough f) (as : List α) :
    (as.filter p).map f = (as.map f).filter (Function.extend f p fun _ => false) := by
  rw [List.filter_map]
  exact congrArg (List.map f) (List.filter_congr fun a _ => (h.extend_apply _ a).symm)

/-! ## Readings -/

/-- The canonical texts of some variables. -/
abbrev Reading := String → Option String

namespace Reading

/-- Gives a variable a text, unless it already has another one. -/
def put? (name text : String) (ρ : Reading) : Option Reading :=
  if ρ name = none ∨ ρ name = some text then some (Function.update ρ name (some text)) else none

/-- Two steps lead to the same reading in either order. -/
def Commutes (f g : Reading → Option Reading) : Prop := ∀ ρ, (f ρ).bind g = (g ρ).bind f

variable {f g h : Reading → Option Reading}

theorem Commutes.symm (hfg : Commutes f g) : Commutes g f := fun ρ => (hfg ρ).symm

/-- A step that can be taken before or after each of two others can be so for both together. -/
theorem Commutes.bind (hf : Commutes f h) (hg : Commutes g h) :
    Commutes (fun ρ => (f ρ).bind g) h := by
  intro ρ
  calc ((f ρ).bind g).bind h
      = (f ρ).bind fun σ => (g σ).bind h := Option.bind_assoc ..
    _ = (f ρ).bind fun σ => (h σ).bind g := by simp only [hg _]
    _ = ((f ρ).bind h).bind g := (Option.bind_assoc ..).symm
    _ = ((h ρ).bind f).bind g := by rw [hf ρ]
    _ = (h ρ).bind fun σ => (f σ).bind g := Option.bind_assoc ..

/-- It does not matter in which order two variables get their texts. -/
theorem commute_put? (name text name' text' : String) :
    Commutes (put? name text) (put? name' text') := by
  intro ρ
  by_cases hname : name = name'
  · subst hname
    by_cases htext : text = text'
    · rw [htext]
    · -- whichever text comes first is in the way of the other
      have hnone : ∀ a b : String, a ≠ b → (put? name a ρ).bind (put? name b) = none := by
        intro a b hab
        unfold put?
        split <;> simp [hab]
      rw [hnone _ _ htext, hnone _ _ (Ne.symm htext)]
  · have hleft : ∀ σ : Reading, Function.update σ name' (some text') name = σ name := fun σ =>
      Function.update_of_ne hname _ _
    have hright : ∀ σ : Reading, Function.update σ name (some text) name' = σ name' := fun σ =>
      Function.update_of_ne (Ne.symm hname) _ _
    have hboth := Function.update_comm hname (some text) (some text') ρ
    by_cases hput : ρ name = none ∨ ρ name = some text <;>
      by_cases hput' : ρ name' = none ∨ ρ name' = some text' <;>
      simp [put?, hput, hput', hleft, hright, hboth]

end Reading

namespace Binding

/-- Unification gives a variable the canonical text of a value. -/
theorem map_reading_unify? (b : Binding) (name : String) (value : Atom) :
    (b.unify? name value).map reading = Reading.put? name value.canonical b.reading := by
  rw [unify?_def]
  unfold Reading.put?
  cases hname : b.get? name with
  | none =>
    have hinsert : (b.insert name value).reading =
        Function.update b.reading name (some value.canonical) := by
      funext other
      by_cases hother : other = name <;> simp [reading, get?_insert, Function.update, hother]
    simp [reading, hname, ← hinsert]
  | some bound =>
    by_cases hvalue : bound.canonical = value.canonical
    · have hread : b.reading name = some value.canonical := by simp [reading, hname, hvalue]
      have hsame : Function.update b.reading name (some value.canonical) = b.reading := by
        rw [← hread, Function.update_eq_self]
      simp [hread, hvalue, hsame]
    · simp [reading, hname, hvalue]

end Binding

namespace Literal

open Binding (reading)
open Reading (put? Commutes)

/-- Gives the variables among some terms the canonical texts of the columns of a tuple, unless they
have others. There are as many columns as terms, and a constant has the text of its column. -/
def read? : List Term → Tuple → Reading → Option Reading
  | [], [], ρ => some ρ
  | .var name :: terms, value :: t, ρ => (put? name value.canonical ρ).bind (read? terms t)
  | .const a :: terms, value :: t, ρ =>
    if value.canonical = a.canonical then read? terms t ρ else none
  | _, _, _ => none

variable {terms : List Term} {t : Tuple} {b b₀ : Binding} {ρ σ : Reading}

/-- Terms are read before or after a step that commutes with every single variable. -/
theorem commute_read? {g : Reading → Option Reading}
    (h : ∀ name text, Commutes (put? name text) g) (terms : List Term) (t : Tuple) :
    Commutes (read? terms t) g := by
  have hnone : Commutes (fun _ => none) g := fun ρ => by simp
  induction terms generalizing t with
  | nil =>
    cases t with
    | nil => exact fun ρ => by simp [read?]
    | cons value t => exact hnone
  | cons term rest ih =>
    cases t with
    | nil => cases term <;> exact hnone
    | cons value t =>
      cases term with
      | var name => exact (h name value.canonical).bind (ih t)
      | const a =>
        by_cases hvalue : value.canonical = a.canonical
        · simpa [Commutes, read?, hvalue] using ih t
        · simp [Commutes, read?, hvalue]

/-- Two tuples are read in either order. -/
theorem read?_comm (terms terms' : List Term) (t t' : Tuple) :
    Commutes (read? terms t) (read? terms' t') :=
  commute_read? (fun name text =>
    (commute_read? (fun _ _ => Reading.commute_put? _ _ name text) terms' t').symm) terms t

/-- Whether a tuple can be read is decided by the texts of the variables among the terms. -/
theorem isSome_read?_congr (h : ∀ name, Term.var name ∈ terms → ρ name = σ name) :
    (read? terms t ρ).isSome = (read? terms t σ).isSome := by
  induction terms generalizing t ρ σ with
  | nil => cases t <;> rfl
  | cons term rest ih =>
    have hrest : ∀ name, Term.var name ∈ rest → ρ name = σ name := fun name hname =>
      h name (List.mem_cons_of_mem _ hname)
    cases t with
    | nil => cases term <;> rfl
    | cons value t =>
      cases term with
      | var name =>
        rw [read?, read?, put?, put?, h name List.mem_cons_self]
        split
        · refine ih fun other hother => ?_
          rw [Function.update_apply, Function.update_apply, hrest other hother]
        · rfl
      | const a =>
        rw [read?, read?]
        split
        · exact ih hrest
        · rfl

/-- Matching a literal against a tuple reads the tuple. -/
theorem map_reading_bind? (hb : b.Keeps b₀) :
    (if TuplePattern.fits (terms.map b₀.resolve) t = true then bind? b terms t else none).map
      reading = read? terms t b.reading := by
  induction terms generalizing b t with
  | nil => cases t <;> simp [TuplePattern.fits, bind?, read?]
  | cons term rest ih =>
    cases t with
    | nil =>
      rw [List.map_cons]
      cases b₀.resolve term <;> cases term <;> simp [TuplePattern.fits, read?]
    | cons value t =>
      cases term with
      | const a =>
        by_cases hvalue : value.canonical = a.canonical
        · simpa [TuplePattern.fits, bind?, read?, Binding.resolve, hvalue] using ih hb
        · simp [TuplePattern.fits, read?, Binding.resolve, hvalue]
      | var name =>
        rw [read?, ← Binding.map_reading_unify?, bind?]
        cases hunify : b.unify? name value with
        | none => simp
        | some c =>
          obtain ⟨hkeeps, hvalue, -⟩ := Binding.of_unify? hunify
          have hc := hkeeps.trans hb
          -- the column is tested by the pattern only if unification tests it
          have hfits : TuplePattern.fits ((Term.var name :: rest).map b₀.resolve) (value :: t) =
              TuplePattern.fits (rest.map b₀.resolve) t := by
            rw [List.map_cons, Binding.resolve]
            cases hname : b₀.get? name with
            | none => rfl
            | some bound =>
              rw [hc name bound hname, Option.map_some, Option.some.injEq] at hvalue
              simp [TuplePattern.fits, hvalue]
          rw [hfits]
          exact ih hc

/-- The readings that looking up a literal leads to. -/
def readings (w : WorkingSet) (l : Literal) (ρ : Reading) : List Reading :=
  (w.tuples l.predicate.name).filterMap fun t => read? l.terms t ρ

variable {w : WorkingSet} {l : Literal}

/-- Looking up a literal reads the tuples of its relation. -/
theorem map_reading_lookup (hl : l.predicate.isRelation = true) (b : Binding) :
    (l.lookup w b).map reading = l.readings w b.reading := by
  rw [lookup_eq hl, List.filterMap_filter, List.map_filterMap]
  exact List.filterMap_congr fun t _ => map_reading_bind? (.refl b)

/-- Two literals are looked up in either order. -/
theorem bind_readings_comm (w : WorkingSet) (l l' : Literal) (ρ : Reading) :
    (Multiset.bind (l.readings w ρ) fun σ => (l'.readings w σ : Multiset Reading)) =
      Multiset.bind (l'.readings w ρ) fun σ => (l.readings w σ : Multiset Reading) := by
  have hpairs : ∀ l l' : Literal,
      (Multiset.bind (l.readings w ρ) fun σ => (l'.readings w σ : Multiset Reading)) =
        Multiset.bind (w.tuples l.predicate.name) fun t =>
          Multiset.bind (w.tuples l'.predicate.name) fun t' =>
            (((read? l.terms t ρ).bind (read? l'.terms t')).map singleton).getD 0 := by
    intro l l'
    rw [readings, ← Multiset.filterMap_coe, Multiset.bind_filterMap]
    refine Multiset.bind_congr fun t _ => ?_
    rw [← Multiset.filterMap_eq_bind]
    cases read? l.terms t ρ <;> simp [readings]
  rw [hpairs, hpairs, Multiset.bind_bind]
  simp only [read?_comm l.terms l'.terms _ _ ρ]

/-- Whether a literal has a solution is decided by the texts of its variables. -/
theorem isEmpty_solutions_congr {c : Binding}
    (h : ∀ name, Term.var name ∈ l.terms → b.reading name = c.reading name) :
    (Goal.solutions w (.literal l) b).isEmpty = (Goal.solutions w (.literal l) c).isEmpty := by
  rw [Goal.solutions_literal, Goal.solutions_literal]
  split
  · next hl =>
    have hempty : ∀ b, (l.lookup w b).isEmpty = true ↔
        ∀ t ∈ w.tuples l.predicate.name, (read? l.terms t b.reading).isSome = false := by
      intro b
      rw [← List.isEmpty_map (f := reading), map_reading_lookup hl, readings, List.isEmpty_iff,
        List.filterMap_eq_nil_iff]
      simp
    rw [Bool.eq_iff_iff, hempty, hempty]
    exact forall₂_congr fun t _ => by rw [isSome_read?_congr h]
  · have hresolve : ∀ term ∈ l.terms,
        (b.resolve term).map Atom.canonical = (c.resolve term).map Atom.canonical := by
      intro term hterm
      cases term with
      | var name => exact h name hterm
      | const a => rfl
    rw [Goal.passes_congr _ hresolve]
    split <;> rfl

end Literal

/-! ## Literals that are asserted or negated -/

/-- A literal, asserted or negated. -/
structure SignedLiteral extends Literal where
  isNegated : Bool
deriving DecidableEq

namespace SignedLiteral

open Goal (solutions solutionsEach solveEach)

/-- The literal as a goal. -/
def toGoal (g : SignedLiteral) : Goal :=
  if g.isNegated then .not (.literal g.toLiteral) else .literal g.toLiteral

/-- Whether the literal is looked up and so binds its variables; any other is a test. -/
def isLookup (g : SignedLiteral) : Bool := !g.isNegated && g.predicate.isRelation

/-- Every variable of a test is one of a literal before that is looked up. -/
def IsSafe (goals : List SignedLiteral) : Prop :=
  ∀ i (h : i < goals.length), goals[i].isLookup = false →
    ∀ term ∈ goals[i].terms, term.var?.isSome →
      ∃ g ∈ goals.take i, g.isLookup = true ∧ term ∈ g.terms

instance (goals : List SignedLiteral) : Decidable (IsSafe goals) :=
  inferInstanceAs (Decidable (∀ i (h : i < goals.length), goals[i].isLookup = false →
    ∀ term ∈ goals[i].terms, term.var?.isSome →
      ∃ g ∈ goals.take i, g.isLookup = true ∧ term ∈ g.terms))

/-- Whether a literal has a solution from a binding. -/
def isTrue (w : WorkingSet) (g : SignedLiteral) (b : Binding) : Bool :=
  !(solutions w g.toGoal b).isEmpty

variable {w : WorkingSet} {g : SignedLiteral} {goals goals' : List SignedLiteral} {b c : Binding}

/-- A literal that is looked up is an asserted one about a relation. -/
theorem isLookup_iff :
    g.isLookup = true ↔ g.isNegated = false ∧ g.predicate.isRelation = true := by
  rw [isLookup, Bool.and_eq_true, Bool.not_eq_true']

/-- A literal that is looked up is a plain goal. -/
theorem toGoal_of_isLookup (h : g.isLookup = true) : g.toGoal = .literal g.toLiteral :=
  if_neg (by simp [(isLookup_iff.1 h).1])

/-- A test keeps the bindings of which it is true. -/
theorem solutions_of_not_isLookup (h : g.isLookup = false) (b : Binding) :
    solutions w g.toGoal b = if g.isTrue w b then [b] else [] := by
  unfold isTrue toGoal
  split
  · rw [Goal.solutions_not]
    split <;> simp
  · next hasserted =>
    have hfilter : ¬ g.predicate.isRelation = true := by simpa [isLookup, hasserted] using h
    rw [Goal.solutions_literal, if_neg hfilter]
    split <;> simp

/-- Whether a literal is true is decided by the texts of its variables. -/
theorem isTrue_congr (h : ∀ name, Term.var name ∈ g.terms → b.reading name = c.reading name) :
    g.isTrue w b = g.isTrue w c := by
  have hempty := Literal.isEmpty_solutions_congr (w := w) h
  unfold isTrue toGoal
  split
  · rw [Goal.solutions_not, Goal.solutions_not, hempty]
    cases (solutions w (.literal g.toLiteral) c).isEmpty <;> rfl
  · rw [hempty]

/-- The literals before the last are in a safe order if all are. -/
theorem IsSafe.of_concat (h : IsSafe (goals ++ [g])) : IsSafe goals := by
  intro i hi
  have hall := h i (by rw [List.length_append]; omega)
  rwa [List.getElem_append_left hi, List.take_append_of_le_length (Nat.le_of_lt hi)] at hall

/-- The variables of a test are those of literals that are looked up. -/
theorem IsSafe.exists_isLookup (h : IsSafe goals) (hg : g ∈ goals) (htest : g.isLookup = false)
    {name : String} (hname : Term.var name ∈ g.terms) :
    ∃ g' ∈ goals, g'.isLookup = true ∧ Term.var name ∈ g'.terms := by
  obtain ⟨i, hi, rfl⟩ := List.getElem_of_mem hg
  obtain ⟨g', hg', hlookup⟩ := h i hi htest (.var name) hname rfl
  exact ⟨g', List.mem_of_mem_take hg', hlookup⟩

/-- The solutions of the literals that are looked up have a value for every variable of a test. -/
theorem IsSafe.isSome (h : IsSafe goals) (hg : g ∈ goals) (htest : g.isLookup = false)
    {name : String} (hname : Term.var name ∈ g.terms)
    (hb : b ∈ solutionsEach w ((goals.filter isLookup).map toGoal) [.empty]) :
    (b.get? name).isSome := by
  obtain ⟨g', hg', hlookup, hname'⟩ := h.exists_isLookup hg htest hname
  refine Goal.isSome_of_mem_solutionsEach hb
    (List.mem_map_of_mem (List.mem_filter.2 ⟨hg', hlookup⟩)) ?_
  rw [toGoal_of_isLookup hlookup, Goal.boundVariables, if_pos (isLookup_iff.1 hlookup).2,
    mem_nameSet, Literal.mem_variableNames]
  exact hname'

/-- In a safe order all tests may be left to the end: the solutions are those of the literals that
are looked up, of which the tests are true. -/
theorem solutionsEach_toGoal (h : IsSafe goals) :
    solutionsEach w (goals.map toGoal) [.empty] =
      (solutionsEach w ((goals.filter isLookup).map toGoal) [.empty]).filter fun c =>
        (goals.filter (!·.isLookup)).all (·.isTrue w c) := by
  induction goals using List.reverseRecOn with
  | nil => simp
  | append_singleton goals g ih =>
    have hgoals := h.of_concat
    rw [List.map_append, List.map_singleton, Goal.solutionsEach_concat, ih hgoals]
    cases hg : g.isLookup with
    | false =>
      have hkeep : solutions w g.toGoal = fun c => [c].filter (g.isTrue w) := by
        funext c
        rw [solutions_of_not_isLookup hg]
        cases htrue : g.isTrue w c <;> simp [htrue]
      rw [hkeep, ← List.filter_flatMap]
      simp [hg, Bool.and_comm]
    | true =>
      rw [List.filter_append, List.filter_append, List.filter_cons_of_pos hg,
        List.filter_cons_of_neg (by simp [hg]), List.filter_nil, List.filter_nil, List.append_nil,
        List.map_append, List.map_singleton, Goal.solutionsEach_concat]
      refine flatMap_filter_eq_filter_flatMap fun b hb c hc => ?_
      -- what is looked up last changes none of the values that the tests read
      have hkeeps : c.Keeps b := ((Goal.isLawful_finds w).keeps hc).1
      rw [Bool.eq_iff_iff, List.all_eq_true, List.all_eq_true]
      refine forall₂_congr fun g' hg' => Bool.eq_iff_iff.1 (isTrue_congr fun name hname => ?_)
      obtain ⟨hmem, htest⟩ := List.mem_filter.1 hg'
      obtain ⟨value, hvalue⟩ := Option.isSome_iff_exists.1
        (hgoals.isSome hmem (by simpa using htest) hname hb)
      rw [Binding.reading, Binding.reading, hvalue, hkeeps name value hvalue]

/-- The readings of the solutions of literals that are looked up are put together literal after
literal. -/
theorem map_reading_solutionsEach (h : ∀ g ∈ goals, g.isLookup = true) (bindings : List Binding) :
    ((solutionsEach w (goals.map toGoal) bindings).map Binding.reading : Multiset Reading) =
      goals.foldl (fun ρs g => ρs.bind fun ρ => (g.readings w ρ : Multiset Reading))
        (bindings.map Binding.reading : Multiset Reading) := by
  induction goals generalizing bindings with
  | nil => simp
  | cons g rest ih =>
    rw [List.forall_mem_cons] at h
    have hg : ∀ b, (solutions w g.toGoal b).map Binding.reading = g.readings w b.reading := by
      intro b
      rw [toGoal_of_isLookup h.1, Goal.solutions_literal, if_pos (isLookup_iff.1 h.1).2,
        Literal.map_reading_lookup (isLookup_iff.1 h.1).2]
    rw [List.map_cons, Goal.solutionsEach_cons, ih h.2, List.foldl_cons, ← Multiset.map_coe,
      ← Multiset.map_coe, Multiset.bind_map, ← Multiset.coe_bind, Multiset.map_bind]
    simp only [Multiset.map_coe, hg]

/-- Literals that are looked up have the same readings in any order. -/
theorem perm_map_reading_solutionsEach (hperm : goals.Perm goals')
    (h : ∀ g ∈ goals, g.isLookup = true) (bindings : List Binding) :
    ((solutionsEach w (goals.map toGoal) bindings).map Binding.reading).Perm
      ((solutionsEach w (goals'.map toGoal) bindings).map Binding.reading) := by
  have h' : ∀ g ∈ goals', g.isLookup = true := fun g hg => h g (hperm.mem_iff.2 hg)
  rw [← Multiset.coe_eq_coe, map_reading_solutionsEach h, map_reading_solutionsEach h']
  refine hperm.foldl_eq' (fun g _ g' _ ρs => ?_) _
  rw [Multiset.bind_assoc, Multiset.bind_assoc]
  exact Multiset.bind_congr fun ρ _ => Literal.bind_readings_comm w g.toLiteral g'.toLiteral ρ

/-- Asks for the posts. -/
def isPost : SignedLiteral :=
  ⟨⟨.attr, [.var "p", .const (.text "type"), .const (.text "post")]⟩, false⟩

/-- Asks for the colours. -/
def hasColour : SignedLiteral := ⟨⟨.attr, [.var "p", .const (.text "colour"), .var "c"]⟩, false⟩

/-- Asks for a colour that is not red. -/
def isNotRed : SignedLiteral := ⟨⟨.compare .neq, [.var "c", .const (.text "red")]⟩, false⟩

/-- Asks for what is not hidden. -/
def isShown : SignedLiteral :=
  ⟨⟨.attr, [.var "p", .const (.text "label"), .const (.text "hidden")]⟩, true⟩

/-- Two posts, of which one is hidden. -/
def postStore : Store :=
  (Store.empty .default).addFacts
    [⟨"p1", "type", .text "post"⟩, ⟨"p1", "colour", .text "blue"⟩, ⟨"p2", "colour", .text "red"⟩,
      ⟨"p2", "type", .text "post"⟩, ⟨"p2", "label", .text "hidden"⟩]

end SignedLiteral

end Factbase
