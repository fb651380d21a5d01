import Factbase.Proofs.Passes
import Factbase.Proofs.Solving

/-! # Characters that an evaluation does not bring in

An evaluation derives no text that holds a character which the texts of the store and of the heads
lack (`Program.lacks_evaluateIn`): the values of a head tuple are constants of the head or come from
tuples that the body matches. So where store and heads lack the separators, the keys and canonical
texts that are compared tell tuples and bindings apart. -/

namespace Factbase

/-- No text in the facts and links is one with a character. -/
structure Store.Lacks (c : Char) (s : Store) : Prop where
  facts : ∀ f ∈ s.facts.toList, f.toTuple.Lacks c
  links : ∀ l ∈ s.links.toList, l.toTuple.Lacks c

/-- No constant of a literal is a text with a character. -/
def Literal.Lacks (c : Char) (l : Literal) : Prop := ∀ a, Term.const a ∈ l.terms → a.Lacks c

/-- All values in the relations have a property. -/
def WorkingSet.HoldsOnly (P : Atom → Prop) (w : WorkingSet) : Prop :=
  ∀ name, ∀ t ∈ w.tuples name, ∀ a ∈ t, P a

variable {char : Char} {s : Store} {w w' : WorkingSet} {r : Rule}

/-- A seeded working set holds the texts of the store. -/
theorem WorkingSet.lacks_seed (hs : s.Lacks char) : (w.seed s).Lacks char := by
  intro name t ht
  rcases WorkingSet.mem_of_mem_tuples_seed ht with ⟨-, f, hf, rfl⟩ | ⟨-, l, hl, rfl⟩
  · exact hs.facts f hf
  · exact hs.links l hl

namespace Rule

/-- What holds of all values of the relations and of the constants of the head holds of the values
in a head tuple of a solution. -/
theorem forall_mem_headTuple {P : Atom → Prop} (hhead : ∀ a, Term.const a ∈ r.head.terms → P a)
    (hw : w.HoldsOnly P) {b : Binding} (hb : b ∈ Goal.solutionsEach w r.body [.empty]) {t : Tuple}
    (ht : r.head.terms.mapM b.resolve = some t) : ∀ a ∈ t, P a := by
  have hentries : ∀ e ∈ b.entries, P e.2 :=
    Goal.forall_entries_of_mem_solutionsEach (fun goal _ b d hb hd =>
      Goal.forall_entries_of_mem_solutions
        (fun l _ _ name value t _ ht hvalue => hw l.predicate.name t ht value hvalue) hb hd)
      (by simp [Binding.empty]) hb
  intro a ha
  obtain ⟨term, hterm, hvalue⟩ := (Literal.mem_of_mapM_resolve ht).1 a ha
  cases term with
  | var name => exact hentries (name, a) (mem_of_lookup_eq_some hvalue)
  | const value =>
    obtain rfl : value = a := Option.some.inj hvalue
    exact hhead value hterm

/-- An application of a rule brings in no values but constants of its head. -/
theorem holdsOnly_apply {P : Atom → Prop} (hhead : ∀ a, Term.const a ∈ r.head.terms → P a)
    (hw : w.HoldsOnly P) {n : Nat} (h : Deriving.outcome (r.apply w) = .ok (n, w')) :
    w'.HoldsOnly P := by
  obtain ⟨tuples, hinsert, hfrom, -⟩ := apply_ok h
  intro name t ht
  have hmem : t ∈ (w.insertEach r.headName tuples).2.tuples name := by
    rw [hinsert]
    exact ht
  rcases WorkingSet.mem_of_mem_tuples_insertEach hmem with hold | ⟨-, hnew⟩
  · exact hw name t hold
  · obtain ⟨b, hb, hhead'⟩ := hfrom t hnew
    exact forall_mem_headTuple hhead hw hb hhead'

/-- A head tuple of a solution has values of the head or of the relations. -/
theorem lacks_headTuple (hhead : r.head.Lacks char) (hw : w.Lacks char) {b : Binding}
    (hb : b ∈ Goal.solutionsEach w r.body [.empty]) {t : Tuple}
    (ht : r.head.terms.mapM b.resolve = some t) : t.Lacks char :=
  forall_mem_headTuple hhead hw hb ht

/-- An application of a rule brings in no character that its head lacks. -/
theorem lacks_apply (hhead : r.head.Lacks char) (hw : w.Lacks char) {n : Nat}
    (h : Deriving.outcome (r.apply w) = .ok (n, w')) : w'.Lacks char :=
  holdsOnly_apply hhead hw h

end Rule

/-- An evaluation brings in no character that the store and the heads of the rules lack. -/
theorem Program.lacks_evaluateIn {p : Program} {q : GoalQuery} {a : Answers} (hs : s.Lacks char)
    (hheads : ∀ r ∈ p.rules, r.head.Lacks char) (h : p.evaluateIn s w q = .ok (a, w')) :
    w'.Lacks char := by
  obtain ⟨t, hlevels, rfl, -⟩ := evaluateIn_eq_ok.1 h
  refine Saturation.preserved_ofLevels ?_ (WorkingSet.lacks_seed hs) hlevels
  intro level hlevel r hr w₁ n w₂ hw₁ happly
  have hrule := mem_of_mem_rulesFor (mem_of_mem_levels hlevel hr)
  exact Rule.lacks_apply (hheads r hrule) hw₁ happly

end Factbase
