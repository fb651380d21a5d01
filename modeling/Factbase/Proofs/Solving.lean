import Factbase.Proofs.Meaning

/-! # Solving gives the meaning

Over the relations of a working set every solution that is found is one that the goal yields, and
every binding that the goal yields is found, up to canonical texts (`Goal.solutions_spec`). The
second needs that solutions of a choice are told apart by their canonical texts: variables hold no
equals sign and values no separator. -/

namespace Factbase

/-- The relations hold no text with a character. -/
def WorkingSet.Lacks (c : Char) (w : WorkingSet) : Prop := ∀ name, ∀ t ∈ w.tuples name, t.Lacks c

/-- No variable of the literal holds an equals sign. -/
def Literal.IsLegible (l : Literal) : Prop := ∀ name, Term.var name ∈ l.terms → '=' ∉ name.toList

namespace Literal

variable {w : WorkingSet} {l : Literal} {b c : Binding}

/-- Looking up a literal binds its terms to the tuples of its relation that fit. -/
theorem lookup_eq (hl : l.predicate.isRelation = true) :
    l.lookup w b =
      ((w.tuples l.predicate.name).filter (TuplePattern.fits (l.terms.map b.resolve))).filterMap
        (bind? b l.terms) := by
  unfold lookup relationName? WorkingSet.tuples WorkingSet.relation
  rw [if_pos hl]
  cases hr : w.relation? l.predicate.name with
  | none => simp [hr, Relation.empty]
  | some r => simp [hr, Relation.matching_eq_filter]

/-- What is found for a literal: the bindings that match a tuple of its relation. -/
theorem mem_lookup :
    c ∈ l.lookup w b ↔ l.predicate.isRelation = true ∧ ∃ t ∈ w.tuples l.predicate.name,
      TuplePattern.fits (l.terms.map b.resolve) t = true ∧ bind? b l.terms t = some c := by
  cases hl : l.predicate.isRelation with
  | false => simp [lookup, relationName?, hl]
  | true => simp [lookup_eq hl, and_assoc]

end Literal

namespace Goal

variable {w : WorkingSet} {b c : Binding} {goal : Goal} {goals : List Goal}

section Entries

variable {P : String × Atom → Prop}

/-- What holds of all entries of a binding holds of those in the solutions of a conjunction, if each
goal keeps it. -/
theorem forall_entries_of_mem_solutionsEach
    (hgoals : ∀ goal ∈ goals, ∀ b c, (∀ e ∈ b.entries, P e) → c ∈ solutions w goal b →
      ∀ e ∈ c.entries, P e)
    (hb : ∀ e ∈ b.entries, P e) (hc : c ∈ solutionsEach w goals [b]) : ∀ e ∈ c.entries, P e := by
  induction goals generalizing b with
  | nil =>
    obtain rfl : c = b := by simpa using hc
    exact hb
  | cons goal rest ih =>
    rw [List.forall_mem_cons] at hgoals
    obtain ⟨d, hd, hc⟩ := mem_solutionsEach_cons.1 hc
    exact ih hgoals.2 (hgoals.1 b d hb hd) hc

/-- What holds of all entries of a binding holds of those in the solutions of a goal, if it holds of
a variable of each literal that is looked up with a value of the relation. -/
theorem forall_entries_of_mem_solutions
    (hnew : ∀ l, goal.Mentions l → l.predicate.isRelation = true → ∀ name value t,
      Term.var name ∈ l.terms → t ∈ w.tuples l.predicate.name → value ∈ t → P (name, value))
    (hb : ∀ e ∈ b.entries, P e) (hc : c ∈ solutions w goal b) : ∀ e ∈ c.entries, P e := by
  induction goal generalizing b c with
  | literal l =>
    rw [solutions_literal] at hc
    split at hc
    · obtain ⟨hl, t, ht, -, hbind⟩ := Literal.mem_lookup.1 hc
      exact Literal.forall_entries_of_bind? hb
        (fun name value hname hvalue => hnew l (.literal l) hl name value t hname ht hvalue) hbind
    · split at hc
      · rw [List.mem_singleton.1 hc]
        exact hb
      · simp at hc
  | not goal ih =>
    rw [solutions_not] at hc
    split at hc
    · rw [List.mem_singleton.1 hc]
      exact hb
    · simp at hc
  | anyOf branches ih =>
    rw [solutions_anyOf] at hc
    obtain ⟨branch, hbranch, hc⟩ := mem_solutionsAny.1 (mem_of_mem_distinctBy hc)
    refine forall_entries_of_mem_solutionsEach (fun goal hgoal b c => ?_) hb hc
    exact ih branch hbranch goal hgoal fun l hl => hnew l (.anyOf hbranch hgoal hl)

end Entries

/-- Solutions over relations without the separator are legible. -/
theorem isLegible_of_mem_solutions (hw : w.Lacks (Char.ofNat 0x1E))
    (hgoal : ∀ l, goal.Mentions l → l.IsLegible) (hb : b.IsLegible) (hc : c ∈ solutions w goal b) :
    c.IsLegible :=
  forall_entries_of_mem_solutions
    (fun l hl _ name value t hname ht hvalue => ⟨hgoal l hl name hname, hw _ t ht value hvalue⟩)
    hb hc

/-- Solutions of a conjunction over relations without the separator are legible. -/
theorem isLegible_of_mem_solutionsEach (hw : w.Lacks (Char.ofNat 0x1E))
    (hgoals : ∀ goal ∈ goals, ∀ l, goal.Mentions l → l.IsLegible) (hb : b.IsLegible)
    (hc : c ∈ solutionsEach w goals [b]) : c.IsLegible :=
  forall_entries_of_mem_solutionsEach
    (fun goal hgoal _ _ hb hc => isLegible_of_mem_solutions hw (hgoals goal hgoal) hb hc) hb hc

/-- A literal yields its solutions, whatever negated goals are read in. -/
theorem yields_of_mem_solutions_literal {J : Interpretation} {l : Literal}
    (hc : c ∈ solutions w (.literal l) b) : Yields w.interpretation J (.literal l) b c := by
  rw [solutions_literal] at hc
  rw [Yields]
  split at hc
  · next hl =>
    obtain ⟨-, t, ht, hfits, hbind⟩ := Literal.mem_lookup.1 hc
    rw [if_pos hl]
    exact ⟨t, ht, Literal.extends_of_bind? hfits hbind⟩
  · next hl =>
    rw [if_neg hl]
    split at hc
    · next hpasses => exact ⟨List.mem_singleton.1 hc, hpasses⟩
    · simp at hc

/-- The solutions of a goal are what the goal yields over the relations of the working set. -/
structure IsSolvedBy (w : WorkingSet) (goal : Goal) (b : Binding) : Prop where
  sound : ∀ c ∈ solutions w goal b, Yields w.interpretation w.interpretation goal b c
  complete : ∀ c, Yields w.interpretation w.interpretation goal b c →
    ∃ c' ∈ solutions w goal b, c.Same c'

/-- Solutions of a conjunction are yielded if those of its goals are, and found if those are. -/
theorem solutionsEach_spec (hw : w.Lacks (Char.ofNat 0x1E))
    (hgoals : ∀ goal ∈ goals, ∀ l, goal.Mentions l → l.IsLegible)
    (hsolved : ∀ goal ∈ goals, ∀ b, b.IsLegible → IsSolvedBy w goal b) (hb : b.IsLegible) :
    (∀ c ∈ solutionsEach w goals [b], YieldsEach w.interpretation w.interpretation goals b c) ∧
      ∀ c, YieldsEach w.interpretation w.interpretation goals b c →
        ∃ c' ∈ solutionsEach w goals [b], c.Same c' := by
  induction goals generalizing b with
  | nil =>
    constructor
    · intro c hc
      exact (List.mem_singleton.1 (by simpa using hc) : c = b)
    · intro c hc
      exact ⟨b, by simp, by rw [show c = b from hc]; exact .refl b⟩
  | cons goal rest ih =>
    rw [List.forall_mem_cons] at hgoals hsolved
    have hnext : ∀ d ∈ solutions w goal b, d.IsLegible := fun d hd =>
      isLegible_of_mem_solutions hw hgoals.1 hb hd
    constructor
    · intro c hc
      obtain ⟨d, hd, hc⟩ := mem_solutionsEach_cons.1 hc
      exact ⟨d, (hsolved.1 b hb).sound d hd, (ih hgoals.2 hsolved.2 (hnext d hd)).1 c hc⟩
    · rintro c ⟨d, hd, hc⟩
      -- the goals after the first yield the same from the binding that is found for it
      obtain ⟨d', hd', hdd'⟩ := (hsolved.1 b hb).complete d hd
      obtain ⟨c', hcc', hc'⟩ := yieldsEach_congr hdd' hc
      obtain ⟨c'', hc'', hsame⟩ := (ih hgoals.2 hsolved.2 (hnext d' hd')).2 c' hc'
      exact ⟨c'', mem_solutionsEach_cons.2 ⟨d', hd', hc''⟩, hcc'.trans hsame⟩

/-- Every solution that is found is yielded, and every binding that is yielded is found. -/
theorem solutions_spec (hw : w.Lacks (Char.ofNat 0x1E))
    (hgoal : ∀ l, goal.Mentions l → l.IsLegible) (hb : b.IsLegible) : IsSolvedBy w goal b := by
  induction goal generalizing b with
  | literal l =>
    constructor
    · exact fun c hc => yields_of_mem_solutions_literal hc
    · intro c hc
      rw [Yields] at hc
      rw [solutions_literal]
      split at hc
      · next hl =>
        obtain ⟨t, ht, hextends⟩ := hc
        obtain ⟨c', hfits, hbind, -, hsame⟩ := hextends.exists_bind? (.refl b) rfl
        rw [if_pos hl]
        exact ⟨c', Literal.mem_lookup.2 ⟨hl, t, ht, hfits, hbind⟩, hsame⟩
      · next hl =>
        obtain ⟨rfl, hpasses⟩ := hc
        rw [if_neg hl, if_pos hpasses]
        exact ⟨c, List.mem_singleton.2 rfl, .refl c⟩
  | not goal ih =>
    have hsolved := ih (fun l hl => hgoal l (.not hl)) hb
    constructor
    · intro c hc
      rw [solutions_not] at hc
      split at hc
      · next hempty =>
        refine ⟨List.mem_singleton.1 hc, fun d hd => ?_⟩
        obtain ⟨d', hd', -⟩ := hsolved.complete d hd
        rw [List.isEmpty_iff.1 hempty] at hd'
        exact absurd hd' List.not_mem_nil
      · simp at hc
    · rintro c ⟨rfl, hnone⟩
      have hempty : solutions w goal c = [] := by
        refine List.eq_nil_iff_forall_not_mem.2 fun d hd => ?_
        exact hnone d (hsolved.sound d hd)
      rw [solutions_not, hempty]
      exact ⟨c, List.mem_singleton.2 rfl, .refl c⟩
  | anyOf branches ih =>
    have hbranches : ∀ branch ∈ branches, ∀ goal ∈ branch, ∀ l, goal.Mentions l → l.IsLegible :=
      fun branch hbranch goal hmem l hl => hgoal l (.anyOf hbranch hmem hl)
    have hspec := fun branch hbranch => solutionsEach_spec hw (hbranches branch hbranch)
      (fun goal hmem b hb => ih branch hbranch goal hmem (hbranches branch hbranch goal hmem) hb) hb
    constructor
    · intro c hc
      rw [solutions_anyOf] at hc
      obtain ⟨branch, hbranch, hc⟩ := mem_solutionsAny.1 (mem_of_mem_distinctBy hc)
      rw [Yields, yieldsAny_iff]
      exact ⟨branch, hbranch, (hspec branch hbranch).1 c hc⟩
    · intro c hc
      rw [Yields, yieldsAny_iff] at hc
      obtain ⟨branch, hbranch, hc⟩ := hc
      obtain ⟨c', hc', hsame⟩ := (hspec branch hbranch).2 c hc
      have hany := mem_solutionsAny.2 ⟨branch, hbranch, hc'⟩
      -- one with the same text stays, and that is the same binding
      obtain ⟨c'', hc'', htext⟩ := exists_mem_distinctBy Binding.canonical hany
      have hlegible : ∀ d ∈ solutionsAny w branches b, d.IsLegible := by
        intro d hd
        obtain ⟨branch, hbranch, hd⟩ := mem_solutionsAny.1 hd
        exact isLegible_of_mem_solutionsEach hw (hbranches branch hbranch) hb hd
      rw [solutions_anyOf]
      exact ⟨c'', hc'', hsame.trans (Binding.same_of_canonical_eq
        (hlegible c' hany) (hlegible c'' (mem_of_mem_distinctBy hc'')) htext.symm)⟩

end Goal

end Factbase
