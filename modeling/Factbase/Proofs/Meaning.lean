import Mathlib.Data.Set.Lattice
import Factbase.Proofs.Bindings
import Factbase.Proofs.Caching

/-! # The meaning of goals

An `Interpretation` gives every relation a set of tuples. `Goal.Yields` says which bindings are
solutions of a goal when its plain literals are read in one interpretation and what stands under a
negation in another. Solutions grow with the first and depend on the second only up to canonical
texts (`Goal.yields_mono`).

Whatever way of solving goals binds variables in looked-up literals only keeps the values of a
binding and has one for each variable that a goal is sure to bind
(`Goal.Leading.IsLawful.keeps`). -/

namespace Factbase

/-- A set of tuples for every relation. -/
abbrev Interpretation := String → Set Tuple

/-- Every tuple of one set has one with the same canonical texts in the other. -/
def Covers (B A : Set Tuple) : Prop :=
  ∀ t ∈ A, ∃ t' ∈ B, t.map Atom.canonical = t'.map Atom.canonical

theorem Covers.refl (A : Set Tuple) : Covers A A := fun t ht => ⟨t, ht, rfl⟩

theorem Covers.of_subset {A B : Set Tuple} (h : A ⊆ B) : Covers B A := fun t ht => ⟨t, h ht, rfl⟩

theorem Covers.trans {A B C : Set Tuple} (h : Covers C B) (h' : Covers B A) : Covers C A := by
  intro t ht
  obtain ⟨u, hu, htu⟩ := h' t ht
  obtain ⟨v, hv, huv⟩ := h u hu
  exact ⟨v, hv, htu.trans huv⟩

/-- The relations of a working set. -/
def WorkingSet.interpretation (w : WorkingSet) : Interpretation :=
  fun name => {t | t ∈ w.tuples name}

namespace Goal

/-- A literal occurs in a goal. -/
inductive Mentions : Goal → Literal → Prop where
  | literal (l : Literal) : Mentions (.literal l) l
  | not {goal : Goal} {l : Literal} : Mentions goal l → Mentions (.not goal) l
  | anyOf {branches : List (List Goal)} {branch : List Goal} {goal : Goal} {l : Literal} :
      branch ∈ branches → goal ∈ branch → Mentions goal l → Mentions (.anyOf branches) l

mutual

/-- The solutions of a goal that extend a binding, with plain literals read in `I` and negated goals
in `J`. -/
def Yields (I J : Interpretation) : Goal → Binding → Binding → Prop
  | .literal l, b, c =>
    if l.predicate.isRelation then ∃ t ∈ I l.predicate.name, Literal.Extends l.terms b t c
    else c = b ∧ Filter.passes l.predicate l.terms b = true
  | .not goal, b, c => c = b ∧ ∀ d, ¬ Yields J J goal b d
  | .anyOf branches, b, c => YieldsAny I J branches b c

/-- The solutions of a conjunction: those of the last goal from those of the goals before. -/
def YieldsEach (I J : Interpretation) : List Goal → Binding → Binding → Prop
  | [], b, c => c = b
  | goal :: rest, b, c => ∃ d, Yields I J goal b d ∧ YieldsEach I J rest d c

/-- The solutions of a choice: those of its branches. -/
def YieldsAny (I J : Interpretation) : List (List Goal) → Binding → Binding → Prop
  | [], _, _ => False
  | branch :: rest, b, c => YieldsEach I J branch b c ∨ YieldsAny I J rest b c

end

/-- A choice yields what one of its branches yields. -/
theorem yieldsAny_iff {I J : Interpretation} {branches : List (List Goal)} {b c : Binding} :
    YieldsAny I J branches b c ↔ ∃ branch ∈ branches, YieldsEach I J branch b c := by
  induction branches with
  | nil => simp [YieldsAny]
  | cons branch rest ih => simp [YieldsAny, ih]

/-- A conjunction of one goal yields what the goal yields. -/
theorem yieldsEach_singleton {I J : Interpretation} {goal : Goal} {b c : Binding} :
    YieldsEach I J [goal] b c ↔ Yields I J goal b c := by
  simp [YieldsEach]

/-- Goals one after the other yield what the latter yield from what the former do. -/
theorem yieldsEach_append {I J : Interpretation} {front back : List Goal} {b c : Binding} :
    YieldsEach I J (front ++ back) b c ↔
      ∃ d, YieldsEach I J front b d ∧ YieldsEach I J back d c := by
  induction front generalizing b with
  | nil => simp [YieldsEach]
  | cons goal rest ih =>
    simp only [List.cons_append, YieldsEach, ih]
    constructor
    · rintro ⟨d, hd, d', hrest, hback⟩
      exact ⟨d', ⟨d, hd, hrest⟩, hback⟩
    · rintro ⟨d', ⟨d, hd, hrest⟩, hback⟩
      exact ⟨d, hd, d', hrest, hback⟩

section References

/-- The references of a conjunction are those of its goals. -/
theorem mem_referencesInEach {negated : Bool} {goals : List Goal} {e : Reference} :
    e ∈ referencesInEach negated goals ↔ ∃ goal ∈ goals, e ∈ referencesUnder negated goal := by
  induction goals with
  | nil => simp [referencesInEach]
  | cons goal rest ih => simp [referencesInEach, ih]

/-- The references of branches are those of their goals. -/
theorem mem_referencesInBranches {negated : Bool} {branches : List (List Goal)} {e : Reference} :
    e ∈ referencesInBranches negated branches ↔
      ∃ branch ∈ branches, ∃ goal ∈ branch, e ∈ referencesUnder negated goal := by
  induction branches with
  | nil => simp [referencesInBranches]
  | cons branch rest ih => simp [referencesInBranches, mem_referencesInEach, ih]

/-- What a goal mentions it mentions under a negation, then marked. -/
theorem mem_referencesUnder_true {goal : Goal} {e : Reference} {negated : Bool}
    (h : e ∈ referencesUnder negated goal) : ⟨e.name, true⟩ ∈ referencesUnder true goal := by
  induction goal generalizing negated with
  | literal l =>
    obtain ⟨predicate, terms⟩ := l
    cases predicate with
    | derived name =>
      obtain rfl : e = ⟨name, negated⟩ := by simpa [referencesUnder] using h
      simp [referencesUnder]
    | _ => simp [referencesUnder] at h
  | not goal ih =>
    rw [referencesUnder] at h ⊢
    exact ih h
  | anyOf branches ih =>
    rw [referencesUnder, mem_referencesInBranches] at h ⊢
    obtain ⟨branch, hbranch, goal, hgoal, h⟩ := h
    exact ⟨branch, hbranch, goal, hgoal, ih branch hbranch goal hgoal h⟩

end References

section Leading

/-- Which bindings a goal leads to from a binding. -/
abbrev Leading := Goal → Binding → Binding → Prop

namespace Leading

/-- Where goals lead one after the other. -/
def Each (leads : Leading) : List Goal → Binding → Binding → Prop
  | [], b, c => c = b
  | goal :: rest, b, c => ∃ d, leads goal b d ∧ Each leads rest d c

/-- Only literals that are looked up bind variables, those of the literal to the columns of a tuple,
and a choice leads where one of its branches does. -/
structure IsLawful (leads : Leading) : Prop where
  lookup : ∀ l b c, l.predicate.isRelation = true → leads (.literal l) b c →
    ∃ t, Literal.Extends l.terms b t c
  filter : ∀ l b c, l.predicate.isRelation = false → leads (.literal l) b c → c = b
  not : ∀ goal b c, leads (.not goal) b c → c = b
  anyOf : ∀ branches b c, leads (.anyOf branches) b c → ∃ branch ∈ branches, leads.Each branch b c

variable {leads : Leading} {b c : Binding}

/-- Where a conjunction leads all values are kept and what its goals bind is bound, if that holds of
each goal. -/
theorem keeps_each_of_forall {goals : List Goal}
    (h : ∀ goal ∈ goals, ∀ b c, leads goal b c →
      c.Keeps b ∧ ∀ name ∈ goal.boundVariables, (c.get? name).isSome)
    (hb : leads.Each goals b c) :
    c.Keeps b ∧ ∀ name ∈ boundInEach goals, (c.get? name).isSome := by
  induction goals generalizing b with
  | nil =>
    obtain rfl : c = b := hb
    exact ⟨.refl c, by simp⟩
  | cons goal rest ih =>
    rw [List.forall_mem_cons] at h
    obtain ⟨d, hd, hrest⟩ := hb
    obtain ⟨hkeeps, hbinds⟩ := h.1 b d hd
    obtain ⟨hkeeps', hbinds'⟩ := ih h.2 hrest
    refine ⟨hkeeps'.trans hkeeps, fun name hname => ?_⟩
    obtain ⟨g, hg, hbound⟩ := mem_boundInEach.1 hname
    rcases List.mem_cons.1 hg with rfl | hg
    · exact hkeeps'.below.isSome (hbinds name hbound)
    · exact hbinds' name (mem_boundInEach.2 ⟨g, hg, hbound⟩)

/-- Where a goal leads all values are kept, and there is one for each variable that the goal is sure
to bind. -/
theorem IsLawful.keeps (hleads : leads.IsLawful) {goal : Goal} (h : leads goal b c) :
    c.Keeps b ∧ ∀ name ∈ goal.boundVariables, (c.get? name).isSome := by
  induction goal generalizing b c with
  | literal l =>
    rw [boundVariables]
    split
    · next hl =>
      obtain ⟨t, hextends⟩ := hleads.lookup l b c hl h
      refine ⟨hextends.keeps, fun name hname => ?_⟩
      rw [mem_nameSet, Literal.mem_variableNames] at hname
      exact hextends.agrees.isSome hname
    · next hl =>
      rw [hleads.filter l b c (by simpa using hl) h]
      exact ⟨.refl b, by simp⟩
  | not goal ih =>
    rw [hleads.not goal b c h, boundVariables]
    exact ⟨.refl b, by simp⟩
  | anyOf branches ih =>
    obtain ⟨branch, hbranch, h⟩ := hleads.anyOf branches b c h
    obtain ⟨hkeeps, hbinds⟩ := keeps_each_of_forall
      (fun goal hgoal b c hb => ih branch hbranch goal hgoal hb) h
    exact ⟨hkeeps, fun name hname => hbinds name (mem_boundInEach_of_anyOf hname hbranch)⟩

/-- Where a conjunction leads all values are kept and what its goals bind is bound. -/
theorem IsLawful.keeps_each (hleads : leads.IsLawful) {goals : List Goal}
    (h : leads.Each goals b c) :
    c.Keeps b ∧ ∀ name ∈ boundInEach goals, (c.get? name).isSome :=
  keeps_each_of_forall (fun _ _ _ _ hb => hleads.keeps hb) h

end Leading

/-- A conjunction yields what its goals lead to one after the other. -/
theorem each_of_yieldsEach {I J : Interpretation} {goals : List Goal} {b c : Binding}
    (h : YieldsEach I J goals b c) : Leading.Each (Yields I J) goals b c := by
  induction goals generalizing b with
  | nil => exact h
  | cons goal rest ih =>
    obtain ⟨d, hd, hrest⟩ := h
    exact ⟨d, hd, ih hrest⟩

/-- Goals lead to what they yield. -/
theorem isLawful_yields {I J : Interpretation} : Leading.IsLawful (Yields I J) := by
  constructor
  · intro l b c hl h
    rw [Yields, if_pos hl] at h
    obtain ⟨t, -, hextends⟩ := h
    exact ⟨t, hextends⟩
  · intro l b c hl h
    rw [Yields, if_neg (by simp [hl])] at h
    exact h.1
  · exact fun goal b c h => h.1
  · intro branches b c h
    rw [Yields, yieldsAny_iff] at h
    obtain ⟨branch, hbranch, h⟩ := h
    exact ⟨branch, hbranch, each_of_yieldsEach h⟩

end Leading

section Monotone

/-- The relations that a goal reads, those under a negation apart, are among given ones. -/
structure ReadsWithin (plain negated : String → Prop) (goal : Goal) : Prop where
  references : ∀ e ∈ goal.references, (e.negated = false → plain e.name) ∧
    (e.negated = true → negated e.name)
  base : ∀ name, WorkingSet.isBase name = true → plain name ∧ negated name

variable {I I' J J' : Interpretation} {plain negated : String → Prop} {b b' c : Binding}

/-- Every goal reads among all relations. -/
theorem readsWithin_all (goal : Goal) : goal.ReadsWithin (fun _ => True) (fun _ => True) :=
  ⟨fun _ _ => ⟨fun _ => trivial, fun _ => trivial⟩, fun _ _ => ⟨trivial, trivial⟩⟩

/-- A goal under a negation reads what the negated goal reads there. -/
theorem ReadsWithin.of_not {goal : Goal} (h : ReadsWithin plain negated (.not goal)) :
    ReadsWithin negated negated goal := by
  refine ⟨?_, fun name hname => ⟨(h.base name hname).2, (h.base name hname).2⟩⟩
  intro e he
  have hnegated : negated e.name :=
    (h.references ⟨e.name, true⟩ (mem_referencesUnder_true he)).2 rfl
  exact ⟨fun _ => hnegated, fun _ => hnegated⟩

/-- A goal in a branch of a choice reads what the choice reads. -/
theorem ReadsWithin.of_anyOf {branches : List (List Goal)}
    (h : ReadsWithin plain negated (.anyOf branches)) {branch : List Goal}
    (hbranch : branch ∈ branches) {goal : Goal} (hgoal : goal ∈ branch) :
    ReadsWithin plain negated goal := by
  refine ⟨fun e he => h.references e ?_, h.base⟩
  exact mem_referencesInBranches.2 ⟨branch, hbranch, goal, hgoal, he⟩

/-- A literal that is looked up is looked up in one of the relations. -/
theorem ReadsWithin.of_literal {l : Literal} (h : ReadsWithin plain negated (.literal l))
    (hl : l.predicate.isRelation = true) : plain l.predicate.name := by
  obtain ⟨predicate, terms⟩ := l
  cases predicate with
  | attr => exact (h.base _ rfl).1
  | link => exact (h.base _ rfl).1
  | derived name => exact (h.references ⟨name, false⟩ List.mem_cons_self).1 rfl
  | _ => simp [Predicate.isRelation] at hl

/-- A filter lets bindings pass alike that give its terms values with the same canonical texts. -/
theorem passes_congr (predicate : Predicate) {terms : List Term}
    (h : ∀ term ∈ terms,
      (b.resolve term).map Atom.canonical = (c.resolve term).map Atom.canonical) :
    Filter.passes predicate terms b = Filter.passes predicate terms c := by
  have hvalues := Binding.mapM_resolve_congr h
  unfold Filter.passes Filter.holds
  cases hb : terms.mapM b.resolve with
  | none =>
    rw [hb, Option.map_none, eq_comm, Option.map_eq_none_iff] at hvalues
    rw [hvalues]
  | some values =>
    rw [hb, Option.map_some, eq_comm, Option.map_eq_some_iff] at hvalues
    obtain ⟨values', hc, heq⟩ := hvalues
    rw [hc]
    exact congrArg Matching.value (Filter.holdsOf_congr predicate heq.symm)

/-- What a goal yields keeps all values of a binding and has one for each variable that the goal is
sure to bind. -/
theorem keeps_of_yields {goal : Goal} (h : Yields I J goal b c) :
    c.Keeps b ∧ ∀ name ∈ goal.boundVariables, (c.get? name).isSome :=
  isLawful_yields.keeps h

/-- What a conjunction yields keeps all values and binds what its goals bind. -/
theorem keeps_of_yieldsEach {goals : List Goal} (h : YieldsEach I J goals b c) :
    c.Keeps b ∧ ∀ name ∈ boundInEach goals, (c.get? name).isSome :=
  isLawful_yields.keeps_each (each_of_yieldsEach h)

/-- A conjunction yields no less where each of its goals does not. -/
theorem yieldsEach_of_yields {goals : List Goal}
    (h : ∀ goal ∈ goals, ∀ b b' c, b.Same c → Yields I J goal b b' →
      ∃ c', b'.Same c' ∧ Yields I' J' goal c c')
    (hsame : b.Same c) (hb : YieldsEach I J goals b b') :
    ∃ c', b'.Same c' ∧ YieldsEach I' J' goals c c' := by
  induction goals generalizing b c with
  | nil => exact ⟨c, hb ▸ hsame, rfl⟩
  | cons goal rest ih =>
    rw [List.forall_mem_cons] at h
    obtain ⟨d, hd, hrest⟩ := hb
    obtain ⟨d', hdsame, hd'⟩ := h.1 b d c hsame hd
    obtain ⟨c', hc, hrest'⟩ := ih h.2 hdsame hrest
    exact ⟨c', hc, d', hd', hrest'⟩

/-- Solutions grow with the relations that are read plainly, and depend on those under a negation up
to canonical texts. -/
theorem yields_mono {goal : Goal} (hgoal : ReadsWithin plain negated goal)
    (hI : ∀ name, plain name → Covers (I' name) (I name))
    (hJ : ∀ name, negated name → Covers (J' name) (J name) ∧ Covers (J name) (J' name))
    (hsame : b.Same c) (hb : Yields I J goal b b') :
    ∃ c', b'.Same c' ∧ Yields I' J' goal c c' := by
  induction goal generalizing I I' J J' plain negated b b' c with
  | literal l =>
    rw [Yields] at hb
    split at hb
    · next hl =>
      obtain ⟨t, ht, hextends⟩ := hb
      obtain ⟨t', ht', hcanonical⟩ := hI _ (hgoal.of_literal hl) t ht
      obtain ⟨c', -, -, hextends', hc⟩ := hextends.exists_bind? hsame hcanonical
      refine ⟨c', hc, ?_⟩
      rw [Yields, if_pos hl]
      exact ⟨t', ht', hextends'⟩
    · next hl =>
      obtain ⟨rfl, hpasses⟩ := hb
      refine ⟨c, hsame, ?_⟩
      rw [Yields, if_neg hl]
      exact ⟨rfl, passes_congr _ (fun term _ => hsame.resolve term) ▸ hpasses⟩
  | not goal ih =>
    obtain ⟨rfl, hnone⟩ := hb
    refine ⟨c, hsame, rfl, fun d hd => ?_⟩
    -- under the negation both interpretations cover each other, so it can be read backwards
    obtain ⟨d', -, hd'⟩ := ih hgoal.of_not (fun name hname => (hJ name hname).2)
      (fun name hname => ⟨(hJ name hname).2, (hJ name hname).1⟩) hsame.symm hd
    exact hnone d' hd'
  | anyOf branches ih =>
    rw [Yields, yieldsAny_iff] at hb
    obtain ⟨branch, hbranch, hb⟩ := hb
    obtain ⟨c', hc, hc'⟩ := yieldsEach_of_yields (fun goal hmem b b' c hsame hb =>
      ih branch hbranch goal hmem (hgoal.of_anyOf hbranch hmem) hI hJ hsame hb) hsame hb
    refine ⟨c', hc, ?_⟩
    rw [Yields, yieldsAny_iff]
    exact ⟨branch, hbranch, hc'⟩

/-- From bindings that are the same a conjunction yields the same. -/
theorem yieldsEach_congr {goals : List Goal} (hsame : b.Same c) (hb : YieldsEach I J goals b b') :
    ∃ c', b'.Same c' ∧ YieldsEach I J goals c c' := by
  refine yieldsEach_of_yields (fun goal _ b b' c hsame hb => ?_) hsame hb
  exact yields_mono (readsWithin_all goal) (fun _ _ => .refl _) (fun _ _ => ⟨.refl _, .refl _⟩)
    hsame hb

end Monotone

end Goal

end Factbase
