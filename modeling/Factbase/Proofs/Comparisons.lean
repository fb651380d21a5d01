import Factbase.Proofs.Canonical

/-! # Comparisons of values

What a comparison tells of two values depends on their comparands only (`Atom.holds_eq`): equality
is that of comparands, so it is an equivalence relation, and equal values can take each other's
place in every comparison. Between two numbers exactly one of `<`, `=` and `>` holds, as between
their places in the order; no comparison by size holds where a number is missing
(`Comparison.holds_laws`). -/

namespace Factbase

namespace Comparison

/-- Between two places in the order exactly one of `<`, `=` and `>` holds. -/
theorem existsUnique_holdsBetween (m n : Int) :
    ∃! op, op ∈ [lt, eq, gt] ∧ op.holdsBetween (.rank m) (.rank n) = true := by
  have hiff : ∀ op, op ∈ [lt, eq, gt] ∧ op.holdsBetween (.rank m) (.rank n) = true ↔
      op = lt ∧ m < n ∨ op = eq ∧ m = n ∨ op = gt ∧ n < m := by
    intro op
    cases op <;> simp [holdsBetween]
  simp only [hiff]
  rcases lt_trichotomy m n with h | h | h
  · exact ⟨lt, .inl ⟨rfl, h⟩, by grind⟩
  · exact ⟨eq, .inr (.inl ⟨rfl, h⟩), by grind⟩
  · exact ⟨gt, .inr (.inr ⟨rfl, h⟩), by grind⟩

/-- `≤` is `<` or `=` between two places in the order. -/
theorem lte_holdsBetween (m n : Int) : lte.holdsBetween (.rank m) (.rank n) =
    (lt.holdsBetween (.rank m) (.rank n) || eq.holdsBetween (.rank m) (.rank n)) := by
  rw [Bool.eq_iff_iff, Bool.or_eq_true]
  simp only [holdsBetween, decide_eq_true_eq, beq_iff_eq, Comparand.rank.injEq]
  omega

/-- `≥` is `>` or `=` between two places in the order. -/
theorem gte_holdsBetween (m n : Int) : gte.holdsBetween (.rank m) (.rank n) =
    (gt.holdsBetween (.rank m) (.rank n) || eq.holdsBetween (.rank m) (.rank n)) := by
  rw [Bool.eq_iff_iff, Bool.or_eq_true]
  simp only [holdsBetween, decide_eq_true_eq, beq_iff_eq, Comparand.rank.injEq]
  omega

end Comparison

namespace Atom

variable {a b c : Atom}

/-- Equal values compare alike with everything, on either side. -/
theorem holds_of_eq_holds (op : Comparison) (h : Comparison.eq.holds a b = true) (c : Atom) :
    op.holds a c = op.holds b c ∧ op.holds c a = op.holds c b := by
  have hab : a.comparand = b.comparand := sameValue_iff.1 h
  rw [holds_eq, holds_eq, holds_eq, holds_eq, hab]
  exact ⟨rfl, rfl⟩

/-- Equality of values is an equivalence relation. -/
theorem equivalence_eq_holds : Equivalence fun a b : Atom => Comparison.eq.holds a b = true where
  refl _ := sameValue_iff.2 rfl
  symm h := sameValue_iff.2 (sameValue_iff.1 h).symm
  trans h h' := sameValue_iff.2 ((sameValue_iff.1 h).trans (sameValue_iff.1 h'))

/-- A value that holds a number is compared by the place of the number. -/
theorem exists_comparand_eq (h : a.number?.isSome = true) : ∃ place, a.comparand = .rank place := by
  obtain ⟨x, hx⟩ := Option.isSome_iff_exists.1 h
  exact ⟨Number.rank x, by rw [comparand, rank?, hx, Option.map_some]⟩

/-- A value that holds no number is compared by its text. -/
theorem comparand_eq_text (h : a.number? = none) : a.comparand = .text a.canonical := by
  rw [comparand, rank?, h, Option.map_none]

/-- Between two numbers exactly one of `<`, `=` and `>` holds, and the other comparisons by size are
made of these. -/
theorem trichotomy_of_isSome (ha : a.number?.isSome = true) (hb : b.number?.isSome = true) :
    (∃! op, op ∈ [Comparison.lt, .eq, .gt] ∧ op.holds a b = true) ∧
      Comparison.lte.holds a b = (Comparison.lt.holds a b || Comparison.eq.holds a b) ∧
      Comparison.gte.holds a b = (Comparison.gt.holds a b || Comparison.eq.holds a b) := by
  obtain ⟨m, hm⟩ := exists_comparand_eq ha
  obtain ⟨n, hn⟩ := exists_comparand_eq hb
  simp only [holds_eq, hm, hn]
  exact ⟨Comparison.existsUnique_holdsBetween m n, Comparison.lte_holdsBetween m n,
    Comparison.gte_holdsBetween m n⟩

/-- No comparison by size holds where a number is missing. -/
theorem holds_eq_false (h : ¬ (a.number?.isSome = true ∧ b.number?.isSome = true))
    {op : Comparison} (hop : op ∈ [Comparison.lt, .gt, .lte, .gte]) : op.holds a b = false := by
  -- one of the two is compared by its text
  have hmissing : a.number? = none ∨ b.number? = none := by
    rwa [not_and_or, Bool.not_eq_true, Bool.not_eq_true, Option.isSome_eq_false_iff,
      Option.isSome_eq_false_iff, Option.isNone_iff_eq_none, Option.isNone_iff_eq_none] at h
  rw [holds_eq]
  simp only [List.mem_cons, List.not_mem_nil, or_false] at hop
  rcases hmissing with hnone | hnone
  · rw [comparand_eq_text hnone]
    rcases hop with rfl | rfl | rfl | rfl <;> cases b.comparand <;> rfl
  · rw [comparand_eq_text hnone]
    rcases hop with rfl | rfl | rfl | rfl <;> cases a.comparand <;> rfl

/-- A value is between two others when it is at least the one and at most the other. -/
theorem isBetween_eq_holds (value low high : Atom) :
    value.isBetween low high =
      (Comparison.gte.holds value low && Comparison.lte.holds value high) := by
  rw [isBetween_eq, holds_eq, holds_eq]
  unfold comparand
  cases value.rank? <;> cases low.rank? <;> cases high.rank? <;>
    simp [Comparison.holdsBetween]

end Atom

/-- Equality of values is an equivalence relation, inequality is its negation, and equal values
compare alike with everything. Between two numbers exactly one of `<`, `=` and `>` holds, `≤` is
`<` or `=` and `≥` is `>` or `=`; where a number is missing, none of these but `=` holds. And a
value is between two others exactly when it is at least the one and at most the other. -/
theorem Comparison.holds_laws :
    (Equivalence fun a b : Atom => Comparison.eq.holds a b = true) ∧
    (∀ a b : Atom, Comparison.neq.holds a b = !Comparison.eq.holds a b) ∧
    (∀ a b : Atom, Comparison.eq.holds a b = true → ∀ (op : Comparison) (c : Atom),
      op.holds a c = op.holds b c ∧ op.holds c a = op.holds c b) ∧
    (∀ a b : Atom, a.number?.isSome = true → b.number?.isSome = true →
      (∃! op, op ∈ [Comparison.lt, .eq, .gt] ∧ op.holds a b = true) ∧
      Comparison.lte.holds a b = (Comparison.lt.holds a b || Comparison.eq.holds a b) ∧
      Comparison.gte.holds a b = (Comparison.gt.holds a b || Comparison.eq.holds a b)) ∧
    (∀ a b : Atom, ¬ (a.number?.isSome = true ∧ b.number?.isSome = true) →
      ∀ op ∈ [Comparison.lt, .gt, .lte, .gte], op.holds a b = false) ∧
    ∀ value low high : Atom, value.isBetween low high =
      (Comparison.gte.holds value low && Comparison.lte.holds value high) :=
  ⟨Atom.equivalence_eq_holds, fun _ _ => rfl, fun _ _ h op => Atom.holds_of_eq_holds op h,
    fun _ _ => Atom.trichotomy_of_isSome, fun _ _ h _ => Atom.holds_eq_false h,
    Atom.isBetween_eq_holds⟩

/-- Numerals are equal by their numbers and take each other's place; NaN equals itself and is not
compared by size. -/
theorem Comparison.holds_laws_numerals :
    (Comparison.eq.holds (.text " 2.50 ") (.text "25e-1") = true ∧
      Comparison.lt.holds (.text " 2.50 ") (.number 3) =
        Comparison.lt.holds (.text "25e-1") (.number 3)) ∧
    ((Atom.text " 2.50 ").number?.isSome = true ∧ (Atom.number 3).number?.isSome = true ∧
      ∃! op, op ∈ [Comparison.lt, .eq, .gt] ∧ op.holds (.text " 2.50 ") (.number 3) = true) ∧
    ¬ ((Atom.number Number.nan).number?.isSome = true ∧ (Atom.number 3).number?.isSome = true) ∧
      Comparison.lte.holds (.number Number.nan) (.number 3) = false := by
  obtain ⟨-, -, hsame, htrichotomy, hmissing, -⟩ := holds_laws
  have heq : Comparison.eq.holds (.text " 2.50 ") (.text "25e-1") = true := by decide
  have hnumeral : (Atom.text " 2.50 ").number?.isSome = true := by decide
  have hnumber : (Atom.number 3).number?.isSome = true := by decide
  have hnan : ¬ ((Atom.number Number.nan).number?.isSome = true ∧
      (Atom.number 3).number?.isSome = true) := by decide
  exact ⟨⟨heq, (hsame _ _ heq .lt _).1⟩, ⟨hnumeral, hnumber, (htrichotomy _ _ hnumeral hnumber).1⟩,
    hnan, hmissing _ _ hnan .lte (by decide)⟩

end Factbase
