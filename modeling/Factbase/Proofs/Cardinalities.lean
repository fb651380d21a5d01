import Factbase.Proofs.CatalogEntries

/-! # What the cardinality of an attribute says

A cardinality says something about all values of an attribute (`Cardinality.Describes`), but is read
off a count that stops at the limit of what is remembered. What it says is right for every list of
values when more than one value and more than a low number of them are remembered, and under no
other limits (`CatalogEntry.describes_cardinality`). -/

namespace Factbase

/-- What a cardinality says about values other than null, of which up to `low` different ones are
few. -/
def Cardinality.Describes (low : Nat) (values : List Atom) : Cardinality → Prop
  | .constant => (presentTexts values).card ≤ 1
  | .low => (presentTexts values).card ≤ low
  | .high => True
  | .unique => ((presentValues values).map Atom.canonical).Nodup

/-- No value other than null is repeated when there are as many of them as canonical texts. -/
theorem card_presentTexts_eq_length_iff (values : List Atom) :
    (presentTexts values).card = (presentValues values).length ↔
      ((presentValues values).map Atom.canonical).Nodup := by
  rw [presentTexts, ← List.length_map Atom.canonical]
  constructor
  · intro h
    rw [← Multiset.coe_nodup, ← Multiset.toFinset_card_eq_card_iff_nodup]
    exact h
  · exact List.toFinset_card_of_nodup

/-- A list of texts as long as wanted, all different. -/
def manyTexts (n : Nat) : List Atom :=
  (List.range n).map fun i => .text (String.ofList (List.replicate i 'a'))

theorem card_presentTexts_manyTexts (n : Nat) : (presentTexts (manyTexts n)).card = n := by
  have hpresent : presentValues (manyTexts n) = manyTexts n := by
    refine List.filter_eq_self.2 fun v hv => ?_
    obtain ⟨i, -, rfl⟩ := List.mem_map.1 hv
    rfl
  have hinj : Function.Injective fun i =>
      Atom.canonical (.text (String.ofList (List.replicate i 'a'))) := by
    intro i j heq
    have hlength := congrArg String.length heq
    simpa [Atom.canonical] using hlength
  rw [presentTexts, hpresent, manyTexts, List.map_map, List.toFinset_card_of_nodup, List.length_map,
    List.length_range]
  exact List.nodup_range.map hinj

namespace CatalogEntry

variable {limits : CatalogLimits} {attr : String} {values : List Atom}

/-- The cardinality goes by the count of different values, which stops at the limit of what is
remembered. Below it, it is also known whether a value is repeated. -/
theorem cardinality_ofValues (limits : CatalogLimits) (attr : String) (values : List Atom) :
    (ofValues limits attr values).cardinality =
      if min limits.maxDistinct (presentTexts values).card ≤ 1 then .constant
      else if (presentTexts values).card ≤ limits.maxDistinct ∧
        ((presentValues values).map Atom.canonical).Nodup then .unique
      else if min limits.maxDistinct (presentTexts values).card ≤ limits.lowCardinality then .low
      else .high := by
  have h := Survey.summarizes_ofValues limits values
  have hseen : (Survey.ofValues limits values).seen.length =
      min limits.maxDistinct (presentTexts values).card := by
    rw [h.seen, List.length_take, List.length_map, length_firstValues]
  have hunique : ((!(Survey.ofValues limits values).capped &&
      (Survey.ofValues limits values).seen.length == (Survey.ofValues limits values).nonNull) =
        true) ↔ (presentTexts values).card ≤ limits.maxDistinct ∧
          ((presentValues values).map Atom.canonical).Nodup := by
    -- a count that was not cut short is that of all different values
    rw [Bool.and_eq_true, Bool.not_eq_true', ← Bool.not_eq_true, h.capped, length_firstValues,
      not_lt, beq_iff_eq, hseen, h.nonNull, ← card_presentTexts_eq_length_iff]
    exact and_congr_right fun hroom => by rw [min_eq_right hroom]
  change (Survey.ofValues limits values).cardinality limits = _
  rw [Survey.cardinality, if_congr hunique rfl rfl, hseen]

/-- A cardinality is wrong in two cases only: up to one value is remembered and there are more, or
up to a low number of values and there are more than that. -/
theorem describes_iff (limits : CatalogLimits) (attr : String) (values : List Atom) :
    (ofValues limits attr values).cardinality.Describes limits.lowCardinality values ↔
      (limits.maxDistinct ≤ 1 → (presentTexts values).card ≤ 1) ∧
      (1 < limits.maxDistinct → limits.maxDistinct ≤ limits.lowCardinality →
        (presentTexts values).card ≤ limits.lowCardinality) := by
  rw [cardinality_ofValues]
  split
  · next hconstant =>
    simp only [Cardinality.Describes]
    omega
  · split
    · next hunique =>
      simp only [Cardinality.Describes, hunique.2, true_iff]
      omega
    · next hrepeated =>
      split
      · simp only [Cardinality.Describes]
        omega
      · simp only [Cardinality.Describes, true_iff]
        omega

/-- What is called unique repeats no value other than null, whatever the limits. A cardinality is
right about a list of values unless up to one value is remembered and there are more, or up to a low
number of values and there are more than that. So it is right about every list exactly when more
than one value and more than a low number of values are remembered. -/
theorem describes_cardinality (limits : CatalogLimits) (attr : String) :
    (∀ values, (ofValues limits attr values).cardinality = .unique →
      ((presentValues values).map Atom.canonical).Nodup) ∧
    (∀ values, (ofValues limits attr values).cardinality.Describes limits.lowCardinality values ↔
      (limits.maxDistinct ≤ 1 → (presentTexts values).card ≤ 1) ∧
      (1 < limits.maxDistinct → limits.maxDistinct ≤ limits.lowCardinality →
        (presentTexts values).card ≤ limits.lowCardinality)) ∧
    ((∀ values, (ofValues limits attr values).cardinality.Describes limits.lowCardinality values) ↔
      1 < limits.maxDistinct ∧ limits.lowCardinality < limits.maxDistinct) := by
  refine ⟨fun values hunique => ?_, describes_iff limits attr, fun h => ?_, fun h values => ?_⟩
  · rw [cardinality_ofValues] at hunique
    split_ifs at hunique with hconstant hnodup
    exact hnodup.2
  · -- one text more than are counted, or than are few
    have hmany := (describes_iff limits attr _).1
      (h (manyTexts (limits.maxDistinct + limits.lowCardinality + 2)))
    rw [card_presentTexts_manyTexts] at hmany
    omega
  · rw [describes_iff]
    omega

/-- Two texts are called a constant when only one value is remembered. -/
theorem not_describes_cardinality :
    ¬ ∀ (limits : CatalogLimits) (attr : String) (values : List Atom),
      (ofValues limits attr values).cardinality.Describes limits.lowCardinality values := by
  intro h
  have hconstant : (ofValues ⟨5, 1, 10⟩ "n" [.text "x", .text "y"]).cardinality = .constant := by
    decide
  have htwo := h ⟨5, 1, 10⟩ "n" [.text "x", .text "y"]
  rw [hconstant] at htwo
  exact absurd (show (presentTexts [.text "x", .text "y"]).card ≤ 1 from htwo) (by decide)

end CatalogEntry

end Factbase
