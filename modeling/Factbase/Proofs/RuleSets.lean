import Factbase.Proofs.LeastLevels
import Factbase.Proofs.OrderIndependence

/-! # Which rules can be registered together

Rules are examined one after another, each beside those before it. All the same it does not matter
in which order they are offered: they are accepted if and only if they fit together as a set
(`Program.isRegistrable_iff`), and the levels that they get depend on this set only. So whatever is
picked from rules that were accepted is accepted in any order (`Program.addRules_of_subset`). -/

namespace Factbase

namespace Program

variable {p p' : Program} {rules others : List Rule}

/-- Rules that fit together: each derives a relation of its own with one number of terms and binds
the variables of its head, and some levels are at or above those of what the rules mention and above
those of what they negate. -/
structure IsRegistrable (rules : List Rule) : Prop where
  isDerived : ∀ r ∈ rules, r.head.predicate = .derived r.headName
  arity : ∀ r ∈ rules, ∀ r' ∈ rules, r.headName = r'.headName →
    r.head.terms.length = r'.head.terms.length
  isBound : ∀ r ∈ rules, ∀ name, Term.var name ∈ r.head.terms →
    ∃ goal ∈ r.body, name ∈ goal.boundVariables
  exists_levels : ∃ numbers : String → Nat, ∀ r ∈ rules, ∀ e ∈ r.references,
    numbers e.name + e.negated.toNat ≤ numbers r.headName

/-- Of rules that fit together any fit together. -/
theorem IsRegistrable.mono (h : IsRegistrable rules) (hsub : others ⊆ rules) :
    IsRegistrable others where
  isDerived r hr := h.isDerived r (hsub hr)
  arity r hr r' hr' := h.arity r (hsub hr) r' (hsub hr')
  isBound r hr := h.isBound r (hsub hr)
  exists_levels := by
    obtain ⟨numbers, hnumbers⟩ := h.exists_levels
    exact ⟨numbers, fun r hr => hnumbers r (hsub hr)⟩

/-- The rules of a valid program fit together. -/
theorem IsValid.isRegistrable (hp : p.IsValid) : IsRegistrable p.rules where
  isDerived := hp.isDerived
  arity := hp.arity
  isBound := hp.isBound
  exists_levels := ⟨p.strata.level, fun _ hr _ he => hp.level_add_le hr he⟩

/-- Rules that fit together with those of a program are accepted. -/
theorem IsRegistrable.exists_addRules (h : IsRegistrable (p.rules ++ others)) :
    ∃ p', p.addRules others = (p', none) := by
  -- an accepted rule goes over to the program
  induction others generalizing p with
  | nil => exact ⟨p, rfl⟩
  | cons r rest ih =>
    have hr : r ∈ p.rules ++ r :: rest := List.mem_append_right _ List.mem_cons_self
    have hfault : r.fault? p.rules = none := by
      refine Rule.fault?_eq_none (h.isDerived r hr) (fun earlier hearlier hname => ?_)
        (h.isBound r hr)
      exact h.arity earlier (List.mem_append_left _ hearlier) r hr hname
    rw [List.append_cons] at h
    obtain ⟨levels, hlevels⟩ := DependencyGraph.exists_strata_iff.2
      (h.mono (List.subset_append_left _ _)).exists_levels
    obtain ⟨p', hp'⟩ := ih (p := { p with rules := p.rules ++ [r], strata := levels }) h
    refine ⟨p', ?_⟩
    rw [addRules, addRule_eq_ok hfault hlevels]
    exact hp'

/-- What rules that are all accepted make of a program without rules. -/
theorem of_addRules_empty {settings : Settings} (h : (empty settings).addRules rules = (p, none)) :
    p.rules = rules ∧ p.IsValid ∧ p.IsLevelled := by
  have hrules := rules_addRules (empty settings) rules
  have hvalid := (isValid_empty settings).addRules rules
  have hlevelled := (isLevelled_empty settings).addRules rules
  rw [acceptedOf_eq_self h, h] at hrules
  rw [h] at hvalid hlevelled
  exact ⟨hrules, hvalid, hlevelled⟩

/-- A program without rules accepts rules in order if and only if they fit together. -/
theorem isRegistrable_iff (settings : Settings) :
    IsRegistrable rules ↔ ∃ p, (empty settings).addRules rules = (p, none) := by
  constructor
  · exact fun h => IsRegistrable.exists_addRules (p := empty settings) h
  · rintro ⟨p, hp⟩
    obtain ⟨hrules, hvalid, -⟩ := of_addRules_empty hp
    exact hrules ▸ hvalid.isRegistrable

/-- Whether rules are accepted and which levels they get depends on which rules these are only. If a
program without rules accepts some in order, then it accepts any of them in any order, repeated or
not, and all of them get the same levels in every order. -/
theorem addRules_of_subset {settings : Settings} (settings' : Settings)
    (h : (empty settings).addRules rules = (p, none)) (hsub : others ⊆ rules) :
    ∃ p', (empty settings').addRules others = (p', none) ∧ p'.rules = others ∧
      (rules ⊆ others → ∀ name, p'.stratum? name = p.stratum? name) := by
  obtain ⟨hrules, -, hlevelled⟩ := of_addRules_empty h
  have hfit := (isRegistrable_iff settings).2 ⟨p, h⟩
  obtain ⟨p', h'⟩ := (isRegistrable_iff settings').1 (hfit.mono hsub)
  obtain ⟨hrules', -, hlevelled'⟩ := of_addRules_empty h'
  refine ⟨p', h', hrules', fun hback name => ?_⟩
  have hsame : ∀ r, r ∈ p'.rules ↔ r ∈ p.rules := by
    intro r
    rw [hrules, hrules']
    exact ⟨fun hr => hsub hr, fun hr => hback hr⟩
  rw [stratum?, stratum?, strata_eq_of_rules hlevelled' hlevelled hsame]

/-- What is chosen is shown in front. -/
def featuredRule : Rule :=
  ⟨⟨.derived "featured", [.var "x"]⟩,
    [.literal ⟨.attr, [.var "x", .const (.text "chosen"), .var "by"]⟩]⟩

/-- What is an item and not shown in front is shown in the list. -/
def listedRule : Rule :=
  ⟨⟨.derived "listed", [.var "x"]⟩,
    [.literal ⟨.attr, [.var "x", .const (.text "item"), .var "kind"]⟩,
      .not (.literal ⟨.derived "featured", [.var "x"]⟩)]⟩

/-- The rule with the negation is accepted before the one that it needs; its relation is a level
higher. -/
theorem addRules_listed (settings : Settings) :
    (empty settings).addRules [listedRule, featuredRule] =
      (⟨settings, [listedRule, featuredRule], [("featured", 0), ("listed", 1)]⟩, none) := by
  have hfirst : (empty settings).addRule listedRule =
      .ok ⟨settings, [listedRule], [("featured", 0), ("listed", 1)]⟩ := by
    refine addRule_eq_ok (Rule.fault?_eq_none rfl (by simp [empty]) ?_)
      (DependencyGraph.strata_eq_ok (g := .ofRules [listedRule]) rfl rfl)
    simp [listedRule, Goal.boundVariables, Predicate.isRelation]
  have hsecond : addRule ⟨settings, [listedRule], [("featured", 0), ("listed", 1)]⟩ featuredRule =
      .ok ⟨settings, [listedRule, featuredRule], [("featured", 0), ("listed", 1)]⟩ := by
    refine addRule_eq_ok (Rule.fault?_eq_none rfl (by simp [listedRule, featuredRule]) ?_)
      (DependencyGraph.strata_eq_ok (g := .ofRules [listedRule, featuredRule]) rfl rfl)
    simp [featuredRule, Goal.boundVariables, Predicate.isRelation]
  rw [addRules, hfirst]
  dsimp only
  rw [addRules, hsecond]
  rfl

/-- In the other order the rules are accepted and get the same levels. -/
theorem exists_addRules_featured : ∃ p',
    (empty .default).addRules [featuredRule, listedRule] = (p', none) ∧
      p'.stratum? "featured" = some 0 ∧ p'.stratum? "listed" = some 1 := by
  have hsub : [featuredRule, listedRule] ⊆ [listedRule, featuredRule] := by simp
  obtain ⟨p', h', -, hlevels⟩ := addRules_of_subset .default (addRules_listed .default) hsub
  refine ⟨p', h', ?_, ?_⟩
  · rw [hlevels (by simp)]
    rfl
  · rw [hlevels (by simp)]
    rfl

end Program

end Factbase
