import Factbase.Program
import Factbase.Proofs.Dependency
import Factbase.Proofs.Results

/-! # Registration of rules

Rules are registered by calls that offer one rule or several. Whatever is offered, the registered
rules are the accepted ones in the order in which they were offered, and they form a valid program
(`Program.IsValid`): their heads have one arity for each relation and only variables that the body
binds, and their levels are at or above those of what they mention and above those of what they
negate (`Program.registered_performAll`). -/

namespace Factbase

/-- A call that offers rules to a program. -/
inductive RuleCall where
  | one (r : Rule)
  /-- Offers rules in order, up to the first that is rejected. -/
  | several (rs : List Rule)

namespace Program

/-- The program after a call, with the error if a rule was rejected. -/
def perform (p : Program) : RuleCall → Program × Option RuleError
  | .one r =>
    match p.addRule r with
    | .ok p => (p, none)
    | .error e => (p, some e)
  | .several rs => p.addRules rs

/-- The program after calls in order. -/
def performAll (p : Program) (calls : List RuleCall) : Program :=
  calls.foldl (fun p call => (p.perform call).1) p

/-- The rules that are accepted of some that are offered in order, up to the first that is
rejected. -/
def acceptedOf (p : Program) : List Rule → List Rule
  | [] => []
  | r :: rest =>
    match p.addRule r with
    | .ok p => r :: acceptedOf p rest
    | .error _ => []

/-- The rules that a call offers. -/
def offered : RuleCall → List Rule
  | .one r => [r]
  | .several rs => rs

/-- The rules that are accepted in a sequence of calls. -/
def accepted (p : Program) : List RuleCall → List Rule
  | [] => []
  | call :: rest => p.acceptedOf (offered call) ++ accepted (p.perform call).1 rest

/-- What holds of the rules and the levels of every program. -/
structure IsValid (p : Program) : Prop where
  isDerived : ∀ r ∈ p.rules, r.head.predicate = .derived r.headName
  arity : ∀ r ∈ p.rules, ∀ r' ∈ p.rules, r.headName = r'.headName →
    r.head.terms.length = r'.head.terms.length
  isBound : ∀ r ∈ p.rules, ∀ name, Term.var name ∈ r.head.terms →
    ∃ goal ∈ r.body, name ∈ goal.boundVariables
  isLeveled : ∀ r ∈ p.rules, ∀ e ∈ r.references, ∃ low high,
    p.stratum? e.name = some low ∧ p.stratum? r.headName = some high ∧
      low ≤ high ∧ (e.negated = true → low < high)

section AddRule

variable {p p' : Program} {r : Rule}

/-- What an accepted rule does: it passes the examination and goes to the end, and the levels are
found again. -/
theorem addRule_ok (h : p.addRule r = .ok p') :
    r.fault? p.rules = none ∧ p'.settings = p.settings ∧ p'.rules = p.rules ++ [r] ∧
      (DependencyGraph.ofRules p'.rules).strata = .ok p'.strata := by
  unfold addRule at h
  split at h
  · simp at h
  · next hfault =>
    obtain ⟨levels, hstrata, hlevels⟩ := bind_eq_ok.1 h
    obtain rfl := Except.ok.inj hlevels
    exact ⟨hfault, rfl, rfl, hstrata⟩

/-- A rule that passes the examination is accepted where the levels are found. -/
theorem addRule_eq_ok {levels : Strata} (hfault : r.fault? p.rules = none)
    (hstrata : (DependencyGraph.ofRules (p.rules ++ [r])).strata = .ok levels) :
    p.addRule r = .ok { p with rules := p.rules ++ [r], strata := levels } := by
  unfold addRule
  rw [hfault]
  dsimp only
  rw [hstrata]
  rfl

end AddRule

end Program

/-- What the examination of a rule finds right. -/
theorem Rule.of_fault?_eq_none {existing : List Rule} {r : Rule} (h : r.fault? existing = none) :
    r.head.predicate = .derived r.headName ∧
      (∀ earlier, existing.find? (·.headName == r.headName) = some earlier →
        earlier.head.terms.length = r.head.terms.length) ∧
      ∀ name, Term.var name ∈ r.head.terms → ∃ goal ∈ r.body, name ∈ goal.boundVariables := by
  unfold fault? at h
  rw [Option.or_eq_none_iff, Option.or_eq_none_iff] at h
  obtain ⟨hhead, harity, hvariables⟩ := h
  refine ⟨?_, ?_, ?_⟩
  · unfold headFault? at hhead
    unfold headName
    cases hpredicate : r.head.predicate <;> simp [hpredicate, Predicate.isBuiltIn] at hhead ⊢
    rfl
  · intro earlier hearlier
    unfold arityFault? at harity
    rw [hearlier] at harity
    dsimp only at harity
    split at harity
    · assumption
    · simp at harity
  · intro name hname
    unfold variableFault? at hvariables
    rw [Option.map_eq_none_iff, List.find?_eq_none] at hvariables
    have hbound := hvariables name (Literal.mem_variableNames.2 hname)
    simpa using hbound

/-- What an examination finds no fault with: the head is a derived relation, has as many terms as
those of earlier rules of the relation, and its variables are bound. -/
theorem Rule.fault?_eq_none {existing : List Rule} {r : Rule}
    (hhead : r.head.predicate = .derived r.headName)
    (harity : ∀ earlier ∈ existing, earlier.headName = r.headName →
      earlier.head.terms.length = r.head.terms.length)
    (hbound : ∀ name, Term.var name ∈ r.head.terms →
      ∃ goal ∈ r.body, name ∈ goal.boundVariables) : r.fault? existing = none := by
  unfold fault?
  rw [Option.or_eq_none_iff, Option.or_eq_none_iff]
  refine ⟨?_, ?_, ?_⟩
  · simp [headFault?, hhead, Predicate.isBuiltIn]
  · unfold arityFault?
    split
    · next earlier hfind =>
      have hname : earlier.headName = r.headName := by simpa using List.find?_some hfind
      rw [if_pos (harity earlier (List.mem_of_find?_eq_some hfind) hname)]
    · rfl
  · unfold variableFault?
    rw [Option.map_eq_none_iff, List.find?_eq_none]
    intro name hname
    simpa using hbound name (Literal.mem_variableNames.1 hname)

namespace Program

section Valid

variable {p p' : Program} {r : Rule}

/-- An accepted rule keeps a program valid. -/
theorem IsValid.addRule (hp : p.IsValid) (h : p.addRule r = .ok p') : p'.IsValid := by
  obtain ⟨hfault, -, hrules, hstrata⟩ := addRule_ok h
  obtain ⟨hderived, harity, hbound⟩ := Rule.of_fault?_eq_none hfault
  have hnew : ∀ {P : Rule → Prop}, (∀ r' ∈ p.rules, P r') → P r → ∀ r' ∈ p'.rules, P r' := by
    intro P hold hr r' hr'
    rw [hrules, List.mem_append, List.mem_singleton] at hr'
    rcases hr' with hr' | rfl
    · exact hold r' hr'
    · exact hr
  -- a rule with the name of the new head agrees with the first such rule, and that with the new one
  have hsame : ∀ r' ∈ p.rules, r'.headName = r.headName →
      r'.head.terms.length = r.head.terms.length := by
    intro r' hr' hname
    cases hfind : p.rules.find? (·.headName == r.headName) with
    | none =>
      have hnone := List.find?_eq_none.1 hfind r' hr'
      simp [hname] at hnone
    | some earlier =>
      have hearlier : earlier.headName = r.headName := by simpa using List.find?_some hfind
      rw [← harity earlier hfind]
      exact hp.arity r' hr' earlier (List.mem_of_find?_eq_some hfind) (hname.trans hearlier.symm)
  refine ⟨hnew hp.isDerived hderived, ?_, hnew hp.isBound hbound, ?_⟩
  · refine hnew (fun r₁ h₁ => hnew (hp.arity r₁ h₁) (hsame r₁ h₁)) (hnew ?_ fun _ => rfl)
    exact fun r₁ h₁ hname => (hsame r₁ h₁ hname.symm).symm
  · intro r' hr' e he
    -- the levels are found for all rules together, so the old ones need no argument of their own
    have hlevel := DependencyGraph.strata_satisfies hstrata hr' he
    obtain ⟨low, hlow⟩ := Option.isSome_iff_exists.1 (DependencyGraph.isSome_lookup_strata hstrata
      (DependencyGraph.mem_predicates_ofRules.2 ⟨r', hr', .inr ⟨e, he, rfl⟩⟩))
    obtain ⟨high, hhigh⟩ := Option.isSome_iff_exists.1 (DependencyGraph.isSome_lookup_strata hstrata
      (DependencyGraph.mem_predicates_ofRules.2 ⟨r', hr', .inl rfl⟩))
    rw [Strata.level, Strata.level, hlow, hhigh, Option.getD_some, Option.getD_some] at hlevel
    refine ⟨low, high, hlow, hhigh, by omega, ?_⟩
    intro hnegated
    rw [hnegated, Bool.toNat_true] at hlevel
    omega

/-- The head of a rule is on the level of what the rule mentions or above, and above the level of
what it negates. -/
theorem IsValid.level_add_le (hp : p.IsValid) (hr : r ∈ p.rules) {e : Reference}
    (he : e ∈ r.references) :
    p.strata.level e.name + e.negated.toNat ≤ p.strata.level r.headName := by
  obtain ⟨low, high, hlow, hhigh, hle, hlt⟩ := hp.isLeveled r hr e he
  unfold stratum? at hlow hhigh
  rw [Strata.level, Strata.level, hlow, hhigh, Option.getD_some, Option.getD_some]
  cases hnegated : e.negated with
  | false => exact hle
  | true => exact hlt hnegated

/-- The program without rules is valid. -/
theorem isValid_empty (settings : Settings) : (empty settings).IsValid := by
  constructor <;> simp [empty]

/-- Rules that are added keep a program valid. -/
theorem IsValid.addRules (hp : p.IsValid) (rs : List Rule) : (p.addRules rs).1.IsValid := by
  induction rs generalizing p with
  | nil => exact hp
  | cons r rest ih =>
    simp only [Program.addRules]
    split
    · next h => exact ih (hp.addRule h)
    · exact hp

end Valid

section Calls

variable {p q : Program} {rs : List Rule} {e : RuleError}

/-- The rules that are accepted go to the end in order. -/
theorem rules_addRules (p : Program) (rs : List Rule) :
    (p.addRules rs).1.rules = p.rules ++ p.acceptedOf rs := by
  induction rs generalizing p with
  | nil => simp [addRules, acceptedOf]
  | cons r rest ih =>
    rw [addRules, acceptedOf]
    cases hadd : p.addRule r with
    | ok p' => exact (ih p').trans (by simp [(addRule_ok hadd).2.2.1])
    | error e => simp

/-- What is accepted was offered. -/
theorem acceptedOf_subset (p : Program) (rs : List Rule) : p.acceptedOf rs ⊆ rs := by
  induction rs generalizing p with
  | nil => exact List.Subset.refl _
  | cons r rest ih =>
    rw [acceptedOf]
    cases p.addRule r with
    | ok p' => exact List.cons_subset_cons r (ih p')
    | error e => exact List.nil_subset _

/-- Without a rejection all rules are accepted. -/
theorem acceptedOf_eq_self (h : p.addRules rs = (q, none)) : p.acceptedOf rs = rs := by
  induction rs generalizing p with
  | nil => rfl
  | cons r rest ih =>
    rw [addRules] at h
    rw [acceptedOf]
    cases hadd : p.addRule r with
    | ok p' =>
      rw [hadd] at h
      exact congrArg (r :: ·) (ih h)
    | error e => simp [hadd] at h

/-- A rejected rule stops a list of rules: those before it stay, and nothing else changes. -/
theorem exists_of_addRules (h : (p.addRules rs).2 = some e) :
    ∃ front r rest q, rs = front ++ r :: rest ∧ p.addRules front = (q, none) ∧
      q.addRule r = .error e ∧ (p.addRules rs).1 = q := by
  induction rs generalizing p with
  | nil => simp [addRules] at h
  | cons r rest ih =>
    simp only [addRules] at h ⊢
    split at h
    · next p' hadd =>
      obtain ⟨front, r', rest', q, rfl, hfront, hreject, hq⟩ := ih h
      refine ⟨r :: front, r', rest', q, rfl, ?_, hreject, ?_⟩
      · rw [addRules, hadd]
        exact hfront
      · exact hq
    · next e' hreject =>
      obtain rfl : e' = e := by simpa using h
      exact ⟨[], r, rest, p, rfl, rfl, hreject, rfl⟩

/-- Offering one rule is offering a list of it. -/
theorem perform_eq_addRules (p : Program) (call : RuleCall) :
    p.perform call = p.addRules (offered call) := by
  cases call with
  | one r =>
    rw [perform, offered, addRules]
    cases p.addRule r <;> rfl
  | several rs => rfl

/-- Calls after others lead on from where these led. -/
theorem performAll_append (p : Program) (calls others : List RuleCall) :
    p.performAll (calls ++ others) = (p.performAll calls).performAll others :=
  List.foldl_append

/-- Calls keep a program valid. -/
theorem IsValid.performAll (hp : p.IsValid) (calls : List RuleCall) :
    (p.performAll calls).IsValid := by
  induction calls generalizing p with
  | nil => exact hp
  | cons call rest ih =>
    rw [Program.performAll, List.foldl_cons]
    refine ih ?_
    rw [perform_eq_addRules]
    exact hp.addRules (offered call)

/-- The rules after calls are those before with the accepted ones. -/
theorem rules_performAll (p : Program) (calls : List RuleCall) :
    (p.performAll calls).rules = p.rules ++ p.accepted calls := by
  induction calls generalizing p with
  | nil => simp [performAll, accepted]
  | cons call rest ih =>
    have hrest := ih (p.perform call).1
    rw [performAll] at hrest ⊢
    rw [List.foldl_cons, hrest, accepted, perform_eq_addRules, rules_addRules, List.append_assoc]

/-- Rules after others that are all accepted are added where these led. -/
theorem addRules_append (h : p.addRules rs = (q, none)) (others : List Rule) :
    p.addRules (rs ++ others) = q.addRules others := by
  induction rs generalizing p with
  | nil =>
    obtain rfl : p = q := congrArg Prod.fst h
    rfl
  | cons r rest ih =>
    rw [addRules] at h
    rw [List.cons_append, addRules]
    cases hadd : p.addRule r with
    | ok p' =>
      rw [hadd] at h
      exact ih h
    | error e => simp [hadd] at h

/-- The rules that are accepted of a list lead to the same program, without a rejection. -/
theorem addRules_acceptedOf (p : Program) (rs : List Rule) :
    p.addRules (p.acceptedOf rs) = ((p.addRules rs).1, none) := by
  induction rs generalizing p with
  | nil => rfl
  | cons r rest ih =>
    rw [acceptedOf]
    cases hadd : p.addRule r with
    | ok p' =>
      dsimp only
      rw [addRules, addRules, hadd]
      exact ih p'
    | error e => rw [addRules, addRules, hadd]

/-- The rules that are accepted in a sequence of calls lead to the same program, without a
rejection. -/
theorem addRules_accepted (p : Program) (calls : List RuleCall) :
    p.addRules (p.accepted calls) = (p.performAll calls, none) := by
  induction calls generalizing p with
  | nil => rfl
  | cons call rest ih =>
    rw [accepted, addRules_append (p.addRules_acceptedOf (offered call)), ← perform_eq_addRules]
    exact ih (p.perform call).1

/-- Rules that are all accepted can be offered one by one. -/
theorem performAll_one (h : p.addRules rs = (q, none)) : p.performAll (rs.map .one) = q := by
  induction rs generalizing p with
  | nil => exact congrArg Prod.fst h
  | cons r rest ih =>
    rw [addRules] at h
    rw [List.map_cons, performAll, List.foldl_cons, perform]
    cases hadd : p.addRule r with
    | ok p' =>
      rw [hadd] at h
      exact ih h
    | error e => simp [hadd] at h

/-- The program with other settings. -/
def withSettings (p : Program) (settings : Settings) : Program := { p with settings }

/-- Which rules are accepted does not depend on the settings. -/
theorem addRules_withSettings (p : Program) (settings : Settings) (rs : List Rule) :
    (p.withSettings settings).addRules rs =
      ((p.addRules rs).1.withSettings settings, (p.addRules rs).2) := by
  induction rs generalizing p with
  | nil => rfl
  | cons r rest ih =>
    have hadd : (p.withSettings settings).addRule r =
        (p.addRule r).map (·.withSettings settings) := by
      unfold addRule withSettings
      dsimp only
      split
      · rfl
      · cases (DependencyGraph.ofRules (p.rules ++ [r])).strata <;> rfl
    rw [addRules, addRules, hadd]
    cases p.addRule r with
    | ok p' => exact ih p'
    | error e => rfl

/-- Calls lead to the same rules and levels with other settings. -/
theorem performAll_withSettings (p : Program) (settings : Settings) (calls : List RuleCall) :
    (p.withSettings settings).performAll calls = (p.performAll calls).withSettings settings := by
  induction calls generalizing p with
  | nil => rfl
  | cons call rest ih =>
    have hcall : ((p.withSettings settings).perform call).1 =
        (p.perform call).1.withSettings settings := by
      rw [perform_eq_addRules, perform_eq_addRules, addRules_withSettings]
    rw [performAll, performAll, List.foldl_cons, List.foldl_cons, hcall]
    exact ih (p.perform call).1

/-- Whatever calls offer to a program without rules: the registered rules are the accepted ones in
order; a call with a rejected rule keeps the rules that it offers before, and changes neither rules
nor levels any further; and the program is valid. -/
theorem registered_performAll (settings : Settings) (calls : List RuleCall) :
    ((empty settings).performAll calls).rules = (empty settings).accepted calls ∧
      (∀ before call after e, calls = before ++ call :: after →
        (((empty settings).performAll before).perform call).2 = some e →
          ∃ front r rest q, offered call = front ++ r :: rest ∧
            ((empty settings).performAll before).addRules front = (q, none) ∧
            q.addRule r = .error e ∧
            q.rules = ((empty settings).performAll before).rules ++ front ∧
            (((empty settings).performAll before).perform call).1 = q) ∧
      ((empty settings).performAll calls).IsValid := by
  refine ⟨?_, ?_, (isValid_empty settings).performAll calls⟩
  · rw [rules_performAll]
    exact List.nil_append _
  · intro before call after e _ he
    -- the calls before count only through the program to which they led
    generalize (empty settings).performAll before = p at he ⊢
    rw [perform_eq_addRules] at he ⊢
    obtain ⟨front, r, rest, q, hoffered, hfront, hreject, hq⟩ := exists_of_addRules he
    refine ⟨front, r, rest, q, hoffered, hfront, hreject, ?_, hq⟩
    have hrules := rules_addRules p front
    rwa [acceptedOf_eq_self hfront, hfront] at hrules

end Calls

end Program

end Factbase
