import Factbase.Proofs.CompiledVariables
import Factbase.Proofs.ConjunctiveQueries

/-! # The meaning of a clause

A clause leads from a binding to others, by recursion on the clause (`Find.Clause.Means`): a
condition on an attribute binds its variable to the entities with a value that passes, any other
condition keeps a binding or drops it or looks a relation up, AND goes on from what its left side
leads to, and OR is either side. Where OR means either, this is what solving the goals of the clause
gives, once the variables are forgotten that the compilation added
(`Find.Compile.readings_clauseGoals`).

The goals are solved from bindings that agree with those of the meaning on all other variables, and
that have no value for the variables added later (`Binding.Realizes`). Each kind of condition is
compared with its goals under that relation, and `Simulates.append`, `Simulates.branches` and
`Simulates.anyOf` put the comparisons together as the clause is. -/

namespace Factbase

open Find.Compile (freshName freshName_inj)

/-! ## Bindings up to added variables -/

/-- Whether a name is one of the names for variables that a compilation adds. -/
def Find.isAdded (name : String) : Bool := name.toList.head? == some '$'

theorem Find.isAdded_freshName (letter : Char) (n : Nat) : isAdded (freshName letter n) = true := by
  rw [isAdded, Compile.toList_freshName]
  rfl

/-- No variable of a query is an added one. -/
theorem Find.IsWord.isAdded {name : String} (h : IsWord name) : isAdded name = false := by
  have hdollar : '$' ∉ name.toList := h.not_mem (by decide)
  rw [Find.isAdded]
  cases hname : name.toList with
  | nil => rfl
  | cons c rest =>
    rw [hname, List.mem_cons, not_or] at hdollar
    simpa using fun heq : c = '$' => hdollar.1 heq.symm

/-- Any other name is not that of a fresh variable. -/
theorem Find.ne_freshName_of_isAdded {name : String} (h : isAdded name = false) (letter : Char)
    (n : Nat) : name ≠ freshName letter n := by
  rintro rfl
  rw [isAdded_freshName] at h
  simp at h

open Find (isAdded isAdded_freshName ne_freshName_of_isAdded)

namespace Binding

variable {b b' c d : Binding} {name : String} {n : Nat}

/-- The binding without the variables that a compilation added. -/
def forgetAdded (b : Binding) : Binding :=
  ⟨b.entries.filter fun e => !isAdded e.1, b.isOrdered.filter _⟩

theorem get?_forgetAdded :
    b.forgetAdded.get? name = if isAdded name = true then none else b.get? name := by
  ext value
  rw [get?, ← b.forgetAdded.isOrdered.mem_iff_lookup, forgetAdded, List.mem_filter,
    b.isOrdered.mem_iff_lookup, get?]
  cases isAdded name <;> simp

/-- Bindings that are the same are so without the added variables. -/
theorem Same.forgetAdded (h : b.Same c) : b.forgetAdded.Same c.forgetAdded := by
  intro name
  rw [get?_forgetAdded, get?_forgetAdded]
  split
  · rfl
  · exact h name

/-- A binding realizes another one: it is the same without the added variables, and it has no value
for those that are added from a number on. -/
structure Realizes (n : Nat) (b' b : Binding) : Prop where
  same : b'.forgetAdded.Same b
  spares : b'.Spares n

theorem Realizes.mono (h : b'.Realizes n b) {n' : Nat} (hle : n ≤ n') : b'.Realizes n' b :=
  ⟨h.same, h.spares.mono hle⟩

/-- All but added variables have the same values up to canonical texts. -/
theorem Realizes.get? (h : b'.Realizes n b) (hname : isAdded name = false) :
    (b'.get? name).map Atom.canonical = (b.get? name).map Atom.canonical := by
  have hsame := h.same name
  rwa [get?_forgetAdded, hname, if_neg (by decide)] at hsame

/-- Terms without added variables have the same values up to canonical texts. -/
theorem Realizes.resolve (h : b'.Realizes n b) {term : Term}
    (hterm : ∀ name, term = .var name → isAdded name = false) :
    (b'.resolve term).map Atom.canonical = (b.resolve term).map Atom.canonical := by
  cases term with
  | var name => exact h.get? (hterm name rfl)
  | const a => rfl

/-- The next added variable may get a value. -/
theorem Realizes.insert (h : b'.Realizes n b) (letter : Char) (v : Atom) :
    (b'.insert (freshName letter n) v).Realizes (n + 1) b := by
  constructor
  · intro name
    rw [← h.same name, get?_forgetAdded, get?_forgetAdded]
    split
    · rfl
    · next hnot =>
      rw [get?_insert, if_neg]
      rintro rfl
      exact hnot (isAdded_freshName letter n)
  · intro letter' m hm
    rw [get?_insert, if_neg]
    · exact h.spares letter' m (by omega)
    · intro heq
      have hsame := freshName_inj heq
      omega

/-- A binding without added variables realizes itself. -/
theorem realizes_self (h : ∀ e ∈ b.entries, isAdded e.1 = false) (n : Nat) : b.Realizes n b := by
  have hnone : ∀ name, isAdded name = true → b.get? name = none := by
    intro name hname
    refine Option.not_isSome_iff_eq_none.1 fun hsome => ?_
    obtain ⟨v, hv⟩ := Option.isSome_iff_exists.1 hsome
    have hnot := h _ (mem_of_lookup_eq_some hv)
    simp [hname] at hnot
  constructor
  · intro name
    rw [get?_forgetAdded]
    split
    · next hname => rw [hnone name hname]
    · rfl
  · exact fun letter m _ => hnone _ (isAdded_freshName letter m)

/-- A realized binding gives no value to an added variable. -/
theorem Realizes.isSome (h : b'.Realizes n b) (hname : (b.get? name).isSome) :
    isAdded name = false := by
  have hsame := congrArg Option.isSome (h.same name)
  rw [Option.isSome_map, Option.isSome_map, hname, get?_forgetAdded] at hsame
  split at hsame
  · simp at hsame
  · next hnot => exact Bool.eq_false_iff.2 hnot

end Binding

/-! ## Extensions of realizing bindings -/

namespace Literal

variable {b b' c c' d : Binding} {terms : List Term} {t : Tuple} {n : Nat}

/-- What extends a realizing binding by a tuple, added variables apart, is the same as an extension
of the binding by the tuple. -/
theorem exists_extends_of_realizes (hb : b'.Realizes n b)
    (hterms : ∀ name, Term.var name ∈ terms → isAdded name = false) (hagrees : Agrees c' terms t)
    (hkeeps : c'.Keeps b')
    (honly : ∀ name, isAdded name = false → (c'.get? name).isSome →
      (b'.get? name).isSome ∨ Term.var name ∈ terms) :
    ∃ d, Extends terms b t d ∧ c'.forgetAdded.Same d := by
  have hextends : Extends terms b'.forgetAdded t c'.forgetAdded := by
    refine ⟨?_, fun name value hvalue => ?_, fun name hname => ?_⟩
    · have hresolve : ∀ term ∈ terms, c'.forgetAdded.resolve term = c'.resolve term := by
        intro term hterm
        cases term with
        | var name =>
          rw [Binding.resolve, Binding.get?_forgetAdded, hterms name hterm]
          rfl
        | const a => rfl
      rw [Agrees, ← hagrees]
      exact List.map_congr_left fun term hterm => by rw [hresolve term hterm]
    · rw [Binding.get?_forgetAdded] at hvalue ⊢
      split at hvalue
      · simp at hvalue
      · next hnot => rw [if_neg hnot, hkeeps name value hvalue]
    · rw [Binding.get?_forgetAdded] at hname ⊢
      split at hname
      · simp at hname
      · next hnot =>
        rw [if_neg hnot]
        exact honly name (Bool.eq_false_iff.2 hnot) hname
  obtain ⟨d, -, -, hd, hsame⟩ := hextends.exists_bind? hb.same rfl
  exact ⟨d, hd, hsame⟩

/-- An extension spares what the binding spares if the terms do. -/
theorem Extends.spares (h : Extends terms b' t c') (hb : b'.Spares n)
    (hterms : ∀ letter m, n ≤ m → Term.var (freshName letter m) ∉ terms) : c'.Spares n := by
  intro letter m hm
  refine Option.not_isSome_iff_eq_none.1 fun hsome => ?_
  rcases h.only _ hsome with hbound | hmem
  · rw [hb letter m hm] at hbound
    simp at hbound
  · exact hterms letter m hm hmem

/-- Terms without added variables spare all numbers. -/
theorem not_mem_of_isAdded (hterms : ∀ name, Term.var name ∈ terms → isAdded name = false)
    (letter : Char) (m : Nat) : Term.var (freshName letter m) ∉ terms :=
  fun hmem => ne_freshName_of_isAdded (hterms _ hmem) letter m rfl

/-- Extensions by a tuple from a realizing binding realize those from the binding. -/
theorem Extends.exists_realized (h : Extends terms b' t c') (hb : b'.Realizes n b)
    (hterms : ∀ name, Term.var name ∈ terms → isAdded name = false) :
    ∃ d, Extends terms b t d ∧ c'.Realizes n d := by
  obtain ⟨d, hd, hsame⟩ := exists_extends_of_realizes hb hterms h.agrees h.keeps
    fun name _ hname => h.only name hname
  exact ⟨d, hd, hsame, h.spares hb.spares fun letter m _ =>
    not_mem_of_isAdded hterms letter m⟩

/-- Extensions by a tuple are realized by those from a realizing binding. -/
theorem Extends.exists_realizing (h : Extends terms b t d) (hb : b'.Realizes n b)
    (hterms : ∀ name, Term.var name ∈ terms → isAdded name = false) :
    ∃ c', Extends terms b' t c' ∧ c'.Realizes n d := by
  have hbelow : b'.BelowOn (fun name => isAdded name = false) d := by
    intro name value hname hvalue
    have hsame := hb.get? hname
    rw [hvalue, Option.map_some, eq_comm, Option.map_eq_some_iff] at hsame
    obtain ⟨v, hv, hcanonical⟩ := hsame
    rw [h.keeps name v hv, Option.map_some, hcanonical]
  obtain ⟨c', hbind, hc'⟩ := h.agrees.exists_bind? hterms hbelow
  have hextends := extends_of_bind? (h.agrees.fits hterms hbelow) hbind
  refine ⟨c', hextends, ?_, hextends.spares hb.spares fun letter m _ =>
    not_mem_of_isAdded hterms letter m⟩
  refine Binding.Below.same (fun name value _ hvalue => ?_) fun name hname => ?_
  · rw [Binding.get?_forgetAdded] at hvalue
    split at hvalue
    · simp at hvalue
    · next hnot => exact hc' name value (Bool.eq_false_iff.2 hnot) hvalue
  · -- the extension binds what the binding does and the variables of the literal
    rcases h.only name hname with hbound | hmem
    · have hnot := hb.isSome hbound
      rw [Binding.get?_forgetAdded, hnot, if_neg (by decide)]
      refine hextends.keeps.below.isSome ?_
      have hsome := congrArg Option.isSome (hb.get? hnot)
      rwa [Option.isSome_map, Option.isSome_map, hbound] at hsome
    · rw [Binding.get?_forgetAdded, hterms name hmem, if_neg (by decide)]
      exact hextends.agrees.isSome hmem

section Fact

variable {var : String} {letter : Char} {entity other v a : Atom}

/-- What extends a realizing binding by a fact, with a fresh variable for the value, realizes an
extension by the entity. -/
theorem Extends.exists_realized_entity
    (h : Extends [.var var, .const a, .var (freshName letter n)] b' [entity, other, v] c')
    (hb : b'.Realizes n b) (hvar : isAdded var = false) :
    ∃ d, Extends [.var var] b [entity] d ∧ c'.Realizes (n + 1) d := by
  have hagrees : Agrees c' [.var var] [entity] :=
    agrees_cons.2 ⟨(agrees_cons.1 h.agrees).1, rfl⟩
  have honly : ∀ name, isAdded name = false → (c'.get? name).isSome →
      (b'.get? name).isSome ∨ Term.var name ∈ [Term.var var] := by
    intro name hname hsome
    refine (h.only name hsome).imp_right fun hmem => ?_
    simpa [ne_freshName_of_isAdded hname] using hmem
  obtain ⟨d, hd, hsame⟩ := exists_extends_of_realizes hb (by simpa using hvar) hagrees h.keeps honly
  refine ⟨d, hd, hsame, h.spares (hb.spares.mono (Nat.le_succ n)) fun letter' m hm hmem => ?_⟩
  have hfresh : freshName letter' m = freshName letter n := by
    simpa [(ne_freshName_of_isAdded hvar letter' m).symm] using hmem
  have hsame := freshName_inj hfresh
  omega

/-- Extensions by an entity are realized by those from a realizing binding by a fact, with a fresh
variable for the value. -/
theorem Extends.exists_realizing_fact (h : Extends [.var var] b [entity] d) (hb : b'.Realizes n b)
    (hvar : isAdded var = false) (ha : a.canonical = other.canonical) :
    ∃ c', Extends [.var var, .const a, .var (freshName letter n)] b' [entity, other, v] c' ∧
      c'.Realizes (n + 1) d ∧ c'.get? (freshName letter n) = some v := by
  obtain ⟨c, hc, hrealizes⟩ := h.exists_realizing hb (by simpa using hvar)
  have hne := ne_freshName_of_isAdded hvar letter n
  have hfresh : (c.insert (freshName letter n) v).get? (freshName letter n) = some v :=
    (c.get?_insert _ _ _).trans (if_pos rfl)
  refine ⟨c.insert (freshName letter n) v, ⟨?_, fun name value hvalue => ?_, fun name hname => ?_⟩,
    hrealizes.insert letter v, hfresh⟩
  · have hentity := (agrees_cons.1 hc.agrees).1
    simp only [Binding.resolve] at hentity
    simp [Agrees, Binding.resolve, Binding.get?_insert, hne, hentity, ha]
  · rw [Binding.get?_insert, if_neg]
    · exact hc.keeps name value hvalue
    · rintro rfl
      simp [hb.spares letter n (Nat.le_refl n)] at hvalue
  · rw [Binding.get?_insert] at hname
    split at hname
    · next heq => exact .inr (by simp [heq])
    · refine (hc.only name hname).imp_right fun hmem => ?_
      exact List.mem_cons.2 (.inl (List.mem_singleton.1 hmem))

end Fact

end Literal

/-! ## What a clause means -/

namespace Find

open Compile (lookedUp?)

namespace Condition

/-- Whether a value of the field passes the test of the condition under a binding, which gives a
value to an operand that is a variable. -/
def passes (b : Binding) : Condition → Atom → Bool
  | .compare _ op operand, v => (b.resolve operand.toTerm).any fun a => op.holds v a
  | .between _ low high, v => v.isBetween (.number low) (.number high)
  | .contains _ text, v => Filter.passesOf .contains [v, .text text]
  | .matching _ body flags, v => Filter.passesOf .regex [v, .text ("/" ++ body ++ "/" ++ flags)]
  | .member _ operand, v => (b.resolve operand.toTerm).any fun a => v.isMember a
  | .call _ _, _ => false

/-- What a condition leads to from a binding. -/
inductive Means (w : WorkingSet) (aliases : Aliases) : Condition → Binding → Binding → Prop where
  /-- A test of an attribute leads on with each entity that has a value which passes. -/
  | dotted {c : Condition} {f : Field} {attr : String} {entity name v : Atom} {b d : Binding} :
      c.field? = some f → lookedUp? aliases f = some attr →
      [entity, name, v] ∈ w.tuples attrRelation → name.canonical = (Atom.text attr).canonical →
      Literal.Extends [.var f.var] b [entity] d → c.passes d v = true → Means w aliases c b d
  /-- A test of a variable keeps a binding whose value passes. -/
  | plain {c : Condition} {f : Field} {v : Atom} {b : Binding} :
      c.field? = some f → lookedUp? aliases f = none → b.get? f.var = some v →
      c.passes b v = true → Means w aliases c b b
  /-- A call of a relation leads on with each tuple that agrees. -/
  | relation {name : String} {operands : List Operand} {t : Tuple} {b d : Binding} :
      (Predicate.ofName name).isRelation = true → t ∈ w.tuples (Predicate.ofName name).name →
      Literal.Extends (operands.map Operand.toTerm) b t d →
      Means w aliases (.call name operands) b d
  /-- A call of a built-in predicate keeps a binding that passes. -/
  | builtIn {name : String} {operands : List Operand} {b : Binding} :
      (Predicate.ofName name).isRelation = false →
      Filter.passes (.ofName name) (operands.map Operand.toTerm) b = true →
      Means w aliases (.call name operands) b b

section Means

variable {w : WorkingSet} {aliases : Aliases} {c : Condition} {f : Field} {b d : Binding}

/-- The meaning of a test of a variable. -/
theorem means_iff_of_eq_none (hf : c.field? = some f) (hlook : lookedUp? aliases f = none) :
    c.Means w aliases b d ↔ d = b ∧ ∃ v, b.get? f.var = some v ∧ c.passes b v = true := by
  constructor
  · rintro (⟨hf', hlook'⟩ | ⟨hf', -, hv, hpasses⟩ | - | -)
    · obtain rfl := Option.some.inj (hf.symm.trans hf')
      simp [hlook] at hlook'
    · obtain rfl := Option.some.inj (hf.symm.trans hf')
      exact ⟨rfl, _, hv, hpasses⟩
    · simp [field?] at hf
    · simp [field?] at hf
  · rintro ⟨rfl, v, hv, hpasses⟩
    exact .plain hf hlook hv hpasses

/-- The meaning of a test of an attribute. -/
theorem means_iff_of_eq_some (hf : c.field? = some f) {attr : String}
    (hlook : lookedUp? aliases f = some attr) :
    c.Means w aliases b d ↔ ∃ entity name v, [entity, name, v] ∈ w.tuples attrRelation ∧
      name.canonical = (Atom.text attr).canonical ∧ Literal.Extends [.var f.var] b [entity] d ∧
      c.passes d v = true := by
  constructor
  · rintro (⟨hf', hlook', ht, hname, hextends, hpasses⟩ | ⟨hf', hlook'⟩ | - | -)
    · obtain rfl := Option.some.inj (hf.symm.trans hf')
      obtain rfl := Option.some.inj (hlook.symm.trans hlook')
      exact ⟨_, _, _, ht, hname, hextends, hpasses⟩
    · obtain rfl := Option.some.inj (hf.symm.trans hf')
      simp [hlook] at hlook'
    · simp [field?] at hf
    · simp [field?] at hf
  · rintro ⟨entity, name, v, ht, hname, hextends, hpasses⟩
    exact .dotted hf hlook ht hname hextends hpasses

end Means

/-- The variable of a field that is tested is not an added one. -/
theorem isAdded_var {c : Condition} {f : Field} (hf : c.field? = some f)
    (hwords : ∀ name ∈ c.vars, IsWord name) : isAdded f.var = false :=
  (hwords _ (mem_vars.2 (.inl ⟨f, hf, rfl⟩))).isAdded

end Condition

/-- What a clause leads to from a binding: AND goes on from what its left side leads to, OR is
either side from the same binding. -/
def Clause.Means (w : WorkingSet) (aliases : Aliases) : Clause → Binding → Binding → Prop
  | .both left right, b, d => ∃ c, left.Means w aliases b c ∧ right.Means w aliases c d
  | .either left right, b, d => left.Means w aliases b d ∨ right.Means w aliases b d
  | .condition c, b, d => c.Means w aliases b d

namespace Compile

open Goal

/-! ## What solving the goals of a clause gives -/

/-- How a condition that tests a field is compiled: to a look-up and a filter with further terms,
which lets pass what the condition does. -/
structure IsTest (aliases : Aliases) (c : Condition) (f : Field) (predicate : Predicate)
    (terms : List Term) : Prop where
  isRelation : predicate.isRelation = false
  goals : conditionGoals aliases c = testGoals aliases f predicate terms
  names : ∀ name, Term.var name ∈ terms → name ∈ c.vars
  passes_iff : ∀ b v, c.passes b v = true ↔
    ∃ values, terms.mapM b.resolve = some values ∧ Filter.passesOf predicate (v :: values) = true

/-- Every condition on a field is compiled in this way. -/
theorem exists_isTest (aliases : Aliases) {c : Condition} {f : Field} (hf : c.field? = some f) :
    ∃ predicate terms, IsTest aliases c f predicate terms := by
  have hoperands : ∀ name, Term.var name ∈ c.operands.map Operand.toTerm → name ∈ c.vars :=
    fun name hname => Condition.mem_vars.2 (.inr hname)
  cases c with
  | compare g op operand =>
    obtain rfl : g = f := Option.some.inj hf
    refine ⟨.compare op, [operand.toTerm], rfl, rfl, hoperands, fun b v => ?_⟩
    cases hvalue : b.resolve operand.toTerm with
    | none => simp [Condition.passes, hvalue]
    | some a => simp [Condition.passes, hvalue, Filter.passesOf, Filter.holdsOf]
  | between g low high =>
    obtain rfl : g = f := Option.some.inj hf
    refine ⟨.between, [.const (.number low), .const (.number high)], rfl, rfl, by simp,
      fun b v => ?_⟩
    simp [Condition.passes, Binding.resolve, Filter.passesOf, Filter.holdsOf]
  | contains g text =>
    obtain rfl : g = f := Option.some.inj hf
    refine ⟨.contains, [.const (.text text)], rfl, rfl, by simp, fun b v => ?_⟩
    simp [Condition.passes, Binding.resolve]
  | matching g body flags =>
    obtain rfl : g = f := Option.some.inj hf
    refine ⟨.regex, [.const (.text ("/" ++ body ++ "/" ++ flags))], rfl, rfl, by simp,
      fun b v => ?_⟩
    simp [Condition.passes, Binding.resolve]
  | member g operand =>
    obtain rfl : g = f := Option.some.inj hf
    refine ⟨.member, [operand.toTerm], rfl, rfl, hoperands, fun b v => ?_⟩
    cases hvalue : b.resolve operand.toTerm with
    | none => simp [Condition.passes, hvalue]
    | some a => simp [Condition.passes, hvalue, Filter.passesOf, Filter.holdsOf]
  | call name operands => simp [Condition.field?] at hf

namespace IsTest

variable {aliases : Aliases} {c : Condition} {f : Field} {predicate : Predicate} {terms : List Term}
  {b b' : Binding} {name : String} {v v' : Atom}

/-- The further terms have the same values for a realizing binding. -/
theorem resolve_congr (h : IsTest aliases c f predicate terms)
    (hwords : ∀ name ∈ c.vars, IsWord name) {n : Nat} (hb : b'.Realizes n b) :
    ∀ term ∈ terms, (b'.resolve term).map Atom.canonical = (b.resolve term).map Atom.canonical :=
  fun _ hterm => hb.resolve fun name heq => (hwords _ (h.names name (heq ▸ hterm))).isAdded

/-- What passes also passes as a value with the same canonical text, where the operands have such
values. -/
theorem passes_of_passes (h : IsTest aliases c f predicate terms)
    (hv : v.canonical = v'.canonical)
    (hterms : ∀ term ∈ terms,
      (b.resolve term).map Atom.canonical = (b'.resolve term).map Atom.canonical)
    (hpasses : c.passes b v = true) : c.passes b' v' = true := by
  obtain ⟨values, hvalues, hpasses⟩ := (h.passes_iff b v).1 hpasses
  have hsame := Binding.mapM_resolve_congr hterms
  rw [hvalues, Option.map_some, eq_comm, Option.map_eq_some_iff] at hsame
  obtain ⟨values', hvalues', hcanonical⟩ := hsame
  refine (h.passes_iff b' v').2 ⟨values', hvalues', ?_⟩
  have hall : (v' :: values').map Atom.canonical = (v :: values).map Atom.canonical := by
    rw [List.map_cons, List.map_cons, hv, hcanonical]
  rw [Filter.passesOf, Filter.holdsOf_congr predicate hall]
  exact hpasses

/-- The filter on a variable lets pass the bindings whose value passes. -/
theorem filter_iff (h : IsTest aliases c f predicate terms) :
    Filter.passes predicate (.var name :: terms) b = true ↔
      ∃ v, b.get? name = some v ∧ c.passes b v = true := by
  rw [Filter.passes_iff]
  simp only [h.passes_iff, List.mapM_cons, Option.bind_eq_bind, Option.bind_eq_some_iff,
    Option.pure_def, Option.some.injEq]
  constructor
  · rintro ⟨_, ⟨v, hv, values, hvalues, rfl⟩, hpasses⟩
    exact ⟨v, hv, values, hvalues, hpasses⟩
  · rintro ⟨v, hv, values, hvalues, hpasses⟩
    exact ⟨_, ⟨v, hv, values, hvalues, rfl⟩, hpasses⟩

end IsTest

/-- Bindings are led to alike: what is led to from a realizing binding realizes what is meant, and
what is meant is realized. -/
structure Simulates (n n' : Nat) (leads means : Binding → Binding → Prop) : Prop where
  le : n ≤ n'
  sound : ∀ {b b' c'}, b'.Realizes n b → leads b' c' → ∃ c, means b c ∧ c'.Realizes n' c
  complete : ∀ {b b' c}, b'.Realizes n b → means b c → ∃ c', leads b' c' ∧ c'.Realizes n' c

namespace Simulates

variable {I : Interpretation} {n n' n'' : Nat} {means means' : Binding → Binding → Prop}

/-- Goals one after the other are compared one after the other. -/
theorem append {front back : List Goal} (hfront : Simulates n n' (YieldsEach I I front) means)
    (hback : Simulates n' n'' (YieldsEach I I back) means') :
    Simulates n n'' (YieldsEach I I (front ++ back)) fun b d => ∃ c, means b c ∧ means' c d := by
  refine ⟨Nat.le_trans hfront.le hback.le, fun hb hleads => ?_, fun hb hmeans => ?_⟩
  · obtain ⟨c', hc', hd'⟩ := yieldsEach_append.1 hleads
    obtain ⟨c, hc, hrealizes⟩ := hfront.sound hb hc'
    obtain ⟨d, hd, hrealizes⟩ := hback.sound hrealizes hd'
    exact ⟨d, ⟨c, hc, hd⟩, hrealizes⟩
  · obtain ⟨c, hc, hd⟩ := hmeans
    obtain ⟨c', hc', hrealizes⟩ := hfront.complete hb hc
    obtain ⟨d', hd', hrealizes⟩ := hback.complete hrealizes hd
    exact ⟨d', yieldsEach_append.2 ⟨c', hc', hd'⟩, hrealizes⟩

/-- A single branch is compared as its goals are. -/
theorem branch {goals : List Goal} (h : Simulates n n' (YieldsEach I I goals) means) :
    Simulates n n' (YieldsAny I I [goals]) means := by
  have hsame : YieldsAny I I [goals] = YieldsEach I I goals := by
    funext b c
    simp [YieldsAny]
  rwa [hsame]

/-- Branches next to each other are compared from the same binding. -/
theorem branches {left right : List (List Goal)}
    (hleft : Simulates n n' (YieldsAny I I left) means)
    (hright : Simulates n' n'' (YieldsAny I I right) means') :
    Simulates n n'' (YieldsAny I I (left ++ right)) fun b d => means b d ∨ means' b d := by
  have hany : ∀ b c, YieldsAny I I (left ++ right) b c ↔
      YieldsAny I I left b c ∨ YieldsAny I I right b c := by
    intro b c
    simp only [yieldsAny_iff, List.mem_append, or_and_right, exists_or]
  refine ⟨Nat.le_trans hleft.le hright.le, fun hb hleads => ?_, fun hb hmeans => ?_⟩
  · rcases (hany _ _).1 hleads with hleads | hleads
    · obtain ⟨c, hc, hrealizes⟩ := hleft.sound hb hleads
      exact ⟨c, .inl hc, hrealizes.mono hright.le⟩
    · obtain ⟨c, hc, hrealizes⟩ := hright.sound (hb.mono hleft.le) hleads
      exact ⟨c, .inr hc, hrealizes⟩
  · rcases hmeans with hmeans | hmeans
    · obtain ⟨c', hc', hrealizes⟩ := hleft.complete hb hmeans
      exact ⟨c', (hany _ _).2 (.inl hc'), hrealizes.mono hright.le⟩
    · obtain ⟨c', hc', hrealizes⟩ := hright.complete (hb.mono hleft.le) hmeans
      exact ⟨c', (hany _ _).2 (.inr hc'), hrealizes⟩

/-- A choice is compared as its branches are. -/
theorem anyOf {branches : List (List Goal)}
    (h : Simulates n n' (YieldsAny I I branches) means) :
    Simulates n n' (YieldsEach I I [.anyOf branches]) means := by
  have hsame : YieldsEach I I [.anyOf branches] = YieldsAny I I branches := by
    funext b c
    rw [yieldsEach_singleton, Yields]
  rwa [hsame]

end Simulates

section Conditions

variable {w : WorkingSet} {aliases : Aliases} {c : Condition} {f : Field} {predicate : Predicate}
  {terms : List Term}

/-- A filter yields the binding itself if that passes. -/
theorem yields_filter {I J : Interpretation} (hpredicate : predicate.isRelation = false)
    {name : String} {b d : Binding} :
    Yields I J (filter predicate name terms) b d ↔
      d = b ∧ Filter.passes predicate (.var name :: terms) b = true := by
  rw [filter, Yields, if_neg (by simp [hpredicate])]

/-- The filter for a test of a variable. -/
theorem simulates_plain (h : IsTest aliases c f predicate terms) (hf : c.field? = some f)
    (hlook : lookedUp? aliases f = none) (hwords : ∀ name ∈ c.vars, IsWord name) (n : Nat) :
    Simulates n n (YieldsEach w.interpretation w.interpretation [filter predicate f.var terms])
      (c.Means w aliases) := by
  have hpasses : ∀ {b b' : Binding}, b'.Realizes n b →
      ((∃ v, b'.get? f.var = some v ∧ c.passes b' v = true) ↔
        ∃ v, b.get? f.var = some v ∧ c.passes b v = true) := by
    intro b b' hb
    have hterms : ∀ term ∈ Term.var f.var :: terms,
        (b'.resolve term).map Atom.canonical = (b.resolve term).map Atom.canonical :=
      List.forall_mem_cons.2 ⟨hb.get? (Condition.isAdded_var hf hwords), h.resolve_congr hwords hb⟩
    rw [← h.filter_iff, ← h.filter_iff, passes_congr predicate hterms]
  refine ⟨Nat.le_refl n, fun {b b' c'} hb hleads => ?_, fun {b b' d} hb hmeans => ?_⟩
  · rw [yieldsEach_singleton, yields_filter h.isRelation, h.filter_iff, hpasses hb] at hleads
    obtain ⟨rfl, hleads⟩ := hleads
    exact ⟨b, (Condition.means_iff_of_eq_none hf hlook).2 ⟨rfl, hleads⟩, hb⟩
  · obtain ⟨rfl, hmeans⟩ := (Condition.means_iff_of_eq_none hf hlook).1 hmeans
    refine ⟨b', ?_, hb⟩
    rw [yieldsEach_singleton, yields_filter h.isRelation, h.filter_iff, hpasses hb]
    exact ⟨rfl, hmeans⟩

/-- What the look-up of an attribute yields: the binding extended by a tuple with the attribute. -/
theorem yields_attrGoal {var name attr : String} {b d : Binding} :
    Yields w.interpretation w.interpretation
        (attrGoal (.var var) (.const (.text attr)) (.var name)) b d ↔
      ∃ entity other v, [entity, other, v] ∈ w.tuples attrRelation ∧
        other.canonical = (Atom.text attr).canonical ∧
        Literal.Extends [.var var, .const (.text attr), .var name] b [entity, other, v] d := by
  rw [attrGoal, Yields, if_pos (show Predicate.attr.isRelation = true from rfl)]
  constructor
  · rintro ⟨t, ht, hextends⟩
    have hlength : t.length = 3 := by
      have hlength := congrArg List.length hextends.agrees
      simpa using hlength.symm
    obtain ⟨entity, other, v, rfl⟩ := List.length_eq_three.1 hlength
    have hattr := (Literal.agrees_cons.1 (Literal.agrees_cons.1 hextends.agrees).2).1
    exact ⟨entity, other, v, ht, (Option.some.inj hattr).symm, hextends⟩
  · rintro ⟨entity, other, v, ht, -, hextends⟩
    exact ⟨_, ht, hextends⟩

/-- The look-up and the filter for a test of an attribute. -/
theorem simulates_dotted (h : IsTest aliases c f predicate terms) (hf : c.field? = some f)
    {attr : String} (hlook : lookedUp? aliases f = some attr)
    (hwords : ∀ name ∈ c.vars, IsWord name) (n : Nat) :
    Simulates n (n + 1) (YieldsEach w.interpretation w.interpretation
        [attrGoal (.var f.var) (.const (.text attr)) (.var (freshName 't' n)),
          filter predicate (freshName 't' n) terms])
      (c.Means w aliases) := by
  have hvar := Condition.isAdded_var hf hwords
  refine ⟨Nat.le_succ n, fun {b b' c'} hb hleads => ?_, fun {b b' d} hb hmeans => ?_⟩
  · obtain ⟨d', hd', hfilter⟩ := hleads
    rw [yieldsEach_singleton, yields_filter h.isRelation, h.filter_iff] at hfilter
    obtain ⟨rfl, u, hu, hpasses⟩ := hfilter
    obtain ⟨entity, other, v, ht, hattr, hextends⟩ := yields_attrGoal.1 hd'
    have hvalue : u.canonical = v.canonical := by
      have hvalue := (Literal.agrees_cons.1 (Literal.agrees_cons.1
        (Literal.agrees_cons.1 hextends.agrees).2).2).1
      rw [Binding.resolve, hu] at hvalue
      exact Option.some.inj hvalue
    obtain ⟨d, hd, hrealizes⟩ := hextends.exists_realized_entity hb hvar
    refine ⟨d, (Condition.means_iff_of_eq_some hf hlook).2 ⟨entity, other, v, ht, hattr, hd, ?_⟩,
      hrealizes⟩
    exact h.passes_of_passes hvalue (h.resolve_congr hwords hrealizes) hpasses
  · obtain ⟨entity, other, v, ht, hattr, hextends, hpasses⟩ :=
      (Condition.means_iff_of_eq_some hf hlook).1 hmeans
    obtain ⟨c', hc', hrealizes, hv⟩ := hextends.exists_realizing_fact hb hvar hattr.symm
    refine ⟨c', ⟨c', yields_attrGoal.2 ⟨entity, other, v, ht, hattr, hc'⟩, ?_⟩, hrealizes⟩
    rw [yieldsEach_singleton, yields_filter h.isRelation, h.filter_iff]
    exact ⟨rfl, v, hv, h.passes_of_passes rfl
      (fun term hterm => (h.resolve_congr hwords hrealizes term hterm).symm) hpasses⟩

/-- The literal of a call. -/
theorem simulates_call {name : String} {operands : List Operand}
    (hwords : ∀ v ∈ (Condition.call name operands).vars, IsWord v) (n : Nat) :
    Simulates n n (YieldsEach w.interpretation w.interpretation
        [.literal (.named name (operands.map Operand.toTerm))])
      ((Condition.call name operands).Means w aliases) := by
  have hterms : ∀ v, Term.var v ∈ operands.map Operand.toTerm → isAdded v = false :=
    fun v hv => (hwords v (Condition.mem_vars.2 (.inr hv))).isAdded
  have hpasses : ∀ {b b' : Binding}, b'.Realizes n b →
      Filter.passes (.ofName name) (operands.map Operand.toTerm) b' =
        Filter.passes (.ofName name) (operands.map Operand.toTerm) b := fun hb =>
    passes_congr _ fun term hterm => hb.resolve fun v heq => hterms v (heq ▸ hterm)
  refine ⟨Nat.le_refl n, fun {b b' c'} hb hleads => ?_, fun {b b' d} hb hmeans => ?_⟩
  · rw [yieldsEach_singleton, Literal.named, Yields] at hleads
    split at hleads
    · next hrelation =>
      obtain ⟨t, ht, hextends⟩ := hleads
      obtain ⟨d, hd, hrealizes⟩ := hextends.exists_realized hb hterms
      exact ⟨d, .relation hrelation ht hd, hrealizes⟩
    · next hrelation =>
      obtain ⟨rfl, htrue⟩ := hleads
      exact ⟨b, .builtIn (Bool.eq_false_iff.2 hrelation) (hpasses hb ▸ htrue), hb⟩
  · rw [Literal.named]
    simp only [yieldsEach_singleton, Yields]
    cases hmeans with
    | relation hrelation ht hextends =>
      obtain ⟨c', hc', hrealizes⟩ := hextends.exists_realizing hb hterms
      exact ⟨c', by rw [if_pos hrelation]; exact ⟨_, ht, hc'⟩, hrealizes⟩
    | builtIn hrelation htrue =>
      exact ⟨b', by rw [if_neg (by simp [hrelation])]; exact ⟨rfl, hpasses hb ▸ htrue⟩, hb⟩
    | dotted hf => simp [Condition.field?] at hf
    | plain hf => simp [Condition.field?] at hf

variable (w aliases)

/-- The goals of a condition. -/
theorem simulates_condition (hwords : ∀ name ∈ c.vars, IsWord name) (n : Nat) :
    Simulates n ((conditionGoals aliases c).run n).2
      (YieldsEach w.interpretation w.interpretation ((conditionGoals aliases c).run n).1)
      (c.Means w aliases) := by
  cases hf : c.field? with
  | none =>
    cases c with
    | call name operands => exact simulates_call hwords n
    | _ => simp [Condition.field?] at hf
  | some f =>
    obtain ⟨predicate, terms, h⟩ := exists_isTest aliases hf
    rw [h.goals, testGoals, bind]
    cases hlook : lookedUp? aliases f with
    | none => exact simulates_plain h hf hlook hwords n
    | some attr => exact simulates_dotted h hf hlook hwords n

end Conditions

/-- The goals of a clause, and its branches, where OR means either. -/
theorem simulates_clause (w : WorkingSet) {options : CompilerOptions}
    (hmode : options.orMode = .disjunctive) (aliases : Aliases) {c : Clause}
    (hwords : ∀ name ∈ c.vars, IsWord name) (n : Nat) :
    Simulates n ((clauseGoals options aliases c).run n).2
        (YieldsEach w.interpretation w.interpretation ((clauseGoals options aliases c).run n).1)
        (c.Means w aliases) ∧
      Simulates n ((clauseBranches options aliases c).run n).2
        (YieldsAny w.interpretation w.interpretation ((clauseBranches options aliases c).run n).1)
        (c.Means w aliases) := by
  induction c generalizing n with
  | both left right hleft hright =>
    obtain ⟨hwordsLeft, hwordsRight⟩ := Reader.forall_mem_vars_append.1 hwords
    have hgoals := (hleft hwordsLeft n).1.append (hright hwordsRight _).1
    rw [clauseGoals, clauseBranches]
    exact ⟨hgoals, hgoals.branch⟩
  | either left right hleft hright =>
    obtain ⟨hwordsLeft, hwordsRight⟩ := Reader.forall_mem_vars_append.1 hwords
    have hbranches := (hleft hwordsLeft n).2.branches (hright hwordsRight _).2
    rw [clauseGoals, clauseBranches, hmode]
    exact ⟨hbranches.anyOf, hbranches⟩
  | condition c =>
    rw [Clause.vars_condition] at hwords
    have hgoals := simulates_condition w aliases hwords n
    rw [clauseGoals, clauseBranches]
    exact ⟨hgoals, hgoals.branch⟩

/-- The condition that something has a colour. -/
def isColoured (var colour : String) : Clause :=
  .condition (.compare ⟨var, ["color"]⟩ .eq (.text colour))

/-- The query for posts that are blue, or next to which something is red. -/
def blueOrNextToRed : Query where
  entityType := "post"
  var := "p"
  clause := some (.either (isColoured "x" "red") (isColoured "p" "blue"))
  returns := []
  sortField := none
  limit := none

/-- The binding of the variable to the post. -/
def postBinding : Binding := Binding.empty.insert "p" (.text "p1")

end Compile

end Find

end Factbase
