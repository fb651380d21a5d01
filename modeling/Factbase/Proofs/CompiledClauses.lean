import Factbase.Find.Compile
import Factbase.Proofs.Totality

/-! # What the goals of a clause test

The goals of a clause are solved from a binding that gives an entity to the variable of the query
and has no value yet for the variables that the compilation adds (`Binding.IsReady`). There they
have a solution if and only if the entity meets the clause, and every solution is ready again, for
the variables that are added later (`Find.Compile.tests_clause`). Each condition is tested by goals
of its own, which are put together by `Tests.append`, `Tests.branches` and `Tests.anyOf` as the
clause is by AND and OR. -/

namespace Factbase

namespace WorkingSet

/-- The relation of facts has a value for an attribute of an entity. -/
def HasValue (w : WorkingSet) (x : Atom) (attr : String) (v : Atom) : Prop :=
  ∃ entity name, [entity, name, v] ∈ w.tuples attrRelation ∧ entity.canonical = x.canonical ∧
    name.canonical = (Atom.text attr).canonical

/-- A value that an entity shows: one for an attribute, or without attribute the entity itself. -/
def Shows (w : WorkingSet) (x : Atom) : Option String → Atom → Prop
  | none, v => v = x
  | some attr, v => w.HasValue x attr v

end WorkingSet

namespace Find

/-- The value of an operand that is written out. -/
def Operand.value? : Operand → Option Atom
  | .text s => some (.text s)
  | .number x => some (.number x)
  | .bool b => some (.bool b)
  | .null => some .null
  | .var _ => none

namespace Condition

/-- The condition tests a field of a variable, and its operands are written out. -/
def IsPlain (var : String) : Condition → Prop
  | .compare f _ operand => f.var = var ∧ operand.value?.isSome
  | .between f _ _ => f.var = var
  | .contains f _ => f.var = var
  | .matching f _ _ => f.var = var
  | .member f operand => f.var = var ∧ operand.value?.isSome
  | .call _ _ => False

/-- Whether a value of the field passes the test of the condition. -/
def accepts : Condition → Atom → Bool
  | .compare _ op operand, v => operand.value?.any fun a => op.holds v a
  | .between _ low high, v => v.isBetween (.number low) (.number high)
  | .contains _ text, v => Filter.passesOf .contains [v, .text text]
  | .matching _ body flags, v => Filter.passesOf .regex [v, .text ("/" ++ body ++ "/" ++ flags)]
  | .member _ operand, v => operand.value?.any fun a => v.isMember a
  | .call _ _, _ => false

/-- An entity shows a value in the field that passes the test. -/
def HoldsAt (w : WorkingSet) (aliases : Aliases) (x : Atom) (c : Condition) : Prop :=
  ∃ f v, c.field? = some f ∧ w.Shows x (Compile.lookedUp? aliases f) v ∧ c.accepts v = true

end Condition

/-- A clause whose conditions are met as AND and OR say; the second may mean the first. -/
def Clause.Meets (mode : OrMode) (met : Condition → Prop) : Clause → Prop
  | .both left right => left.Meets mode met ∧ right.Meets mode met
  | .either left right =>
    match mode with
    | .conjunctive => left.Meets mode met ∧ right.Meets mode met
    | .disjunctive => left.Meets mode met ∨ right.Meets mode met
  | .condition c => met c

/-- Where OR means AND a clause asks for all of its conditions. -/
theorem Clause.meets_conjunctive {met : Condition → Prop} {c : Clause} :
    c.Meets .conjunctive met ↔ ∀ condition ∈ c.conditions, met condition := by
  induction c with
  | both left right hleft hright =>
    rw [Meets, conditions, List.forall_mem_append, hleft, hright]
  | either left right hleft hright =>
    rw [Meets, conditions, List.forall_mem_append, hleft, hright]
  | condition c => simp [Meets, conditions]

namespace Compile

/-- The name of a variable that the compilation adds. -/
def freshName (letter : Char) (n : Nat) : String :=
  "$" ++ String.singleton letter ++ toString n

theorem toList_freshName (letter : Char) (n : Nat) :
    (freshName letter n).toList = '$' :: letter :: Decimal.digitChars n := by
  rw [freshName, String.toList_append, String.toList_append,
    show toString n = String.ofList (Decimal.digitChars n) from rfl, String.toList_ofList]
  simp

/-- Added variables with different numbers are different. -/
theorem freshName_inj {letter letter' : Char} {m n : Nat}
    (h : freshName letter m = freshName letter' n) : m = n := by
  have hchars := congrArg String.toList h
  rw [toList_freshName, toList_freshName] at hchars
  simp only [List.cons.injEq, true_and] at hchars
  -- the digits give back the number
  rw [← Decimal.value_digitChars m, hchars.2, Decimal.value_digitChars]

/-- No added variable holds an equals sign, if its letter is none. -/
theorem not_mem_freshName {letter : Char} (hletter : letter ≠ '=') (n : Nat) :
    '=' ∉ (freshName letter n).toList := by
  rw [toList_freshName, List.mem_cons, List.mem_cons, not_or, not_or]
  refine ⟨by decide, hletter.symm, fun h => ?_⟩
  have hdigit := Decimal.isDigit_of_mem_digitChars h
  exact absurd hdigit (by decide)

/-- No added variable is one without dollar sign. -/
theorem freshName_ne {var : String} (hvar : '$' ∉ var.toList) (letter : Char) (n : Nat) :
    freshName letter n ≠ var := by
  rintro rfl
  exact hvar (by simp [toList_freshName])

end Compile

end Find

open Find.Compile (freshName freshName_inj freshName_ne)

/-- A binding gives an entity to a variable, and none to the variables that are added from a number
on. -/
structure Binding.IsReady (var : String) (x : Atom) (n : Nat) (b : Binding) : Prop where
  entity : b.get? var = some x
  fresh : ∀ letter m, n ≤ m → b.get? (freshName letter m) = none

section Ready

variable {var : String} {x v : Atom} {n m : Nat} {b : Binding}

/-- A binding is ready for later variables. -/
theorem Binding.IsReady.mono (h : b.IsReady var x n) (hle : n ≤ m) : b.IsReady var x m :=
  ⟨h.entity, fun letter k hk => h.fresh letter k (Nat.le_trans hle hk)⟩

/-- Binding the next variable leaves a binding ready for those after it. -/
theorem Binding.IsReady.insert (hvar : '$' ∉ var.toList) (h : b.IsReady var x n) (letter : Char) :
    (b.insert (freshName letter n) v).IsReady var x (n + 1) := by
  constructor
  · rw [get?_insert, if_neg (freshName_ne hvar letter n).symm]
    exact h.entity
  · intro letter' m hm
    rw [get?_insert, if_neg]
    · exact h.fresh letter' m (by omega)
    · intro heq
      have hsame := freshName_inj heq
      omega

end Ready

/-- A tuple that fits a pattern of three columns has three columns. -/
theorem TuplePattern.exists_of_fits_three {p₀ p₁ p₂ : Option Atom} {t : Tuple}
    (h : TuplePattern.fits [p₀, p₁, p₂] t = true) : ∃ a₀ a₁ a₂, t = [a₀, a₁, a₂] := by
  match t with
  | [a₀, a₁, a₂] => exact ⟨a₀, a₁, a₂, rfl⟩
  | [] | [_] | [_, _] | _ :: _ :: _ :: _ :: _ =>
    cases p₀ <;> cases p₁ <;> cases p₂ <;> simp [TuplePattern.fits] at h

namespace Goal

/-- A goal that looks up facts only, and whose variables hold no equals sign. -/
def IsFactual (goal : Goal) : Prop :=
  ∀ l, goal.Mentions l → l.IsLegible ∧ (l.predicate.isRelation = true → l.predicate = .attr)

/-- A literal is factual by itself. -/
theorem isFactual_literal {l : Literal} (hlegible : l.IsLegible)
    (hattr : l.predicate.isRelation = true → l.predicate = .attr) : (literal l).IsFactual := by
  rintro _ ⟨⟩
  exact ⟨hlegible, hattr⟩

/-- Looking up an attribute is factual. -/
theorem isFactual_attrGoal {entity attr value : Term}
    (h : ∀ name, Term.var name ∈ [entity, attr, value] → '=' ∉ name.toList) :
    (Find.Compile.attrGoal entity attr value).IsFactual :=
  isFactual_literal h fun _ => rfl

/-- A choice is factual where all goals in it are. -/
theorem isFactual_anyOf {branches : List (List Goal)}
    (h : ∀ branch ∈ branches, ∀ goal ∈ branch, goal.IsFactual) : (anyOf branches).IsFactual := by
  rintro l (_ | _ | ⟨hbranch, hgoal, hl⟩)
  exact h _ hbranch _ hgoal l hl

variable {w : WorkingSet} {var name attr : String} {x : Atom} {b c : Binding}

/-- Looking up an attribute of an entity binds a variable without value to one of its values. -/
theorem mem_solutions_attrGoal (hentity : b.get? var = some x) (hname : b.get? name = none) :
    c ∈ solutions w (Find.Compile.attrGoal (.var var) (.const (.text attr)) (.var name)) b ↔
      ∃ v, w.HasValue x attr v ∧ c = b.insert name v := by
  rw [Find.Compile.attrGoal, solutions_literal,
    if_pos (show Predicate.attr.isRelation = true from rfl), Literal.mem_lookup]
  have hbind : ∀ a₀ a₁ v : Atom, a₀.canonical = x.canonical →
      Literal.bind? b [.var var, .const (.text attr), .var name] [a₀, a₁, v] =
        some (b.insert name v) := by
    intro a₀ a₁ v hcanonical
    simp [Literal.bind?, Binding.unify?_def, hentity, hname, hcanonical]
  simp only [List.map_cons, List.map_nil, Binding.resolve, hentity, hname]
  constructor
  · rintro ⟨-, t, ht, hfits, hc⟩
    obtain ⟨a₀, a₁, v, rfl⟩ := TuplePattern.exists_of_fits_three hfits
    obtain ⟨hx, hattr⟩ :
        a₀.canonical = x.canonical ∧ a₁.canonical = (Atom.text attr).canonical := by
      simpa [TuplePattern.fits] using hfits
    rw [hbind a₀ a₁ v hx] at hc
    exact ⟨v, ⟨a₀, a₁, ht, hx, hattr⟩, (Option.some.inj hc).symm⟩
  · rintro ⟨v, ⟨a₀, a₁, ht, hx, hattr⟩, rfl⟩
    exact ⟨rfl, [a₀, a₁, v], ht, by simp [TuplePattern.fits, hx, hattr], hbind a₀ a₁ v hx⟩

/-- A filter on a value lets a binding pass or not. -/
theorem mem_solutions_filter {predicate : Predicate} (hfilter : predicate.isRelation = false)
    {v : Atom} (hname : b.get? name = some v) (values : List Atom) :
    c ∈ solutions w (Find.Compile.filter predicate name (values.map .const)) b ↔
      Filter.passesOf predicate (v :: values) = true ∧ c = b := by
  have hvalues : (Term.var name :: values.map .const).mapM b.resolve = some (v :: values) := by
    have hconst : (values.map Term.const).mapM b.resolve = some values := by
      induction values with
      | nil => rfl
      | cons a rest ih => simp [Binding.resolve, ih]
    simp [hconst, Binding.resolve, hname]
  have hpasses : Filter.passes predicate (Term.var name :: values.map .const) b =
      Filter.passesOf predicate (v :: values) := by
    rw [Bool.eq_iff_iff, Filter.passes_iff, hvalues]
    simp
  rw [Find.Compile.filter, solutions_literal, if_neg (by simp [hfilter]), hpasses]
  split <;> simp [*]

end Goal

namespace Find.Compile

open Goal

/-- The solutions of goals test an entity: there is one if and only if the entity has a property,
and all are ready for the variables that are added later. -/
structure Tests (find : Binding → List Binding) (var : String) (n n' : Nat)
    (holds : Atom → Prop) : Prop where
  le : n ≤ n'
  exists_iff : ∀ x b, b.IsReady var x n → ((∃ c, c ∈ find b) ↔ holds x)
  ready : ∀ x b c, b.IsReady var x n → c ∈ find b → c.IsReady var x n'

/-- Goals that bind a variable to a value that an entity shows. -/
structure Carries (w : WorkingSet) (var : String) (look : Option String) (n n' : Nat)
    (carrier : String) (goals : List Goal) : Prop where
  le : n ≤ n'
  ready : ∀ x b c, b.IsReady var x n → c ∈ solutionsEach w goals [b] → c.IsReady var x n'
  sound : ∀ x b c, b.IsReady var x n → c ∈ solutionsEach w goals [b] →
    ∃ v, c.get? carrier = some v ∧ w.Shows x look v
  complete : ∀ x b v, b.IsReady var x n → w.Shows x look v →
    ∃ c ∈ solutionsEach w goals [b], c.get? carrier = some v

section Compose

variable {w : WorkingSet} {var : String} {n n' n'' : Nat} {holds holds' : Atom → Prop}

/-- What is tested may be said in another way. -/
theorem Tests.congr {find : Binding → List Binding} (h : Tests find var n n' holds)
    (hsame : ∀ x, holds x ↔ holds' x) : Tests find var n n' holds' :=
  ⟨h.le, fun x b hb => (h.exists_iff x b hb).trans (hsame x), h.ready⟩

/-- No goals test nothing. -/
theorem Tests.nil : Tests (fun b => solutionsEach w [] [b]) var n n fun _ => True := by
  refine ⟨Nat.le_refl n, fun x b _ => by simp, fun x b c hb hc => ?_⟩
  obtain rfl : c = b := by simpa using hc
  exact hb

/-- Goals one after the other test both properties. -/
theorem Tests.append {front back : List Goal}
    (hfront : Tests (fun b => solutionsEach w front [b]) var n n' holds)
    (hback : Tests (fun b => solutionsEach w back [b]) var n' n'' holds') :
    Tests (fun b => solutionsEach w (front ++ back) [b]) var n n'' fun x => holds x ∧ holds' x := by
  refine ⟨Nat.le_trans hfront.le hback.le, fun x b hb => ?_, fun x b c hb hc => ?_⟩
  · rw [← hfront.exists_iff x b hb]
    constructor
    · rintro ⟨c, hc⟩
      obtain ⟨d, hd, hc⟩ := mem_solutionsEach_append.1 hc
      exact ⟨⟨d, hd⟩, (hback.exists_iff x d (hfront.ready x b d hb hd)).1 ⟨c, hc⟩⟩
    · rintro ⟨⟨d, hd⟩, hholds⟩
      obtain ⟨c, hc⟩ := (hback.exists_iff x d (hfront.ready x b d hb hd)).2 hholds
      exact ⟨c, mem_solutionsEach_append.2 ⟨d, hd, hc⟩⟩
  · obtain ⟨d, hd, hc⟩ := mem_solutionsEach_append.1 hc
    exact hback.ready x d c (hfront.ready x b d hb hd) hc

/-- A single branch tests what its goals test. -/
theorem Tests.branch {goals : List Goal}
    (h : Tests (fun b => solutionsEach w goals [b]) var n n' holds) :
    Tests (solutionsAny w [goals]) var n n' holds := by
  have hsame : solutionsAny w [goals] = fun b => solutionsEach w goals [b] := by
    funext b
    rw [solutionsAny_cons, solutionsAny_nil, List.append_nil]
  rwa [hsame]

/-- Branches next to each other test one of two properties. -/
theorem Tests.branches {left right : List (List Goal)}
    (hleft : Tests (solutionsAny w left) var n n' holds)
    (hright : Tests (solutionsAny w right) var n' n'' holds') :
    Tests (solutionsAny w (left ++ right)) var n n'' fun x => holds x ∨ holds' x := by
  have hmem : ∀ b c, c ∈ solutionsAny w (left ++ right) b ↔
      c ∈ solutionsAny w left b ∨ c ∈ solutionsAny w right b := by
    intro b c
    simp only [mem_solutionsAny, List.mem_append, or_and_right, exists_or]
  refine ⟨Nat.le_trans hleft.le hright.le, fun x b hb => ?_, fun x b c hb hc => ?_⟩
  · rw [← hleft.exists_iff x b hb, ← hright.exists_iff x b (hb.mono hleft.le), ← exists_or]
    exact exists_congr (hmem b)
  · rcases (hmem b c).1 hc with hc | hc
    · exact (hleft.ready x b c hb hc).mono hright.le
    · exact hright.ready x b c (hb.mono hleft.le) hc

/-- A choice tests what its branches test, whichever of its solutions are kept. -/
theorem Tests.anyOf {branches : List (List Goal)}
    (h : Tests (solutionsAny w branches) var n n' holds) :
    Tests (fun b => solutionsEach w [.anyOf branches] [b]) var n n' holds := by
  have hmem : ∀ b c, c ∈ solutionsEach w [.anyOf branches] [b] ↔
      c ∈ distinctBy Binding.canonical (solutionsAny w branches b) := by
    intro b c
    simp [mem_solutionsEach_cons, solutions_anyOf]
  refine ⟨h.le, fun x b hb => ?_, fun x b c hb hc => ?_⟩
  · rw [← h.exists_iff x b hb]
    constructor
    · rintro ⟨c, hc⟩
      exact ⟨c, mem_of_mem_distinctBy ((hmem b c).1 hc)⟩
    · rintro ⟨c, hc⟩
      obtain ⟨d, hd, -⟩ := exists_mem_distinctBy Binding.canonical hc
      exact ⟨d, (hmem b d).2 hd⟩
  · exact h.ready x b c hb (mem_of_mem_distinctBy ((hmem b c).1 hc))

/-- Binding a value tests whether there is one. -/
theorem Carries.tests {look : Option String} {carrier : String} {goals : List Goal}
    (h : Carries w var look n n' carrier goals) :
    Tests (fun b => solutionsEach w goals [b]) var n n' fun x => ∃ v, w.Shows x look v := by
  refine ⟨h.le, fun x b hb => ⟨?_, ?_⟩, h.ready⟩
  · rintro ⟨c, hc⟩
    obtain ⟨v, -, hshows⟩ := h.sound x b c hb hc
    exact ⟨v, hshows⟩
  · rintro ⟨v, hshows⟩
    obtain ⟨c, hc, -⟩ := h.complete x b v hb hshows
    exact ⟨c, hc⟩

/-- A value that is carried is tested by a filter. -/
theorem Carries.filter {look : Option String} {carrier : String} {goals : List Goal}
    (h : Carries w var look n n' carrier goals) {predicate : Predicate}
    (hfilter : predicate.isRelation = false) (values : List Atom) :
    Tests (fun b => solutionsEach w (goals ++ [filter predicate carrier (values.map .const)]) [b])
      var n n' fun x => ∃ v, w.Shows x look v ∧ Filter.passesOf predicate (v :: values) = true := by
  refine ⟨h.le, fun x b hb => ?_, fun x b c hb hc => ?_⟩
  · simp only [mem_solutionsEach_append, mem_solutionsEach_cons, solutionsEach_nil,
      List.mem_singleton]
    constructor
    · rintro ⟨c, d, hd, d', hd', rfl⟩
      obtain ⟨v, hv, hshows⟩ := h.sound x b d hb hd
      exact ⟨v, hshows, ((mem_solutions_filter hfilter hv values).1 hd').1⟩
    · rintro ⟨v, hshows, hpasses⟩
      obtain ⟨d, hd, hv⟩ := h.complete x b v hb hshows
      exact ⟨d, d, hd, d, (mem_solutions_filter hfilter hv values).2 ⟨hpasses, rfl⟩, rfl⟩
  · simp only [mem_solutionsEach_append, mem_solutionsEach_cons, solutionsEach_nil,
      List.mem_singleton] at hc
    obtain ⟨d, hd, d', hd', rfl⟩ := hc
    obtain ⟨v, hv, -⟩ := h.sound x b d hb hd
    obtain ⟨-, rfl⟩ := (mem_solutions_filter hfilter hv values).1 hd'
    exact h.ready x b c hb hd

end Compose

section Clauses

variable (w : WorkingSet) (options : CompilerOptions) (aliases : Aliases) {var : String}

/-- Binding a field of the variable carries a value that the entity shows. -/
theorem carries_bind (hvar : '$' ∉ var.toList) (letter : Char) {f : Field} (hf : f.var = var)
    (n : Nat) :
    Carries w var (lookedUp? aliases f) n ((bind aliases letter f).run n).2
      ((bind aliases letter f).run n).1.1 ((bind aliases letter f).run n).1.2 := by
  unfold bind
  cases lookedUp? aliases f with
  | none =>
    -- the variable itself, without goals
    refine ⟨Nat.le_refl n, fun x b c hb hc => ?_, fun x b c hb hc => ?_, fun x b v hb hv => ?_⟩
    · obtain rfl : c = b := List.mem_singleton.1 hc
      exact hb
    · obtain rfl : c = b := List.mem_singleton.1 hc
      exact ⟨x, hf ▸ hb.entity, rfl⟩
    · obtain rfl : v = x := hv
      exact ⟨b, List.mem_singleton_self b, hf ▸ hb.entity⟩
  | some attr =>
    have hmem : ∀ x b c, b.IsReady var x n →
        (c ∈ solutionsEach w
            [attrGoal (.var f.var) (.const (.text attr)) (.var (freshName letter n))] [b] ↔
          ∃ v, w.HasValue x attr v ∧ c = b.insert (freshName letter n) v) := by
      intro x b c hb
      rw [← mem_solutions_attrGoal (hf ▸ hb.entity) (hb.fresh letter n (Nat.le_refl n)), hf,
        mem_solutionsEach_cons]
      simp
    refine ⟨Nat.le_succ n, fun x b c hb hc => ?_, fun x b c hb hc => ?_, fun x b v hb hv => ?_⟩
    · obtain ⟨v, -, rfl⟩ := (hmem x b c hb).1 hc
      exact hb.insert hvar letter
    · obtain ⟨v, hv, rfl⟩ := (hmem x b c hb).1 hc
      exact ⟨v, (b.get?_insert _ v _).trans (if_pos rfl), hv⟩
    · exact ⟨_, (hmem x b _ hb).2 ⟨v, hv, rfl⟩, (b.get?_insert _ v _).trans (if_pos rfl)⟩

/-- The goals of a condition are a look-up and a filter that lets pass what the condition
accepts. -/
theorem conditionGoals_eq {c : Condition} (hplain : c.IsPlain var) :
    ∃ f predicate values, c.field? = some f ∧ f.var = var ∧ predicate.isRelation = false ∧
      conditionGoals aliases c = testGoals aliases f predicate (values.map .const) ∧
      ∀ v, Filter.passesOf predicate (v :: values) = c.accepts v := by
  have hliteral : ∀ {o : Operand}, o.value?.isSome →
      ∃ a, o.value? = some a ∧ o.toTerm = .const a := by
    intro o ho
    cases o with
    | var name => simp [Operand.value?] at ho
    | _ => exact ⟨_, rfl, rfl⟩
  cases c with
  | compare f op operand =>
    obtain ⟨a, hvalue, hterm⟩ := hliteral hplain.2
    refine ⟨f, .compare op, [a], rfl, hplain.1, rfl, ?_, fun v => ?_⟩
    · rw [conditionGoals, hterm]
      rfl
    · rw [Condition.accepts, hvalue]
      rfl
  | between f low high =>
    exact ⟨f, .between, [.number low, .number high], rfl, hplain, rfl, rfl, fun v => rfl⟩
  | contains f text => exact ⟨f, .contains, [.text text], rfl, hplain, rfl, rfl, fun v => rfl⟩
  | matching f body flags =>
    exact ⟨f, .regex, [.text ("/" ++ body ++ "/" ++ flags)], rfl, hplain, rfl, rfl, fun v => rfl⟩
  | member f operand =>
    obtain ⟨a, hvalue, hterm⟩ := hliteral hplain.2
    refine ⟨f, .member, [a], rfl, hplain.1, rfl, ?_, fun v => ?_⟩
    · rw [conditionGoals, hterm]
      rfl
    · rw [Condition.accepts, hvalue]
      rfl
  | call name operands => exact absurd hplain id

/-- The goals of a condition test whether the entity shows a value that passes. -/
theorem tests_condition (hvar : '$' ∉ var.toList) {c : Condition} (hplain : c.IsPlain var)
    (n : Nat) :
    Tests (fun b => solutionsEach w ((conditionGoals aliases c).run n).1 [b]) var n
      ((conditionGoals aliases c).run n).2 fun x => c.HoldsAt w aliases x := by
  obtain ⟨f, predicate, values, hfield, hf, hfilter, hgoals, haccepts⟩ :=
    conditionGoals_eq aliases hplain
  rw [hgoals]
  refine ((carries_bind w aliases hvar 't' hf n).filter hfilter values).congr fun x => ?_
  simp only [Condition.HoldsAt, hfield, Option.some.injEq, exists_and_left, exists_eq_left',
    haccepts]

/-- The goals of a clause test whether the entity meets it, and so do its branches. -/
theorem tests_clause (hvar : '$' ∉ var.toList) {c : Clause}
    (hplain : ∀ condition ∈ c.conditions, condition.IsPlain var) (n : Nat) :
    Tests (fun b => solutionsEach w ((clauseGoals options aliases c).run n).1 [b]) var n
        ((clauseGoals options aliases c).run n).2
        (fun x => c.Meets options.orMode (·.HoldsAt w aliases x)) ∧
      (options.orMode = .disjunctive →
        Tests (solutionsAny w ((clauseBranches options aliases c).run n).1) var n
          ((clauseBranches options aliases c).run n).2
          fun x => c.Meets options.orMode (·.HoldsAt w aliases x)) := by
  induction c generalizing n with
  | both left right hleft hright =>
    rw [Clause.conditions, List.forall_mem_append] at hplain
    have hgoals := (hleft hplain.1 n).1.append (hright hplain.2 _).1
    rw [clauseGoals, clauseBranches]
    exact ⟨hgoals, fun _ => hgoals.branch⟩
  | either left right hleft hright =>
    rw [Clause.conditions, List.forall_mem_append] at hplain
    rw [clauseGoals, clauseBranches]
    cases hmode : options.orMode with
    | conjunctive =>
      have hgoals := (hleft hplain.1 n).1.append (hright hplain.2 _).1
      rw [hmode] at hgoals
      exact ⟨hgoals, fun h => by simp at h⟩
    | disjunctive =>
      have hbranches := ((hleft hplain.1 n).2 hmode).branches ((hright hplain.2 _).2 hmode)
      rw [hmode] at hbranches
      exact ⟨hbranches.anyOf, fun _ => hbranches⟩
  | condition c =>
    have hgoals := tests_condition w aliases hvar
      (hplain c (List.mem_singleton.2 rfl)) n
    rw [clauseGoals, clauseBranches]
    exact ⟨hgoals, fun _ => hgoals.branch⟩

/-- Binding a field of the variable looks up facts only. -/
theorem isFactual_bind (hvar : '=' ∉ var.toList) {letter : Char} (hletter : letter ≠ '=')
    {f : Field} (hf : f.var = var) (n : Nat) :
    '=' ∉ ((bind aliases letter f).run n).1.1.toList ∧
      ∀ goal ∈ ((bind aliases letter f).run n).1.2, goal.IsFactual := by
  unfold bind
  cases lookedUp? aliases f with
  | none => exact ⟨hf ▸ hvar, fun _ hgoal => absurd hgoal List.not_mem_nil⟩
  | some attr =>
    have hname := not_mem_freshName hletter n
    refine ⟨hname, List.forall_mem_singleton.2 (isFactual_attrGoal fun name hmem => ?_)⟩
    replace hmem : Term.var name ∈ [.var f.var, .const (.text attr), .var (freshName letter n)] :=
      hmem
    rcases (by simpa using hmem : name = f.var ∨ name = freshName letter n) with rfl | rfl
    · exact hf ▸ hvar
    · exact hname

/-- The goals of a condition look up facts only. -/
theorem isFactual_condition (hvar : '=' ∉ var.toList) {c : Condition} (hplain : c.IsPlain var)
    (n : Nat) : ∀ goal ∈ ((conditionGoals aliases c).run n).1, goal.IsFactual := by
  obtain ⟨f, predicate, values, -, hf, hfilter, hgoals, -⟩ :=
    conditionGoals_eq aliases hplain
  obtain ⟨hcarrier, hlookup⟩ :=
    isFactual_bind aliases hvar (show 't' ≠ '=' by decide) hf n
  have hlast : (filter predicate ((bind aliases 't' f).run n).1.1
      (values.map .const)).IsFactual := by
    refine isFactual_literal (fun name hname => ?_) fun h => by simp [hfilter] at h
    obtain rfl : name = ((bind aliases 't' f).run n).1.1 := by simpa using hname
    exact hcarrier
  rw [hgoals]
  exact List.forall_mem_append.2 ⟨hlookup, List.forall_mem_singleton.2 hlast⟩

/-- The goals of a clause look up facts only, and so do its branches. -/
theorem isFactual_clause (hvar : '=' ∉ var.toList) {c : Clause}
    (hplain : ∀ condition ∈ c.conditions, condition.IsPlain var) (n : Nat) :
    (∀ goal ∈ ((clauseGoals options aliases c).run n).1, goal.IsFactual) ∧
      ∀ branch ∈ ((clauseBranches options aliases c).run n).1, ∀ goal ∈ branch,
        goal.IsFactual := by
  induction c generalizing n with
  | both left right hleft hright =>
    rw [Clause.conditions, List.forall_mem_append] at hplain
    have hgoals := List.forall_mem_append.2 ⟨(hleft hplain.1 n).1,
      (hright hplain.2 ((clauseGoals options aliases left).run n).2).1⟩
    rw [clauseGoals, clauseBranches]
    exact ⟨hgoals, List.forall_mem_singleton.2 hgoals⟩
  | either left right hleft hright =>
    rw [Clause.conditions, List.forall_mem_append] at hplain
    have hbranches := List.forall_mem_append.2 ⟨(hleft hplain.1 n).2,
      (hright hplain.2 ((clauseBranches options aliases left).run n).2).2⟩
    rw [clauseGoals, clauseBranches]
    cases options.orMode with
    | conjunctive =>
      exact ⟨List.forall_mem_append.2 ⟨(hleft hplain.1 _).1, (hright hplain.2 _).1⟩, hbranches⟩
    | disjunctive => exact ⟨List.forall_mem_singleton.2 (isFactual_anyOf hbranches), hbranches⟩
  | condition c =>
    have hgoals := isFactual_condition aliases hvar
      (hplain c (List.mem_singleton.2 rfl)) n
    rw [clauseGoals, clauseBranches]
    exact ⟨hgoals, List.forall_mem_singleton.2 hgoals⟩

end Clauses

end Find.Compile

end Factbase
