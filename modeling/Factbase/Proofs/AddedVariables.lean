import Mathlib.Data.List.Nodup
import Factbase.Proofs.ClauseMeaning
import Factbase.Proofs.CompiledLiterals

/-! # The variables that a compilation adds

A compilation adds one variable for each look-up of a field with a path: for the tested fields, for
the columns, each once, and for the field to sort by, unless that is a column
(`Find.Query.lookups`). These look-ups are numbered from zero on, so their variables differ from
each other and from those of the query, whichever branch of a choice they stand in; each has one
look-up, outside any choice if it is part of the answer, and is read by one test or one column
(`Find.Query.bindsOnce_compile`).

The literals of conditions, columns and sort key are gone through one after the other, with the
numbers before and after them (`Find.Compile.Adds`). -/

namespace Factbase

open Find (isAdded isAdded_freshName)
open Find.Compile (freshName freshName_inj)

namespace Literal

variable {l : Literal} {name : String}

/-- The added variables among the terms of a literal, as often as they stand there. -/
def added (l : Literal) : List String := (l.terms.filterMap Term.var?).filter isAdded

theorem mem_added : name ∈ l.added ↔ Term.var name ∈ l.terms ∧ isAdded name = true := by
  rw [added, List.mem_filter, List.mem_filterMap]
  refine and_congr_left fun _ => ⟨?_, fun hmem => ⟨_, hmem, rfl⟩⟩
  rintro ⟨t, ht, hvar⟩
  cases t with
  | var other => rwa [Option.some.inj hvar] at ht
  | const a => simp [Term.var?] at hvar

/-- Terms without added variables. -/
theorem added_eq_nil {predicate : Predicate} {terms : List Term}
    (h : ∀ name, Term.var name ∈ terms → isAdded name = false) :
    (⟨predicate, terms⟩ : Literal).added = [] := by
  refine List.eq_nil_iff_forall_not_mem.2 fun name hname => ?_
  obtain ⟨hmem, hadded⟩ := mem_added.1 hname
  rw [h name hmem] at hadded
  simp at hadded

/-- Whether the literal looks up facts with a variable. -/
def looksUp (name : String) (l : Literal) : Bool :=
  l.predicate = .attr && l.terms.contains (.var name)

/-- Whether the literal looks up facts with an added variable. -/
def looksUpAdded (l : Literal) : Bool := l.predicate = .attr && !l.added.isEmpty

theorem looksUpAdded_of_looksUp (hname : isAdded name = true) (h : l.looksUp name = true) :
    l.looksUpAdded = true := by
  simp only [looksUp, looksUpAdded, Bool.and_eq_true, List.contains_iff_mem] at h ⊢
  have hmem : name ∈ l.added := mem_added.2 ⟨h.2, hname⟩
  exact ⟨h.1, by simp [List.ne_nil_of_mem hmem]⟩

end Literal

namespace Find

namespace Compile

/-! ## Numbered look-ups -/

/-- The look-up of an attribute of an entity, with the letter that its variable is named by. -/
structure Lookup where
  letter : Char
  entity : String
  attr : String

/-- The variable of a look-up under a number. -/
def Lookup.carrier (s : Lookup) (n : Nat) : String := freshName s.letter n

/-- The literal of a look-up under a number. -/
def Lookup.literal (s : Lookup) (n : Nat) : Literal :=
  ⟨.attr, [.var s.entity, .const (.text s.attr), .var (s.carrier n)]⟩

/-- The variables of look-ups that are numbered from a number on. -/
def carriers (n : Nat) (lookups : List Lookup) : List String :=
  (lookups.zipIdx n).map fun e => e.1.carrier e.2

/-- The literals of look-ups that are numbered from a number on. -/
def numbered (n : Nat) (lookups : List Lookup) : List Literal :=
  (lookups.zipIdx n).map fun e => e.1.literal e.2

/-- The look-ups of the fields that have an attribute. -/
def fieldLookups (aliases : Aliases) (letter : Char) (fields : List Field) : List Lookup :=
  fields.filterMap fun f => (lookedUp? aliases f).map fun attr => ⟨letter, f.var, attr⟩

section Numbered

variable {n : Nat} {lookups front back : List Lookup} {s : Lookup} {name : String}
  {aliases : Aliases} {letter : Char} {fields fields' : List Field}

theorem fieldLookups_append :
    fieldLookups aliases letter (fields ++ fields') =
      fieldLookups aliases letter fields ++ fieldLookups aliases letter fields' :=
  List.filterMap_append

theorem fieldLookups_cons {f : Field} :
    fieldLookups aliases letter (f :: fields) =
      fieldLookups aliases letter [f] ++ fieldLookups aliases letter fields := by
  rw [← fieldLookups_append, List.singleton_append]

theorem carriers_append :
    carriers n (front ++ back) = carriers n front ++ carriers (n + front.length) back := by
  rw [carriers, List.zipIdx_append, List.map_append]
  rfl

theorem numbered_append :
    numbered n (front ++ back) = numbered n front ++ numbered (n + front.length) back := by
  rw [numbered, List.zipIdx_append, List.map_append]
  rfl

/-- A numbered variable has a number from the first on. -/
theorem exists_carrier_of_mem_carriers (h : name ∈ carriers n lookups) :
    ∃ (s : Lookup) (m : Nat), n ≤ m ∧ name = s.carrier m := by
  obtain ⟨⟨s, m⟩, hmem, rfl⟩ := List.mem_map.1 h
  exact ⟨s, m, (List.mem_zipIdx hmem).1, rfl⟩

theorem isAdded_of_mem_carriers (h : name ∈ carriers n lookups) : isAdded name = true := by
  obtain ⟨s, m, -, rfl⟩ := exists_carrier_of_mem_carriers h
  exact isAdded_freshName s.letter m

/-- Variables with different numbers are different. -/
theorem nodup_carriers (n : Nat) (lookups : List Lookup) : (carriers n lookups).Nodup := by
  induction lookups generalizing n with
  | nil => exact List.nodup_nil
  | cons s rest ih =>
    refine List.nodup_cons.2 ⟨fun hmem => ?_, ih (n + 1)⟩
    obtain ⟨s', m, hm, heq⟩ := exists_carrier_of_mem_carriers hmem
    have hsame := freshName_inj heq
    omega

/-- The variable of a look-up is the only added one in its literal. -/
theorem added_literal (h : isAdded s.entity = false) (n : Nat) :
    (s.literal n).added = [s.carrier n] := by
  have hadded : isAdded (s.carrier n) = true := isAdded_freshName s.letter n
  have hnames : (s.literal n).added = [s.entity, s.carrier n].filter isAdded := rfl
  simp [hnames, h, hadded]

/-- The variable that the literal of a look-up looks up is its own. -/
theorem looksUp_literal (h : isAdded s.entity = false) (hname : isAdded name = true) (n : Nat) :
    (s.literal n).looksUp name = (s.carrier n == name) := by
  have hne : name ≠ s.entity := by
    rintro rfl
    simp [hname] at h
  rw [Bool.eq_iff_iff, beq_iff_eq]
  simp [Literal.looksUp, Lookup.literal, hne, eq_comm]

/-- The added variables in the literals of look-ups are their own. -/
theorem mem_carriers_of_mem_numbered {l : Literal} (h : ∀ s ∈ lookups, isAdded s.entity = false)
    (hl : l ∈ numbered n lookups) (hname : name ∈ l.added) : name ∈ carriers n lookups := by
  obtain ⟨e, he, rfl⟩ := List.mem_map.1 hl
  obtain ⟨-, -, hs⟩ := List.mem_zipIdx he
  rw [added_literal (h e.1 (hs ▸ List.getElem_mem _)), List.mem_singleton] at hname
  exact List.mem_map.2 ⟨e, he, hname.symm⟩

/-- One literal of numbered look-ups looks up each of their variables. -/
theorem countP_looksUp_numbered (h : ∀ s ∈ lookups, isAdded s.entity = false)
    (hname : name ∈ carriers n lookups) :
    (numbered n lookups).countP (·.looksUp name) = 1 := by
  have hadded := isAdded_of_mem_carriers hname
  have hcount : (carriers n lookups).count name = 1 :=
    List.count_eq_one_of_mem (nodup_carriers n lookups) hname
  rw [carriers, List.count, List.countP_map] at hcount
  rw [numbered, List.countP_map, ← hcount]
  refine List.countP_congr fun e he => ?_
  obtain ⟨-, -, hs⟩ := List.mem_zipIdx he
  rw [Function.comp_apply, Function.comp_apply,
    looksUp_literal (h e.1 (hs ▸ List.getElem_mem _)) hadded]

/-- Each of their variables is looked up. -/
theorem exists_looksUp_of_mem_carriers (h : ∀ s ∈ lookups, isAdded s.entity = false)
    (hname : name ∈ carriers n lookups) : ∃ l ∈ numbered n lookups, l.looksUp name = true := by
  have hpos : 0 < (numbered n lookups).countP (·.looksUp name) := by
    rw [countP_looksUp_numbered h hname]
    exact Nat.one_pos
  exact List.countP_pos_iff.1 hpos

end Numbered

/-! ## What goals add -/

/-- The added variables in the literals that do not look up facts. -/
def testedIn (ls : List Literal) : List String :=
  (ls.filter (·.predicate ≠ .attr)).flatMap Literal.added

/-- The literals that are written while a compilation counts from one number to another: some
look-ups, numbered on, and tests of some added variables. -/
structure Adds (n n' : Nat) (lookups : List Lookup) (tested : List String) (ls : List Literal) :
    Prop where
  next : n' = n + lookups.length
  lookups : ls.filter Literal.looksUpAdded = numbered n lookups
  tested : testedIn ls = tested

namespace Adds

variable {n n' n'' : Nat} {front back : List Lookup} {tested tested' : List String}
  {ls ls' : List Literal} {l : Literal}

theorem append (h : Adds n n' front tested ls) (h' : Adds n' n'' back tested' ls') :
    Adds n n'' (front ++ back) (tested ++ tested') (ls ++ ls') := by
  obtain ⟨rfl, hlookups, rfl⟩ := h
  obtain ⟨rfl, hlookups', rfl⟩ := h'
  refine ⟨?_, ?_, ?_⟩
  · rw [List.length_append, Nat.add_assoc]
  · rw [List.filter_append, hlookups, hlookups', numbered_append]
  · rw [testedIn, List.filter_append, List.flatMap_append]
    rfl

/-- A literal without added variables adds nothing. -/
theorem of_added_eq_nil (n : Nat) (h : l.added = []) : Adds n n [] [] [l] := by
  refine ⟨rfl, ?_, ?_⟩
  · simp [Literal.looksUpAdded, h, numbered]
  · rw [testedIn]
    by_cases hattr : l.predicate = .attr <;> simp [hattr, h]

/-- A test looks nothing up. -/
theorem test (n : Nat) (hattr : l.predicate ≠ .attr) : Adds n n [] l.added [l] := by
  refine ⟨rfl, ?_, ?_⟩
  · simp [Literal.looksUpAdded, hattr, numbered]
  · simp [testedIn, hattr]

/-- Look-ups are numbered on. -/
theorem numbered {lookups : List Lookup} (h : ∀ s ∈ lookups, isAdded s.entity = false) (n : Nat) :
    Adds n (n + lookups.length) lookups [] (numbered n lookups) := by
  induction lookups generalizing n with
  | nil => exact ⟨rfl, rfl, rfl⟩
  | cons s rest ih =>
    rw [List.forall_mem_cons] at h
    have hfirst : Adds n (n + 1) [s] [] [s.literal n] := by
      refine ⟨rfl, ?_, ?_⟩
      · simp [Literal.looksUpAdded, added_literal h.1, Compile.numbered]
        rfl
      · simp [testedIn, Lookup.literal]
    have hall := hfirst.append (ih h.2 (n + 1))
    rw [List.length_cons, Nat.add_comm rest.length, ← Nat.add_assoc]
    exact hall

end Adds

section Parts

variable (aliases : Aliases) {letter : Char} {f : Field} {fields : List Field}

/-- The look-ups of fields are about their variables. -/
theorem isAdded_entity (hfields : ∀ f ∈ fields, isAdded f.var = false) :
    ∀ s ∈ fieldLookups aliases letter fields, isAdded s.entity = false := by
  intro s hs
  obtain ⟨f, hf, hlook⟩ := List.mem_filterMap.1 hs
  obtain ⟨attr, -, rfl⟩ := Option.map_eq_some_iff.1 hlook
  exact hfields f hf

/-- Binding a field looks it up under the next number if it has an attribute, and else adds
nothing. -/
theorem exists_run_bind (letter : Char) (hf : isAdded f.var = false) (n : Nat) :
    ∃ carrier, (bind aliases letter f).run n =
        ((carrier, (numbered n (fieldLookups aliases letter [f])).map .literal),
          n + (fieldLookups aliases letter [f]).length) ∧
      [carrier].filter isAdded = carriers n (fieldLookups aliases letter [f]) := by
  unfold bind
  cases hlook : lookedUp? aliases f with
  | none =>
    have hlookups : fieldLookups aliases letter [f] = [] := by simp [fieldLookups, hlook]
    rw [hlookups]
    exact ⟨f.var, rfl, by simp [hf, carriers]⟩
  | some attr =>
    have hlookups : fieldLookups aliases letter [f] = [⟨letter, f.var, attr⟩] := by
      simp [fieldLookups, hlook]
    rw [hlookups]
    refine ⟨freshName letter n, rfl, ?_⟩
    rw [List.filter_cons_of_pos (isAdded_freshName letter n)]
    rfl

/-- A condition looks its field up and tests the variable of the look-up. -/
theorem adds_condition {c : Condition} (hwords : ∀ name ∈ c.vars, IsWord name) (n : Nat) :
    Adds n ((conditionGoals aliases c).run n).2
      (fieldLookups aliases 't' ([c].filterMap Condition.field?))
      (carriers n (fieldLookups aliases 't' ([c].filterMap Condition.field?)))
      (Goal.literalsInEach ((conditionGoals aliases c).run n).1) := by
  cases hfield : c.field? with
  | none =>
    cases c with
    | call name operands =>
      refine Adds.of_added_eq_nil n (Literal.added_eq_nil fun name hname => ?_)
      exact (hwords name (Condition.mem_vars.2 (.inr hname))).isAdded
    | _ => simp [Condition.field?] at hfield
  | some f =>
    obtain ⟨predicate, terms, hcompiled⟩ := exists_isTest aliases hfield
    have hf : isAdded f.var = false :=
      (hwords f.var (Condition.mem_vars.2 (.inl ⟨f, hfield, rfl⟩))).isAdded
    obtain ⟨carrier, hrun, hcarrier⟩ := exists_run_bind aliases 't' hf n
    have hattr : predicate ≠ .attr := by
      rintro rfl
      simpa [Predicate.isRelation] using hcompiled.isRelation
    have hadded : (⟨predicate, .var carrier :: terms⟩ : Literal).added =
        carriers n (fieldLookups aliases 't' [f]) := by
      have hterms : (⟨predicate, terms⟩ : Literal).added = [] :=
        Literal.added_eq_nil fun name hname => (hwords name (hcompiled.names name hname)).isAdded
      rw [Literal.added] at hterms ⊢
      have hvar : Term.var? (.var carrier) = some carrier := rfl
      rw [← hcarrier, List.filterMap_cons_some hvar, ← List.singleton_append, List.filter_append,
        hterms, List.append_nil]
    have hgoals : (conditionGoals aliases c).run n =
        ((numbered n (fieldLookups aliases 't' [f])).map .literal ++
            [filter predicate carrier terms],
          n + (fieldLookups aliases 't' [f]).length) := by
      rw [hcompiled.goals, testGoals, StateT.run_bind, hrun]
      rfl
    have hentities : ∀ s ∈ fieldLookups aliases 't' [f], isAdded s.entity = false :=
      isAdded_entity aliases (List.forall_mem_singleton.2 hf)
    have htest : Adds _ _ [] _ [⟨predicate, .var carrier :: terms⟩] :=
      .test (n + (fieldLookups aliases 't' [f]).length) hattr
    have hadds := (Adds.numbered hentities n).append htest
    rw [List.append_nil, List.nil_append, hadded] at hadds
    rw [List.filterMap_cons_some hfield, List.filterMap_nil, hgoals, Goal.literalsInEach_append,
      Goal.literalsInEach_map_literal]
    exact hadds

/-- A clause looks up the fields of its conditions and tests each variable once. -/
theorem adds_clause (options : CompilerOptions) {c : Clause}
    (hwords : ∀ name ∈ c.vars, IsWord name) (n : Nat) :
    Adds n ((clauseGoals options aliases c).run n).2 (fieldLookups aliases 't' c.fields)
      (carriers n (fieldLookups aliases 't' c.fields))
      (Goal.literalsInEach ((clauseGoals options aliases c).run n).1) := by
  refine (literals_clause options aliases
    (P := fun n n' cs ls => Adds n n' (fieldLookups aliases 't' (cs.filterMap Condition.field?))
      (carriers n (fieldLookups aliases 't' (cs.filterMap Condition.field?))) ls)
    (fun h h' => ?_) (fun condition hcondition n => adds_condition aliases (fun name hname => ?_) n)
    n).1
  · rw [List.filterMap_append, fieldLookups_append, carriers_append, ← h.next]
    exact h.append h'
  · exact hwords name (List.mem_flatMap.2 ⟨condition, hcondition, hname⟩)

/-- The columns look up the fields whose names were not seen, each name once. -/
theorem exists_run_columns (hfields : ∀ f ∈ fields, isAdded f.var = false)
    {projection : Projection} {seen : Std.HashSet String}
    (hseen : ∀ name, seen.contains name = (projection.lookup name).isSome) (n : Nat) :
    ∃ more : Projection,
      (columns aliases projection fields).run n =
        ((projection ++ more, (numbered n (fieldLookups aliases 'o'
            (distinctAfter Field.display seen fields))).map .literal),
          n + (fieldLookups aliases 'o' (distinctAfter Field.display seen fields)).length) ∧
      (more.map (·.2)).filter isAdded =
        carriers n (fieldLookups aliases 'o' (distinctAfter Field.display seen fields)) ∧
      more.map (·.1) = (distinctAfter Field.display seen fields).map Field.display := by
  induction fields generalizing projection seen n with
  | nil =>
    refine ⟨[], ?_, rfl, rfl⟩
    rw [List.append_nil]
    rfl
  | cons f rest ih =>
    rw [List.forall_mem_cons] at hfields
    rw [columns, distinctAfter, hseen]
    by_cases hknown : (projection.lookup f.display).isSome = true
    · rw [if_pos hknown, if_pos hknown]
      exact ih hfields.2 hseen n
    · rw [if_neg hknown, if_neg hknown]
      obtain ⟨carrier, hbind, hcarrier⟩ := exists_run_bind aliases 'o' hfields.1 n
      have hseen' : ∀ name, (seen.insert f.display).contains name =
          ((projection ++ [(f.display, carrier)]).lookup name).isSome := by
        intro name
        rw [Std.HashSet.contains_insert, hseen, List.lookup_append, Option.isSome_or,
          lookup_cons_eq_ite, Bool.or_comm]
        by_cases hname : f.display = name
        · simp [hname]
        · simp [hname, Ne.symm hname]
      obtain ⟨more, hrun, hmore, hdisplays⟩ := ih hfields.2 hseen'
        (n + (fieldLookups aliases 'o' [f]).length)
      refine ⟨(f.display, carrier) :: more, ?_, ?_, ?_⟩
      · rw [fieldLookups_cons, numbered_append, List.map_append, List.length_append,
          ← Nat.add_assoc, List.append_cons, StateT.run_bind, hbind]
        change StateT.run (columns aliases _ rest >>= _) _ = _
        rw [StateT.run_bind, hrun]
        rfl
      · rw [fieldLookups_cons, carriers_append, ← hmore, ← hcarrier, ← List.filter_append]
        rfl
      · rw [List.map_cons, List.map_cons, hdisplays]

end Parts

end Compile

open Compile

namespace Query

variable (aliases : Aliases) (q : Query)

/-- The look-ups of the tested fields. -/
def testLookups : List Lookup := fieldLookups aliases 't' (q.conditions.filterMap Condition.field?)

/-- The look-ups of the columns, each column once. -/
def columnLookups : List Lookup :=
  fieldLookups aliases 'o' (distinctBy Field.display (outputFields q))

/-- The look-up of the field to sort by, unless that is a column. -/
def sortLookups : List Lookup :=
  fieldLookups aliases 's' ((q.sortField.toList.map (·.field)).filter fun f =>
    (outputFields q).all fun g => g.display ≠ f.display)

/-- The look-ups of a query, in the order of their numbers. -/
def lookups : List Lookup :=
  q.testLookups aliases ++ q.columnLookups aliases ++ q.sortLookups aliases

end Query

namespace Compile

section Parts

variable (options : CompilerOptions) (aliases : Aliases) {q : Query}
  (hwords : ∀ name ∈ q.vars, IsWord name)
include hwords

/-- The clause of a query looks up the tested fields and tests each variable once. -/
theorem adds_clauseTests : Adds 0 ((clauseTests options aliases q).run 0).2
    (q.testLookups aliases) (carriers 0 (q.testLookups aliases))
    (Goal.literalsInEach ((clauseTests options aliases q).run 0).1) := by
  unfold clauseTests Query.testLookups Query.conditions
  cases hclause : q.clause with
  | none => exact ⟨rfl, rfl, rfl⟩
  | some c =>
    refine adds_clause aliases options (fun name hname => hwords name ?_) 0
    refine List.mem_cons_of_mem _ (List.mem_append_left _ ?_)
    rw [Query.conditions, hclause]
    exact hname

theorem isWord_outputFields : ∀ f ∈ outputFields q, IsWord f.var := by
  intro f hf
  refine hwords f.var ?_
  rcases mem_outputFields.1 hf with (hf | ⟨-, rfl⟩) | ⟨body, flags, hc⟩
  · exact List.mem_cons_of_mem _ (List.mem_append_right _
      (List.mem_map_of_mem (List.mem_append_left _ hf)))
  · exact List.mem_cons_self
  · exact List.mem_cons_of_mem _ (List.mem_append_left _ (List.mem_flatMap.2
      ⟨_, hc, Condition.mem_vars.2 (.inl ⟨f, rfl, rfl⟩)⟩))

/-- The columns of a query look up their fields, and there is a column of each field. -/
theorem exists_run_outputFields (n : Nat) :
    ∃ projection : Projection,
      (columns aliases [] (outputFields q)).run n =
        ((projection, (numbered n (q.columnLookups aliases)).map .literal),
          n + (q.columnLookups aliases).length) ∧
      (projection.map (·.2)).filter isAdded = carriers n (q.columnLookups aliases) ∧
      ∀ name, (projection.lookup name).isSome = true ↔
        ∃ g ∈ outputFields q, g.display = name := by
  have hseen : ∀ name, (∅ : Std.HashSet String).contains name =
      (([] : Projection).lookup name).isSome := fun name => by simp
  obtain ⟨projection, hrun, hcarriers, hdisplays⟩ :=
    exists_run_columns aliases (fun f hf => (isWord_outputFields hwords f hf).isAdded) hseen n
  refine ⟨projection, hrun, hcarriers, fun name => ?_⟩
  have hnames : name ∈ projection.map (·.1) ↔ ∃ g ∈ outputFields q, g.display = name := by
    rw [hdisplays, List.mem_map]
    constructor
    · rintro ⟨g, hg, hname⟩
      exact ⟨g, mem_of_mem_distinctBy hg, hname⟩
    · rintro ⟨g, hg, rfl⟩
      exact exists_mem_distinctBy Field.display hg
  rw [← hnames, List.lookup_isSome_iff, List.mem_map]
  exact exists_congr fun e => and_congr_right fun _ => beq_iff_eq.trans eq_comm

/-- The sort key of a query is a column, or else its field is looked up. -/
theorem exists_run_sortTests {projection : Projection}
    (hprojection : ∀ name, (projection.lookup name).isSome = true ↔
      ∃ g ∈ outputFields q, g.display = name) (n : Nat) :
    ∃ key, (sortTests aliases projection q).run n =
        ((key, (numbered n (q.sortLookups aliases)).map .literal),
          n + (q.sortLookups aliases).length) ∧
      ∀ k, key = some k → projection.lookup k.column = some k.carrier ∨
        [k.carrier].filter isAdded = carriers n (q.sortLookups aliases) := by
  unfold sortTests Query.sortLookups
  cases hsort : q.sortField with
  | none => exact ⟨none, rfl, fun k hk => by simp at hk⟩
  | some s =>
    have hall : (outputFields q).all (fun g => g.display ≠ s.field.display) =
        (projection.lookup s.field.display).isNone := by
      rw [Bool.eq_iff_iff, ← Option.not_isSome, Bool.not_eq_true', ← Bool.not_eq_true, hprojection]
      simp
    rw [Option.toList_some, List.map_singleton, List.filter_singleton, hall]
    unfold sortKey
    dsimp only
    cases hlookup : projection.lookup s.field.display with
    | some carrier =>
      refine ⟨some ⟨s.field.display, carrier, s.direction⟩, rfl, fun k hk => .inl ?_⟩
      rw [← Option.some.inj hk]
      exact hlookup
    | none =>
      have hs : isAdded s.field.var = false := by
        refine (hwords _ (List.mem_cons_of_mem _ (List.mem_append_right _ ?_))).isAdded
        simp [hsort]
      obtain ⟨carrier, hrun, hcarrier⟩ := exists_run_bind aliases 's' hs n
      refine ⟨some ⟨s.field.display, carrier, s.direction⟩, ?_, fun k hk => .inr ?_⟩
      · change StateT.run ((bind aliases 's' s.field >>= _) >>= _) n = _
        rw [StateT.run_bind, StateT.run_bind, hrun]
        rfl
      · rw [← Option.some.inj hk]
        exact hcarrier

end Parts

end Compile

/-- A compiled query has the look-ups of the query, and each of their variables has one purpose. -/
structure Compiled.BindsOnce (aliases : Aliases) (q : Query) (c : Compiled) : Prop where
  /-- Among the literals, those of all branches included, these look up added variables. -/
  lookups : c.literals.filter Literal.looksUpAdded = numbered 0 (q.lookups aliases)
  nodup : (carriers 0 (q.lookups aliases)).Nodup
  not_mem_vars : ∀ name ∈ carriers 0 (q.lookups aliases), name ∉ q.vars
  /-- No literal has another added variable. -/
  known : ∀ l ∈ c.literals, ∀ name ∈ l.added, name ∈ carriers 0 (q.lookups aliases)
  once : ∀ name ∈ carriers 0 (q.lookups aliases), c.literals.countP (·.looksUp name) = 1
  /-- The variables of the answer are looked up outside any choice. -/
  answer : ∀ name ∈ c.query.answer, isAdded name = true →
    ∃ l, .literal l ∈ c.query.goals ∧ l.looksUp name = true
  tested : testedIn c.literals = carriers 0 (q.testLookups aliases)
  columns : (c.projection.map (·.2)).filter isAdded =
    carriers (q.testLookups aliases).length (q.columnLookups aliases)
  /-- No variable is read by two tests, by two columns, or by a test and a column. -/
  readers : (testedIn c.literals ++ (c.projection.map (·.2)).filter isAdded).Nodup
  /-- The sort key shares its variable with the column of its name, or with none. -/
  sortKey : ∀ key, c.sortKey = some key → isAdded key.carrier = true →
    c.projection.lookup key.column = some key.carrier ∨
      key.carrier ∉ testedIn c.literals ++ c.projection.map (·.2)

namespace Query

variable {text : String} {q : Query}

/-- The look-ups of a query are about its variables. -/
theorem isAdded_entity_lookups (hwords : ∀ name ∈ q.vars, IsWord name) (aliases : Aliases) :
    ∀ s ∈ q.lookups aliases, isAdded s.entity = false := by
  have hfield : ∀ f : Field, f.var ∈ q.vars → isAdded f.var = false :=
    fun f hf => (hwords f.var hf).isAdded
  refine List.forall_mem_append.2 ⟨List.forall_mem_append.2
    ⟨isAdded_entity aliases fun f hf => hfield f ?_, isAdded_entity aliases fun f hf => ?_⟩,
    isAdded_entity aliases fun f hf => hfield f ?_⟩
  · obtain ⟨c, hc, hf⟩ := List.mem_filterMap.1 hf
    exact List.mem_cons_of_mem _ (List.mem_append_left _ (List.mem_flatMap.2
      ⟨c, hc, Condition.mem_vars.2 (.inl ⟨f, hf, rfl⟩)⟩))
  · exact (isWord_outputFields hwords f (mem_of_mem_distinctBy hf)).isAdded
  · exact List.mem_cons_of_mem _ (List.mem_append_right _ (List.mem_map_of_mem
      (List.mem_append_right _ (List.mem_of_mem_filter hf))))

/-- A compiled query part by part: the goals of the clause, then the look-ups of the columns and
that of the sort key. -/
theorem exists_compile_adds (hwords : ∀ name ∈ q.vars, IsWord name) (options : CompilerOptions)
    (aliases : Aliases) : ∃ tests projection key n n',
      (q.compile options aliases).query.goals = typeGoal q :: (tests ++
        (numbered n (q.columnLookups aliases)).map .literal ++
        (numbered n' (q.sortLookups aliases)).map .literal) ∧
      (q.compile options aliases).query.answer = answerVariables projection key ∧
      (q.compile options aliases).projection = projection ∧
      (q.compile options aliases).sortKey = key ∧
      n = (q.testLookups aliases).length ∧ n' = n + (q.columnLookups aliases).length ∧
      Adds 0 (n' + (q.sortLookups aliases).length) (q.lookups aliases)
        (carriers 0 (q.testLookups aliases)) (q.compile options aliases).literals ∧
      (projection.map (·.2)).filter isAdded = carriers n (q.columnLookups aliases) ∧
      ∀ k, key = some k → projection.lookup k.column = some k.carrier ∨
        [k.carrier].filter isAdded = carriers n' (q.sortLookups aliases) := by
  obtain ⟨tests, lookups, keyGoals, projection, key, n₁, n₂, n₃, htests, hcolumns, hkey, hcompile,
    hliterals⟩ := exists_literals_compile options aliases q
  have hadds := adds_clauseTests options aliases hwords
  obtain ⟨_, hrunColumns, hcarriers, hnames⟩ := exists_run_outputFields aliases hwords n₁
  rw [hcolumns, Prod.mk.injEq, Prod.mk.injEq] at hrunColumns
  obtain ⟨⟨rfl, rfl⟩, rfl⟩ := hrunColumns
  obtain ⟨_, hrunKey, hcarrier⟩ :=
    exists_run_sortTests aliases hwords hnames (n₁ + (q.columnLookups aliases).length)
  rw [hkey, Prod.mk.injEq, Prod.mk.injEq] at hrunKey
  obtain ⟨⟨rfl, rfl⟩, rfl⟩ := hrunKey
  rw [htests] at hadds
  have hn₁ : n₁ = (q.testLookups aliases).length := hadds.next.trans (Nat.zero_add _)
  refine ⟨tests, projection, key, n₁, _, ?_, ?_, ?_, ?_, hn₁, rfl, ?_, hcarriers, hcarrier⟩
  · rw [hcompile]
  · rw [hcompile]
  · rw [hcompile]
  · rw [hcompile]
  · obtain ⟨⟨htestEntities, hcolumnEntities⟩, hsortEntities⟩ :
        ((∀ s ∈ q.testLookups aliases, isAdded s.entity = false) ∧
          ∀ s ∈ q.columnLookups aliases, isAdded s.entity = false) ∧
          ∀ s ∈ q.sortLookups aliases, isAdded s.entity = false := by
      simpa only [lookups, List.forall_mem_append] using isAdded_entity_lookups hwords aliases
    have htype : Adds 0 0 [] []
        [⟨.attr, [.var q.var, .const (.text typeAttribute), .const (.text q.entityType)]⟩] := by
      refine .of_added_eq_nil 0 (Literal.added_eq_nil fun name hname => ?_)
      obtain rfl : name = q.var := by simpa using hname
      exact (hwords _ List.mem_cons_self).isAdded
    have hall := ((htype.append hadds).append (.numbered hcolumnEntities n₁)).append
      (.numbered hsortEntities _)
    rw [hliterals, Goal.literalsInEach_map_literal, Goal.literalsInEach_map_literal]
    simpa only [lookups, List.nil_append, List.append_nil, List.singleton_append, List.cons_append,
      List.append_assoc] using hall

section Compiled

variable (hwords : ∀ name ∈ q.vars, IsWord name) (options : CompilerOptions) (aliases : Aliases)

include hwords

/-- The literals that look added variables up are those of the look-ups of the query. -/
theorem filter_looksUpAdded_literals :
    (q.compile options aliases).literals.filter Literal.looksUpAdded =
      numbered 0 (q.lookups aliases) := by
  obtain ⟨_, _, _, _, _, -, -, -, -, -, -, ⟨-, hlookups, -⟩, -⟩ :=
    exists_compile_adds hwords options aliases
  exact hlookups

/-- The added variables of the tests are those of the look-ups for tests, in order. -/
theorem testedIn_literals :
    testedIn (q.compile options aliases).literals = carriers 0 (q.testLookups aliases) := by
  obtain ⟨_, _, _, _, _, -, -, -, -, -, -, ⟨-, -, htested⟩, -⟩ :=
    exists_compile_adds hwords options aliases
  exact htested

/-- The added variables of the columns are those of the look-ups for columns, in order. -/
theorem filter_isAdded_projection :
    ((q.compile options aliases).projection.map (·.2)).filter isAdded =
      carriers (q.testLookups aliases).length (q.columnLookups aliases) := by
  obtain ⟨_, _, _, _, _, -, -, rfl, -, rfl, -, -, hcolumns, -⟩ :=
    exists_compile_adds hwords options aliases
  exact hcolumns

theorem mem_carriers_of_mem_projection {name : String}
    (hname : name ∈ (q.compile options aliases).projection.map (·.2))
    (hadded : isAdded name = true) :
    name ∈ carriers (q.testLookups aliases).length (q.columnLookups aliases) :=
  filter_isAdded_projection hwords options aliases ▸ List.mem_filter.2 ⟨hname, hadded⟩

/-- An added variable to sort by is that of the column of its name, or has a look-up of its own. -/
theorem lookup_or_mem_of_sortKey {key : SortKey}
    (hkey : (q.compile options aliases).sortKey = some key)
    (hadded : isAdded key.carrier = true) :
    (q.compile options aliases).projection.lookup key.column = some key.carrier ∨
      key.carrier ∈ carriers ((q.testLookups aliases).length + (q.columnLookups aliases).length)
        (q.sortLookups aliases) := by
  obtain ⟨_, _, _, _, _, -, -, rfl, rfl, rfl, rfl, -, -, hcarrier⟩ :=
    exists_compile_adds hwords options aliases
  refine (hcarrier key hkey).imp_right fun hcarrier => ?_
  rw [← hcarrier, List.filter_cons_of_pos hadded]
  exact List.mem_cons_self

/-- An added variable of the answer is looked up for a column or as the sort key, and these look-ups
are goals of the query itself. -/
theorem exists_looksUp_of_mem_answer {name : String}
    (hname : name ∈ (q.compile options aliases).query.answer) (hadded : isAdded name = true) :
    ∃ l, .literal l ∈ (q.compile options aliases).query.goals ∧ l.looksUp name = true := by
  have hentities := isAdded_entity_lookups hwords aliases
  rw [lookups, List.forall_mem_append, List.forall_mem_append] at hentities
  have hdirect : name ∈ carriers (q.testLookups aliases).length (q.columnLookups aliases) ∨
      name ∈ carriers ((q.testLookups aliases).length + (q.columnLookups aliases).length)
        (q.sortLookups aliases) := by
    obtain ⟨_, _, _, _, _, -, hanswer, rfl, rfl, -⟩ := exists_compile_adds hwords options aliases
    rw [hanswer, answerVariables, List.mem_append] at hname
    rcases hname with hname | hname
    · exact .inl (mem_carriers_of_mem_projection hwords options aliases hname hadded)
    · obtain ⟨key, hkey, rfl⟩ := List.mem_map.1 (List.mem_of_mem_filter hname)
      refine (lookup_or_mem_of_sortKey hwords options aliases (Option.mem_toList.1 hkey)
        hadded).imp_left fun hlookup => ?_
      exact mem_carriers_of_mem_projection hwords options aliases
        (List.mem_map_of_mem (mem_of_lookup_eq_some hlookup)) hadded
  obtain ⟨_, _, _, _, _, hgoals, -, -, -, rfl, rfl, -⟩ := exists_compile_adds hwords options aliases
  rw [hgoals]
  rcases hdirect with hname | hname
  · obtain ⟨l, hl, hlooksUp⟩ := exists_looksUp_of_mem_carriers hentities.1.2 hname
    exact ⟨l, List.mem_cons_of_mem _ (List.mem_append_left _ (List.mem_append_right _
      (List.mem_map_of_mem hl))), hlooksUp⟩
  · obtain ⟨l, hl, hlooksUp⟩ := exists_looksUp_of_mem_carriers hentities.2 hname
    exact ⟨l, List.mem_cons_of_mem _ (List.mem_append_right _ (List.mem_map_of_mem hl)),
      hlooksUp⟩

end Compiled

/-- For every query text that was read, all aliases and either meaning of OR, the added variables
of the compiled query are those of its look-ups: one for each tested field with an attribute, one
for each such column, and one for a field to sort by that is not a column. They differ from each
other and from the variables of the query, each is looked up by one literal, outside any choice if
it is part of the answer, and no two tests or columns read the same one. -/
theorem bindsOnce_compile (h : Query.parse text = .ok q) (options : CompilerOptions)
    (aliases : Aliases) : (q.compile options aliases).BindsOnce aliases q := by
  have hwords := isWord_of_parse h
  have hentities := isAdded_entity_lookups hwords aliases
  have hlookups := filter_looksUpAdded_literals hwords options aliases
  have htested := testedIn_literals hwords options aliases
  have hcolumns := filter_isAdded_projection hwords options aliases
  have hall : carriers 0 (q.lookups aliases) = carriers 0 (q.testLookups aliases) ++
      carriers (q.testLookups aliases).length (q.columnLookups aliases) ++
      carriers ((q.testLookups aliases).length + (q.columnLookups aliases).length)
        (q.sortLookups aliases) := by
    rw [lookups, carriers_append, carriers_append, List.length_append, Nat.zero_add, Nat.zero_add]
  have hnodup := nodup_carriers 0 (q.lookups aliases)
  have hdisjoint := hnodup
  rw [hall, List.nodup_append] at hdisjoint
  constructor
  case lookups => exact hlookups
  case nodup => exact hnodup
  case not_mem_vars =>
    intro name hname hvar
    have hadded := isAdded_of_mem_carriers hname
    rw [(hwords name hvar).isAdded] at hadded
    simp at hadded
  case known =>
    intro l hl name hname
    by_cases hattr : l.predicate = .attr
    · have hlook : l.looksUpAdded = true := by
        simp [Literal.looksUpAdded, hattr, List.ne_nil_of_mem hname]
      exact mem_carriers_of_mem_numbered hentities
        (hlookups ▸ List.mem_filter.2 ⟨hl, hlook⟩) hname
    · rw [hall, ← htested]
      exact List.mem_append_left _ (List.mem_append_left _ (List.mem_flatMap.2
        ⟨l, List.mem_filter.2 ⟨hl, by simpa using hattr⟩, hname⟩))
  case once =>
    intro name hname
    have hadded := isAdded_of_mem_carriers hname
    rw [← countP_looksUp_numbered hentities hname, ← hlookups, List.countP_filter]
    refine List.countP_congr fun l _ => ?_
    rw [Bool.and_eq_true]
    exact ⟨fun hl => ⟨hl, Literal.looksUpAdded_of_looksUp hadded hl⟩, And.left⟩
  case answer =>
    exact fun _ hname hadded => exists_looksUp_of_mem_answer hwords options aliases hname hadded
  case tested => exact htested
  case columns => exact hcolumns
  case readers =>
    rw [htested, hcolumns]
    exact hdisjoint.1
  case sortKey =>
    refine fun key hkey hadded => (lookup_or_mem_of_sortKey hwords options aliases hkey
      hadded).imp_right fun hcarrier hmem => ?_
    have hread : key.carrier ∈ carriers 0 (q.testLookups aliases) ++
        carriers (q.testLookups aliases).length (q.columnLookups aliases) := by
      rw [htested] at hmem
      exact (List.mem_append.1 hmem).elim (List.mem_append_left _) fun hmem =>
        List.mem_append_right _ (mem_carriers_of_mem_projection hwords options aliases hmem hadded)
    exact hdisjoint.2.2 _ hread _ hcarrier rfl

/-- The query for posts with two alternatives, one of them about something else, ordered by a field
that is not a column. -/
def nestedChoices : Query where
  entityType := "post"
  var := "p"
  clause := some (.either
    (.condition (.compare ⟨"p", ["a"]⟩ .eq (.text "x")))
    (.both (.condition (.compare ⟨"p", ["b"]⟩ .gt (.number 1)))
      (.condition (.matching ⟨"y", ["a"]⟩ "r" ""))))
  returns := [⟨"p", []⟩, ⟨"p", ["c"]⟩]
  sortField := some ⟨⟨"p", ["d"]⟩, .asc⟩
  limit := none

/-- The three tests of the compiled query, in both branches of the choice, read variables of their
own. -/
theorem bindsOnce_compile_nestedChoices :
    (nestedChoices.compile ⟨.disjunctive⟩ []).BindsOnce [] nestedChoices ∧
      testedIn (nestedChoices.compile ⟨.disjunctive⟩ []).literals = ["$t0", "$t1", "$t2"] := by
  have hparse : Query.parse ("FIND post AS ?p WHERE ?p.a = \"x\" OR (?p.b > 1 AND " ++
      "?y.a MATCHES /r/) RETURN ?p, ?p.c ORDER BY ?p.d") = .ok nestedChoices := by decide +kernel
  have hbinds := bindsOnce_compile hparse ⟨.disjunctive⟩ []
  exact ⟨hbinds, hbinds.tested.trans (by decide +kernel)⟩

end Query

end Find

end Factbase
