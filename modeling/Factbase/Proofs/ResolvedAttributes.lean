import Factbase.Proofs.AddedVariables
import Factbase.Proofs.BackedRows

/-! # What the attributes of a query are resolved to

A name among known attributes is one of them, or stands for one, or is unknown
(`Find.Resolver.fits_resolve`). The attributes are gone through with looser and looser notions of
equality, each of which contains the one before: a name that differs in ASCII case has the same
loose name.

A processed query has a warning for each of its attributes that is not known as written, and the
aliases reach all of its look-ups: those of the tested fields, of the columns, and of the sort key
(`Find.exists_process_resolvesIn`). -/

namespace Factbase

namespace Text

/-- Upper case changes neither separators nor lower case. -/
theorem asciiUpper_spec (c : Char) :
    (asciiUpper c = '_' ↔ c = '_') ∧ (asciiUpper c = '-' ↔ c = '-') ∧
      lowercaseChar (asciiUpper c) = lowercaseChar c := by
  by_cases hsmall : c.toNat < 128
  · have hall : ∀ n : Fin 128, (asciiUpper (Char.ofNat n) = '_' ↔ Char.ofNat n = '_') ∧
        (asciiUpper (Char.ofNat n) = '-' ↔ Char.ofNat n = '-') ∧
        lowercaseChar (asciiUpper (Char.ofNat n)) = lowercaseChar (Char.ofNat n) := by
      decide +kernel
    simpa using hall ⟨c.toNat, hsmall⟩
  · have hsame : asciiUpper c = c := by
      refine if_neg fun h => hsmall ?_
      have hz : c.toNat ≤ 'z'.toNat := h.2
      exact Nat.lt_of_le_of_lt hz (by decide)
    simp [hsame]

end Text

namespace Find

/-- The loose name depends on the name in upper case only. -/
theorem looseName_eq (name : String) :
    looseName name =
      ((name.toList.map Text.asciiUpper).filter fun c => c != '_' && c != '-').flatMap
        Text.lowercaseChar := by
  unfold looseName
  induction name.toList with
  | nil => rfl
  | cons c rest ih =>
    obtain ⟨hlow, hdash, hcase⟩ := Text.asciiUpper_spec c
    have hkept : (Text.asciiUpper c != '_' && Text.asciiUpper c != '-') =
        (c != '_' && c != '-') := by
      rw [Bool.eq_iff_iff]
      simp [hlow, hdash]
    rw [List.map_cons, List.filter_cons, List.filter_cons, hkept]
    split
    · rw [List.flatMap_cons, List.flatMap_cons, ih, hcase]
    · exact ih

/-- Names that differ in ASCII case only have the same loose name. -/
theorem looseName_eq_of_case {name other : String}
    (h : Text.equalIgnoringAsciiCase other name = true) : looseName other = looseName name := by
  rw [looseName_eq, looseName_eq, beq_iff_eq.1 h]

/-! ## One name -/

/-- The resolution of a name among known attributes says which of them it stands for: itself, if it
is among them, or else one with the same loose name, and one that differs in ASCII case only if
there is such. -/
structure Resolution.Fits (known : List String) (name : String) (r : Resolution) : Prop where
  exact_iff : r = .exact ↔ name ∈ known
  substitute : ∀ other, r = .substitute other → other ∈ known ∧ looseName other = looseName name ∧
    ((∃ k ∈ known, Text.equalIgnoringAsciiCase k name = true) →
      Text.equalIgnoringAsciiCase other name = true) ∧
    Resolver.anyCase.resolve known other = .exact
  unknown_iff : r = .unknown ↔ ∀ k ∈ known, looseName k ≠ looseName name

namespace Resolver

variable {known : List String} {name other : String}

theorem resolve_eq_exact (h : name ∈ known) : anyCase.resolve known name = .exact := by
  rw [resolve, if_pos (List.contains_iff_mem.2 h)]

/-- What is found for a name that is not known as written. -/
theorem resolve_of_not_mem (h : name ∉ known) :
    anyCase.resolve known name =
      match (sameUpToCase? known name).or (sameLoosely? known name) with
      | some k => .substitute k
      | none => .unknown := by
  unfold resolve
  exact if_neg (by simpa using h)

/-- A found attribute is known, has the loose name of what was looked for, and differs from it in
ASCII case only if one does. -/
theorem found_spec (h : (sameUpToCase? known name).or (sameLoosely? known name) = some other) :
    other ∈ known ∧ looseName other = looseName name ∧
      ((∃ k ∈ known, Text.equalIgnoringAsciiCase k name = true) →
        Text.equalIgnoringAsciiCase other name = true) := by
  rcases Option.or_eq_some_iff.1 h with hfound | ⟨hnone, hfound⟩
  · have hcase : Text.equalIgnoringAsciiCase other name = true := by
      simpa using List.find?_some hfound
    exact ⟨List.mem_of_find?_eq_some hfound, looseName_eq_of_case hcase, fun _ => hcase⟩
  · have hloose : looseName other = looseName name := by simpa using List.find?_some hfound
    exact ⟨List.mem_of_find?_eq_some hfound, hloose, fun ⟨k, hk, hcase⟩ =>
      absurd hcase (List.find?_eq_none.1 hnone k hk)⟩

/-- Nothing is found exactly if no attribute has the loose name. -/
theorem found_eq_none : (sameUpToCase? known name).or (sameLoosely? known name) = none ↔
    ∀ k ∈ known, looseName k ≠ looseName name := by
  rw [Option.or_eq_none_iff, sameLoosely?, List.find?_eq_none]
  constructor
  · rintro ⟨-, hloose⟩ k hk
    simpa using hloose k hk
  · intro h
    refine ⟨List.find?_eq_none.2 fun k hk hcase => ?_, fun k hk => by simpa using h k hk⟩
    exact h k hk (looseName_eq_of_case hcase)

/-- Resolution in any case fits, for all known attributes and every name. -/
theorem fits_resolve (known : List String) (name : String) :
    (anyCase.resolve known name).Fits known name := by
  by_cases hname : name ∈ known
  · rw [resolve_eq_exact hname]
    refine ⟨iff_of_true rfl hname, fun _ h => by simp at h, iff_of_false (by simp) fun h => ?_⟩
    exact h name hname rfl
  · rw [resolve_of_not_mem hname]
    cases hfound : (sameUpToCase? known name).or (sameLoosely? known name) with
    | some other =>
      obtain ⟨hknown, hloose, hcase⟩ := found_spec hfound
      refine ⟨iff_of_false (by simp) hname, ?_, iff_of_false (by simp) fun h => ?_⟩
      · rintro _ ⟨⟩
        exact ⟨hknown, hloose, hcase, resolve_eq_exact hknown⟩
      · exact h other hknown hloose
    | none =>
      exact ⟨iff_of_false (by simp) hname, fun _ h => by simp at h,
        iff_of_true rfl (found_eq_none.1 hfound)⟩

/-- A name means a known attribute, or is unknown and means itself. -/
theorem meant_mem_or (known : List String) (name : String) :
    (anyCase.resolve known name).meant name ∈ known ∨
      anyCase.resolve known name = .unknown ∧ (anyCase.resolve known name).meant name = name := by
  have hfits := fits_resolve known name
  cases h : anyCase.resolve known name with
  | exact => exact .inl (hfits.exact_iff.1 h)
  | substitute other => exact .inl (hfits.substitute other h).1
  | unknown => exact .inr ⟨rfl, rfl⟩

end Resolver

/-! ## All look-ups of a query -/

namespace Compile

variable {options : CompilerOptions} {aliases : Aliases} {l : Literal}

theorem Lookup.looksUpAdded_literal (s : Lookup) (n : Nat) :
    (s.literal n).looksUpAdded = true := by
  refine Literal.looksUpAdded_of_looksUp (isAdded_freshName s.letter n) ?_
  simp [Literal.looksUp, literal, carrier]

/-- Binding a field looks facts up with an added variable. -/
theorem looksUpAdded_of_mem_bind {letter : Char} {f : Field} (n : Nat)
    (hl : l ∈ Goal.literalsInEach ((bind aliases letter f).run n).1.2) : l.looksUpAdded = true := by
  unfold bind at hl
  cases hlook : lookedUp? aliases f with
  | none =>
    rw [hlook] at hl
    exact absurd hl List.not_mem_nil
  | some attr =>
    rw [hlook] at hl
    rw [List.mem_singleton.1 hl]
    exact Lookup.looksUpAdded_literal ⟨letter, f.var, attr⟩ n

theorem looksUpAdded_of_mem_numbered {n : Nat} {lookups : List Lookup}
    (hl : l ∈ numbered n lookups) : l.looksUpAdded = true := by
  obtain ⟨e, -, rfl⟩ := List.mem_map.1 hl
  exact e.1.looksUpAdded_literal e.2

/-- A look-up of facts for a condition binds an added variable, or is the condition. -/
theorem looksUpAdded_or_eq_call {condition : Condition} (n : Nat)
    (hl : l ∈ Goal.literalsInEach ((conditionGoals aliases condition).run n).1)
    (hattr : l.predicate = .attr) : l.looksUpAdded = true ∨
      ∃ name operands, condition = .call name operands ∧
        l = .named name (operands.map Operand.toTerm) := by
  cases hfield : condition.field? with
  | none =>
    cases condition with
    | call name operands => exact .inr ⟨name, operands, rfl, List.mem_singleton.1 hl⟩
    | _ => simp [Condition.field?] at hfield
  | some f =>
    left
    obtain ⟨predicate, terms, htest⟩ := exists_isTest aliases hfield
    rw [htest.goals, testGoals, StateT.run_bind] at hl
    have hparts := Goal.literalsInEach_append ((bind aliases 't' f).run n).1.2
      [filter predicate ((bind aliases 't' f).run n).1.1 terms]
    rcases List.mem_append.1 (hparts ▸ hl) with hl | hl
    · exact looksUpAdded_of_mem_bind n hl
    · -- a test is no look-up
      obtain rfl := List.mem_singleton.1 hl
      obtain rfl : predicate = .attr := hattr
      simpa [Predicate.isRelation] using htest.isRelation

/-- A look-up of facts in a clause binds an added variable, or is written in the query. -/
theorem looksUpAdded_or_call {c : Clause} (n : Nat)
    (hl : l ∈ Goal.literalsInEach ((clauseGoals options aliases c).run n).1)
    (hattr : l.predicate = .attr) : l.looksUpAdded = true ∨
      ∃ name operands, .call name operands ∈ c.conditions ∧
        l = .named name (operands.map Operand.toTerm) := by
  refine (literals_clause options aliases (P := fun _ _ cs ls => ∀ l ∈ ls, l.predicate = .attr →
    l.looksUpAdded = true ∨ ∃ name operands, .call name operands ∈ cs ∧
      l = .named name (operands.map Operand.toTerm)) (fun h h' l hl hattr => ?_)
    (fun condition _ n l hl hattr => ?_) n).1 l hl hattr
  · rcases List.mem_append.1 hl with hl | hl
    · exact (h l hl hattr).imp_right fun ⟨name, operands, hcall, heq⟩ =>
        ⟨name, operands, List.mem_append_left _ hcall, heq⟩
    · exact (h' l hl hattr).imp_right fun ⟨name, operands, hcall, heq⟩ =>
        ⟨name, operands, List.mem_append_right _ hcall, heq⟩
  · exact (looksUpAdded_or_eq_call n hl hattr).imp_right fun ⟨name, operands, hcall, heq⟩ =>
      ⟨name, operands, List.mem_singleton.2 hcall.symm, heq⟩

end Compile

namespace Query

variable {options : CompilerOptions} {aliases : Aliases} {q : Query} {l : Literal} {f : Field}
  {attr : String}

theorem mem_fields_of_mem_outputFields (hf : f ∈ Compile.outputFields q)
    (hattr : f.attr? = some attr) : f ∈ q.fields := by
  rcases Compile.mem_outputFields.1 hf with (hf | ⟨-, rfl⟩) | ⟨body, flags, hc⟩
  · exact List.mem_append_left _ (List.mem_append_right _ hf)
  · simp [Field.attr?] at hattr
  · exact List.mem_append_left _ (List.mem_append_left _ (List.mem_filterMap.2 ⟨_, hc, rfl⟩))

/-- The look-ups of a query are those of its fields. -/
theorem exists_field_of_mem_lookups {s : Compile.Lookup} (hs : s ∈ q.lookups aliases) :
    ∃ f ∈ q.fields, f.var = s.entity ∧ Compile.lookedUp? aliases f = some s.attr := by
  have hfield : ∀ {letter : Char} {fields : List Field},
      (∀ f ∈ fields, ∀ attr, f.attr? = some attr → f ∈ q.fields) →
      s ∈ Compile.fieldLookups aliases letter fields →
      ∃ f ∈ q.fields, f.var = s.entity ∧ Compile.lookedUp? aliases f = some s.attr := by
    intro letter fields hfields hs
    obtain ⟨f, hf, hlook⟩ := List.mem_filterMap.1 hs
    obtain ⟨name, hname, rfl⟩ := Option.map_eq_some_iff.1 hlook
    obtain ⟨attr, hattr, -⟩ := Option.map_eq_some_iff.1 hname
    exact ⟨f, hfields f hf attr hattr, rfl, hname⟩
  rcases List.mem_append.1 hs with hs | hs
  · rcases List.mem_append.1 hs with hs | hs
    · exact hfield (fun f hf _ _ => List.mem_append_left _ (List.mem_append_left _ hf)) hs
    · exact hfield (fun f hf _ => mem_fields_of_mem_outputFields (mem_of_mem_distinctBy hf)) hs
  · exact hfield (fun f hf _ _ => List.mem_append_right _ (List.mem_of_mem_filter hf)) hs

/-- Every field with an attribute is looked up: a tested one for its test, one to return or to sort
by for its column or as the sort key. -/
theorem exists_mem_lookups (hwords : ∀ name ∈ q.vars, IsWord name) (hf : f ∈ q.fields)
    (hattr : Compile.lookedUp? aliases f = some attr) :
    ∃ s ∈ q.lookups aliases, s.entity = f.var ∧ s.attr = attr := by
  have hself : ∀ (letter : Char) {fields : List Field}, f ∈ fields →
      ∃ s ∈ Compile.fieldLookups aliases letter fields, s.entity = f.var ∧ s.attr = attr :=
    fun _ _ hf => ⟨_, List.mem_filterMap.2 ⟨f, hf, by rw [hattr]; rfl⟩, rfl, rfl⟩
  -- one column stands for all fields that are written like it
  have hcolumn : ∀ g ∈ Compile.outputFields q, g.display = f.display → IsWord f.var →
      ∃ s ∈ q.columnLookups aliases, s.entity = f.var ∧ s.attr = attr := by
    intro g hg hdisplay hword
    obtain ⟨g', hg', hdisplay'⟩ := exists_mem_distinctBy Field.display hg
    have hword' := Compile.isWord_outputFields hwords g' (mem_of_mem_distinctBy hg')
    have hsame := hdisplay'.trans hdisplay
    have hvar := Field.var_eq_of_display_eq hword' hword hsame
    refine ⟨⟨'o', g'.var, attr⟩, List.mem_filterMap.2 ⟨g', hg', ?_⟩, hvar, rfl⟩
    rw [lookedUp?_eq_of_display_eq aliases hvar hsame, hattr]
    rfl
  rcases List.mem_append.1 hf with hf | hsort
  · rcases List.mem_append.1 hf with htested | hreturn
    · obtain ⟨s, hs, hspec⟩ := hself _ htested
      exact ⟨s, List.mem_append_left _ (List.mem_append_left _ hs), hspec⟩
    · have hg : f ∈ Compile.outputFields q := Compile.mem_outputFields.2 (.inl (.inl hreturn))
      obtain ⟨s, hs, hspec⟩ := hcolumn f hg rfl (Compile.isWord_outputFields hwords f hg)
      exact ⟨s, List.mem_append_left _ (List.mem_append_right _ hs), hspec⟩
  · by_cases hshown : ∃ g ∈ Compile.outputFields q, g.display = f.display
    · obtain ⟨g, hg, hdisplay⟩ := hshown
      have hword : IsWord f.var := hwords _ (List.mem_cons_of_mem _ (List.mem_append_right _
        (List.mem_map_of_mem (List.mem_append_right _ hsort))))
      obtain ⟨s, hs, hspec⟩ := hcolumn g hg hdisplay hword
      exact ⟨s, List.mem_append_left _ (List.mem_append_right _ hs), hspec⟩
    · obtain ⟨s, hs, hspec⟩ := hself 's' (List.mem_filter (p := fun f =>
        (Compile.outputFields q).all fun g => g.display ≠ f.display).2
          ⟨hsort, by simpa using hshown⟩)
      exact ⟨s, List.mem_append_right _ hs, hspec⟩

/-- Every look-up of a query is a literal of the compiled query. -/
theorem exists_literal_mem {text : String} (h : Query.parse text = .ok q) {s : Compile.Lookup}
    (hs : s ∈ q.lookups aliases) :
    ∃ n, s.literal n ∈ (q.compile options aliases).literals := by
  obtain ⟨n, hn⟩ := List.mem_iff_getElem?.1 hs
  have hmem : s.literal n ∈ Compile.numbered 0 (q.lookups aliases) :=
    List.mem_map.2 ⟨(s, n), List.mk_mem_zipIdx_iff_getElem?.2 hn, rfl⟩
  rw [← filter_looksUpAdded_literals (isWord_of_parse h) options aliases] at hmem
  exact ⟨n, List.mem_of_mem_filter hmem⟩

/-- A look-up of facts in a compiled query is that of the type, or is written in the query, or is a
look-up of the query. -/
theorem mem_numbered_of_mem_literals {text : String} (h : Query.parse text = .ok q)
    (hl : l ∈ (q.compile options aliases).literals) (hattr : l.predicate = .attr) :
    l = ⟨.attr, [.var q.var, .const (.text typeAttribute), .const (.text q.entityType)]⟩ ∨
      (∃ name operands, .call name operands ∈ q.conditions ∧
        l = .named name (operands.map Operand.toTerm)) ∨
      l ∈ Compile.numbered 0 (q.lookups aliases) := by
  have hwords := isWord_of_parse h
  have hnumbered : l.looksUpAdded = true → l ∈ Compile.numbered 0 (q.lookups aliases) := by
    intro hadded
    rw [← filter_looksUpAdded_literals hwords options aliases]
    exact List.mem_filter.2 ⟨hl, hadded⟩
  obtain ⟨tests, lookups, keyGoals, projection, key, n₁, n₂, n₃, htests, hcolumns, hkey, -,
    hliterals⟩ := Compile.exists_literals_compile options aliases q
  obtain ⟨_, hrunColumns, -, hnames⟩ := Compile.exists_run_outputFields aliases hwords n₁
  rw [hcolumns, Prod.mk.injEq, Prod.mk.injEq] at hrunColumns
  obtain ⟨⟨rfl, rfl⟩, rfl⟩ := hrunColumns
  obtain ⟨_, hrunKey, -⟩ := Compile.exists_run_sortTests aliases hwords hnames
    (n₁ + (q.columnLookups aliases).length)
  rw [hkey, Prod.mk.injEq, Prod.mk.injEq] at hrunKey
  obtain ⟨⟨rfl, rfl⟩, rfl⟩ := hrunKey
  rw [hliterals, Goal.literalsInEach_map_literal, Goal.literalsInEach_map_literal, List.mem_cons,
    List.mem_append, List.mem_append] at hl
  refine hl.imp_right fun hl => ?_
  rcases hl with (hl | hl) | hl
  · unfold Compile.clauseTests at htests
    unfold conditions
    cases hclause : q.clause with
    | none =>
      rw [hclause] at htests
      obtain rfl : _ = tests := congrArg Prod.fst htests
      exact absurd hl List.not_mem_nil
    | some c =>
      rw [hclause] at htests
      obtain rfl : _ = tests := congrArg Prod.fst htests
      exact (Compile.looksUpAdded_or_call 0 hl hattr).symm.imp_right hnumbered
  · exact .inr (hnumbered (Compile.looksUpAdded_of_mem_numbered hl))
  · exact .inr (hnumbered (Compile.looksUpAdded_of_mem_numbered hl))

end Query

/-- A literal looks an attribute of a variable up under the known one that is meant, or under the
name as written, for which there is a warning that it is unknown. -/
def Processed.LooksUp (known : List String) (p : Processed) (var attr : String) (l : Literal) :
    Prop :=
  ∃ name value, isAdded value = true ∧
    l = ⟨.attr, [.var var, .const (.text name), .var value]⟩ ∧
    name = (Resolver.anyCase.resolve known attr).meant attr ∧
    (name ∈ known ∨ name = attr ∧ "unknown attribute `" ++ attr ++ "`" ∈ p.warnings)

/-- A processed query says which of its attributes are not known as written, and looks up those that
are known, or are reported as unknown. -/
structure Processed.ResolvesIn (known : List String) (q : Query) (p : Processed) : Prop where
  /-- Each attribute that is not known as written has one warning, in order. -/
  warnings : p.warnings.map some = (q.attributes.filter (· ∉ known)).map fun attr =>
    (Resolver.anyCase.resolve known attr).warning? attr
  /-- Facts are looked up for the type, by conditions that the query writes as such, and for fields
  with an attribute. -/
  literals : ∀ l ∈ p.compiled.literals, l.predicate = .attr →
    l = ⟨.attr, [.var q.var, .const (.text typeAttribute), .const (.text q.entityType)]⟩ ∨
      (∃ name operands, .call name operands ∈ q.conditions ∧
        l = .named name (operands.map Operand.toTerm)) ∨
      ∃ f ∈ q.fields, ∃ attr, f.attr? = some attr ∧ p.LooksUp known f.var attr l
  fields : ∀ f ∈ q.fields, ∀ attr, f.attr? = some attr →
    ∃ l ∈ p.compiled.literals, p.LooksUp known f.var attr l

section Process

variable {known : List String} {q : Query} {text : String}

/-- The attributes of a query in order. -/
theorem pairwise_attributes (q : Query) : q.attributes.Pairwise (· < ·) := by
  have hlt : ∀ {a b : String}, compare a b = .lt → a < b := compareOfLessAndEq_eq_lt.1
  exact List.Pairwise.imp hlt pairwise_orderedSet

theorem mem_attributes {attr : String} :
    attr ∈ q.attributes ↔ ∃ f ∈ q.fields, f.attr? = some attr := by
  rw [Query.attributes, mem_nameSet, List.mem_filterMap]

/-- The names that are known have no warning. -/
theorem Resolver.warning?_eq_none_iff (known : List String) (name : String) :
    (anyCase.resolve known name).warning? name = none ↔ name ∈ known := by
  rw [← (fits_resolve known name).exact_iff]
  cases anyCase.resolve known name <;> simp [Resolution.warning?]

/-- The warnings are those of the names that are not known, in their order. -/
theorem map_some_warnings (known names : List String) :
    ((names.map fun name => (name, Resolver.anyCase.resolve known name)).filterMap fun r =>
        r.2.warning? r.1).map some =
      (names.filter (· ∉ known)).map fun name =>
        (Resolver.anyCase.resolve known name).warning? name := by
  induction names with
  | nil => rfl
  | cons name rest ih =>
    have hiff := Resolver.warning?_eq_none_iff known name
    rw [List.map_cons, List.filterMap_cons, List.filter_cons]
    cases hwarning : (Resolver.anyCase.resolve known name).warning? name with
    | none => simpa [hiff.1 hwarning] using ih
    | some warning =>
      have hname : name ∉ known := fun hname => by simp [hiff.2 hname] at hwarning
      simpa [hname, hwarning] using ih

/-- The look-up of an attribute under what is meant by it. -/
theorem Processed.looksUp_literal {p : Processed} {s : Compile.Lookup} {attr : String} (n : Nat)
    (hmeant : s.attr = (Resolver.anyCase.resolve known attr).meant attr)
    (hwarned : Resolver.anyCase.resolve known attr = .unknown →
      "unknown attribute `" ++ attr ++ "`" ∈ p.warnings) :
    p.LooksUp known s.entity attr (s.literal n) := by
  refine ⟨s.attr, s.carrier n, isAdded_freshName s.letter n, rfl, hmeant, ?_⟩
  rw [hmeant]
  exact (Resolver.meant_mem_or known attr).imp_right fun ⟨hunknown, hself⟩ =>
    ⟨hself, hwarned hunknown⟩

/-- A query text that was read is resolved among the known attributes. -/
theorem exists_process_resolvesIn (options : CompilerOptions) (hknown : known ≠ [])
    (h : Query.parse text = .ok q) :
    ∃ p, process options .anyCase known text = .ok p ∧ p.ResolvesIn known q := by
  have hresolutions : resolutions .anyCase known q =
      q.attributes.map fun attr => (attr, Resolver.anyCase.resolve known attr) :=
    if_neg (by simpa using hknown)
  have hlooked := fun f (hf : f ∈ q.fields) => lookedUp?_resolutions hknown hf
  have hprocess : process options .anyCase known text =
      .ok ⟨q.compile options ((resolutions .anyCase known q).filterMap fun r => r.2.alias? r.1),
        (resolutions .anyCase known q).filterMap fun r => r.2.warning? r.1⟩ := by
    rw [process, h]
    rfl
  have hwarned : ∀ f ∈ q.fields, ∀ attr, f.attr? = some attr →
      Resolver.anyCase.resolve known attr = .unknown → "unknown attribute `" ++ attr ++ "`" ∈
        (resolutions .anyCase known q).filterMap fun r => r.2.warning? r.1 := by
    intro f hf attr hattr hunknown
    rw [hresolutions, List.mem_filterMap]
    exact ⟨_, List.mem_map_of_mem (mem_attributes.2 ⟨f, hf, hattr⟩), by rw [hunknown]; rfl⟩
  refine ⟨_, hprocess, ⟨?_, fun l hl hpredicate => ?_, fun f hf attr hattr => ?_⟩⟩
  case refine_1 => rw [hresolutions, map_some_warnings]
  case refine_2 =>
    refine (Query.mem_numbered_of_mem_literals h hl hpredicate).imp_right (.imp_right fun hl => ?_)
    obtain ⟨⟨s, n⟩, hmem, rfl⟩ := List.mem_map.1 hl
    obtain ⟨-, -, hs⟩ := List.mem_zipIdx hmem
    obtain ⟨f, hf, hvar, hattr⟩ := Query.exists_field_of_mem_lookups (hs ▸ List.getElem_mem _)
    rw [hlooked f hf] at hattr
    obtain ⟨attr, hattr, hmeant⟩ := Option.map_eq_some_iff.1 hattr
    refine ⟨f, hf, attr, hattr, ?_⟩
    rw [hvar]
    exact Processed.looksUp_literal n hmeant.symm (hwarned f hf attr hattr)
  case refine_3 =>
    obtain ⟨s, hs, hvar, hmeant⟩ := Query.exists_mem_lookups (isWord_of_parse h) hf
      ((hlooked f hf).trans (congrArg (Option.map _) hattr))
    obtain ⟨n, hn⟩ := Query.exists_literal_mem h hs
    refine ⟨s.literal n, hn, ?_⟩
    rw [← hvar]
    exact Processed.looksUp_literal n hmeant (hwarned f hf attr hattr)

/-- For all known attributes, every name is resolved to itself if it is known, else to a known one
with the same loose name, which differs in ASCII case only if there is such a one, and is unknown
if there is none. For every query text that is read, if some attribute is known, the attributes of
the query are in order and each that is not known as written has one warning; and each is looked
up, in conditions, columns and for the sort key, under a name that is known or has the warning that
it is unknown. -/
theorem resolve_and_process (known : List String) :
    (∀ name, (Resolver.anyCase.resolve known name).Fits known name) ∧
      ∀ options text q, known ≠ [] → Query.parse text = .ok q →
        q.attributes.Pairwise (· < ·) ∧
        (∀ attr, attr ∈ q.attributes ↔ ∃ f ∈ q.fields, f.attr? = some attr) ∧
        ∃ p, process options .anyCase known text = .ok p ∧ p.ResolvesIn known q :=
  ⟨Resolver.fits_resolve known, fun options _ q hknown h =>
    ⟨pairwise_attributes q, fun _ => mem_attributes, exists_process_resolvesIn options hknown h⟩⟩

/-- The query for posts of a title, with their likes. -/
def likesOfTitle : Query where
  entityType := "post"
  var := "p"
  clause := some (.condition (.compare ⟨"p", ["title"]⟩ .eq (.text "x")))
  returns := [⟨"p", ["likes"]⟩]
  sortField := none
  limit := none

/-- The title is looked up under the attribute that differs in case, and the likes, which are
unknown, as they are written; there is a warning for each. -/
theorem resolve_and_process_likesOfTitle :
    ∃ p, process ⟨.conjunctive⟩ .anyCase ["Title", "created_at"]
        "FIND post AS ?p WHERE ?p.title = \"x\" RETURN ?p.likes" = .ok p ∧
      p.ResolvesIn ["Title", "created_at"] likesOfTitle ∧
      p.warnings = ["unknown attribute `likes`", "attribute `title` resolved to `Title`"] ∧
      (∃ value, ⟨.attr, [.var "p", .const (.text "Title"), .var value]⟩ ∈ p.compiled.literals) ∧
      ∃ value, ⟨.attr, [.var "p", .const (.text "likes"), .var value]⟩ ∈ p.compiled.literals := by
  have hparse : Query.parse "FIND post AS ?p WHERE ?p.title = \"x\" RETURN ?p.likes" =
      .ok likesOfTitle := by decide +kernel
  obtain ⟨-, hall⟩ := resolve_and_process ["Title", "created_at"]
  obtain ⟨-, -, p, hprocess, hresolves⟩ := hall ⟨.conjunctive⟩ _ _ (by simp) hparse
  have hlooked : ∀ f ∈ likesOfTitle.fields, ∀ attr, f.attr? = some attr → ∀ name,
      (Resolver.anyCase.resolve ["Title", "created_at"] attr).meant attr = name →
      ∃ value, ⟨.attr, [.var f.var, .const (.text name), .var value]⟩ ∈ p.compiled.literals := by
    rintro f hf attr hattr name rfl
    obtain ⟨l, hl, _, value, -, rfl, rfl, -⟩ := hresolves.fields f hf attr hattr
    exact ⟨value, hl⟩
  refine ⟨p, hprocess, hresolves, ?_, ?_, ?_⟩
  · have hwarnings : p.warnings.map some =
        ["unknown attribute `likes`", "attribute `title` resolved to `Title`"].map some :=
      hresolves.warnings.trans (by decide +kernel)
    exact List.map_injective_iff.2 (Option.some_injective _) hwarnings
  · exact hlooked ⟨"p", ["title"]⟩ (by decide) "title" rfl _ (by decide +kernel)
  · exact hlooked ⟨"p", ["likes"]⟩ (by decide) "likes" rfl _ (by decide +kernel)

/-- Among the attributes `Title` and `created_at`, a title in small letters is the one that differs
in case, a creation date without separator the other one, and likes are unknown. -/
example : ["Title", "title", "createdAt", "likes"].map
      (Resolver.anyCase.resolve ["Title", "created_at"]) =
    [.exact, .substitute "Title", .substitute "created_at", .unknown] := by
  decide +kernel

end Process

end Find

end Factbase
