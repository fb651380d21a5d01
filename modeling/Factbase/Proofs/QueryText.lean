import Factbase.Find.Reader
import Factbase.Proofs.Results
import Factbase.Proofs.TokenPlaces

/-! # Variables and patterns in query texts

A query that was read is made of the tokens of its text (`Find.isFrom_of_parse`): the variables of
its conditions, columns and sort order are tokens, and so is the pattern of each match. The name of
a variable in a query text goes on as far as its characters continue a word, so all variables are
such names (`Find.isWord_of_parse`). In particular they have no dollar sign, which starts the names
of the variables that a compilation adds, no dot and no equals sign (`Find.IsWord.not_mem`). -/

namespace Factbase.Find

namespace Lexeme

/-- A variable in a piece of a text has a name of characters that continue a word. -/
def IsNamed (l : Lexeme) : Prop :=
  ∀ name, l = .token (.var name) → ∀ c ∈ name.toList, continuesWord c = true

variable {c : Char} {rest : List Char}

/-- No sign is a variable. -/
theorem isNamed_ofSign : (ofSign c rest).1.IsNamed := by
  intro name h
  unfold ofSign at h
  split at h <;> simp at h

/-- No word is a variable. -/
theorem isNamed_ofWord : (ofWord c rest).1.IsNamed := by
  intro name h
  unfold ofWord at h
  dsimp only at h
  split at h <;> simp at h

/-- No number is a variable. -/
theorem isNamed_ofNumber : (ofNumber rest).1.IsNamed := by
  intro name h
  unfold ofNumber at h
  dsimp only at h
  split at h
  · split at h <;> simp at h
  · simp at h

/-- No string is a variable. -/
theorem isNamed_ofText : (ofText rest).1.IsNamed := by
  intro name h
  unfold ofText at h
  split at h <;> simp at h

/-- No pattern is a variable. -/
theorem isNamed_ofRegex : (ofRegex rest).1.IsNamed := by
  intro name h
  unfold ofRegex at h
  split at h <;> simp at h

/-- A variable is named by the characters up to the first that does not continue a word. -/
theorem isNamed_ofVariable : (ofVariable rest).1.IsNamed := by
  intro name h
  unfold ofVariable at h
  dsimp only at h
  split at h
  · simp at h
  · obtain rfl : String.ofList (rest.takeWhile continuesWord) = name := by simpa using h
    intro c hc
    rw [String.toList_ofList] at hc
    exact List.all_eq_true.1 List.all_takeWhile c hc

/-- What a text starts with is named in this way. -/
theorem isNamed_ofChars : (ofChars c rest).1.IsNamed := by
  unfold ofChars
  -- the branches are the kinds of pieces, in order
  split
  · simp [IsNamed]
  split
  · simp [IsNamed]
  split
  · exact isNamed_ofNumber
  split
  · exact isNamed_ofText
  split
  · exact isNamed_ofRegex
  split
  · exact isNamed_ofVariable
  split
  · exact isNamed_ofWord
  · exact isNamed_ofSign

end Lexeme

/-- The variables among the tokens of a text are named in this way. -/
theorem continuesWord_of_mem_tokenize {text : String} {t : Token} (h : t ∈ (tokenize text).1)
    {name : String} (hname : t.kind = .var name) :
    ∀ c ∈ name.toList, Lexeme.continuesWord c = true := by
  rcases (mem_tokenize text).1 h with ⟨s, hs, htoken⟩ | rfl
  · obtain ⟨hkind, -, -⟩ := Segment.token?_eq_some.1 htoken
    obtain ⟨c, rest, hlexeme⟩ := exists_ofChars_eq hs
    have hnamed : s.lexeme.IsNamed := hlexeme ▸ Lexeme.isNamed_ofChars
    exact hnamed name (hkind.trans (congrArg _ hname))
  · simp [Token.finish] at hname

/-- A name that a query text can write for a variable: its characters continue a word. -/
def IsWord (name : String) : Prop := ∀ c ∈ name.toList, Lexeme.continuesWord c = true

/-- A character that does not continue a word is in no such name. -/
theorem IsWord.not_mem {name : String} (h : IsWord name) {c : Char}
    (hc : Lexeme.continuesWord c = false) : c ∉ name.toList := by
  intro hmem
  rw [h c hmem] at hc
  simp at hc

/-- The variable that an operand is. -/
def Operand.var? : Operand → Option String
  | .var name => some name
  | _ => none

namespace Condition

/-- The operands of a condition that may be variables. -/
def operands : Condition → List Operand
  | .compare _ _ operand => [operand]
  | .member _ operand => [operand]
  | .call _ operands => operands
  | _ => []

/-- The variables of a condition: that of its field, and those of its operands. -/
def vars (c : Condition) : List String :=
  c.field?.toList.map (·.var) ++ c.operands.filterMap Operand.var?

end Condition

/-- The variables of the conditions of a clause. -/
def Clause.vars (c : Clause) : List String := c.conditions.flatMap Condition.vars

@[simp] theorem Clause.vars_condition (c : Condition) : (condition c).vars = c.vars := by
  simp [vars, conditions]

/-- A condition that is made of tokens with a property: its variables are such tokens, and so is the
pattern of a match, which a string can stand for that no letters follow. -/
structure Condition.IsFrom (P : TokenKind → Prop) (c : Condition) : Prop where
  vars : ∀ name ∈ c.vars, P (.var name)
  pattern : ∀ f body flags, c = .matching f body flags →
    P (.regex body flags) ∨ flags = "" ∧ P (.text body)

/-- The variables of a query. -/
def Query.vars (q : Query) : List String :=
  q.var :: (q.conditions.flatMap Condition.vars ++
    (q.returns ++ q.sortField.toList.map (·.field)).map (·.var))

namespace Reader

variable {α : Type} {P : TokenKind → Prop} {Q : α → Prop} {tokens rest : List Token}

/-- Some tokens have a property. -/
def AllKinds (P : TokenKind → Prop) (tokens : List Token) : Prop := ∀ t ∈ tokens, P t.kind

/-- From tokens with a property a reader gives only what has another, and the rest is such tokens
again. -/
def Gives (P : TokenKind → Prop) (reader : Reader α) (Q : α → Prop) : Prop :=
  ∀ tokens a rest, AllKinds P tokens → reader tokens = .ok (a, rest) → Q a ∧ AllKinds P rest

theorem AllKinds.tail (h : AllKinds P tokens) : AllKinds P tokens.tail :=
  fun t ht => h t (List.mem_of_mem_tail ht)

/-- What stands first has the property, unless the tokens are at an end. -/
theorem AllKinds.of_kind (h : AllKinds P tokens) {k : TokenKind} (hkind : kind tokens = k)
    (hk : k ≠ .finish) : P k := by
  cases tokens with
  | nil => exact absurd hkind.symm hk
  | cons t rest => exact hkind ▸ h t List.mem_cons_self

theorem AllKinds.keyword (h : AllKinds P tokens) {word : Keyword}
    (hread : keyword word tokens = .ok rest) : AllKinds P rest := by
  unfold Reader.keyword afterKeyword? reject at hread
  split at hread
  · next hrest =>
    split at hrest
    · rw [← Except.ok.inj hread, ← Option.some.inj hrest]
      exact h.tail
    · simp at hrest
  · simp at hread

theorem AllKinds.sign (h : AllKinds P tokens) {wanted : TokenKind}
    (hread : sign wanted tokens = .ok rest) : AllKinds P rest := by
  unfold Reader.sign reject at hread
  split at hread
  · rw [← Except.ok.inj hread]
    exact h.tail
  · simp at hread

/-- A variable is a token. -/
theorem gives_var : Gives P var fun name => P (.var name) := by
  intro tokens a rest htokens h
  unfold var reject at h
  split at h
  · next name hkind =>
    obtain ⟨rfl, rfl⟩ := Prod.mk.inj (Except.ok.inj h)
    exact ⟨htokens.of_kind hkind (by simp), htokens.tail⟩
  · simp at h

theorem gives_name (wanted : Wanted) : Gives P (name wanted) fun _ => True := by
  intro tokens a rest htokens h
  unfold name reject at h
  split at h
  · obtain ⟨-, rfl⟩ := Prod.mk.inj (Except.ok.inj h)
    exact ⟨trivial, htokens.tail⟩
  · obtain ⟨-, rfl⟩ := Prod.mk.inj (Except.ok.inj h)
    exact ⟨trivial, htokens.tail⟩
  · simp at h

theorem gives_number : Gives P number fun _ => True := by
  intro tokens a rest htokens h
  unfold number reject at h
  split at h
  · obtain ⟨-, rfl⟩ := Prod.mk.inj (Except.ok.inj h)
    exact ⟨trivial, htokens.tail⟩
  · simp at h

/-- Elements that follow separators have what each element has. -/
theorem gives_following {element : Reader α} (helement : Gives P element Q) (separator : TokenKind)
    (n : Nat) : Gives P (following element separator n) fun as => ∀ a ∈ as, Q a := by
  induction n with
  | zero =>
    intro tokens as rest htokens h
    obtain ⟨rfl, rfl⟩ := Prod.mk.inj (Except.ok.inj h)
    exact ⟨List.forall_mem_nil _, htokens⟩
  | succ n ih =>
    intro tokens as rest htokens h
    rw [following] at h
    split at h
    · obtain ⟨⟨a, rest₁⟩, ha, h⟩ := bind_eq_ok.1 h
      obtain ⟨hQ, hrest₁⟩ := helement _ a rest₁ htokens.tail ha
      obtain ⟨⟨more, rest₂⟩, hmore, h⟩ := bind_eq_ok.1 h
      obtain ⟨hall, hrest₂⟩ := ih _ more rest₂ hrest₁ hmore
      obtain ⟨rfl, rfl⟩ := Prod.mk.inj (Except.ok.inj h)
      exact ⟨List.forall_mem_cons.2 ⟨hQ, hall⟩, hrest₂⟩
    · obtain ⟨rfl, rfl⟩ := Prod.mk.inj (Except.ok.inj h)
      exact ⟨List.forall_mem_nil _, htokens⟩

theorem gives_commaSeparated {element : Reader α} (helement : Gives P element Q) :
    Gives P (commaSeparated element) fun as => ∀ a ∈ as, Q a := by
  intro tokens as rest htokens h
  obtain ⟨⟨a, rest₁⟩, ha, h⟩ := bind_eq_ok.1 h
  obtain ⟨hQ, hrest₁⟩ := helement _ a rest₁ htokens ha
  obtain ⟨⟨more, rest₂⟩, hmore, h⟩ := bind_eq_ok.1 h
  obtain ⟨hall, hrest₂⟩ := gives_following helement .comma _ _ more rest₂ hrest₁ hmore
  obtain ⟨rfl, rfl⟩ := Prod.mk.inj (Except.ok.inj h)
  exact ⟨List.forall_mem_cons.2 ⟨hQ, hall⟩, hrest₂⟩

theorem gives_field : Gives P field fun f => P (.var f.var) := by
  intro tokens f rest htokens h
  obtain ⟨⟨var, rest₁⟩, hvar, h⟩ := bind_eq_ok.1 h
  obtain ⟨hP, hrest₁⟩ := gives_var _ var rest₁ htokens hvar
  obtain ⟨⟨path, rest₂⟩, hpath, h⟩ := bind_eq_ok.1 h
  obtain ⟨-, hrest₂⟩ := gives_following (gives_name .attrName) .dot _ _ path rest₂ hrest₁ hpath
  obtain ⟨rfl, rfl⟩ := Prod.mk.inj (Except.ok.inj h)
  exact ⟨hP, hrest₂⟩

/-- Only a variable is read as a variable. -/
theorem kind_of_operandOf? {allowName : Bool} {k : TokenKind} {o : Operand}
    (h : operandOf? allowName k = some o) {name : String} (hname : o.var? = some name) :
    k = .var name := by
  unfold operandOf? at h
  split at h
  case h_6 =>
    obtain rfl := Option.some.inj h
    rw [Option.some.inj hname]
  case h_7 =>
    split at h
    · obtain rfl := Option.some.inj h
      simp [Operand.var?] at hname
    · simp at h
  case h_8 => simp at h
  all_goals
    obtain rfl := Option.some.inj h
    simp [Operand.var?] at hname

theorem gives_operand (allowName : Bool) :
    Gives P (operand allowName) fun o => ∀ name, o.var? = some name → P (.var name) := by
  intro tokens o rest htokens h
  unfold operand at h
  split at h
  · next hoperand =>
    obtain ⟨rfl, rfl⟩ := Prod.mk.inj (Except.ok.inj h)
    exact ⟨fun name hname => htokens.of_kind (kind_of_operandOf? hoperand hname) (by simp),
      htokens.tail⟩
  · simp [reject] at h

/-- A condition is made of the tokens that it is read from. -/
theorem gives_call : Gives P call (Condition.IsFrom P) := by
  intro tokens c rest htokens h
  obtain ⟨⟨name, rest₁⟩, hname, h⟩ := bind_eq_ok.1 h
  obtain ⟨-, hrest₁⟩ := gives_name .ruleName _ name rest₁ htokens hname
  obtain ⟨rest₂, hsign, h⟩ := bind_eq_ok.1 h
  obtain ⟨⟨operands, rest₃⟩, hoperands, h⟩ := bind_eq_ok.1 h
  obtain ⟨hall, hrest₃⟩ := gives_commaSeparated (gives_operand true) _ operands rest₃
    (hrest₁.sign hsign) hoperands
  obtain ⟨rest₄, hclose, h⟩ := bind_eq_ok.1 h
  obtain ⟨rfl, rfl⟩ := Prod.mk.inj (Except.ok.inj h)
  refine ⟨⟨fun v hv => ?_, by simp⟩, hrest₃.sign hclose⟩
  obtain ⟨o, ho, hvar⟩ : ∃ o ∈ operands, o.var? = some v := by
    simpa [Condition.vars, Condition.field?, Condition.operands] using hv
  exact hall o ho v hvar

theorem gives_pattern {f : Field} (hf : P (.var f.var)) :
    Gives P (pattern f) (Condition.IsFrom P) := by
  intro tokens c rest htokens h
  have hvars : ∀ {body flags name}, name ∈ (Condition.matching f body flags).vars →
      P (.var name) := by
    intro body flags name hname
    obtain rfl : name = f.var := by
      simpa [Condition.vars, Condition.field?, Condition.operands] using hname
    exact hf
  unfold pattern reject at h
  split at h
  · next body flags hkind =>
    obtain ⟨rfl, rfl⟩ := Prod.mk.inj (Except.ok.inj h)
    refine ⟨⟨fun _ => hvars, fun _ _ _ heq => .inl ?_⟩, htokens.tail⟩
    obtain ⟨rfl, rfl, rfl⟩ := Condition.matching.inj heq
    exact htokens.of_kind hkind (by simp)
  · next body hkind =>
    obtain ⟨rfl, rfl⟩ := Prod.mk.inj (Except.ok.inj h)
    refine ⟨⟨fun _ => hvars, fun _ _ _ heq => .inr ?_⟩, htokens.tail⟩
    obtain ⟨rfl, rfl, rfl⟩ := Condition.matching.inj heq
    exact ⟨rfl, htokens.of_kind hkind (by simp)⟩
  · simp at h

theorem gives_test {f : Field} (hf : P (.var f.var)) : Gives P (test f) (Condition.IsFrom P) := by
  -- a test that is no match adds to its field one operand at most
  have hfrom : ∀ {c : Condition} {o : Operand}, c.field? = some f → c.operands ⊆ [o] →
      (∀ body flags, c ≠ .matching f body flags) →
      (∀ name, o.var? = some name → P (.var name)) → c.IsFrom P := by
    intro c o hfield hoperands hmatching ho
    refine ⟨fun name hname => ?_, fun g body flags heq => ?_⟩
    · rw [Condition.vars, hfield, List.mem_append, List.mem_filterMap] at hname
      rcases hname with hname | ⟨o', ho', hvar⟩
      · obtain rfl : name = f.var := by simpa using hname
        exact hf
      · obtain rfl := List.mem_singleton.1 (hoperands ho')
        exact ho name hvar
    · rw [heq] at hfield
      obtain rfl : g = f := Option.some.inj hfield
      exact absurd heq (hmatching body flags)
  have hnull : ∀ name, Operand.null.var? = some name → P (.var name) := by simp [Operand.var?]
  intro tokens c rest htokens h
  unfold test at h
  split at h
  · obtain ⟨⟨o, rest₁⟩, ho, h⟩ := bind_eq_ok.1 h
    obtain ⟨hP, hrest₁⟩ := gives_operand false _ o rest₁ htokens.tail ho
    obtain ⟨rfl, rfl⟩ := Prod.mk.inj (Except.ok.inj h)
    exact ⟨hfrom rfl (List.Subset.refl _) (by simp) hP, hrest₁⟩
  · obtain ⟨⟨low, rest₁⟩, hlow, h⟩ := bind_eq_ok.1 h
    obtain ⟨-, hrest₁⟩ := gives_number _ low rest₁ htokens.tail hlow
    obtain ⟨rest₂, hand, h⟩ := bind_eq_ok.1 h
    obtain ⟨⟨high, rest₃⟩, hhigh, h⟩ := bind_eq_ok.1 h
    obtain ⟨-, hrest₃⟩ := gives_number _ high rest₃ (hrest₁.keyword hand) hhigh
    obtain ⟨rfl, rfl⟩ := Prod.mk.inj (Except.ok.inj h)
    exact ⟨hfrom rfl (List.nil_subset _) (by simp) hnull, hrest₃⟩
  · unfold containedText reject at h
    split at h
    · obtain ⟨rfl, rfl⟩ := Prod.mk.inj (Except.ok.inj h)
      exact ⟨hfrom rfl (List.nil_subset _) (by simp) hnull, htokens.tail.tail⟩
    · simp at h
  · exact gives_pattern hf _ c rest htokens.tail h
  · obtain ⟨⟨o, rest₁⟩, ho, h⟩ := bind_eq_ok.1 h
    obtain ⟨hP, hrest₁⟩ := gives_operand false _ o rest₁ htokens.tail ho
    obtain ⟨rfl, rfl⟩ := Prod.mk.inj (Except.ok.inj h)
    exact ⟨hfrom rfl (List.Subset.refl _) (by simp) hP, hrest₁⟩
  · simp [reject] at h

theorem gives_predicate : Gives P predicate (Condition.IsFrom P) := by
  intro tokens c rest htokens h
  obtain ⟨⟨f, rest₁⟩, hf, h⟩ := bind_eq_ok.1 h
  obtain ⟨hP, hrest₁⟩ := gives_field _ f rest₁ htokens hf
  exact gives_test hP _ c rest hrest₁ h

/-- The variables of two clauses that are combined. -/
theorem forall_mem_vars_append {left right : Clause} {P : String → Prop} :
    (∀ name ∈ (Clause.both left right).vars, P name) ↔
      (∀ name ∈ left.vars, P name) ∧ ∀ name ∈ right.vars, P name := by
  simp only [Clause.vars, Clause.conditions, List.flatMap_append, List.forall_mem_append]

/-- The conditions of a clause are made of the tokens that it is read from. -/
theorem gives_clauseFrom {term : Reader Clause}
    (hterm : Gives P term fun c => ∀ condition ∈ c.conditions, condition.IsFrom P) (n : Nat)
    {left : Clause} (hleft : ∀ condition ∈ left.conditions, condition.IsFrom P) :
    Gives P (clauseFrom term n left) fun c => ∀ condition ∈ c.conditions, condition.IsFrom P := by
  induction n generalizing left with
  | zero =>
    intro tokens c rest htokens h
    obtain ⟨rfl, rfl⟩ := Prod.mk.inj (Except.ok.inj h)
    exact ⟨hleft, htokens⟩
  | succ n ih =>
    intro tokens c rest htokens h
    rw [clauseFrom] at h
    split at h
    · obtain ⟨⟨right, rest₁⟩, hright, h⟩ := bind_eq_ok.1 h
      obtain ⟨hP, hrest₁⟩ := hterm _ right rest₁ htokens.tail hright
      have hboth : ∀ condition ∈ (Clause.both left right).conditions, condition.IsFrom P :=
        List.forall_mem_append.2 ⟨hleft, hP⟩
      exact ih hboth _ c rest hrest₁ h
    · obtain ⟨⟨right, rest₁⟩, hright, h⟩ := bind_eq_ok.1 h
      obtain ⟨hP, hrest₁⟩ := hterm _ right rest₁ htokens.tail hright
      have heither : ∀ condition ∈ (Clause.either left right).conditions, condition.IsFrom P :=
        List.forall_mem_append.2 ⟨hleft, hP⟩
      exact ih heither _ c rest hrest₁ h
    · obtain ⟨rfl, rfl⟩ := Prod.mk.inj (Except.ok.inj h)
      exact ⟨hleft, htokens⟩

theorem gives_clauseOf {term : Reader Clause}
    (hterm : Gives P term fun c => ∀ condition ∈ c.conditions, condition.IsFrom P) :
    Gives P (clauseOf term) fun c => ∀ condition ∈ c.conditions, condition.IsFrom P := by
  intro tokens c rest htokens h
  obtain ⟨⟨left, rest₁⟩, hleft, h⟩ := bind_eq_ok.1 h
  obtain ⟨hP, hrest₁⟩ := hterm _ left rest₁ htokens hleft
  exact gives_clauseFrom hterm _ hP _ c rest hrest₁ h

theorem gives_term (n : Nat) :
    Gives P (term n) fun c => ∀ condition ∈ c.conditions, condition.IsFrom P := by
  induction n with
  | zero =>
    intro tokens c rest _ h
    simp [term, reject] at h
  | succ n ih =>
    intro tokens c rest htokens h
    rw [term] at h
    split at h
    · obtain ⟨⟨c', rest₁⟩, hc, h⟩ := bind_eq_ok.1 h
      obtain ⟨hP, hrest₁⟩ := gives_clauseOf ih _ c' rest₁ htokens.tail hc
      obtain ⟨rest₂, hclose, h⟩ := bind_eq_ok.1 h
      obtain ⟨rfl, rfl⟩ := Prod.mk.inj (Except.ok.inj h)
      exact ⟨hP, hrest₁.sign hclose⟩
    · obtain ⟨⟨condition, rest₁⟩, hcall, h⟩ := bind_eq_ok.1 h
      obtain ⟨rfl, rfl⟩ := Prod.mk.inj (Except.ok.inj h)
      obtain ⟨hfrom, hrest₁⟩ := gives_call tokens condition rest₁ htokens hcall
      exact ⟨List.forall_mem_singleton.2 hfrom, hrest₁⟩
    · obtain ⟨⟨condition, rest₁⟩, hpredicate, h⟩ := bind_eq_ok.1 h
      obtain ⟨rfl, rfl⟩ := Prod.mk.inj (Except.ok.inj h)
      obtain ⟨hfrom, hrest₁⟩ := gives_predicate tokens condition rest₁ htokens hpredicate
      exact ⟨List.forall_mem_singleton.2 hfrom, hrest₁⟩
    · simp [reject] at h

theorem gives_optional {part : Reader α} (word : Keyword) (hpart : Gives P part Q) :
    Gives P (optional word part) fun o => ∀ a, o = some a → Q a := by
  intro tokens o rest htokens h
  unfold optional afterKeyword? at h
  split at h
  · next rest₁ hword =>
    split at hword
    · obtain rfl := Option.some.inj hword
      obtain ⟨⟨a, rest₂⟩, ha, h⟩ := bind_eq_ok.1 h
      obtain ⟨hQ, hrest₂⟩ := hpart _ a rest₂ htokens.tail ha
      obtain ⟨rfl, rfl⟩ := Prod.mk.inj (Except.ok.inj h)
      exact ⟨fun a' ha' => Option.some.inj ha' ▸ hQ, hrest₂⟩
    · simp at hword
  · obtain ⟨rfl, rfl⟩ := Prod.mk.inj (Except.ok.inj h)
    exact ⟨by simp, htokens⟩

theorem gives_sortField : Gives P sortField fun s => P (.var s.field.var) := by
  intro tokens s rest htokens h
  obtain ⟨rest₁, hby, h⟩ := bind_eq_ok.1 h
  obtain ⟨⟨f, rest₂⟩, hf, h⟩ := bind_eq_ok.1 h
  obtain ⟨hP, hrest₂⟩ := gives_field _ f rest₂ (htokens.keyword hby) hf
  obtain ⟨rfl, rfl⟩ := Prod.mk.inj (Except.ok.inj h)
  refine ⟨hP, ?_⟩
  split
  · exact hrest₂.tail
  · exact hrest₂.tail
  · exact hrest₂

/-- A query is made of the tokens that it is read from: its conditions, and its variables. -/
theorem isFrom_of_query (htokens : AllKinds P tokens) {q : Query} (h : query tokens = .ok q) :
    (∀ condition ∈ q.conditions, condition.IsFrom P) ∧ ∀ name ∈ q.vars, P (.var name) := by
  unfold query at h
  obtain ⟨rest₁, hfind, h⟩ := bind_eq_ok.1 h
  obtain ⟨⟨entityType, rest₂⟩, htype, h⟩ := bind_eq_ok.1 h
  obtain ⟨-, hrest₂⟩ := gives_name .entityType _ entityType rest₂ (htokens.keyword hfind) htype
  obtain ⟨rest₃, has, h⟩ := bind_eq_ok.1 h
  obtain ⟨⟨var, rest₄⟩, hvar, h⟩ := bind_eq_ok.1 h
  obtain ⟨hvarP, hrest₄⟩ := gives_var _ var rest₄ (hrest₂.keyword has) hvar
  obtain ⟨⟨clause, rest₅⟩, hclause, h⟩ := bind_eq_ok.1 h
  obtain ⟨hclauseP, hrest₅⟩ := gives_optional .WHERE
    (fun tokens => gives_clauseOf (gives_term (tokens.length + 1)) tokens) _ clause rest₅ hrest₄
    hclause
  obtain ⟨⟨returns, rest₆⟩, hreturns, h⟩ := bind_eq_ok.1 h
  obtain ⟨hreturnsP, hrest₆⟩ := gives_optional .RETURN (gives_commaSeparated gives_field) _ returns
    rest₆ hrest₅ hreturns
  obtain ⟨⟨sort, rest₇⟩, hsort, h⟩ := bind_eq_ok.1 h
  obtain ⟨hsortP, -⟩ := gives_optional .ORDER gives_sortField _ sort rest₇ hrest₆ hsort
  obtain ⟨⟨limit, rest₈⟩, -, h⟩ := bind_eq_ok.1 h
  dsimp only at h
  split at h
  · obtain rfl := Except.ok.inj h
    have hconditions : ∀ condition ∈ (clause.map Clause.conditions).getD [],
        condition.IsFrom P := by
      cases clause with
      | none => exact List.forall_mem_nil _
      | some c => exact hclauseP c rfl
    refine ⟨hconditions, List.forall_mem_cons.2 ⟨hvarP, List.forall_mem_append.2 ⟨?_, ?_⟩⟩⟩
    · intro name hname
      obtain ⟨condition, hcondition, hname⟩ := List.mem_flatMap.1 hname
      exact (hconditions condition hcondition).vars name hname
    · refine List.forall_mem_map.2 (List.forall_mem_append.2 ⟨?_, ?_⟩)
      · cases returns with
        | none => exact List.forall_mem_nil _
        | some fields => exact hreturnsP fields rfl
      · cases sort with
        | none => exact List.forall_mem_nil _
        | some s => exact List.forall_mem_singleton.2 (hsortP s rfl)
  · simp [reject] at h

end Reader

/-- A query that was read is made of the tokens of the text. -/
theorem isFrom_of_parse {text : String} {q : Query} (h : Query.parse text = .ok q) :
    (∀ condition ∈ q.conditions,
        condition.IsFrom fun k => ∃ t ∈ (tokenize text).1, t.kind = k) ∧
      ∀ name ∈ q.vars, ∃ t ∈ (tokenize text).1, t.kind = .var name := by
  unfold Query.parse Query.ofTokens at h
  split at h
  · next tokens htokens =>
    cases hquery : Reader.query tokens with
    | error r =>
      rw [hquery] at h
      exact nomatch h
    | ok q' =>
      rw [hquery] at h
      obtain rfl : q' = q := Except.ok.inj h
      rw [htokens]
      exact Reader.isFrom_of_query (fun t ht => ⟨t, ht, rfl⟩) hquery
  · simp at h

/-- The variables of a query that was read are names that a query text can write. -/
theorem isWord_of_parse {text : String} {q : Query} (h : Query.parse text = .ok q) :
    ∀ name ∈ q.vars, IsWord name := by
  intro name hname
  obtain ⟨t, ht, hkind⟩ := (isFrom_of_parse h).2 name hname
  exact continuesWord_of_mem_tokenize ht hkind

/-- A character that does not continue a word is not in the variable of a query. -/
theorem not_mem_var_of_parse {text : String} {q : Query} (h : Query.parse text = .ok q) {c : Char}
    (hc : Lexeme.continuesWord c = false) : c ∉ q.var.toList :=
  (isWord_of_parse h q.var List.mem_cons_self).not_mem hc

end Factbase.Find
