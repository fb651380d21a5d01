import Mathlib.Computability.Language
import Factbase.Proofs.DecimalReading
import Factbase.Proofs.Predictions

/-! # Writing queries as tokens

The ways to write a query are a language of tokens: `Query.writings` follows the grammar, and a
right operand that is itself combined is written in parentheses. Whichever way a query is written,
it is read back (`Query.ofTokens_writings`).

A reader reads a value from a language (`Reads`) where the token after it cannot go on with it. A
clause that has been read becomes the left operand of what follows it, so it is read whatever
follows (`ReadsOn`), and that is what the induction on clauses shows. -/

namespace Factbase.Find

namespace Writing

/-- A token of a kind. -/
def single (k : TokenKind) : Language Token := {tokens | ∃ t : Token, tokens = [t] ∧ t.kind = k}

/-- A reserved word. -/
def word (w : Keyword) : Language Token := single (.keyword w)

/-- A reserved word that stands for a name, as it is written. -/
def wordAsName (s : String) : Language Token :=
  {tokens | ∃ (t : Token) (w : Keyword), tokens = [t] ∧ t.kind = .keyword w ∧
    String.ofList t.written = s}

/-- A name. -/
def name (s : String) : Language Token := single (.ident s) + wordAsName s

/-- Each of some writings after a separator. -/
def afterEach (separator : TokenKind) (ls : List (Language Token)) : Language Token :=
  (ls.map (single separator * ·)).prod

/-- Writings with commas between them. There is at least one. -/
def commaSeparated : List (Language Token) → Language Token
  | [] => 0
  | l :: ls => l * afterEach .comma ls

/-- A writing in parentheses. -/
def enclosed (l : Language Token) : Language Token := single .leftParen * l * single .rightParen

/-- A part after the keyword that announces it, if there is one. -/
def optional (w : Keyword) : Option (Language Token) → Language Token
  | none => 1
  | some l => word w * l

end Writing

open Writing

/-- A field. -/
def Field.writings (f : Field) : Language Token :=
  single (.var f.var) * afterEach .dot (f.path.map name)

/-- A value. -/
def Operand.writings : Operand → Language Token
  | .text s => single (.text s)
  | .number x => single (.number x)
  | .bool true => word .TRUE
  | .bool false => word .FALSE
  | .null => word .NULL
  | .var name => single (.var name)

/-- An argument of a call: a text can be written as an identifier. -/
def Operand.argumentWritings : Operand → Language Token
  | .text s => single (.text s) + single (.ident s)
  | o => o.writings

/-- Whether a condition is no call without operands; such a call is never written. -/
def Condition.HasOperands : Condition → Prop
  | .call _ operands => operands ≠ []
  | _ => True

/-- A condition. The pattern after `MATCHES` is written between slashes. -/
def Condition.writings : Condition → Language Token
  | .compare f op o => f.writings * (single (.operator op) * o.writings)
  | .between f low high =>
    f.writings * (word .BETWEEN * (single (.number low) * (word .AND * single (.number high))))
  | .contains f s => f.writings * (word .CONTAINS * single (.text s))
  | .matching f body flags => f.writings * (word .MATCHES * single (.regex body flags))
  | .member f o => f.writings * (word .IN * o.writings)
  | .call name operands =>
    single (.ident name) * enclosed (commaSeparated (operands.map Operand.argumentWritings))

namespace Clause

/-- The right operand of `AND` and `OR`, as its own writings: parentheses stand around what is
combined itself. -/
def asRight : Clause → Language Token → Language Token
  | .condition _, l => l
  | _, l => enclosed l

/-- Whether all calls of a clause have operands. -/
def HasOperands (c : Clause) : Prop := ∀ condition ∈ c.conditions, condition.HasOperands

/-- A clause. The left operand never has parentheses. -/
def writings : Clause → Language Token
  | .condition c => c.writings
  | .both left right => left.writings * (word .AND * right.asRight right.writings)
  | .either left right => left.writings * (word .OR * right.asRight right.writings)

end Clause

/-- A direction. That it is ascending need not be written. -/
def Direction.writings : Direction → Language Token
  | .asc => 1 + word .ASC
  | .desc => word .DESC

/-- An order. -/
def SortField.writings (s : SortField) : Language Token :=
  word .BY * (s.field.writings * s.direction.writings)

namespace Query

/-- The type and the variable of a query. -/
def openingWritings (q : Query) : Language Token :=
  word .FIND * (name q.entityType * (word .AS * single (.var q.var)))

/-- The fields that are returned, where there are any. -/
def returned? (q : Query) : Option (List Field) := if q.returns = [] then none else some q.returns

/-- A query without the end of the text. -/
def sentenceWritings (q : Query) : Language Token :=
  q.openingWritings *
    (optional .WHERE (q.clause.map Clause.writings) *
      (optional .RETURN (q.returned?.map fun fs => commaSeparated (fs.map Field.writings)) *
        (optional .ORDER (q.sortField.map SortField.writings) *
          optional .LIMIT (q.limit.map fun n => single (.number (Float.ofNat n))))))

/-- A query, up to the end of the text. -/
def writings (q : Query) : Language Token := q.sentenceWritings * single .finish

/-- Whether a query can be written: its calls have operands, and its limit is a number that floating
point holds exactly. -/
structure IsWritable (q : Query) : Prop where
  hasOperands : ∀ c ∈ q.conditions, c.HasOperands
  limit_lt : ∀ n ∈ q.limit, n < 2 ^ 53

theorem IsWritable.of_clause {q : Query} (h : q.IsWritable) {c : Clause} (hc : c ∈ q.clause) :
    c.HasOperands := fun condition hmem =>
  h.hasOperands condition (by simpa [conditions, Option.mem_def.1 hc] using hmem)

end Query

/-! ## Readers of languages -/

namespace Reader

variable {α β : Type} {tokens rest used : List Token} {k : TokenKind}

theorem kind_of_mem_single_mul {l : Language Token} (h : used ∈ single k * l) :
    kind (used ++ rest) = k := by
  obtain ⟨_, ⟨t, rfl, ht⟩, _, -, rfl⟩ := Language.mem_mul.1 h
  exact ht

/-- Whether a reader reads a value from a language and leaves what comes after it, where the next
token satisfies a condition. -/
def Reads (p : Reader α) (a : α) (l : Language Token) (ends : TokenKind → Prop) : Prop :=
  ∀ used ∈ l, ∀ rest, ends (kind rest) → p (used ++ rest) = .ok (a, rest)

/-- Whether a condition on the next token holds before a language that is followed by a token that
satisfies another. -/
def Leads (l : Language Token) (ends before : TokenKind → Prop) : Prop :=
  ∀ used ∈ l, ∀ rest, ends (kind rest) → before (kind (used ++ rest))

variable {p : Reader α} {q : α → Reader β} {a : α} {b : β} {l l' : Language Token}
  {ends ends' before : TokenKind → Prop}

theorem leads_single_mul (h : before k) : Leads (single k * l) ends before := by
  intro used hused rest _
  rwa [kind_of_mem_single_mul hused]

theorem leads_single (h : before k) : Leads (single k) ends before := by
  rintro _ ⟨t, rfl, rfl⟩ rest _
  exact h

theorem Leads.mul {between : TokenKind → Prop} (h : Leads l between before)
    (h' : Leads l' ends between) : Leads (l * l') ends before := by
  intro used hused rest hrest
  obtain ⟨u, hu, v, hv, rfl⟩ := Language.mem_mul.1 hused
  rw [List.append_assoc]
  exact h u hu (v ++ rest) (h' v hv rest hrest)

theorem Reads.mono (h : Reads p a l ends) (hends : ∀ k, ends' k → ends k) : Reads p a l ends' :=
  fun used hused rest hrest => h used hused rest (hends _ hrest)

theorem Reads.add (h : Reads p a l ends) (h' : Reads p a l' ends) : Reads p a (l + l') ends := by
  intro used hused
  rcases (Language.mem_add l l' used).1 hused with hl | hl
  · exact h used hl
  · exact h' used hl

theorem reads_give (a : α) : Reads (give a) a 1 ends := by
  intro used hused rest _
  obtain rfl : used = [] := (Language.mem_one used).1 hused
  rfl

/-- One language after another. -/
theorem Reads.andThen (hp : Reads p a l ends) (hq : Reads (q a) b l' ends')
    (hlead : Leads l' ends' ends) : Reads (andThen p q) b (l * l') ends' := by
  intro used hused rest hrest
  obtain ⟨u, hu, v, hv, rfl⟩ := Language.mem_mul.1 hused
  rw [List.append_assoc, andThen_of_ok (hp u hu (v ++ rest) (hlead v hv rest hrest))]
  exact hq v hv rest hrest

/-- Nothing more is read after a language. -/
theorem Reads.map (hp : Reads p a l ends) (f : α → β) :
    Reads (Reader.andThen p fun a => give (f a)) (f a) l ends := by
  have hgive : Reads (give (f a)) (f a) 1 ends := reads_give (f a)
  have hlead : Leads 1 ends ends := by
    intro used hused rest hrest
    obtain rfl : used = [] := (Language.mem_one used).1 hused
    exact hrest
  simpa only [mul_one] using hp.andThen (q := fun a => give (f a)) hgive hlead

/-- A reader of a token of one kind. -/
theorem reads_single (h : ∀ (t : Token) rest, t.kind = k → p (t :: rest) = .ok (a, rest)) :
    Reads p a (single k) ends := by
  rintro _ ⟨t, rfl, ht⟩ rest _
  exact h t rest ht

theorem reads_keyword (w : Keyword) : Reads (silent (keyword w)) () (word w) ends :=
  reads_single fun t rest ht => by
    simp [silent, keyword, afterKeyword?, ht, Except.map]

theorem reads_sign (k : TokenKind) : Reads (silent (sign k)) () (single k) ends :=
  reads_single fun t rest ht => by simp [silent, sign, ht, Except.map]

theorem reads_var (s : String) : Reads var s (single (.var s)) ends :=
  reads_single fun t rest ht => by simp [var, ht]

theorem reads_number (x : Float) : Reads number x (single (.number x)) ends :=
  reads_single fun t rest ht => by simp [number, ht]

theorem reads_name (wanted : Wanted) (s : String) :
    Reads (Reader.name wanted) s (Writing.name s) ends := by
  refine (reads_single fun t rest ht => by simp [Reader.name, ht]).add ?_
  rintro _ ⟨t, w, rfl, ht, rfl⟩ rest _
  simp [Reader.name, current, ht]

theorem reads_operand (allowName : Bool) (o : Operand) :
    Reads (operand allowName) o o.writings ends := by
  cases o with
  | bool b =>
    cases b <;> exact reads_single fun t rest ht => by simp [operand, operandOf?, ht]
  | _ => exact reads_single fun t rest ht => by simp [operand, operandOf?, ht]

theorem reads_argument (o : Operand) : Reads (operand true) o o.argumentWritings ends := by
  cases o with
  | text s =>
    exact (reads_operand true (.text s)).add
      (reads_single fun t rest ht => by simp [operand, operandOf?, ht])
  | _ => exact reads_operand true _

/-! ### Repetitions -/

section Repetitions

variable {element : Reader α} {writings : α → Language Token} {separator : TokenKind} {as : List α}

/-- The first of some elements with its separator. -/
theorem exists_of_mem_afterEach_cons {ls : List (Language Token)}
    (h : used ∈ afterEach separator (l :: ls)) :
    ∃ (t : Token) (u v : List Token), used = t :: (u ++ v) ∧ t.kind = separator ∧ u ∈ l ∧
      v ∈ afterEach separator ls := by
  rw [afterEach, List.map_cons, List.prod_cons, mul_assoc] at h
  obtain ⟨_, ⟨t, rfl, ht⟩, w, hw, rfl⟩ := Language.mem_mul.1 h
  obtain ⟨u, hu, v, hv, rfl⟩ := Language.mem_mul.1 hw
  exact ⟨t, u, v, rfl, ht, hu, hv⟩

theorem leads_afterEach (hends : ∀ k, ends k → before k) (hseparator : before separator)
    (ls : List (Language Token)) : Leads (afterEach separator ls) ends before := by
  intro used hused rest hrest
  cases ls with
  | nil =>
    obtain rfl : used = [] := (Language.mem_one used).1 hused
    exact hends _ hrest
  | cons l ls =>
    obtain ⟨t, u, v, rfl, rfl, -, -⟩ := exists_of_mem_afterEach_cons hused
    exact hseparator

/-- Each separator is a token. -/
theorem length_le_of_mem_afterEach {ls : List (Language Token)}
    (h : used ∈ afterEach separator ls) : ls.length ≤ used.length := by
  induction ls generalizing used with
  | nil => exact Nat.zero_le _
  | cons l ls ih =>
    obtain ⟨t, u, v, rfl, -, -, hv⟩ := exists_of_mem_afterEach_cons h
    have hle := ih hv
    simp only [List.length_cons, List.length_append]
    omega

theorem following_append (helement : ∀ a ∈ as, Reads element a (writings a) ends)
    (hseparator : ends separator) {n : Nat} (hn : as.length ≤ n)
    (hused : used ∈ afterEach separator (as.map writings)) (hrest : ends (kind rest))
    (hne : kind rest ≠ separator) :
    following element separator n (used ++ rest) = .ok (as, rest) := by
  induction as generalizing n used with
  | nil =>
    obtain rfl : used = [] := (Language.mem_one used).1 hused
    cases n with
    | zero => rfl
    | succ n => rw [List.nil_append, following, if_neg hne]
  | cons a as ih =>
    obtain ⟨n, rfl⟩ : ∃ m, n = m + 1 := ⟨n - 1, by simp at hn; omega⟩
    rw [List.length_cons, Nat.add_le_add_iff_right] at hn
    obtain ⟨t, u, v, rfl, ht, hu, hv⟩ := exists_of_mem_afterEach_cons hused
    have hnext : ends (kind (v ++ rest)) :=
      leads_afterEach (fun _ h => h) hseparator _ v hv rest hrest
    have hfirst : element (u ++ (v ++ rest)) = .ok (a, v ++ rest) :=
      helement a List.mem_cons_self u hu (v ++ rest) hnext
    have hothers : following element separator n (v ++ rest) = .ok (as, rest) :=
      ih (fun b hb => helement b (List.mem_cons_of_mem _ hb)) hn hv
    rw [List.cons_append, List.append_assoc, following, kind_cons, if_pos ht, List.tail_cons,
      hfirst]
    simp [hothers, bind, Except.bind, pure, Except.pure]

/-- Elements, each after a separator, are read where neither a separator follows nor what an element
may go on with. -/
theorem reads_following (helement : ∀ a ∈ as, Reads element a (writings a) ends)
    (hseparator : ends separator) :
    Reads (fun tokens => following element separator tokens.length tokens) as
      (afterEach separator (as.map writings)) fun k => ends k ∧ k ≠ separator := by
  intro used hused rest hrest
  have hlength := length_le_of_mem_afterEach hused
  rw [List.length_map] at hlength
  have hle : as.length ≤ (used ++ rest).length := by
    rw [List.length_append]
    omega
  exact following_append helement hseparator hle hused hrest.1 hrest.2

theorem reads_commaSeparated (hne : as ≠ [])
    (helement : ∀ a ∈ as, Reads element a (writings a) ends) (hcomma : ends .comma) :
    Reads (Reader.commaSeparated element) as (Writing.commaSeparated (as.map writings)) fun k =>
      ends k ∧ k ≠ .comma := by
  rw [commaSeparated_eq]
  cases as with
  | nil => exact absurd rfl hne
  | cons a as =>
    have hothers : Reads _ as _ fun k => ends k ∧ k ≠ .comma :=
      reads_following (fun b hb => helement b (List.mem_cons_of_mem a hb)) hcomma
    exact (helement a List.mem_cons_self).andThen (hothers.map (a :: ·))
      (leads_afterEach (fun _ h => h.1) hcomma _)

end Repetitions

theorem reads_path (path : List String) :
    Reads (fun rest => following (Reader.name .attrName) .dot rest.length rest) path
      (afterEach .dot (path.map Writing.name)) (· ≠ .dot) := by
  have hnames : ∀ s ∈ path, Reads (Reader.name .attrName) s (Writing.name s) fun _ => True :=
    fun s _ => reads_name .attrName s
  exact (reads_following hnames trivial).mono fun _ h => ⟨trivial, h⟩

/-- A field is read where no further name follows. -/
theorem reads_field (f : Field) : Reads field f f.writings (· ≠ .dot) := by
  rw [field_eq]
  have hvar : Reads var f.var (single (.var f.var)) fun _ => True := reads_var f.var
  exact hvar.andThen ((reads_path f.path).map (Field.mk f.var)) fun _ _ _ _ => trivial

/-! ### Conditions -/

section Conditions

variable {c : Condition} {f : Field} {n : Nat}

/-- A token decides how reading goes on. -/
theorem Reads.of_token {p' : Reader α} (hp : Reads p' a l ends)
    (h : ∀ (t : Token) rest, t.kind = k → p (t :: rest) = p' rest) :
    Reads p a (single k * l) ends := by
  intro used hused rest hrest
  obtain ⟨_, ⟨t, rfl, ht⟩, u, hu, rfl⟩ := Language.mem_mul.1 hused
  rw [List.append_assoc, List.singleton_append, h t (u ++ rest) ht]
  exact hp u hu rest hrest

theorem reads_compare (op : Comparison) (o : Operand) :
    Reads (test f) (.compare f op o) (single (.operator op) * o.writings) ends :=
  ((reads_operand false o).map (Condition.compare f op)).of_token fun _ _ => test_of_operator

theorem reads_between (low high : Float) :
    Reads (test f) (.between f low high)
      (word .BETWEEN * (single (.number low) * (word .AND * single (.number high)))) ends := by
  have hhigh : Reads number high (single (.number high)) ends := reads_number high
  have hword : Reads (silent (keyword .AND)) () (word .AND) fun _ => True := reads_keyword .AND
  have hlow : Reads number low (single (.number low)) fun _ => True := reads_number low
  refine Reads.of_token ?_ fun _ _ => test_of_between
  refine hlow.andThen ?_ fun _ _ _ _ => trivial
  exact hword.andThen (hhigh.map (Condition.between f low)) fun _ _ _ _ => trivial

theorem reads_contains (s : String) :
    Reads (test f) (.contains f s) (word .CONTAINS * single (.text s)) ends := by
  have htext : Reads (containedText f) (.contains f s) (single (.text s)) ends :=
    reads_single fun t rest ht => by simp [containedText, ht]
  exact htext.of_token fun _ _ => test_of_contains

theorem reads_matching (body flags : String) :
    Reads (test f) (.matching f body flags) (word .MATCHES * single (.regex body flags)) ends := by
  have hpattern : Reads (pattern f) (.matching f body flags) (single (.regex body flags)) ends :=
    reads_single fun t rest ht => by simp [pattern, ht]
  exact hpattern.of_token fun _ _ => test_of_matches

theorem reads_member (o : Operand) :
    Reads (test f) (.member f o) (word .IN * o.writings) ends :=
  ((reads_operand false o).map (Condition.member f)).of_token fun _ _ => test_of_in

theorem reads_arguments (s : String) {operands : List Operand} (hne : operands ≠ []) :
    Reads (arguments s) (.call s operands)
      (enclosed (Writing.commaSeparated (operands.map Operand.argumentWritings))) ends := by
  rw [enclosed, mul_assoc, arguments]
  have hopen : Reads (silent (sign .leftParen)) () (single .leftParen) fun _ => True :=
    reads_sign .leftParen
  have hargument : ∀ o ∈ operands, Reads (operand true) o o.argumentWritings fun _ => True :=
    fun o _ => reads_argument o
  have hoperands : Reads (Reader.commaSeparated (operand true)) operands _ (· ≠ .comma) :=
    (reads_commaSeparated hne hargument trivial).mono fun _ h => ⟨trivial, h⟩
  have hclose : Reads (silent (sign .rightParen)) () (single .rightParen) ends :=
    reads_sign .rightParen
  exact hopen.andThen (hoperands.andThen (hclose.map fun _ => Condition.call s operands)
    (leads_single (by simp))) fun _ _ _ _ => trivial

/-- A field and its test make up a term. -/
theorem Reads.term {tests : Language Token} (h : Reads (test f) c tests ends)
    (hlead : Leads tests ends (· ≠ .dot)) :
    Reads (term (n + 1)) (.condition c) (f.writings * tests) ends := by
  rw [Field.writings, mul_assoc]
  have htest : Reads (pathAndTest f.var) c _ ends := (reads_path f.path).andThen h hlead
  exact (htest.map Clause.condition).of_token fun _ _ => term_of_var

theorem reads_condition (hc : c.HasOperands) :
    Reads (term (n + 1)) (.condition c) c.writings ends := by
  cases c with
  | compare f op o => exact (reads_compare op o).term (leads_single_mul (by simp))
  | between f low high => exact (reads_between low high).term (leads_single_mul (by simp))
  | contains f s => exact (reads_contains s).term (leads_single_mul (by simp))
  | matching f body flags => exact (reads_matching body flags).term (leads_single_mul (by simp))
  | member f o => exact (reads_member o).term (leads_single_mul (by simp))
  | call s operands =>
    exact ((reads_arguments s hc).map Clause.condition).of_token fun _ _ =>
      term_of_ident

end Conditions

/-! ### Clauses -/

section Clauses

variable {c left right : Clause} {n : Nat}

/-- Whether a clause is read from any of its writings, and then stands on the left of what follows.
The number that bounds the terms is not reached. -/
def ReadsOn (c : Clause) : Prop :=
  ∀ (n : Nat) (used rest : List Token), used ∈ c.writings → used.length ≤ n →
    ∃ m ≥ rest.length, clauseOf (term n) (used ++ rest) = clauseFrom (term n) m c rest

theorem clauseFrom_of_ne {element : Reader Clause} (hand : kind rest ≠ .keyword .AND)
    (hor : kind rest ≠ .keyword .OR) : clauseFrom element n c rest = .ok (c, rest) := by
  cases n with
  | zero => rfl
  | succ n =>
    rw [clauseFrom]
    split
    · next h => exact absurd h hand
    · next h => exact absurd h hor
    · rfl

theorem term_of_mem_condition {c : Condition} (hc : c.HasOperands)
    (hused : used ∈ c.writings) (hn : used.length ≤ n) :
    term n (used ++ rest) = .ok (.condition c, rest) := by
  obtain ⟨k, l, hl⟩ : ∃ k l, c.writings = single k * l := by
    cases c with
    | call s operands => exact ⟨_, _, rfl⟩
    | _ => exact ⟨_, _, mul_assoc _ _ _⟩
  cases n with
  | zero =>
    obtain rfl : used = [] := List.eq_nil_of_length_eq_zero (by omega)
    obtain ⟨_, ⟨t, rfl, -⟩, _, -, h⟩ := Language.mem_mul.1 (hl ▸ hused)
    simp at h
  | succ n =>
    have hread : Reads (term (n + 1)) (.condition c) c.writings fun _ => True := reads_condition hc
    exact hread used hused rest trivial

/-- Parentheses end a clause. -/
theorem term_of_mem_enclosed (hc : ReadsOn c) (hused : used ∈ enclosed c.writings)
    (hn : used.length ≤ n) : term n (used ++ rest) = .ok (c, rest) := by
  rw [enclosed, mul_assoc] at hused
  obtain ⟨_, ⟨t, rfl, ht⟩, v, hv, rfl⟩ := Language.mem_mul.1 hused
  obtain ⟨u, hu, _, ⟨t', rfl, ht'⟩, rfl⟩ := Language.mem_mul.1 hv
  simp only [List.length_append, List.length_cons, List.length_nil] at hn
  obtain ⟨n, rfl⟩ : ∃ m, n = m + 1 := ⟨n - 1, by omega⟩
  obtain ⟨m, -, hclause⟩ := hc n u (t' :: rest) hu (by omega)
  have hinner : clauseOf (term n) (u ++ t' :: rest) = .ok (c, t' :: rest) := by
    rw [hclause]
    exact clauseFrom_of_ne (by simp [ht']) (by simp [ht'])
  have hsign : silent (sign .rightParen) (t' :: rest) = .ok ((), rest) := by
    simp [silent, sign, ht', Except.map]
  have htokens : [t] ++ (u ++ [t']) ++ rest = t :: (u ++ t' :: rest) := by simp
  rw [htokens, term_of_leftParen ht, andThen_of_ok hinner, andThen_of_ok hsign]
  rfl

/-- A right operand is a term. -/
theorem term_of_mem_asRight (hc : ReadsOn c) (hoperands : c.HasOperands)
    (hused : used ∈ c.asRight c.writings) (hn : used.length ≤ n) :
    term n (used ++ rest) = .ok (c, rest) := by
  cases c with
  | condition c => exact term_of_mem_condition (hoperands c List.mem_cons_self) hused hn
  | both left right => exact term_of_mem_enclosed hc hused hn
  | either left right => exact term_of_mem_enclosed hc hused hn

theorem clauseFrom_succ_of_ok {element : Reader Clause} {t : Token} {tokens : List Token}
    {combine : Clause → Clause → Clause}
    (h : t.kind = .keyword .AND ∧ combine = .both ∨ t.kind = .keyword .OR ∧ combine = .either)
    (hright : element tokens = .ok (right, rest)) :
    clauseFrom element (n + 1) left (t :: tokens) =
      clauseFrom element n (combine left right) rest := by
  rcases h with ⟨ht, rfl⟩ | ⟨ht, rfl⟩ <;>
    simp [clauseFrom, ht, hright, bind, Except.bind]

/-- A clause goes on with a right operand after one that stands on the left. -/
theorem ReadsOn.combine {combine : Clause → Clause → Clause} {w : Keyword} (hleft : ReadsOn left)
    (hright : ∀ (n : Nat) (used rest : List Token), used ∈ right.asRight right.writings →
      used.length ≤ n → term n (used ++ rest) = .ok (right, rest))
    (hw : w = .AND ∧ combine = .both ∨ w = .OR ∧ combine = .either)
    (hwritings : (combine left right).writings =
      left.writings * (word w * right.asRight right.writings)) :
    ReadsOn (combine left right) := by
  intro n used rest hused hn
  rw [hwritings] at hused
  obtain ⟨u, hu, _, hright', rfl⟩ := Language.mem_mul.1 hused
  obtain ⟨_, ⟨t, rfl, ht⟩, v, hv, rfl⟩ := Language.mem_mul.1 hright'
  simp only [List.length_append, List.length_cons, List.length_nil] at hn
  obtain ⟨m, hm, hclause⟩ := hleft n u (t :: (v ++ rest)) hu (by omega)
  rw [ge_iff_le, List.length_cons, List.length_append] at hm
  obtain ⟨m, rfl⟩ : ∃ m', m = m' + 1 := ⟨m - 1, by omega⟩
  have htokens : u ++ ([t] ++ v) ++ rest = u ++ t :: (v ++ rest) := by simp
  refine ⟨m, by omega, ?_⟩
  rw [htokens, hclause]
  refine clauseFrom_succ_of_ok ?_ (hright n v rest hv (by omega))
  rcases hw with ⟨rfl, rfl⟩ | ⟨rfl, rfl⟩
  · exact .inl ⟨ht, rfl⟩
  · exact .inr ⟨ht, rfl⟩

theorem readsOn (hc : c.HasOperands) : ReadsOn c := by
  induction c with
  | condition c =>
    intro n used rest hused hn
    have hterm : term n (used ++ rest) = .ok (.condition c, rest) :=
      term_of_mem_condition (hc c List.mem_cons_self) hused hn
    exact ⟨rest.length, Nat.le_refl _, by rw [clauseOf_eq, andThen_of_ok hterm]⟩
  | both left right ihl ihr =>
    obtain ⟨hl, hr⟩ := List.forall_mem_append.1 hc
    exact (ihl hl).combine (fun _ _ _ => term_of_mem_asRight (ihr hr) hr) (.inl ⟨rfl, rfl⟩) rfl
  | either left right ihl ihr =>
    obtain ⟨hl, hr⟩ := List.forall_mem_append.1 hc
    exact (ihl hl).combine (fun _ _ _ => term_of_mem_asRight (ihr hr) hr) (.inr ⟨rfl, rfl⟩) rfl

/-- A clause is read where no further term follows. -/
theorem reads_clause (hc : c.HasOperands) :
    Reads clause c c.writings fun k => k ≠ .keyword .AND ∧ k ≠ .keyword .OR := by
  intro used hused rest hrest
  have hlength : used.length ≤ (used ++ rest).length + 1 := by
    rw [List.length_append]
    omega
  obtain ⟨m, -, hclause⟩ := readsOn hc _ used rest hused hlength
  rw [clause, hclause]
  exact clauseFrom_of_ne hrest.1 hrest.2

end Clauses

/-! ### Queries -/

section Queries

variable {words : List Keyword} {w : Keyword}

/-- Whether a token ends a query or begins one of some parts of it. -/
def Opens (words : List Keyword) (k : TokenKind) : Prop := k = .finish ∨ ∃ w ∈ words, k = .keyword w

theorem leads_optional (w : Keyword) (l : Option (Language Token)) :
    Leads (Writing.optional w l) (Opens words) (Opens (w :: words)) := by
  cases l with
  | none =>
    intro used hused rest hrest
    obtain rfl : used = [] := (Language.mem_one used).1 hused
    exact hrest.imp_right fun ⟨w', hw', h⟩ => ⟨w', List.mem_cons_of_mem _ hw', h⟩
  | some l => exact leads_single_mul (.inr ⟨w, List.mem_cons_self, rfl⟩)

theorem reads_optional {o : Option α} {writings : α → Language Token} (hw : w ∉ words)
    (hp : ∀ a ∈ o, Reads p a (writings a) (Opens words)) :
    Reads (Reader.optional w p) o (Writing.optional w (o.map writings)) (Opens words) := by
  cases o with
  | none =>
    intro used hused rest hrest
    obtain rfl : used = [] := (Language.mem_one used).1 hused
    have hne : kind rest ≠ .keyword w := by
      rintro h
      rcases hrest with hfinish | ⟨w', hw', hk⟩
      · simp [h] at hfinish
      · rw [h, TokenKind.keyword.injEq] at hk
        exact hw (hk ▸ hw')
    simp [Reader.optional, afterKeyword?, hne]
  | some a =>
    refine ((hp a rfl).map some).of_token fun t rest ht => ?_
    simp only [Reader.optional, afterKeyword?, kind_cons, ht, if_true, List.tail_cons]
    rfl

theorem Opens.ne {words : List Keyword} {k k' : TokenKind} (h : Opens words k)
    (hfinish : k' ≠ .finish) (hwords : ∀ w ∈ words, k' ≠ .keyword w) : k ≠ k' := by
  rintro rfl
  rcases h with h | ⟨w, hw, h⟩
  · exact hfinish h
  · exact hwords w hw h

theorem reads_direction (d : Direction) :
    Reads readDirection d d.writings (Opens [.LIMIT]) := by
  cases d with
  | asc =>
    refine Reads.add ?_ (reads_single fun t rest ht => by simp [readDirection, direction, ht])
    intro used hused rest hrest
    obtain rfl : used = [] := (Language.mem_one used).1 hused
    have hasc : kind rest ≠ .keyword .ASC := hrest.ne (by simp) (by simp)
    have hdesc : kind rest ≠ .keyword .DESC := hrest.ne (by simp) (by simp)
    rw [List.nil_append, readDirection, direction]
    split
    · next h => exact absurd h hdesc
    · next h => exact absurd h hasc
    · rfl
  | desc => exact reads_single fun t rest ht => by simp [readDirection, direction, ht]

theorem reads_sortField (s : SortField) :
    Reads sortField s s.writings (Opens [.LIMIT]) := by
  have hword : Reads (silent (keyword .BY)) () (word .BY) fun _ => True := reads_keyword .BY
  have hlead : Leads s.direction.writings (Opens [.LIMIT]) (· ≠ .dot) := by
    cases s.direction with
    | asc =>
      have hword : Leads (word .ASC) (Opens [.LIMIT]) (· ≠ .dot) := leads_single (by simp)
      intro used hused rest hrest
      rcases (Language.mem_add _ _ used).1 hused with h | h
      · obtain rfl : used = [] := (Language.mem_one used).1 h
        exact hrest.ne (by simp) (by simp)
      · exact hword used h rest hrest
    | desc => exact leads_single (by simp)
  rw [sortField_eq]
  refine hword.andThen ?_ fun _ _ _ _ => trivial
  exact (reads_field s.field).andThen
    ((reads_direction s.direction).map (SortField.mk s.field)) hlead

theorem reads_limit {n : Nat} (hn : n < 2 ^ 53) :
    Reads limit n (single (.number (Float.ofNat n))) ends := by
  have hmin : min n maxLimit = n := Nat.min_eq_left (by unfold maxLimit UInt64.size; omega)
  refine reads_single fun t rest ht => ?_
  simp [limit, number, ht, Number.whole?_ofNat hn, bind, Except.bind, hmin, pure, Except.pure]

theorem reads_opening (q : Query) : Reads opening (q.entityType, q.var) q.openingWritings ends := by
  have hfind : Reads (silent (keyword .FIND)) () (word .FIND) fun _ => True := reads_keyword .FIND
  have hname : Reads (Reader.name .entityType) q.entityType (Writing.name q.entityType)
      fun _ => True := reads_name .entityType q.entityType
  have has : Reads (silent (keyword .AS)) () (word .AS) fun _ => True := reads_keyword .AS
  have hvar : Reads var q.var (single (.var q.var)) ends := reads_var q.var
  refine hfind.andThen ?_ fun _ _ _ _ => trivial
  refine hname.andThen ?_ fun _ _ _ _ => trivial
  exact has.andThen (hvar.map (Prod.mk q.entityType)) fun _ _ _ _ => trivial

theorem reads_return (q : Query) :
    Reads (Reader.optional .RETURN (Reader.commaSeparated field)) q.returned?
      (Writing.optional .RETURN
        (q.returned?.map fun fs => Writing.commaSeparated (fs.map Field.writings)))
      (Opens [.ORDER, .LIMIT]) := by
  refine reads_optional (by simp) fun fs hfs => ?_
  obtain ⟨hne, rfl⟩ : ¬ q.returns = [] ∧ q.returns = fs := by simpa [Query.returned?] using hfs
  have hfields := reads_commaSeparated hne (fun f _ => reads_field f) (by simp)
  exact hfields.mono fun k hk => ⟨hk.ne (by simp) (by simp), hk.ne (by simp) (by simp)⟩

theorem getD_returned? (q : Query) : q.returned?.getD [] = q.returns := by
  unfold Query.returned?
  split
  · next h => rw [h, Option.getD_none]
  · rfl

theorem reads_sentence {q : Query} (h : q.IsWritable) :
    Reads sentence q q.sentenceWritings (Opens []) := by
  have hwhere : Reads (Reader.optional .WHERE clause) q.clause
      (Writing.optional .WHERE (q.clause.map Clause.writings))
      (Opens [.RETURN, .ORDER, .LIMIT]) := by
    refine reads_optional (by simp) fun c hc => ?_
    exact (reads_clause (h.of_clause hc)).mono fun k hk =>
      ⟨hk.ne (by simp) (by simp), hk.ne (by simp) (by simp)⟩
  have horder : Reads (Reader.optional .ORDER sortField) q.sortField
      (Writing.optional .ORDER (q.sortField.map SortField.writings)) (Opens [.LIMIT]) :=
    reads_optional (by simp) fun s _ => reads_sortField s
  have hlimit : Reads (Reader.optional .LIMIT limit) q.limit
      (Writing.optional .LIMIT (q.limit.map fun n => single (.number (Float.ofNat n))))
      (Opens []) :=
    reads_optional (by simp) fun n hn => reads_limit (h.limit_lt n hn)
  have hq : { q with returns := q.returned?.getD [] } = q := by rw [getD_returned?]
  have hend : Reads _ q _ (Opens []) := hq ▸ hlimit.map fun limit =>
    { q with returns := q.returned?.getD [], limit }
  have hopening : Reads opening (q.entityType, q.var) q.openingWritings fun _ => True :=
    reads_opening q
  refine hopening.andThen ?_ fun _ _ _ _ => trivial
  refine hwhere.andThen ?_
    ((leads_optional _ _).mul ((leads_optional _ _).mul (leads_optional _ _)))
  refine (reads_return q).andThen ?_ ((leads_optional _ _).mul (leads_optional _ _))
  exact horder.andThen hend (leads_optional _ _)

end Queries

end Reader

/-! ## Something is written -/

namespace Writing

theorem exists_mem_single (k : TokenKind) : ∃ tokens, tokens ∈ single k :=
  ⟨[⟨k, [], .start⟩], _, rfl, rfl⟩

theorem exists_mem_mul {l l' : Language Token} (h : ∃ tokens, tokens ∈ l)
    (h' : ∃ tokens, tokens ∈ l') : ∃ tokens, tokens ∈ l * l' := by
  obtain ⟨u, hu⟩ := h
  obtain ⟨v, hv⟩ := h'
  exact ⟨u ++ v, Language.append_mem_mul hu hv⟩

theorem exists_mem_add {l l' : Language Token} (h : ∃ tokens, tokens ∈ l) :
    ∃ tokens, tokens ∈ l + l' :=
  h.imp fun u hu => (Language.mem_add l l' u).2 (.inl hu)

theorem exists_mem_name (s : String) : ∃ tokens, tokens ∈ name s :=
  exists_mem_add (exists_mem_single _)

theorem exists_mem_afterEach {separator : TokenKind} {ls : List (Language Token)}
    (h : ∀ l ∈ ls, ∃ tokens, tokens ∈ l) : ∃ tokens, tokens ∈ afterEach separator ls := by
  induction ls with
  | nil => exact ⟨[], (Language.mem_one []).2 rfl⟩
  | cons l ls ih =>
    rw [afterEach, List.map_cons, List.prod_cons]
    exact exists_mem_mul (exists_mem_mul (exists_mem_single _) (h l List.mem_cons_self))
      (ih fun l' hl' => h l' (List.mem_cons_of_mem l hl'))

theorem exists_mem_commaSeparated {ls : List (Language Token)} (hne : ls ≠ [])
    (h : ∀ l ∈ ls, ∃ tokens, tokens ∈ l) : ∃ tokens, tokens ∈ commaSeparated ls := by
  cases ls with
  | nil => exact absurd rfl hne
  | cons l ls =>
    exact exists_mem_mul (h l List.mem_cons_self)
      (exists_mem_afterEach fun l' hl' => h l' (List.mem_cons_of_mem l hl'))

theorem exists_mem_enclosed {l : Language Token} (h : ∃ tokens, tokens ∈ l) :
    ∃ tokens, tokens ∈ enclosed l :=
  exists_mem_mul (exists_mem_mul (exists_mem_single _) h) (exists_mem_single _)

theorem exists_mem_optional {α : Type} (w : Keyword) {part : Option α}
    {writings : α → Language Token} (h : ∀ a ∈ part, ∃ tokens, tokens ∈ writings a) :
    ∃ tokens, tokens ∈ optional w (part.map writings) := by
  cases part with
  | none => exact ⟨[], (Language.mem_one []).2 rfl⟩
  | some a => exact exists_mem_mul (exists_mem_single _) (h a rfl)

end Writing

theorem Field.exists_mem_writings (f : Field) : ∃ tokens, tokens ∈ f.writings := by
  refine exists_mem_mul (exists_mem_single _) (exists_mem_afterEach fun l hl => ?_)
  obtain ⟨s, -, rfl⟩ := List.mem_map.1 hl
  exact exists_mem_name s

theorem Operand.exists_mem_writings (o : Operand) : ∃ tokens, tokens ∈ o.writings := by
  cases o with
  | bool b => cases b <;> exact exists_mem_single _
  | _ => exact exists_mem_single _

theorem Operand.exists_mem_argumentWritings (o : Operand) :
    ∃ tokens, tokens ∈ o.argumentWritings := by
  cases o with
  | text s => exact exists_mem_add (exists_mem_single _)
  | bool b => exact Operand.exists_mem_writings (.bool b)
  | _ => exact exists_mem_single _

theorem Condition.exists_mem_writings {c : Condition} (hc : c.HasOperands) :
    ∃ tokens, tokens ∈ c.writings := by
  have htest : ∀ (f : Field) (k : TokenKind) {l : Language Token}, (∃ tokens, tokens ∈ l) →
      ∃ tokens, tokens ∈ f.writings * (single k * l) := fun f k _ h =>
    exists_mem_mul f.exists_mem_writings (exists_mem_mul (exists_mem_single k) h)
  cases c with
  | compare f op o => exact htest f _ o.exists_mem_writings
  | between f low high =>
    exact htest f _ (exists_mem_mul (exists_mem_single _)
      (exists_mem_mul (exists_mem_single _) (exists_mem_single _)))
  | contains f s => exact htest f _ (exists_mem_single _)
  | matching f body flags => exact htest f _ (exists_mem_single _)
  | member f o => exact htest f _ o.exists_mem_writings
  | call s operands =>
    refine exists_mem_mul (exists_mem_single _) (exists_mem_enclosed ?_)
    refine exists_mem_commaSeparated (by simpa [HasOperands] using hc) fun l hl => ?_
    obtain ⟨o, -, rfl⟩ := List.mem_map.1 hl
    exact o.exists_mem_argumentWritings

namespace Clause

theorem exists_mem_asRight {c : Clause} {l : Language Token} (h : ∃ tokens, tokens ∈ l) :
    ∃ tokens, tokens ∈ c.asRight l := by
  cases c with
  | condition c => exact h
  | _ => exact exists_mem_enclosed h

theorem exists_mem_writings {c : Clause} (hc : c.HasOperands) : ∃ tokens, tokens ∈ c.writings := by
  induction c with
  | condition c => exact Condition.exists_mem_writings (hc c List.mem_cons_self)
  | both left right ihl ihr | either left right ihl ihr =>
    obtain ⟨hl, hr⟩ := List.forall_mem_append.1 hc
    exact exists_mem_mul (ihl hl)
      (exists_mem_mul (exists_mem_single _) (exists_mem_asRight (ihr hr)))

end Clause

namespace Query

theorem exists_mem_writings {q : Query} (h : q.IsWritable) : ∃ tokens, tokens ∈ q.writings := by
  have hopening : ∃ tokens, tokens ∈ q.openingWritings :=
    exists_mem_mul (exists_mem_single _) (exists_mem_mul (exists_mem_name _)
      (exists_mem_mul (exists_mem_single _) (exists_mem_single _)))
  have hwhere : ∃ tokens, tokens ∈ optional .WHERE (q.clause.map Clause.writings) :=
    exists_mem_optional _ fun c hc => Clause.exists_mem_writings (h.of_clause hc)
  have hreturn : ∃ tokens, tokens ∈ optional .RETURN
      (q.returned?.map fun fs => commaSeparated (fs.map Field.writings)) := by
    refine exists_mem_optional _ fun fs hfs => ?_
    obtain ⟨hne, rfl⟩ : ¬ q.returns = [] ∧ q.returns = fs := by simpa [returned?] using hfs
    refine exists_mem_commaSeparated (by simpa using hne) fun l hl => ?_
    obtain ⟨f, -, rfl⟩ := List.mem_map.1 hl
    exact f.exists_mem_writings
  have horder : ∃ tokens, tokens ∈ optional .ORDER (q.sortField.map SortField.writings) := by
    refine exists_mem_optional _ fun s _ => ?_
    refine exists_mem_mul (exists_mem_single _) (exists_mem_mul s.field.exists_mem_writings ?_)
    cases s.direction with
    | asc => exact exists_mem_add ⟨[], (Language.mem_one []).2 rfl⟩
    | desc => exact exists_mem_single _
  have hlimit : ∃ tokens, tokens ∈
      optional .LIMIT (q.limit.map fun n => single (.number (Float.ofNat n))) :=
    exists_mem_optional _ fun _ _ => exists_mem_single _
  exact exists_mem_mul (exists_mem_mul hopening (exists_mem_mul hwhere
    (exists_mem_mul hreturn (exists_mem_mul horder hlimit)))) (exists_mem_single _)

/-! ## Queries are read back -/

theorem ofTokens_of_mem_writings {q : Query} {tokens : List Token} (h : q.IsWritable)
    (htokens : tokens ∈ q.writings) : Query.ofTokens tokens = .ok q := by
  obtain ⟨u, hu, _, ⟨t, rfl, ht⟩, rfl⟩ := Language.mem_mul.1 htokens
  have hsentence : Reader.sentence (u ++ [t]) = .ok (q, [t]) :=
    Reader.reads_sentence h u hu [t] (.inl ht)
  rw [Query.ofTokens, Reader.query_eq, hsentence]
  simp [ht, bind, Except.bind, Except.mapError, pure, Except.pure]

/-- The grammar is not ambiguous: tokens write one query only. -/
theorem eq_of_mem_writings {q q' : Query} {tokens : List Token} (h : q.IsWritable)
    (h' : q'.IsWritable) (htokens : tokens ∈ q.writings) (htokens' : tokens ∈ q'.writings) :
    q = q' :=
  Except.ok.inj ((ofTokens_of_mem_writings h htokens).symm.trans
    (ofTokens_of_mem_writings h' htokens'))

/-- Whichever way a query is written, and there is a way, the same query is read. -/
theorem ofTokens_writings {q : Query} (h : q.IsWritable) :
    (∃ tokens, tokens ∈ q.writings) ∧ ∀ tokens ∈ q.writings, Query.ofTokens tokens = .ok q :=
  ⟨exists_mem_writings h, fun _ htokens => ofTokens_of_mem_writings h htokens⟩

/-- Posts in a range of views that a rule is about, or whose title matches or that are listed: the
right operand is combined itself. -/
def combined : Query where
  entityType := "post"
  var := "p"
  clause := some (.both
    (.both (.condition (.between ⟨"p", ["views"]⟩ 1 2))
      (.condition (.call "reached" [.text "alice", .var "p"])))
    (.either (.condition (.matching ⟨"p", ["title"]⟩ "^rust" "i"))
      (.condition (.member ⟨"p", ["order"]⟩ (.text "a,b")))))
  returns := [⟨"p", ["title"]⟩, ⟨"p", ["author", "name"]⟩]
  sortField := some ⟨⟨"p", ["views"]⟩, .desc⟩
  limit := some 10

theorem isWritable_combined : combined.IsWritable where
  hasOperands := by simp [combined, conditions, Clause.conditions, Condition.HasOperands]
  limit_lt := by simp [combined]

theorem ofTokens_writings_combined : combined.IsWritable ∧
    (∃ tokens, tokens ∈ combined.writings) ∧
      ∀ tokens ∈ combined.writings, Query.ofTokens tokens = .ok combined :=
  ⟨isWritable_combined, ofTokens_writings isWritable_combined⟩

/-- `AND` and `OR` bind alike and group to the left, and the `AND` of a range is not one of them. -/
example : (Query.parse
      "FIND p AS ?p WHERE ?p.a BETWEEN 1 AND 2 AND ?p.b = 3 OR ?p.c = 4").toOption.map (·.clause) =
    some (some (.either
      (.both (.condition (.between ⟨"p", ["a"]⟩ 1 2))
        (.condition (.compare ⟨"p", ["b"]⟩ .eq (.number 3))))
      (.condition (.compare ⟨"p", ["c"]⟩ .eq (.number 4))))) := by
  decide +kernel

end Query

end Factbase.Find
