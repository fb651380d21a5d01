import Factbase.Program
import Factbase.Proofs.Results
import Factbase.Proofs.Solving
import Factbase.Rule.Reader

/-! # What is read from rule texts

Names in rule texts consist of letters, digits and underscores, a name that is built in is read as
the built-in predicate, and a choice has branches, each with goals, and is more than one goal
(`Rule.IsRead`). So whatever reads as a rule has legible variables, and no derived relation in it
has the name of a base relation (`Rule.isReadable_of_parseAll`, `Goal.isReadable_of_parseAll`). Most
of what holds of evaluations is said of programs whose rules were all read from texts
(`Program.IsParsed`). -/

namespace Factbase

/-- What is read as a literal: no variable holds an equals sign, and a derived relation has no name
of a base relation. -/
structure Literal.IsReadable (l : Literal) : Prop where
  isLegible : l.IsLegible
  isDerived : ∀ name, l.predicate = .derived name → WorkingSet.isBase name = false

/-- What is read as a goal: all its literals are readable. -/
def Goal.IsReadable (goal : Goal) : Prop := ∀ l, goal.Mentions l → l.IsReadable

/-- What is read as a rule. -/
structure Rule.IsReadable (r : Rule) : Prop where
  head : r.head.IsReadable
  body : ∀ goal ∈ r.body, goal.IsReadable

/-! ## What readers give -/

/-- What is read as a name: a character that starts names, and characters that go on with them. -/
def RuleReader.IsName (name : List Char) : Prop :=
  ∃ c rest, name = c :: rest ∧ startsName c = true ∧ ∀ d ∈ rest, continuesName d = true

/-- What is read as a term: a variable has a name, and no constant is a timestamp. -/
def Term.IsRead : Term → Prop
  | .var name => RuleReader.IsName name.toList
  | .const (.timestamp _) => False
  | .const _ => True

/-- What is read as a literal: a comparison, or a predicate with a name that does not start with
white space. -/
structure Literal.IsRead (l : Literal) : Prop where
  predicate : (∃ op, l.predicate = .compare op) ∨
    ∃ c rest, RuleReader.IsName (c :: rest) ∧ Text.isBlank c = false ∧
      l.predicate = .ofName (String.ofList (c :: rest))
  terms : ∀ t ∈ l.terms, t.IsRead

/-- What is read as a goal. -/
inductive Goal.IsRead : Goal → Prop where
  | literal {l : Literal} (h : l.IsRead) (hnot : l.predicate.name ≠ "not") : IsRead (.literal l)
  | not {goal : Goal} (h : IsRead goal) : IsRead (.not goal)
  | anyOf {branches : List (List Goal)} (hne : branches ≠ [])
      (hsingle : ∀ goal, branches ≠ [[goal]])
      (hbranch : ∀ branch ∈ branches, branch ≠ [])
      (h : ∀ branch ∈ branches, ∀ goal ∈ branch, IsRead goal) : IsRead (.anyOf branches)

/-- What is read as a rule. -/
structure Rule.IsRead (r : Rule) : Prop where
  head : r.head.IsRead
  body : ∀ goal ∈ r.body, goal.IsRead

namespace RuleReader

/-- A reader gives only what has a property. -/
def Gives {α : Type} (reader : RuleReader α) (P : α → Prop) : Prop :=
  ∀ text a rest, reader text = .ok (a, rest) → P a

theorem isName_of_name? {text name rest : List Char} (h : name? text = some (name, rest)) :
    IsName name := by
  unfold name? at h
  split at h
  · simp at h
  · next c tail =>
    split at h
    · next hstart =>
      obtain ⟨rfl, -⟩ : c :: tail.takeWhile continuesName = name ∧ _ := by simpa using h
      exact ⟨c, _, rfl, hstart, fun d hd => List.mem_takeWhile_imp hd⟩
    · simp at h

/-- A name starts as the text does. -/
theorem head?_of_name? {text name rest : List Char} (h : name? text = some (name, rest)) :
    name.head? = text.head? := by
  unfold name? at h
  split at h
  · simp at h
  · split at h
    · obtain ⟨rfl, -⟩ : _ = name ∧ _ := by simpa using h
      rfl
    · simp at h

/-- A name holds no equals sign. -/
theorem IsName.notMem {name : List Char} (h : IsName name) : '=' ∉ name := by
  obtain ⟨c, rest, rfl, hstart, hrest⟩ := h
  rw [List.mem_cons, not_or]
  constructor
  · rintro rfl
    exact absurd hstart (by decide)
  · intro hmem
    exact absurd (hrest _ hmem) (by decide)

/-- A name has no question mark in front that would not be its own. -/
theorem IsName.variableName {name : List Char} (h : IsName name) :
    (variableName (String.ofList name)).toList = name := by
  obtain ⟨c, rest, rfl, hstart, -⟩ := h
  unfold Factbase.variableName
  split
  · next tail heq =>
    rw [String.toList_ofList, List.cons.injEq] at heq
    rw [heq.1] at hstart
    exact absurd hstart (by decide)
  · rw [String.toList_ofList]

theorem isRead_wordAtom (word : List Char) : (Term.const (wordAtom word)).IsRead := by
  unfold wordAtom
  split <;> trivial

theorem gives_term : Gives term Term.IsRead := by
  intro text t rest h
  unfold term at h
  split at h
  · simp [fail] at h
  · split at h
    · next name _ hname =>
      obtain ⟨rfl, -⟩ : Term.ofName (String.ofList name) = t ∧ _ := by simpa using h
      have hread := isName_of_name? hname
      rwa [← hread.variableName] at hread
    · simp [fail] at h
  · split at h
    · next body _ _ =>
      obtain ⟨rfl, -⟩ : Term.const (.text (String.ofList body)) = t ∧ _ := by simpa using h
      trivial
    · simp [fail] at h
  · split at h
    · obtain ⟨⟨x, _⟩, -, h⟩ := bind_eq_ok.1 h
      obtain ⟨rfl, -⟩ : Term.const (.number x) = t ∧ _ := by simpa [pure, Except.pure] using h
      trivial
    · split at h
      · next word _ _ =>
        obtain ⟨rfl, -⟩ : Term.const (wordAtom word) = t ∧ _ := by simpa using h
        exact isRead_wordAtom word
      · simp [fail] at h

/-- A list with separators is not empty and gives what its elements are. -/
theorem gives_separated {α : Type} {element : RuleReader α} {P : α → Prop}
    (h : Gives element P) (separator : Char) (n : Nat) :
    Gives (separated element separator n) fun as => as ≠ [] ∧ ∀ a ∈ as, P a := by
  have hsingle : ∀ {a : α}, P a → [a] ≠ [] ∧ ∀ b ∈ [a], P b := fun ha =>
    ⟨List.cons_ne_nil _ _, List.forall_mem_singleton.2 ha⟩
  induction n with
  | zero =>
    intro text as rest hread
    obtain ⟨⟨a, rest'⟩, ha, hread⟩ := bind_eq_ok.1 hread
    obtain ⟨rfl, -⟩ : [a] = as ∧ _ := by simpa [pure, Except.pure] using hread
    exact hsingle (h _ _ _ ha)
  | succ n ih =>
    intro text as rest hread
    obtain ⟨⟨a, rest'⟩, ha, hread⟩ := bind_eq_ok.1 hread
    have hfirst := h _ _ _ ha
    dsimp only at hread
    split at hread
    · obtain ⟨rfl, -⟩ : [a] = as ∧ _ := by simpa [pure, Except.pure] using hread
      exact hsingle hfirst
    · split at hread
      · obtain ⟨⟨others, rest''⟩, hothers, hread⟩ := bind_eq_ok.1 hread
        obtain ⟨rfl, -⟩ : a :: others = as ∧ _ := by simpa [pure, Except.pure] using hread
        exact ⟨List.cons_ne_nil _ _, List.forall_mem_cons.2 ⟨hfirst, (ih _ _ _ hothers).2⟩⟩
      · obtain ⟨rfl, -⟩ : [a] = as ∧ _ := by simpa [pure, Except.pure] using hread
        exact hsingle hfirst

theorem gives_terms : Gives terms fun ts => ∀ t ∈ ts, t.IsRead := by
  intro text ts rest h
  obtain ⟨inner, -, h⟩ := bind_eq_ok.1 h
  split at h
  · obtain ⟨rfl, -⟩ : [] = ts ∧ _ := by simpa [pure, Except.pure] using h
    simp
  · obtain ⟨⟨as, rest'⟩, has, h⟩ := bind_eq_ok.1 h
    dsimp only at h
    split at h
    · obtain ⟨rfl, -⟩ : as = ts ∧ _ := by simpa [pure, Except.pure] using h
      exact (gives_separated gives_term ',' _ _ _ _ has).2
    · simp [fail] at h

/-- White space is skipped. -/
theorem isBlank_of_skipFrom {inComment : Bool} {text rest : List Char} {c : Char}
    (h : skipFrom inComment text = c :: rest) : Text.isBlank c = false := by
  induction text generalizing inComment with
  | nil => simp [skipFrom] at h
  | cons d text ih =>
    rw [skipFrom] at h
    repeat' split at h
    all_goals
      first
      | exact ih h
      | skip
    next hblank _ =>
      obtain ⟨rfl, -⟩ := List.cons.inj h
      simpa using hblank

/-- A literal of a name in front of white space or not, with terms that are read. -/
theorem isRead_named {text name rest : List Char} {ts : List Term}
    (hname : name? (skip text) = some (name, rest)) (hts : ∀ t ∈ ts, t.IsRead) :
    (Literal.named (String.ofList name) ts).IsRead := by
  obtain ⟨c, tail, rfl, hread⟩ := isName_of_name? hname
  refine ⟨.inr ⟨c, tail, ⟨c, tail, rfl, hread⟩, ?_, rfl⟩, hts⟩
  have hhead := head?_of_name? hname
  cases hskip : skip text with
  | nil => simp [hskip] at hhead
  | cons d more =>
    rw [hskip, List.head?_cons, List.head?_cons, Option.some.injEq] at hhead
    exact hhead ▸ isBlank_of_skipFrom hskip

/-- Names of predicates are those they are read from, but for the words of comparisons. -/
theorem name_ofName (written : String) :
    (Predicate.ofName written).name = written ∨ ∃ op, Predicate.ofName written = .compare op := by
  unfold Predicate.ofName
  split
  all_goals
    first
    | exact .inl rfl
    | exact .inr ⟨_, rfl⟩

theorem symbol_ne_not (op : Comparison) : op.symbol ≠ "not" := by
  cases op <;> decide

theorem name_ne_not {name : List Char} (h : name ≠ ['n', 'o', 't']) :
    (Predicate.ofName (String.ofList name)).name ≠ "not" := by
  rcases name_ofName (String.ofList name) with hname | ⟨op, hop⟩
  · rw [hname]
    exact fun heq => h (by rw [← String.toList_ofList (l := name), heq]; rfl)
  · rw [hop]
    exact symbol_ne_not op

theorem gives_comparisonGoal : Gives comparisonGoal Goal.IsRead := by
  intro text goal rest h
  obtain ⟨⟨left, _⟩, hleft, h⟩ := bind_eq_ok.1 h
  obtain ⟨⟨op, _⟩, -, h⟩ := bind_eq_ok.1 h
  obtain ⟨⟨right, _⟩, hright, h⟩ := bind_eq_ok.1 h
  obtain ⟨rfl, -⟩ : Goal.literal ⟨.compare op, [left, right]⟩ = goal ∧ _ := by
    simpa [pure, Except.pure] using h
  refine .literal ⟨.inl ⟨op, rfl⟩, ?_⟩ (symbol_ne_not op)
  simp only [List.mem_cons, List.not_mem_nil, or_false]
  rintro t (rfl | rfl)
  · exact gives_term _ _ _ hleft
  · exact gives_term _ _ _ hright

/-- A choice is one goal, or more than that. -/
theorem isRead_choice {branches : List (List Goal)} (hne : branches ≠ [])
    (hbranch : ∀ branch ∈ branches, branch ≠ [] ∧ ∀ goal ∈ branch, goal.IsRead) :
    (choice branches).IsRead := by
  unfold choice
  split
  · exact (hbranch _ List.mem_cons_self).2 _ List.mem_cons_self
  · next hsingle =>
    exact .anyOf hne hsingle (fun b hb => (hbranch b hb).1) fun b hb => (hbranch b hb).2

theorem gives_goal (n : Nat) : Gives (goal n) Goal.IsRead := by
  induction n with
  | zero =>
    intro text g rest h
    simp [goal, fail] at h
  | succ n ih =>
    intro text g rest h
    rw [goal] at h
    dsimp only at h
    split at h
    · -- branches in parentheses
      obtain ⟨⟨branches, _⟩, hbranches, h⟩ := bind_eq_ok.1 h
      obtain ⟨_, -, h⟩ := bind_eq_ok.1 h
      obtain ⟨rfl, -⟩ : choice branches = g ∧ _ := by simpa [pure, Except.pure] using h
      have hconjunction : Gives (fun t => separated (goal n) ',' t.length t)
          fun gs => gs ≠ [] ∧ ∀ g ∈ gs, g.IsRead :=
        fun _ gs rest hgs => gives_separated ih ',' _ _ gs rest hgs
      obtain ⟨hne, hbranch⟩ := gives_separated hconjunction ';' _ _ _ _ hbranches
      exact isRead_choice hne hbranch
    · split at h
      · next name _ hname =>
        split at h
        · split at h
          · -- a negated goal
            obtain ⟨⟨inner, _⟩, hinner, h⟩ := bind_eq_ok.1 h
            obtain ⟨_, -, h⟩ := bind_eq_ok.1 h
            obtain ⟨rfl, -⟩ : Goal.not inner = g ∧ _ := by simpa [pure, Except.pure] using h
            exact .not (ih _ _ _ hinner)
          · -- a literal
            next hnot =>
            obtain ⟨⟨ts, _⟩, hts, h⟩ := bind_eq_ok.1 h
            obtain ⟨rfl, -⟩ : Goal.literal (.named (String.ofList name) ts) = g ∧ _ := by
              simpa [pure, Except.pure] using h
            exact .literal (isRead_named hname (gives_terms _ _ _ hts)) (name_ne_not hnot)
        · exact gives_comparisonGoal _ _ _ h
      · exact gives_comparisonGoal _ _ _ h

theorem gives_goals : Gives goals fun gs => ∀ g ∈ gs, g.IsRead :=
  fun _ gs rest h => (gives_separated (gives_goal _) ',' _ _ gs rest h).2

theorem gives_literal : Gives literal Literal.IsRead := by
  intro text l rest h
  unfold literal at h
  split at h
  · next hname =>
    obtain ⟨⟨ts, _⟩, hts, h⟩ := bind_eq_ok.1 h
    obtain ⟨rfl, -⟩ : Literal.named _ ts = l ∧ _ := by simpa [pure, Except.pure] using h
    exact isRead_named hname (gives_terms _ _ _ hts)
  · simp [fail] at h

theorem gives_rule : Gives rule Rule.IsRead := by
  intro text r rest h
  obtain ⟨⟨head, _⟩, hhead, h⟩ := bind_eq_ok.1 h
  dsimp only at h
  have hrule : ∀ {body rest'}, (∀ goal ∈ body, goal.IsRead) →
      (do let rest ← expect '.' rest'; pure ((⟨head, body⟩ : Rule), rest)) = .ok (r, rest) →
      r.IsRead := by
    intro body rest' hbody h
    obtain ⟨_, -, h⟩ := bind_eq_ok.1 h
    obtain ⟨rfl, -⟩ : (⟨head, body⟩ : Rule) = r ∧ _ := by simpa [pure, Except.pure] using h
    exact ⟨gives_literal _ _ _ hhead, hbody⟩
  split at h
  · obtain ⟨⟨body, _⟩, hbody, h⟩ := bind_eq_ok.1 h
    exact hrule (gives_goals _ _ _ hbody) h
  · exact hrule (List.forall_mem_nil _) h

end RuleReader

/-! ## What is read is readable -/

/-- A name that is read as that of a derived relation is no name of a base relation. -/
theorem Predicate.isBase_of_ofName {written name : String}
    (h : Predicate.ofName written = .derived name) : WorkingSet.isBase name = false := by
  have hattr : written ≠ "attr" := by
    rintro rfl
    simp [Predicate.ofName] at h
  have hlink : written ≠ "link" := by
    rintro rfl
    simp [Predicate.ofName] at h
  have hname : name = written := by
    unfold Predicate.ofName at h
    split at h <;> simp at h
    exact h.symm
  simp [WorkingSet.isBase, attrRelation, linkRelation, hname, hattr, hlink]

theorem Literal.IsRead.isReadable {l : Literal} (h : l.IsRead) : l.IsReadable := by
  refine ⟨fun name hname => (h.terms _ hname).notMem, fun name hname => ?_⟩
  rcases h.predicate with ⟨op, hop⟩ | ⟨c, rest, -, -, hread⟩
  · simp [hop] at hname
  · exact Predicate.isBase_of_ofName (hread ▸ hname)

theorem Goal.IsRead.isReadable {goal : Goal} (h : goal.IsRead) : goal.IsReadable := by
  induction h with
  | literal h hnot =>
    intro l hl
    cases hl with
    | literal => exact h.isReadable
  | not h ih =>
    intro l hl
    cases hl with
    | not hl => exact ih l hl
  | anyOf hne hsingle hbranch h ih =>
    intro l hl
    cases hl with
    | anyOf hbranch' hgoal hl => exact ih _ hbranch' _ hgoal l hl

theorem Rule.IsRead.isReadable {r : Rule} (h : r.IsRead) : r.IsReadable :=
  ⟨h.head.isReadable, fun goal hgoal => (h.body goal hgoal).isReadable⟩

namespace RuleReader

/-- Rules that are read are readable. -/
theorem isReadable_of_rules {n : Nat} {text : List Char} {rs : List Rule}
    (h : rules n text = .ok rs) : ∀ r ∈ rs, r.IsReadable := by
  induction n generalizing text rs with
  | zero =>
    unfold rules finish at h
    split at h
    · rw [← Except.ok.inj h]
      simp
    · simp [fail] at h
  | succ n ih =>
    rw [rules] at h
    split at h
    · rw [← Except.ok.inj h]
      simp
    · obtain ⟨⟨r, _⟩, hr, h⟩ := bind_eq_ok.1 h
      obtain ⟨others, hothers, h⟩ := bind_eq_ok.1 h
      obtain rfl : r :: others = rs := by simpa [pure, Except.pure] using h
      exact List.forall_mem_cons.2 ⟨(gives_rule _ _ _ hr).isReadable, ih hothers⟩

end RuleReader

/-- The rules of a text are readable. -/
theorem Rule.isReadable_of_parseAll {text : String} {rs : List Rule}
    (h : Rule.parseAll text = .ok rs) : ∀ r ∈ rs, r.IsReadable := by
  unfold parseAll at h
  dsimp only at h
  cases hread : RuleReader.rules text.toList.length text.toList with
  | ok rs' =>
    rw [hread] at h
    rw [← Except.ok.inj h]
    exact RuleReader.isReadable_of_rules hread
  | error f => simp [hread, RuleReader.located] at h

/-- A program whose rules were read from texts, each from some text. -/
def Program.IsParsed (p : Program) : Prop :=
  ∀ r ∈ p.rules, ∃ text rules, Rule.parseAll text = .ok rules ∧ r ∈ rules

theorem Program.IsParsed.isReadable {p : Program} (hp : p.IsParsed) :
    ∀ r ∈ p.rules, r.IsReadable := by
  intro r hr
  obtain ⟨text, rules, hparse, hmem⟩ := hp r hr
  exact Rule.isReadable_of_parseAll hparse r hmem

/-- The rules of a program may all come from one text. -/
theorem Program.isParsed_of_subset {p : Program} {text : String} {rules : List Rule}
    (hparse : Rule.parseAll text = .ok rules) (hrules : p.rules ⊆ rules) : p.IsParsed :=
  fun _ hr => ⟨text, rules, hparse, hrules hr⟩

/-- Nothing changes at the end of a text. -/
theorem RuleReader.eq_of_finish {α : Type} {a b : α} {rest : List Char}
    (h : finish a rest = .ok b) :
    a = b := by
  unfold finish at h
  split at h
  · exact Except.ok.inj h
  · simp [fail] at h

/-- The rule of a text. -/
theorem Rule.isRead_of_parse {text : String} {r : Rule} (h : Rule.parse text = .ok r) :
    r.IsRead := by
  unfold parse at h
  dsimp only at h
  cases hread : RuleReader.rule text.toList with
  | ok result =>
    obtain ⟨r', rest⟩ := result
    simp only [hread, bind, Except.bind] at h
    unfold RuleReader.located at h
    split at h
    · next hok =>
      rw [← Except.ok.inj h, ← RuleReader.eq_of_finish hok]
      exact RuleReader.gives_rule _ _ _ hread
    · simp at h
  | error f => simp [hread, bind, Except.bind, RuleReader.located] at h

/-- The goals of a text are readable. -/
theorem Goal.isReadable_of_parseAll {text : String} {gs : List Goal}
    (h : Goal.parseAll text = .ok gs) : ∀ g ∈ gs, g.IsReadable := by
  unfold parseAll at h
  dsimp only at h
  cases hread : RuleReader.goals text.toList with
  | ok result =>
    obtain ⟨gs', rest⟩ := result
    have hreadable : ∀ g ∈ gs', g.IsReadable := fun g hg =>
      (RuleReader.gives_goals _ _ _ hread g hg).isReadable
    rw [hread] at h
    -- a point at the end makes no difference to the goals
    simp only [bind, Except.bind] at h
    split at h
    all_goals
      unfold RuleReader.located at h
      split at h
      · next hok =>
        rw [← Except.ok.inj h, ← RuleReader.eq_of_finish hok]
        exact hreadable
      · simp at h
  | error f => simp [hread, bind, Except.bind, RuleReader.located] at h

end Factbase
