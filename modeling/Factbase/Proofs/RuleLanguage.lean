import Mathlib.Computability.Language
import Factbase.Proofs.NameCharacters
import Factbase.Proofs.NumeralReading

/-! # The language of rules

The ways to write a rule are a language of characters: `Rule.writings` follows the grammar, with
white space and comments (`RuleReader.gaps`) between any two parts. A rule can be written
(`Rule.exists_writing`) where its names are names of rule texts that do not mean anything else, and
its constants are neither timestamps nor infinite (`Rule.IsExpressible`). -/

namespace Factbase

namespace RuleReader

variable {text : List Char} {l : Language Char}

/-! ## Parts of a text -/

/-- A white space, or a comment with the end of its line. -/
def space : Language Char :=
  {text | (∃ c, text = [c] ∧ Text.isBlank c = true) ∨
    ∃ line, text = '%' :: (line ++ ['\n']) ∧ '\n' ∉ line}

/-- White space and comments. -/
def gaps : Language Char := KStar.kstar space

/-- A text as it is. -/
def exactly (text : List Char) : Language Char := {text}

/-- A writing in parentheses. -/
def enclosed (l : Language Char) : Language Char :=
  exactly ['('] * (gaps * (l * (gaps * exactly [')'])))

/-- A name with a writing in parentheses after it. -/
def applied (name : List Char) (l : Language Char) : Language Char :=
  exactly name * (gaps * enclosed l)

/-- Writings with a separator between them. -/
def separatedBy (separator : Char) : List (Language Char) → Language Char
  | [] => 1
  | [l] => l
  | l :: next :: rest =>
    l * (gaps * (exactly [separator] * (gaps * separatedBy separator (next :: rest))))

/-- A character of a quoted text: as it is, or after a backslash. -/
def charWritings (c : Char) : Language Char :=
  {text | (text = [c] ∧ c ≠ '"' ∧ c ≠ '\\') ∨ (text = ['\\', c] ∧ c ≠ 'n' ∧ c ≠ 't') ∨
    (text = ['\\', 'n'] ∧ c = '\n') ∨ (text = ['\\', 't'] ∧ c = '\t')}

theorem nil_mem_gaps : [] ∈ gaps := Language.nil_mem_kstar space

theorem blank_mem_gaps : [' '] ∈ gaps :=
  Language.mem_kstar.2 ⟨[[' ']], rfl, List.forall_mem_singleton.2 (.inl ⟨' ', rfl, by decide⟩)⟩

theorem mem_exactly {other : List Char} : text ∈ exactly other ↔ text = other := Iff.rfl

theorem mem_enclosed : text ∈ enclosed l ↔ ∃ gap ∈ gaps, ∃ u ∈ l, ∃ gap' ∈ gaps,
    text = '(' :: (gap ++ (u ++ (gap' ++ [')']))) := by
  simp only [enclosed, Language.mem_mul, mem_exactly]
  constructor
  · rintro ⟨_, rfl, _, ⟨gap, hgap, _, ⟨u, hu, _, ⟨gap', hgap', _, rfl, rfl⟩, rfl⟩, rfl⟩, rfl⟩
    exact ⟨gap, hgap, u, hu, gap', hgap', rfl⟩
  · rintro ⟨gap, hgap, u, hu, gap', hgap', rfl⟩
    exact ⟨_, rfl, _, ⟨gap, hgap, _, ⟨u, hu, _, ⟨gap', hgap', _, rfl, rfl⟩, rfl⟩, rfl⟩, rfl⟩

theorem mem_applied {name : List Char} : text ∈ applied name l ↔
    ∃ gap ∈ gaps, ∃ args ∈ enclosed l, text = name ++ (gap ++ args) := by
  simp only [applied, Language.mem_mul, mem_exactly]
  constructor
  · rintro ⟨_, rfl, _, ⟨gap, hgap, args, hargs, rfl⟩, rfl⟩
    exact ⟨gap, hgap, args, hargs, rfl⟩
  · rintro ⟨gap, hgap, args, hargs, rfl⟩
    exact ⟨_, rfl, _, ⟨gap, hgap, args, hargs, rfl⟩, rfl⟩

theorem mem_separatedBy_cons {separator : Char} {next : Language Char}
    {rest : List (Language Char)} : text ∈ separatedBy separator (l :: next :: rest) ↔
      ∃ u ∈ l, ∃ gap ∈ gaps, ∃ gap' ∈ gaps, ∃ v ∈ separatedBy separator (next :: rest),
        text = u ++ (gap ++ separator :: (gap' ++ v)) := by
  simp only [separatedBy, Language.mem_mul, mem_exactly]
  constructor
  · rintro ⟨u, hu, _, ⟨gap, hgap, _, ⟨_, rfl, _, ⟨gap', hgap', v, hv, rfl⟩, rfl⟩, rfl⟩, rfl⟩
    exact ⟨u, hu, gap, hgap, gap', hgap', v, hv, rfl⟩
  · rintro ⟨u, hu, gap, hgap, gap', hgap', v, hv, rfl⟩
    exact ⟨u, hu, _, ⟨gap, hgap, _, ⟨_, rfl, _, ⟨gap', hgap', v, hv, rfl⟩, rfl⟩, rfl⟩, rfl⟩

/-- Each separator is a character. -/
theorem length_le_of_mem_separatedBy {separator : Char} {ls : List (Language Char)}
    (h : text ∈ separatedBy separator ls) : ls.length ≤ text.length + 1 := by
  induction ls generalizing text with
  | nil => exact Nat.zero_le _
  | cons l ls ih =>
    cases ls with
    | nil => simp
    | cons next rest =>
      obtain ⟨u, -, gap, -, gap', -, v, hv, rfl⟩ := mem_separatedBy_cons.1 h
      have hle := ih hv
      simp only [List.length_cons, List.length_append] at hle ⊢
      omega

theorem mem_enclosed_of_mem (h : text ∈ l) : '(' :: (text ++ [')']) ∈ enclosed l :=
  mem_enclosed.2 ⟨[], nil_mem_gaps, text, h, [], nil_mem_gaps, rfl⟩

theorem mem_applied_of_mem (name : List Char) (h : text ∈ l) :
    name ++ '(' :: (text ++ [')']) ∈ applied name l :=
  mem_applied.2 ⟨[], nil_mem_gaps, _, mem_enclosed_of_mem h, rfl⟩

theorem append_mem_separatedBy {separator : Char} {next : Language Char}
    {rest : List (Language Char)} {others : List Char} (h : text ∈ l)
    (hothers : others ∈ separatedBy separator (next :: rest)) :
    text ++ separator :: ' ' :: others ∈ separatedBy separator (l :: next :: rest) :=
  mem_separatedBy_cons.2 ⟨text, h, [], nil_mem_gaps, [' '], blank_mem_gaps, others, hothers, rfl⟩

/-- What can be written one by one can be written with separators. -/
theorem exists_mem_separatedBy (separator : Char) {ls : List (Language Char)}
    (h : ∀ l ∈ ls, ∃ text, text ∈ l) : ∃ text, text ∈ separatedBy separator ls := by
  induction ls with
  | nil => exact ⟨[], rfl⟩
  | cons l ls ih =>
    obtain ⟨⟨u, hu⟩, hls⟩ := List.forall_mem_cons.1 h
    cases ls with
    | nil => exact ⟨u, hu⟩
    | cons next rest =>
      obtain ⟨v, hv⟩ := ih hls
      exact ⟨_, append_mem_separatedBy hu hv⟩

end RuleReader

open RuleReader

/-! ## Writings -/

/-- A constant: a word, a numeral that is read as the number, or a text in quotes. -/
def Atom.writings : Atom → Language Char
  | .null => exactly ['n', 'u', 'l', 'l']
  | .bool true => exactly ['t', 'r', 'u', 'e']
  | .bool false => exactly ['f', 'a', 'l', 's', 'e']
  | .number x => {text | (∃ n : Number.Numeral, text = n.text) ∧ Number.parse? text = some x}
  | .text s => exactly ['"'] * ((s.toList.map charWritings).prod * exactly ['"'])
  | .timestamp _ => 0

/-- A term. -/
def Term.writings : Term → Language Char
  | .var name => exactly ('?' :: name.toList)
  | .const a => a.writings

/-- The name of a predicate before its terms: comparisons have words. -/
def Predicate.word : Predicate → String
  | .compare op => op.word
  | p => p.name

/-- A literal: its name and its terms in parentheses. -/
def Literal.writings (l : Literal) : Language Char :=
  applied l.predicate.word.toList (separatedBy ',' (l.terms.map Term.writings))

namespace Goal

mutual

/-- A goal: a literal, or goals in parentheses. -/
def writings : Goal → Language Char
  | .literal l => l.writings
  | .not goal => applied ['n', 'o', 't'] goal.writings
  | .anyOf branches => enclosed (separatedBy ';' (writingsOfBranches branches))

/-- The writings of goals. -/
def writingsOfEach : List Goal → List (Language Char)
  | [] => []
  | goal :: goals => goal.writings :: writingsOfEach goals

/-- The writings of branches, each with commas between its goals. -/
def writingsOfBranches : List (List Goal) → List (Language Char)
  | [] => []
  | branch :: branches => separatedBy ',' (writingsOfEach branch) :: writingsOfBranches branches

end

theorem writingsOfEach_eq (goals : List Goal) : writingsOfEach goals = goals.map writings := by
  induction goals with
  | nil => rfl
  | cons goal goals ih => rw [writingsOfEach, ih, List.map_cons]

/-- Goals with commas between them. -/
def conjunctionWritings (goals : List Goal) : Language Char :=
  separatedBy ',' (goals.map writings)

theorem writingsOfBranches_eq (branches : List (List Goal)) :
    writingsOfBranches branches = branches.map conjunctionWritings := by
  induction branches with
  | nil => rfl
  | cons branch branches ih =>
    rw [writingsOfBranches, writingsOfEach_eq, ih, List.map_cons, conjunctionWritings]

end Goal

namespace Rule

/-- The body of a rule, where there is one. -/
def bodyWritings : List Goal → Language Char
  | [] => 1
  | goals => gaps * (exactly [':', '-'] * (gaps * Goal.conjunctionWritings goals))

theorem mem_bodyWritings_cons {text : List Char} {goal : Goal} {goals : List Goal} :
    text ∈ bodyWritings (goal :: goals) ↔
      ∃ gap ∈ gaps, ∃ gap' ∈ gaps, ∃ u ∈ Goal.conjunctionWritings (goal :: goals),
        text = gap ++ ':' :: '-' :: (gap' ++ u) := by
  simp only [bodyWritings, Language.mem_mul, mem_exactly]
  constructor
  · rintro ⟨gap, hgap, _, ⟨_, rfl, _, ⟨gap', hgap', u, hu, rfl⟩, rfl⟩, rfl⟩
    exact ⟨gap, hgap, gap', hgap', u, hu, rfl⟩
  · rintro ⟨gap, hgap, gap', hgap', u, hu, rfl⟩
    exact ⟨gap, hgap, _, ⟨_, rfl, _, ⟨gap', hgap', u, hu, rfl⟩, rfl⟩, rfl⟩

/-- A rule. -/
def writings (r : Rule) : Language Char :=
  r.head.writings * (bodyWritings r.body * (gaps * exactly ['.']))

theorem mem_writings {r : Rule} {text : List Char} : text ∈ r.writings ↔
    ∃ head ∈ r.head.writings, ∃ body ∈ bodyWritings r.body, ∃ gap ∈ gaps,
      text = head ++ (body ++ (gap ++ ['.'])) := by
  simp only [writings, Language.mem_mul, mem_exactly]
  constructor
  · rintro ⟨head, hhead, _, ⟨body, hbody, _, ⟨gap, hgap, _, rfl, rfl⟩, rfl⟩, rfl⟩
    exact ⟨head, hhead, body, hbody, gap, hgap, rfl⟩
  · rintro ⟨head, hhead, body, hbody, gap, hgap, rfl⟩
    exact ⟨head, hhead, _, ⟨body, hbody, _, ⟨gap, hgap, _, rfl, rfl⟩, rfl⟩, rfl⟩

/-- Rules one after the other. -/
def programWritings : List Rule → Language Char
  | [] => gaps
  | r :: rs => gaps * (r.writings * programWritings rs)

end Rule

/-! ## What can be written -/

/-- Whether a constant can be written: a number is finite, and there are no timestamps. -/
def Atom.IsExpressible : Atom → Prop
  | .number x => Number.isFinite x = true
  | .timestamp _ => False
  | _ => True

/-- Whether a term can be written: a variable has a name. -/
def Term.IsExpressible : Term → Prop
  | .var name => IsName name.toList
  | .const a => a.IsExpressible

/-- Whether a predicate can be written: a derived one has a name that no other predicate has. -/
def Predicate.IsExpressible : Predicate → Prop
  | .derived name => IsName name.toList ∧ Predicate.ofName name = .derived name
  | _ => True

/-- Whether a literal can be written. -/
structure Literal.IsExpressible (l : Literal) : Prop where
  predicate : l.predicate.IsExpressible
  terms : ∀ t ∈ l.terms, t.IsExpressible

/-- Whether a goal can be written: no literal has the name of the negation, and a choice is between
goals, more than one altogether. -/
inductive Goal.IsExpressible : Goal → Prop where
  | literal {l : Literal} (h : l.IsExpressible) (hnot : l.predicate ≠ .derived "not") :
      IsExpressible (.literal l)
  | not {goal : Goal} (h : IsExpressible goal) : IsExpressible (.not goal)
  | anyOf {branches : List (List Goal)} (hbranch : ∀ branch ∈ branches, branch ≠ [])
      (hseveral : 2 ≤ branches.length ∨ ∃ branch, branches = [branch] ∧ 2 ≤ branch.length)
      (h : ∀ branch ∈ branches, ∀ goal ∈ branch, IsExpressible goal) :
      IsExpressible (.anyOf branches)

/-- Whether a rule can be written. -/
structure Rule.IsExpressible (r : Rule) : Prop where
  head : r.head.IsExpressible
  body : ∀ goal ∈ r.body, goal.IsExpressible

/-! ## What can be written is what is read -/

instance (name : List Char) : Decidable (IsName name) :=
  decidable_of_iff ((name.head?.any startsName && name.tail.all continuesName) = true) <| by
    cases name <;> simp [IsName]

namespace Predicate

variable {p : Predicate}

/-- A predicate that can be written is that of its name. -/
theorem IsExpressible.ofName_word (h : p.IsExpressible) : ofName p.word = p := by
  cases p with
  | derived name => exact h.2
  | compare op => cases op <;> rfl
  | _ => rfl

theorem IsExpressible.isName_word (h : p.IsExpressible) : IsName p.word.toList := by
  have hname : ∀ name ∈ ["attr", "link", "gt", "lt", "gte", "lte", "eq", "neq", "between", "in",
      "regex", "contains", "after", "betweenDate"], IsName name.toList := by decide
  cases p with
  | derived name => exact h.1
  | compare op => cases op <;> exact hname _ (by decide)
  | _ => exact hname _ (by decide)

/-- The predicate of a name can be written. -/
theorem isExpressible_ofName {written : String} (h : IsName written.toList) :
    (ofName written).IsExpressible := by
  cases hp : ofName written with
  | derived name =>
    obtain rfl : name = written := by
      rcases name_ofName written with hname | ⟨op, hop⟩
      · rwa [hp] at hname
      · exact absurd (hp.symm.trans hop) (by simp)
    exact ⟨h, hp⟩
  | _ => trivial

end Predicate

theorem Literal.IsRead.isExpressible_predicate {l : Literal} (h : l.IsRead) :
    l.predicate.IsExpressible := by
  rcases h.predicate with ⟨op, hop⟩ | ⟨c, rest, hname, -, hpredicate⟩
  · rw [hop]
    trivial
  · rw [hpredicate]
    exact Predicate.isExpressible_ofName (by rwa [String.toList_ofList])

theorem Term.IsExpressible.isRead {t : Term} (h : t.IsExpressible) : t.IsRead := by
  cases t with
  | var name => exact h
  | const a =>
    cases a with
    | timestamp t => exact absurd h id
    | _ => trivial

theorem Literal.IsExpressible.isRead {l : Literal} (h : l.IsExpressible) : l.IsRead := by
  refine ⟨.inr ?_, fun t ht => (h.terms t ht).isRead⟩
  have hname := h.predicate.isName_word
  obtain ⟨c, rest, heq, hstart, -⟩ := id hname
  rw [heq] at hname
  refine ⟨c, rest, hname, isBlank_of_continuesName (continuesName_of_startsName hstart), ?_⟩
  rw [← heq, String.ofList_toList, h.predicate.ofName_word]

theorem Goal.IsExpressible.isRead {goal : Goal} (h : goal.IsExpressible) : goal.IsRead := by
  induction h with
  | @literal l h hnot =>
    refine .literal h.isRead fun hname => hnot ?_
    cases hp : l.predicate with
    | derived name => rw [← hname, hp]; rfl
    | compare op => rw [hp] at hname; exact absurd hname (symbol_ne_not op)
    | _ => rw [hp] at hname; exact absurd hname (by decide)
  | not h ih => exact .not ih
  | anyOf hbranch hseveral h ih =>
    refine .anyOf ?_ ?_ hbranch ih
    · rintro rfl
      simp at hseveral
    · rintro goal rfl
      simp at hseveral

theorem Rule.IsExpressible.isRead {r : Rule} (h : r.IsExpressible) : r.IsRead :=
  ⟨h.head.isRead, fun goal hgoal => (h.body goal hgoal).isRead⟩

/-! ## Numbers -/

namespace Number

/-- Every finite number is written by a numeral. -/
theorem exists_numeral_number_eq {x : Float} (hfinite : isFinite x = true) :
    ∃ n : Numeral, n.number = x := by
  rcases Nat.eq_zero_or_pos (magnitude x) with hx | hx
  · have hzero : ∀ negative, ∃ n : Numeral,
        magnitude n.number = 0 ∧ isNegative n.number = negative := by
      intro negative
      refine ⟨.ofDigits negative ['0'] (by simp) (by simp), ?_⟩
      cases negative <;> decide +kernel
    obtain ⟨n, hmagnitude, hnegative⟩ := hzero (isNegative x)
    exact ⟨n, eq_of_magnitude_eq (hmagnitude.trans hx.symm) hnegative⟩
  · obtain ⟨n, -, hshows⟩ := Numeral.exists_shows_text hx hfinite
    obtain ⟨hmagnitude, hnegative⟩ :=
      Numeral.magnitude_number hx (of_decide_eq_true hfinite) hshows.rounds
    exact ⟨n, eq_of_magnitude_eq hmagnitude (hnegative.trans hshows.negative_eq)⟩

end Number

/-! ## Writings exist -/

theorem RuleReader.exists_mem_charWritings (c : Char) : ∃ text, text ∈ charWritings c := by
  by_cases hn : c = 'n'
  · exact ⟨['n'], .inl (by subst hn; decide)⟩
  by_cases ht : c = 't'
  · exact ⟨['t'], .inl (by subst ht; decide)⟩
  exact ⟨['\\', c], .inr (.inl ⟨rfl, hn, ht⟩)⟩

theorem Atom.exists_writing {a : Atom} (h : a.IsExpressible) : ∃ text, text ∈ a.writings := by
  cases a with
  | null => exact ⟨_, rfl⟩
  | bool b => cases b <;> exact ⟨_, rfl⟩
  | number x =>
    obtain ⟨n, rfl⟩ := Number.exists_numeral_number_eq h
    exact ⟨n.text, ⟨n, rfl⟩, n.parse?_text⟩
  | timestamp t => exact absurd h id
  | text s =>
    have hchars : ∃ text, text ∈ (s.toList.map charWritings).prod := by
      induction s.toList with
      | nil => exact ⟨[], rfl⟩
      | cons c chars ih =>
        obtain ⟨u, hu⟩ := exists_mem_charWritings c
        obtain ⟨v, hv⟩ := ih
        exact ⟨u ++ v, Language.append_mem_mul hu hv⟩
    obtain ⟨body, hbody⟩ := hchars
    exact ⟨_, Language.append_mem_mul rfl (Language.append_mem_mul hbody rfl)⟩

theorem Term.exists_writing {t : Term} (h : t.IsExpressible) : ∃ text, text ∈ t.writings := by
  cases t with
  | var name => exact ⟨_, rfl⟩
  | const a => exact Atom.exists_writing h

theorem Literal.exists_writing {l : Literal} (h : l.IsExpressible) :
    ∃ text, text ∈ l.writings := by
  have hterms : ∀ t ∈ l.terms.map Term.writings, ∃ text, text ∈ t :=
    List.forall_mem_map.2 fun t ht => Term.exists_writing (h.terms t ht)
  obtain ⟨text, htext⟩ := exists_mem_separatedBy ',' hterms
  exact ⟨_, mem_applied_of_mem _ htext⟩

theorem Goal.exists_writing_conjunction {goals : List Goal}
    (h : ∀ goal ∈ goals, ∃ text, text ∈ goal.writings) :
    ∃ text, text ∈ conjunctionWritings goals :=
  exists_mem_separatedBy ',' (List.forall_mem_map.2 h)

theorem Goal.exists_writing {goal : Goal} (h : goal.IsExpressible) :
    ∃ text, text ∈ goal.writings := by
  induction h with
  | literal h => exact Literal.exists_writing h
  | not h ih =>
    obtain ⟨text, htext⟩ := ih
    exact ⟨_, mem_applied_of_mem _ htext⟩
  | anyOf hbranch hseveral h ih =>
    rw [writings, writingsOfBranches_eq]
    obtain ⟨text, htext⟩ := exists_mem_separatedBy ';' (List.forall_mem_map.2
      fun branch hmem => exists_writing_conjunction (ih branch hmem))
    exact ⟨_, mem_enclosed_of_mem htext⟩

/-- A rule that is expressible can be written. -/
theorem Rule.exists_writing {r : Rule} (h : r.IsExpressible) : ∃ text, text ∈ r.writings := by
  obtain ⟨head, hhead⟩ := Literal.exists_writing h.head
  obtain ⟨body, hbody⟩ : ∃ text, text ∈ bodyWritings r.body := by
    cases hgoals : r.body with
    | nil => exact ⟨[], rfl⟩
    | cons goal goals =>
      obtain ⟨u, hu⟩ := Goal.exists_writing_conjunction fun goal hgoal =>
        Goal.exists_writing (h.body goal hgoal)
      rw [hgoals] at hu
      exact ⟨_, mem_bodyWritings_cons.2 ⟨[], nil_mem_gaps, [], nil_mem_gaps, u, hu, rfl⟩⟩
  exact ⟨_, mem_writings.2 ⟨head, hhead, body, hbody, [], nil_mem_gaps, rfl⟩⟩

end Factbase
