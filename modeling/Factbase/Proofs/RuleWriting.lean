import Factbase.Proofs.RuleReading

/-! # Rule texts that are read back

The text of a rule that was read is read as an equal rule (`Rule.parse_display`), where the rule has
no comparison, which stands in front of its terms in the text, its numbers are finite, and its texts
have only characters that are shown as themselves or by an escape that rule texts have
(`Rule.IsWritable`). `Rule.not_parse_display` has a rule for each of these that is not read back.

What a rule is shown as is a writing, if not of the rule itself then of one that equals it: a number
is shown as a numeral that is read as an equal number. Terms, literals, goals (`Goal.IsShown`) and
rules are gone through one after the other, and whatever is written is read back. -/

namespace Factbase

/-! ## Equality of rules -/

/-- Equality of terms; constants are compared as values. -/
def Term.Equals : Term → Term → Prop
  | .var name, .var name' => name = name'
  | .const a, .const a' => a.equals a' = true
  | _, _ => False

/-- Equality of literals. -/
structure Literal.Equals (l l' : Literal) : Prop where
  predicate_eq : l.predicate = l'.predicate
  terms : List.Forall₂ Term.Equals l.terms l'.terms

/-- Equality of goals. -/
inductive Goal.Equals : Goal → Goal → Prop where
  | literal {l l' : Literal} (h : l.Equals l') : Equals (.literal l) (.literal l')
  | not {goal goal' : Goal} (h : Equals goal goal') : Equals (.not goal) (.not goal')
  | anyOf {branches branches' : List (List Goal)}
      (h : List.Forall₂ (List.Forall₂ Equals) branches branches') :
      Equals (.anyOf branches) (.anyOf branches')

/-- Equality of rules. -/
structure Rule.Equals (r r' : Rule) : Prop where
  head : r.head.Equals r'.head
  body : List.Forall₂ Goal.Equals r.body r'.body

/-! ## What can be written -/

/-- Whether a quoted text shows a character so that it is read back: as itself, or by an escape that
rule texts have. -/
def Text.IsWritable (c : Char) : Prop :=
  c = '"' ∨ c = '\\' ∨ c = '\n' ∨ c = '\t' ∨ isPrintable c = true ∧ isGraphemeExtend c = false

/-- Whether a constant can be written: numbers are finite. -/
def Atom.IsWritable : Atom → Prop
  | .number x => Number.isFinite x = true
  | .text s => ∀ c ∈ s.toList, Text.IsWritable c
  | _ => True

/-- Whether a literal can be written: it is no comparison, and its constants can be written. -/
structure Literal.IsWritable (l : Literal) : Prop where
  ne_compare : ∀ op, l.predicate ≠ .compare op
  constants : ∀ a, .const a ∈ l.terms → a.IsWritable

/-- Whether a rule can be written. -/
structure Rule.IsWritable (r : Rule) : Prop where
  head : r.head.IsWritable
  body : ∀ goal ∈ r.body, ∀ l, goal.Mentions l → l.IsWritable

/-! ## Texts are writings -/

/-- What exists for each element exists for a list of them. -/
theorem exists_forall₂ {α β : Type} {R : α → β → Prop} {P : β → Prop} {as : List α}
    (h : ∀ a ∈ as, ∃ b, R a b ∧ P b) : ∃ bs, List.Forall₂ R as bs ∧ ∀ b ∈ bs, P b := by
  induction as with
  | nil => exact ⟨[], .nil, List.forall_mem_nil _⟩
  | cons a as ih =>
    obtain ⟨⟨b, hb, hP⟩, has⟩ := List.forall_mem_cons.1 h
    obtain ⟨bs, hbs, hPs⟩ := ih has
    exact ⟨b :: bs, .cons hb hbs, List.forall_mem_cons.2 ⟨hP, hPs⟩⟩

namespace RuleReader

variable {text : List Char} {c : Char}

/-- What is shown for a character is a writing of it. -/
theorem quoteChar_mem_charWritings (h : Text.IsWritable c) : Text.quoteChar c ∈ charWritings c := by
  rcases h with rfl | rfl | rfl | rfl | ⟨hprintable, hextend⟩
  · exact .inr (.inl ⟨by simp [Text.quoteChar], by decide, by decide⟩)
  · exact .inr (.inl ⟨by simp [Text.quoteChar], by decide, by decide⟩)
  · exact .inr (.inr (.inl ⟨by simp [Text.quoteChar], rfl⟩))
  · exact .inr (.inr (.inr ⟨by simp [Text.quoteChar], rfl⟩))
  · by_cases hquote : c = '"'
    · subst hquote
      exact .inr (.inl ⟨by simp [Text.quoteChar], by decide, by decide⟩)
    by_cases hslash : c = '\\'
    · subst hslash
      exact .inr (.inl ⟨by simp [Text.quoteChar], by decide, by decide⟩)
    have hne : ∀ d : Char, Text.isPrintable d = false → c ≠ d := by
      rintro d hd rfl
      simp [hd] at hprintable
    have hself : Text.quoteChar c = [c] := by
      have hline := hne '\n' (by decide)
      have htab := hne '\t' (by decide)
      have hreturn := hne '\r' (by decide)
      have hnul : c.toNat ≠ 0 := by
        intro hzero
        simp [Text.isPrintable, hzero] at hprintable
      simp [Text.quoteChar, hquote, hslash, hline, htab, hreturn, hnul, hprintable, hextend]
    exact .inl ⟨hself, hquote, hslash⟩

theorem flatMap_quoteChar_mem {chars : List Char} (h : ∀ c ∈ chars, Text.IsWritable c) :
    chars.flatMap Text.quoteChar ∈ (chars.map charWritings).prod := by
  induction chars with
  | nil => exact (Language.mem_one _).2 rfl
  | cons c chars ih =>
    obtain ⟨hc, hchars⟩ := List.forall_mem_cons.1 h
    rw [List.flatMap_cons, List.map_cons, List.prod_cons]
    exact Language.append_mem_mul (quoteChar_mem_charWritings hc) (ih hchars)

/-- Texts with a separator and a blank between them. -/
def listed (separator : Char) (texts : List (List Char)) : List Char :=
  [separator, ' '].intercalate texts

theorem listed_cons {separator : Char} {texts : List (List Char)} (h : texts ≠ []) :
    listed separator (text :: texts) = text ++ separator :: ' ' :: listed separator texts := by
  cases texts with
  | nil => exact absurd rfl h
  | cons next texts => simp [listed, List.intercalate_cons_cons]

/-- Texts that are listed are a writing with separators. -/
theorem listed_mem_separatedBy {separator : Char} {texts : List (List Char)}
    {ls : List (Language Char)} (h : List.Forall₂ (· ∈ ·) texts ls) :
    listed separator texts ∈ separatedBy separator ls := by
  induction h with
  | nil => exact (Language.mem_one _).2 rfl
  | @cons text l texts ls htext htexts ih =>
    cases htexts with
    | nil => simpa [listed, separatedBy] using htext
    | cons hnext hrest =>
      rw [listed_cons (List.cons_ne_nil _ _)]
      exact append_mem_separatedBy htext ih

end RuleReader

open RuleReader

/-- The text of a term is a writing of a term that is equal. -/
theorem Term.exists_display_mem {t : Term} (h : t.IsRead)
    (hwritable : ∀ a, t = .const a → a.IsWritable) :
    ∃ t', (t.Equals t' ∧ t.display.toList ∈ t'.writings) ∧ t'.IsRead := by
  cases t with
  | var s => exact ⟨.var s, ⟨rfl, by simp [display, writings, mem_exactly]⟩, h⟩
  | const a =>
    have ha := hwritable a rfl
    cases a with
    | null => exact ⟨.const .null, ⟨rfl, rfl⟩, trivial⟩
    | bool b =>
      refine ⟨.const (.bool b), ⟨by simp [Term.Equals, Atom.equals], ?_⟩, trivial⟩
      cases b <;> exact rfl
    | number x =>
      obtain ⟨n, htext, hequals⟩ := Number.exists_numeral ha
      exact ⟨.const (.number n.number), ⟨hequals, ⟨n, htext⟩, htext ▸ n.parse?_text⟩, trivial⟩
    | timestamp t => exact absurd h id
    | text s =>
      have htext : (Term.const (.text s)).display.toList =
          ['"'] ++ (s.toList.flatMap Text.quoteChar ++ ['"']) := by
        simp [display, Text.quote]
      refine ⟨.const (.text s), ⟨by simp [Term.Equals, Atom.equals], ?_⟩, trivial⟩
      rw [htext]
      exact Language.append_mem_mul rfl
        (Language.append_mem_mul (flatMap_quoteChar_mem ha) rfl)

namespace Literal

variable {l : Literal}

theorem toList_display (l : Literal) : l.display.toList = l.predicate.name.toList ++
    '(' :: (listed ',' (l.terms.map fun t => t.display.toList) ++ [')']) := by
  have hterms : l.terms.map (String.toList ∘ Term.display) =
      l.terms.map fun t => t.display.toList := rfl
  simp [display, listed, String.toList_intercalate, hterms]

/-- The text of a literal is a writing of a literal that is equal. -/
theorem exists_display_mem (h : l.IsRead) (hwritable : l.IsWritable) :
    ∃ l', (l.Equals l' ∧ l.display.toList ∈ l'.writings) ∧ l'.IsRead := by
  obtain ⟨ts, hts, hread⟩ := exists_forall₂ fun t ht =>
    Term.exists_display_mem (h.terms t ht) fun a hta => hwritable.constants a (hta ▸ ht)
  have hword : l.predicate.word = l.predicate.name := by
    cases hp : l.predicate with
    | compare op => exact absurd hp (hwritable.ne_compare op)
    | _ => rfl
  refine ⟨⟨l.predicate, ts⟩, ⟨⟨rfl, hts.imp fun _ _ ht => ht.1⟩, ?_⟩, h.predicate, hread⟩
  rw [toList_display, ← hword]
  refine mem_applied_of_mem _ (listed_mem_separatedBy ?_)
  rw [List.forall₂_map_left_iff, List.forall₂_map_right_iff]
  exact hts.imp fun _ _ ht => ht.2

end Literal

namespace Goal

theorem toList_displayEach (goals : List Goal) :
    (displayEach goals).toList = listed ',' (goals.map fun g => g.display.toList) := by
  induction goals with
  | nil => rfl
  | cons goal goals ih =>
    cases goals with
    | nil => simp [displayEach, listed]
    | cons next goals =>
      rw [displayEach, List.map_cons, listed_cons (by simp), ← ih]
      · simp
      · simp

theorem toList_displayBranches (branches : List (List Goal)) :
    (displayBranches branches).toList =
      listed ';' (branches.map fun b => (displayEach b).toList) := by
  induction branches with
  | nil => rfl
  | cons branch branches ih =>
    cases branches with
    | nil => simp [displayBranches, listed]
    | cons next branches =>
      rw [displayBranches, List.map_cons, listed_cons (by simp), ← ih]
      · simp
      · simp

/-- Whether the text of a goal is a writing of a goal that is equal. -/
def IsShown (goal : Goal) : Prop :=
  ∃ goal', (goal.Equals goal' ∧ goal.display.toList ∈ goal'.writings) ∧ goal'.IsRead

/-- The text of goals is a writing of goals that are equal. -/
theorem exists_displayEach_mem {goals : List Goal} (h : ∀ goal ∈ goals, goal.IsShown) :
    ∃ goals', (List.Forall₂ Goal.Equals goals goals' ∧
      (displayEach goals).toList ∈ conjunctionWritings goals') ∧
        ∀ goal ∈ goals', goal.IsRead := by
  obtain ⟨goals', hgoals', hread⟩ := exists_forall₂ h
  refine ⟨goals', ⟨hgoals'.imp fun _ _ h => h.1, ?_⟩, hread⟩
  rw [toList_displayEach]
  refine listed_mem_separatedBy ?_
  rw [List.forall₂_map_left_iff, List.forall₂_map_right_iff]
  exact hgoals'.imp fun _ _ h => h.2

theorem isShown_literal {l : Literal} (h : l.IsRead) (hnot : l.predicate.name ≠ "not")
    (hwritable : l.IsWritable) : (literal l).IsShown := by
  obtain ⟨l', ⟨hequals, hmem⟩, hread⟩ := Literal.exists_display_mem h hwritable
  exact ⟨.literal l', ⟨.literal hequals, hmem⟩, .literal hread (hequals.predicate_eq ▸ hnot)⟩

theorem isShown_not {goal : Goal} (h : goal.IsShown) : (Goal.not goal).IsShown := by
  obtain ⟨goal', ⟨hequals, hmem⟩, hread⟩ := h
  refine ⟨.not goal', ⟨.not hequals, ?_⟩, .not hread⟩
  have hdisplay : (Goal.not goal).display.toList =
      ['n', 'o', 't'] ++ '(' :: (goal.display.toList ++ [')']) := by
    simp [display]
  rw [hdisplay]
  exact mem_applied_of_mem _ hmem

/-- Branches that equal those of a choice are not a single goal. -/
theorem ne_single_of_equals {branches branches' : List (List Goal)}
    (h : List.Forall₂ (List.Forall₂ Goal.Equals) branches branches')
    (hsingle : ∀ goal, branches ≠ [[goal]]) (goal' : Goal) : branches' ≠ [[goal']] := by
  rintro rfl
  obtain ⟨branch, _, hbranch, hnil, rfl⟩ := List.forall₂_cons_right_iff.1 h
  obtain rfl := List.forall₂_nil_right_iff.1 hnil
  obtain ⟨goal, _, -, hnil', rfl⟩ := List.forall₂_cons_right_iff.1 hbranch
  obtain rfl := List.forall₂_nil_right_iff.1 hnil'
  exact hsingle goal rfl

theorem isShown_anyOf {branches : List (List Goal)} (hne : branches ≠ [])
    (hsingle : ∀ goal, branches ≠ [[goal]]) (hbranch : ∀ branch ∈ branches, branch ≠ [])
    (h : ∀ branch ∈ branches, ∀ goal ∈ branch, goal.IsShown) : (anyOf branches).IsShown := by
  obtain ⟨branches', hbranches', hread⟩ := exists_forall₂ fun branch hmem => by
    obtain ⟨goals', hgoals', hread⟩ := exists_displayEach_mem (h branch hmem)
    refine ⟨goals', hgoals', And.intro (?_ : goals' ≠ []) hread⟩
    rintro rfl
    exact hbranch branch hmem (List.forall₂_nil_right_iff.1 hgoals'.1)
  have hequals : List.Forall₂ (List.Forall₂ Goal.Equals) branches branches' :=
    hbranches'.imp fun _ _ h => h.1
  refine ⟨.anyOf branches', ⟨.anyOf hequals, ?_⟩, .anyOf ?_ (ne_single_of_equals hequals hsingle)
    (fun branch hmem => (hread branch hmem).1) fun branch hmem => (hread branch hmem).2⟩
  · have hdisplay : (anyOf branches).display.toList =
        '(' :: (listed ';' (branches.map fun b => (displayEach b).toList) ++ [')']) := by
      simp [display, toList_displayBranches]
    rw [hdisplay, writings, writingsOfBranches_eq]
    refine mem_enclosed_of_mem (listed_mem_separatedBy ?_)
    rw [List.forall₂_map_left_iff, List.forall₂_map_right_iff]
    exact hbranches'.imp fun _ _ h => h.2
  · rintro rfl
    exact hne (List.forall₂_nil_right_iff.1 hequals)

/-- A goal that is read, and can be written, is shown as a writing. -/
theorem isShown_of_isRead {goal : Goal} (h : goal.IsRead)
    (hwritable : ∀ l, goal.Mentions l → l.IsWritable) : goal.IsShown := by
  induction h with
  | literal h hnot => exact isShown_literal h hnot (hwritable _ (.literal _))
  | not h ih => exact isShown_not (ih fun l hl => hwritable l (.not hl))
  | anyOf hne hsingle hbranch h ih =>
    exact isShown_anyOf hne hsingle hbranch fun branch hmem goal hgoal =>
      ih branch hmem goal hgoal fun l hl => hwritable l (.anyOf hmem hgoal hl)

end Goal

/-! ## Rules -/

namespace Rule

open RuleReader

/-- A rule that is equal is read from the text of a rule. -/
theorem exists_rule_eq_ok {r : Rule} (h : r.IsRead) (hwritable : r.IsWritable) :
    ∃ r', r.Equals r' ∧ RuleReader.rule r.display.toList = .ok (r', []) := by
  obtain ⟨head, ⟨hhead, hshown⟩, hread⟩ := Literal.exists_display_mem h.head hwritable.head
  obtain ⟨body, ⟨hbody, hwritten⟩, hreads⟩ := Goal.exists_displayEach_mem fun goal hgoal =>
    Goal.isShown_of_isRead (h.body goal hgoal) (hwritable.body goal hgoal)
  have hmem : r.display.toList ∈ Rule.writings ⟨head, body⟩ := by
    cases hgoals : r.body with
    | nil =>
      rw [hgoals] at hbody
      obtain rfl := List.forall₂_nil_left_iff.1 hbody
      have htext : r.display.toList = r.head.display.toList ++ ([] ++ ([] ++ ['.'])) := by
        simp [display, hgoals]
      rw [htext]
      exact mem_writings.2 ⟨_, hshown, [], rfl, [], nil_mem_gaps, rfl⟩
    | cons goal goals =>
      rw [hgoals] at hbody hwritten
      obtain ⟨goal', goals', -, -, rfl⟩ := List.forall₂_cons_left_iff.1 hbody
      have htext : r.display.toList = r.head.display.toList ++
          (([' '] ++ ':' :: '-' :: ([' '] ++ (Goal.displayEach (goal :: goals)).toList)) ++
            ([] ++ ['.'])) := by
        simp [display, hgoals]
      rw [htext]
      exact mem_writings.2 ⟨_, hshown, _, mem_bodyWritings_cons.2 ⟨_, blank_mem_gaps, _,
        blank_mem_gaps, _, hwritten, rfl⟩, [], nil_mem_gaps, rfl⟩
  have hrule := rule_of_mem_writings ⟨hread, hreads⟩ hmem nil_mem_gaps []
  rw [List.append_nil, List.nil_append] at hrule
  exact ⟨⟨head, body⟩, ⟨hhead, hbody⟩, hrule⟩

/-- The text of a rule that was read is read as an equal rule, where the rule can be written. -/
theorem parse_display {text : String} {r : Rule} (h : Rule.parse text = .ok r)
    (hwritable : r.IsWritable) : ∃ r', Rule.parse r.display = .ok r' ∧ r.Equals r' := by
  obtain ⟨r', hequals, hread⟩ := exists_rule_eq_ok (isRead_of_parse h) hwritable
  refine ⟨r', ?_, hequals⟩
  simp [parse, hread, bind, Except.bind, finish, skip, skipFrom, located]

/-- Reaches by a link and then further, or to what is not hidden and has a low rating. -/
def chosen : Rule where
  head := ⟨.derived "reach", [.var "x", .var "y"]⟩
  body := [.literal ⟨.link, [.var "x", .const (.text "to \"A\""), .var "z"]⟩,
    .anyOf [[.literal ⟨.derived "reach", [.var "z", .var "y"]⟩],
      [.not (.literal ⟨.derived "hidden", [.var "z", .const (.bool true)]⟩),
        .literal ⟨.attr, [.var "z", .const (.text "rating"),
          .const (.number (Number.ofParts true ['1'] ['5'] 0))]⟩]]]

/-- A text of that rule, with few blanks and with a word for one of the texts. -/
def chosenText : String :=
  "reach(?x, ?y) :- link(?x,\"to \\\"A\\\"\",?z), (reach(?z,?y); " ++
    "not(hidden(?z,true)), attr(?z,rating,-1.5))."

set_option maxRecDepth 4000 in
theorem parse_chosenText : Rule.parse chosenText = .ok chosen := rfl

theorem isWritable_chosen : chosen.IsWritable := by
  have hlink : (Atom.text "to \"A\"").IsWritable := by
    simp [Atom.IsWritable, Text.IsWritable, Text.isPrintable, Text.isGraphemeExtend]
  have hrating : (Atom.text "rating").IsWritable := by
    simp [Atom.IsWritable, Text.IsWritable, Text.isPrintable, Text.isGraphemeExtend]
  have hnumber : (Atom.number (Number.ofParts true ['1'] ['5'] 0)).IsWritable :=
    show Number.isFinite _ = true by decide +kernel
  refine ⟨⟨by simp [chosen], by simp [chosen]⟩, fun goal hgoal l hl => ?_⟩
  simp only [chosen, List.mem_cons, List.not_mem_nil, or_false] at hgoal
  rcases hgoal with rfl | rfl
  · cases hl
    exact ⟨by simp, by simpa using hlink⟩
  · cases hl with
    | anyOf hbranch hgoal hl =>
      simp only [List.mem_cons, List.not_mem_nil, or_false] at hbranch
      rcases hbranch with rfl | rfl
      · obtain rfl := List.mem_singleton.1 hgoal
        cases hl
        exact ⟨by simp, by simp⟩
      · simp only [List.mem_cons, List.not_mem_nil, or_false] at hgoal
        rcases hgoal with rfl | rfl
        · cases hl with
          | not hl =>
            cases hl
            exact ⟨by simp, by simp [Atom.IsWritable]⟩
        · cases hl
          exact ⟨by simp, by simpa using ⟨hrating, hnumber⟩⟩

theorem parse_display_chosen : Rule.parse chosenText = .ok chosen ∧
    ∃ r', Rule.parse chosen.display = .ok r' ∧ chosen.Equals r' :=
  ⟨parse_chosenText, parse_display parse_chosenText isWritable_chosen⟩

/-- Compares with a number. -/
def compared : Rule where
  head := ⟨.derived "p", [.var "x"]⟩
  body := [.literal ⟨.derived "q", [.var "x"]⟩,
    .literal ⟨.compare .gt, [.var "x", .const (.number (Number.ofParts false ['1'] [] 0))]⟩]

/-- States something of a constant. -/
def stated (a : Atom) : Rule := ⟨⟨.derived "p", [.const a]⟩, []⟩

/-- A numeral whose number is infinite. -/
def tooLarge : Number.Numeral := .ofInt (10 ^ 309)

/-- The text of a statement of a numeral. -/
def statedText (n : Number.Numeral) : String := String.ofList ('p' :: '(' :: (n.text ++ [')', '.']))

theorem parse_statedText (n : Number.Numeral) :
    Rule.parse (statedText n) = .ok (stated (.number n.number)) := by
  have hread : (stated (.number n.number)).IsRead :=
    ⟨⟨.inr ⟨'p', [], by decide, by decide, rfl⟩, List.forall_mem_singleton.2 trivial⟩,
      List.forall_mem_nil _⟩
  have hmem : (statedText n).toList ∈ (stated (.number n.number)).writings := by
    have hnumber : n.text ∈ separatedBy ','
        ((stated (.number n.number)).head.terms.map Term.writings) := ⟨⟨n, rfl⟩, n.parse?_text⟩
    have hname : (stated (.number n.number)).head.predicate.word.toList = ['p'] := by
      simp [stated, Predicate.word, Predicate.name]
    have htext : (statedText n).toList =
        ((stated (.number n.number)).head.predicate.word.toList ++ '(' :: (n.text ++ [')'])) ++
          ([] ++ ([] ++ ['.'])) := by
      simp [statedText, hname]
    rw [htext]
    exact mem_writings.2 ⟨_, mem_applied_of_mem _ hnumber, [], rfl, [], nil_mem_gaps, rfl⟩
  have hrule := rule_of_mem_writings hread hmem nil_mem_gaps []
  rw [List.append_nil, List.nil_append] at hrule
  rw [parse, hrule]
  rfl

/-- A comparison, a carriage return and an infinite number are not read back. -/
theorem not_parse_display :
    (Rule.parse "p(?x) :- q(?x), ?x > 1." = .ok compared ∧
      ¬ ∃ r', Rule.parse compared.display = .ok r' ∧ compared.Equals r') ∧
    (Rule.parse "p(\"a\r\")." = .ok (stated (.text "a\r")) ∧
      ¬ ∃ r', Rule.parse (stated (.text "a\r")).display = .ok r' ∧
        (stated (.text "a\r")).Equals r') ∧
    (Rule.parse (statedText tooLarge) = .ok (stated (.number tooLarge.number)) ∧
      ¬ ∃ r', Rule.parse (stated (.number tooLarge.number)).display = .ok r' ∧
        (stated (.number tooLarge.number)).Equals r') := by
  have hcompared : Rule.parse compared.display = .error (.unreadable 16 .noTerm (some '>')) := by
    rw [show compared.display = "p(?x) :- q(?x), >(?x, 1)." by decide +kernel]
    rfl
  have hreturn : Rule.parse (stated (.text "a\r")).display = .ok (stated (.text "ar")) := rfl
  have hlarge : Rule.parse (stated (.number tooLarge.number)).display =
      .ok (stated (.text "inf")) := by
    rw [show (stated (.number tooLarge.number)).display = "p(inf)." by decide +kernel]
    rfl
  refine ⟨⟨rfl, ?_⟩, ⟨rfl, ?_⟩, parse_statedText tooLarge, ?_⟩
  · rintro ⟨r', hr', -⟩
    cases hcompared.symm.trans hr'
  · rintro ⟨r', hr', hequals⟩
    obtain rfl := Except.ok.inj (hreturn.symm.trans hr')
    have hterms := hequals.head.terms
    simp [stated, Term.Equals, Atom.equals] at hterms
  · rintro ⟨r', hr', hequals⟩
    obtain rfl := Except.ok.inj (hlarge.symm.trans hr')
    have hterms := hequals.head.terms
    simp [stated, Term.Equals, Atom.equals] at hterms

end Rule

end Factbase
