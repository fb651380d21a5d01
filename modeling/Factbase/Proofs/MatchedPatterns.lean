import Factbase.Proofs.CompiledLiterals
import Factbase.Proofs.QueryText

/-! # Patterns that are matched

A query text writes a pattern between slashes, with letters after the second one. A compilation puts
the body and the letters between slashes again, and the filter divides that at the last slash. No
letter is a slash, so the parts are those of the pattern, and the text is tested against the body
(`Find.Query.tests_matching`); but the filter divides only where all letters are options. A pattern
with any other letter is taken as a whole, with its slashes (`Find.Query.not_splits_matching`). -/

namespace Factbase

/-! ## Dividing at the last slash -/

/-- What is written between slashes is divided there if options follow, and else not at all. -/
theorem splitDelimited_append {body letters : List Char} (h : '/' ∉ letters) :
    splitDelimited ('/' :: (body ++ '/' :: letters)) =
      if letters.all isOptionLetter = true then some (body, letters) else none := by
  have hletters : ∀ c ∈ letters.reverse, (c != '/') = true := by
    intro c hc
    rw [bne_iff_ne]
    rintro rfl
    exact h (List.mem_reverse.1 hc)
  have hspan : (body ++ '/' :: letters).reverse.span (· != '/') =
      (letters.reverse, '/' :: body.reverse) := by
    rw [List.reverse_append, List.reverse_cons, List.append_assoc, List.singleton_append,
      List.span_eq_takeWhile_dropWhile, List.takeWhile_append_of_pos hletters,
      List.dropWhile_append_of_pos hletters]
    simp
  rw [splitDelimited, hspan]
  simp

namespace Matcher

/-- The matcher of a body with options. -/
def ofBody (letters body : List Char) : Matcher :=
  match Pattern.parse? (.ofLetters letters) body with
  | some p => .pattern p
  | none => .substring (Text.lowercase body)

/-- What is divided is matched by its body. -/
theorem compile_of_splitDelimited {written : String} {body letters : List Char}
    (h : splitDelimited written.toList = some (body, letters)) :
    compile written = ofBody letters body := by
  rw [compile, h]
  rfl

end Matcher

/-- The filter on patterns asks the matcher of what is written. -/
theorem Filter.passesOf_regex (v : Atom) (written : String) :
    passesOf .regex [v, .text written] = v.searched?.any (Matcher.compile written).isMatch := by
  have hholds : holdsOf .regex [v, .text written] = regex v (.text written) := rfl
  rw [passesOf, hholds, regex]
  cases v.searched? with
  | none => rfl
  | some text => exact value_matchText written text

namespace Find

/-! ## Letters after a pattern -/

namespace Lexeme

variable {c : Char} {rest : List Char} {body flags : String}

/-- Only a slash begins a pattern. -/
theorem exists_ofRegex_eq (h : (ofChars c rest).1 = .token (.regex body flags)) :
    ∃ line, (ofRegex line).1 = .token (.regex body flags) := by
  unfold ofChars at h
  -- the branches are the kinds of pieces, in order
  split at h
  · simp at h
  split at h
  · simp at h
  split at h
  · unfold ofNumber at h
    dsimp only at h
    split at h
    · split at h <;> simp at h
    · simp at h
  split at h
  · unfold ofText at h
    split at h <;> simp at h
  split at h
  · exact ⟨_, h⟩
  split at h
  · unfold ofVariable at h
    dsimp only at h
    split at h <;> simp at h
  split at h
  · unfold ofWord at h
    dsimp only at h
    split at h <;> simp at h
  · unfold ofSign at h
    split at h <;> simp at h

/-- Letters follow a pattern. -/
theorem isLetter_of_ofRegex {line : List Char}
    (h : (ofRegex line).1 = .token (.regex body flags)) :
    ∀ c ∈ flags.toList, Text.isLetter c = true := by
  unfold ofRegex at h
  split at h
  · next raw rest _ =>
    obtain ⟨-, rfl⟩ : _ ∧ String.ofList (rest.takeWhile Text.isLetter) = flags := by simpa using h
    rw [String.toList_ofList]
    exact List.all_eq_true.1 List.all_takeWhile
  · simp at h

end Lexeme

/-- Letters follow the patterns of a text. -/
theorem isLetter_of_mem_tokenize {text : String} {t : Token} (h : t ∈ (tokenize text).1)
    {body flags : String} (hkind : t.kind = .regex body flags) :
    ∀ c ∈ flags.toList, Text.isLetter c = true := by
  rcases (mem_tokenize text).1 h with ⟨s, hs, htoken⟩ | rfl
  · obtain ⟨hlexeme, -, -⟩ := Segment.token?_eq_some.1 htoken
    obtain ⟨c, rest, hchars⟩ := exists_ofChars_eq hs
    rw [hchars, hkind] at hlexeme
    obtain ⟨line, hregex⟩ := Lexeme.exists_ofRegex_eq hlexeme
    exact Lexeme.isLetter_of_ofRegex hregex
  · simp [Token.finish] at hkind

/-! ## Compiled matches -/

namespace Compile

variable {aliases : Aliases} {f : Field} {carrier : String} {ls ls' : List Literal}

/-- A variable has the value of a field: literals look it up, or it is the field itself. -/
def CarriesField (aliases : Aliases) (f : Field) (carrier : String) (ls : List Literal) : Prop :=
  match lookedUp? aliases f with
  | some attr => ⟨.attr, [.var f.var, .const (.text attr), .var carrier]⟩ ∈ ls
  | none => carrier = f.var

theorem CarriesField.mono (h : CarriesField aliases f carrier ls) (hsubset : ls ⊆ ls') :
    CarriesField aliases f carrier ls' := by
  unfold CarriesField at h ⊢
  split at h
  · exact hsubset h
  · exact h

/-- The test of a value against a pattern with the letters after it. -/
def patternTest (carrier body flags : String) : Literal :=
  ⟨.regex, [.var carrier, .const (.text ("/" ++ body ++ "/" ++ flags))]⟩

/-- Some literals test each match among some conditions. -/
def TestsMatches (aliases : Aliases) (conditions : List Condition) (ls : List Literal) : Prop :=
  ∀ f body flags, .matching f body flags ∈ conditions →
    ∃ carrier, CarriesField aliases f carrier ls ∧ patternTest carrier body flags ∈ ls

theorem TestsMatches.append {cs cs' : List Condition} (h : TestsMatches aliases cs ls)
    (h' : TestsMatches aliases cs' ls') : TestsMatches aliases (cs ++ cs') (ls ++ ls') := by
  intro f body flags hmem
  rcases List.mem_append.1 hmem with hmem | hmem
  · obtain ⟨carrier, hcarries, htest⟩ := h f body flags hmem
    exact ⟨carrier, hcarries.mono (List.subset_append_left _ _), List.mem_append_left _ htest⟩
  · obtain ⟨carrier, hcarries, htest⟩ := h' f body flags hmem
    exact ⟨carrier, hcarries.mono (List.subset_append_right _ _), List.mem_append_right _ htest⟩

/-- The goals of a condition test it if it is a match. -/
theorem testsMatches_condition (aliases : Aliases) (c : Condition) (n : Nat) :
    TestsMatches aliases [c] (Goal.literalsInEach ((conditionGoals aliases c).run n).1) := by
  intro f body flags hmem
  obtain rfl := List.mem_singleton.1 hmem
  rw [conditionGoals, testGoals, bind]
  cases hlook : lookedUp? aliases f with
  | none =>
    refine ⟨f.var, ?_, List.mem_cons_self⟩
    rw [CarriesField, hlook]
  | some attr =>
    refine ⟨freshName 't' n, ?_, List.mem_cons_of_mem _ List.mem_cons_self⟩
    rw [CarriesField, hlook]
    exact List.mem_cons_self

/-- A compiled query tests all its matches. -/
theorem testsMatches_compile (options : CompilerOptions) (aliases : Aliases) (q : Query) :
    TestsMatches aliases q.conditions (q.compile options aliases).literals := by
  obtain ⟨tests, lookups, keyGoals, _, _, _, _, _, htests, -, -, -, hliterals⟩ :=
    exists_literals_compile options aliases q
  have hclause : TestsMatches aliases q.conditions (Goal.literalsInEach tests) := by
    unfold clauseTests at htests
    unfold Query.conditions
    cases hc : q.clause with
    | none => exact fun f body flags hmem => absurd hmem List.not_mem_nil
    | some c =>
      rw [hc] at htests
      have hall := (literals_clause options aliases (c := c)
        (P := fun _ _ cs ls => TestsMatches aliases cs ls) (fun h h' => h.append h')
        (fun condition _ n => testsMatches_condition aliases condition n) 0).1
      rw [htests] at hall
      exact hall
  intro f body flags hmem
  obtain ⟨carrier, hcarries, htest⟩ := hclause f body flags hmem
  rw [hliterals]
  have hsubset : Goal.literalsInEach tests ⊆ Goal.literalsInEach tests ++
      Goal.literalsInEach lookups ++ Goal.literalsInEach keyGoals :=
    fun l hl => List.mem_append_left _ (List.mem_append_left _ hl)
  exact ⟨carrier, hcarries.mono (List.subset_cons_of_subset _ hsubset),
    List.mem_cons_of_mem _ (hsubset htest)⟩

end Compile

namespace Query

open Compile (CarriesField patternTest)

variable {text : String} {q : Query} {f : Field} {body flags : String}

/-- Each match of a query text is compiled to a test against its body. For every query text that was
read and every match in it, the text has the pattern with its letters, or a string for a pattern
without letters; the compiled query tests the value of the field against what is written for the
pattern, and that is divided into the body and the letters if these are options, and else not at
all. If they are, a value passes as the matcher of the body says. -/
theorem tests_matching (h : Query.parse text = .ok q) (hmem : .matching f body flags ∈ q.conditions)
    (options : CompilerOptions) (aliases : Aliases) :
    (∃ t ∈ (tokenize text).1, t.kind = .regex body flags ∨ flags = "" ∧ t.kind = .text body) ∧
    (∃ carrier, CarriesField aliases f carrier (q.compile options aliases).literals ∧
      patternTest carrier body flags ∈ (q.compile options aliases).literals) ∧
    splitDelimited ("/" ++ body ++ "/" ++ flags).toList =
      (if flags.toList.all isOptionLetter = true then some (body.toList, flags.toList) else none) ∧
    (flags.toList.all isOptionLetter = true →
      ∀ v, Filter.passesOf .regex [v, .text ("/" ++ body ++ "/" ++ flags)] =
        v.searched?.any (Matcher.ofBody flags.toList body.toList).isMatch) := by
  obtain ⟨t, ht, hkind⟩ : ∃ t ∈ (tokenize text).1,
      t.kind = .regex body flags ∨ flags = "" ∧ t.kind = .text body := by
    rcases ((isFrom_of_parse h).1 _ hmem).pattern f body flags rfl with
      ⟨t, ht, hkind⟩ | ⟨hflags, t, ht, hkind⟩
    · exact ⟨t, ht, .inl hkind⟩
    · exact ⟨t, ht, .inr ⟨hflags, hkind⟩⟩
  have hslash : '/' ∉ flags.toList := by
    rcases hkind with hkind | ⟨rfl, -⟩
    · intro hslash
      have hletter := isLetter_of_mem_tokenize ht hkind '/' hslash
      exact absurd hletter (by decide)
    · simp
  have hsplit : splitDelimited ("/" ++ body ++ "/" ++ flags).toList =
      if flags.toList.all isOptionLetter = true then some (body.toList, flags.toList)
      else none := by
    rw [← splitDelimited_append hslash]
    simp
  refine ⟨⟨t, ht, hkind⟩, Compile.testsMatches_compile options aliases q f body flags hmem, hsplit,
    fun hoptions v => ?_⟩
  rw [if_pos hoptions] at hsplit
  rw [Filter.passesOf_regex, Matcher.compile_of_splitDelimited hsplit]

/-- The query for the posts whose title matches a pattern. -/
def titled (body flags : String) : Query where
  entityType := "post"
  var := "p"
  clause := some (.condition (.matching ⟨"p", ["title"]⟩ body flags))
  returns := [⟨"p", []⟩]
  sortField := none
  limit := none

/-- A pattern with an escaped slash has the slash in its body, and stays undivided there. -/
theorem tests_matching_slash :
    Query.parse "FIND post AS ?p WHERE ?p.title MATCHES /x\\/y/i RETURN ?p" =
        .ok (titled "x/y" "i") ∧
      (∃ carrier, patternTest carrier "x/y" "i" ∈
        ((titled "x/y" "i").compile ⟨.disjunctive⟩ []).literals) ∧
      splitDelimited "/x/y/i".toList = some ("x/y".toList, ['i']) := by
  have hparse : Query.parse "FIND post AS ?p WHERE ?p.title MATCHES /x\\/y/i RETURN ?p" =
      .ok (titled "x/y" "i") := by decide +kernel
  have hmem : .matching ⟨"p", ["title"]⟩ "x/y" "i" ∈ (titled "x/y" "i").conditions :=
    List.mem_cons_self
  obtain ⟨-, ⟨carrier, -, htest⟩, hsplit, -⟩ := tests_matching hparse hmem ⟨.disjunctive⟩ []
  exact ⟨hparse, ⟨carrier, htest⟩, hsplit⟩

/-- A pattern with a letter that is no option is not divided: its body matches a title that does not
pass, for the slashes and the letter are looked for as well. -/
theorem not_splits_matching :
    Query.parse "FIND post AS ?p WHERE ?p.title MATCHES /red/k RETURN ?p" =
        .ok (titled "red" "k") ∧
      .matching ⟨"p", ["title"]⟩ "red" "k" ∈ (titled "red" "k").conditions ∧
      splitDelimited ("/" ++ "red" ++ "/" ++ "k").toList ≠ some ("red".toList, "k".toList) ∧
      Filter.passesOf .regex [.text "red", .text ("/" ++ "red" ++ "/" ++ "k")] = false ∧
      (Matcher.ofBody ['k'] "red".toList).isMatch "red" = true := by
  refine ⟨by decide +kernel, List.mem_cons_self, by decide, ?_, by decide +kernel⟩
  rw [Filter.passesOf_regex]
  decide +kernel

end Query

end Find

end Factbase
