import Factbase.Proofs.RuleReading
import Factbase.Proofs.ScannedText

/-! # Scanned rules

Scanning a text of rules or goals by byte positions gives what reading it does
(`Scan.texts_scanned`). So for every text it comes to an end without dividing the text within a
character or moving there, an error is at a place in the text, and each round of a loop, wherever
it starts, reads something or is the last one.

Terms, literals, goals and rules follow their readers. Goals are nested, and each level takes a
parenthesis: a goal follows the reader that may nest goals as deep as the rest is long. -/

namespace Factbase

namespace Scan

variable {α : Type} {front rest left : List Char} {k n : Nat}

theorem skip_skip (rest : List Char) :
    RuleReader.skip (RuleReader.skip rest) = RuleReader.skip rest :=
  RuleReader.skip_skipFrom false rest

/-! ## Terms -/

theorem follows_term : Follows 1 front rest term (RuleReader.term rest) := by
  refine follows_skip.bind_ok fun front => ?_
  unfold RuleReader.term
  generalize RuleReader.skip rest = rest
  split
  · exact follows_peek.bind_ok fun _ => .fail
  · next more =>
    refine follows_peek.bind_ok fun front => ?_
    show Follows 1 front ('?' :: more) (bump >>= fun _ => name? >>= _) _
    refine follows_bump_cons.bind_ok fun front => ?_
    cases hname : RuleReader.name? more with
    | none => exact (follows_name?_of_none hname).bind_ok fun _ => .fail
    | some result => exact (follows_name?_of_some hname).bind_ok fun _ => .pure
  · next more =>
    refine follows_peek.bind_ok fun front => ?_
    show Follows 1 front ('"' :: more) (quotedText >>= _) _
    have hquoted : Follows 1 front ('"' :: more) quotedText _ := follows_quotedText
    cases hbody : RuleReader.stringBody? more with
    | none =>
      rw [hbody] at hquoted
      exact hquoted.bind_error
    | some result =>
      rw [hbody] at hquoted
      exact hquoted.bind_ok fun _ => .pure
  · next c more hvar htext =>
    refine follows_peek.bind_ok fun front => ?_
    have hvar : c ≠ '?' := hvar
    have htext : c ≠ '"' := htext
    simp only [List.head?_cons, if_neg hvar, if_neg htext]
    split
    · exact follows_number.bind fun _ _ _ _ => .pure
    · cases hname : RuleReader.name? (c :: more) with
      | none => exact (follows_name?_of_none hname).bind_ok fun _ => .fail
      | some result => exact (follows_name?_of_some hname).bind_ok fun _ => .pure

/-! ## Separated elements -/

section Separated

variable {element : Scan α} {reader : RuleReader α} {separator : Char}

/-- What is read after some elements: more of them after a separator, or none. -/
def moreSeparated (reader : RuleReader α) (separator : Char) (n : Nat) (read : List α) :
    RuleReader (List α) := fun rest =>
  match RuleReader.skip rest with
  | [] => return (read, [])
  | c :: rest =>
    if c = separator then do
      let (as, rest) ← RuleReader.separated reader separator n rest
      return (read ++ as, rest)
    else return (read, c :: rest)

theorem separated_succ (rest : List Char) : RuleReader.separated reader separator (n + 1) rest =
    reader rest >>= fun (a, rest) => moreSeparated reader separator n [a] rest := by
  rw [RuleReader.separated]
  cases reader rest with
  | error f => rfl
  | ok result =>
    show (match RuleReader.skip result.2 with
      | [] => _
      | c :: rest => _) = moreSeparated reader separator n [result.1] result.2
    rw [moreSeparated]
    rfl

theorem moreSeparated_append (first read : List α) (rest : List Char) :
    moreSeparated reader separator n (first ++ read) rest =
      moreSeparated reader separator n read rest >>= fun (as, rest) =>
        pure (first ++ as, rest) := by
  unfold moreSeparated
  split
  · rfl
  · split
    · cases RuleReader.separated reader separator n _ with
      | error f => rfl
      | ok result => exact congrArg (fun as => Except.ok (as, result.2)) (List.append_assoc ..)
    · rfl

/-- What is still to be read: more elements, as long as the rest is short enough. -/
def ReadsMore (reader : RuleReader α) (separator : Char) (bound : Nat) (read : List α)
    (rest : List Char) (r : Reading (List α)) : Prop :=
  rest.length < bound ∧ ∃ n, rest.length ≤ n ∧ r = moreSeparated reader separator n read rest

variable {bound : Nat} {round : List α → Scan (Round (List α) (List α))}

/-- A round reads a separator and an element, or is the last one. -/
theorem roundFollows_separated
    (helement : ∀ front rest, rest.length < bound → Follows 1 front rest element (reader rest))
    (hround : ∀ read, round read = (do
      skip
      if ← eat separator then return .again (read ++ [← element]) else return .last read))
    {read : List α} {r : Reading (List α)}
    (h : ReadsMore reader separator bound read rest r) :
    RoundFollows front rest (round read) (ReadsMore reader separator bound) r := by
  obtain ⟨hbound, n, hn, rfl⟩ := h
  have hskip := length_skip_le rest
  have hfollows {k : Nat} {r : Reading (Round (List α) (List α))}
      (h : ∀ front, Follows k front (RuleReader.skip rest) (do
        if ← eat separator then return .again (read ++ [← element]) else return .last read) r) :
      Follows k front rest (round read) r := by
    rw [hround]
    exact follows_skip.bind_ok h
  unfold moreSeparated
  cases hleft : RuleReader.skip rest with
  | nil =>
    rw [hleft] at hfollows
    refine .last (hfollows (k := 0) fun front => ?_) rfl
    exact (follows_eat_of_ne (by simp)).bind_ok fun _ => .pure
  | cons c left =>
    rw [hleft] at hfollows
    rw [hleft, List.length_cons] at hskip
    by_cases hc : c = separator
    · subst hc
      -- the separator takes a character, so the reader may read another one
      obtain ⟨m, rfl⟩ : ∃ m, n = m + 1 := ⟨n - 1, by omega⟩
      have hread := fun front => helement front left (by omega)
      simp only [if_pos, separated_succ]
      cases hreader : reader left with
      | error failure =>
        rw [hreader] at hread
        refine .failed (hfollows (k := 0) fun front => ?_) rfl
        exact follows_eat_cons.bind_ok fun front => (hread front).bind_error
      | ok result =>
        rw [hreader] at hread
        have hlt := (hread []).length_le
        have hnext : Follows 1 front rest (round read)
            (.ok (.again (read ++ [result.1]), result.2)) := by
          refine hfollows fun front => follows_eat_cons.bind_ok fun front => ?_
          exact (hread front).bind_ok fun _ => .pure
        refine .again hnext ⟨by omega, m, by omega, ?_⟩
        exact (moreSeparated_append read [result.1] result.2).symm
    · simp only [if_neg hc]
      refine .last (hfollows (k := 0) fun front => ?_) rfl
      exact (follows_eat_of_ne (by simpa using hc)).bind_ok fun _ => .pure

/-- An element and the loop for more of them read separated elements. -/
theorem follows_separated
    (helement : ∀ front rest, rest.length < bound → Follows 1 front rest element (reader rest))
    (hround : ∀ read, round read = (do
      skip
      if ← eat separator then return .again (read ++ [← element]) else return .last read))
    (hbound : rest.length < bound) (hn : rest.length ≤ n) :
    Follows 1 front rest (element >>= fun a => loop round [a])
      (RuleReader.separated reader separator n rest) := by
  have hread := fun front => helement front rest hbound
  cases n with
  | zero =>
    -- an element takes a character, so there is none to read
    rw [RuleReader.separated]
    cases hreader : reader rest with
    | error failure => exact (hreader ▸ hread front).bind_error
    | ok result =>
      have hlt := (hreader ▸ hread front).length_le
      omega
  | succ n =>
    rw [separated_succ]
    refine (hread front).bind fun front a left hleft => ?_
    have hlt := (hleft ▸ hread []).length_le
    have hmore : ReadsMore reader separator bound [a] left
        (moreSeparated reader separator n [a] left) := ⟨by omega, n, by omega, rfl⟩
    exact follows_loop (fun _ _ _ _ => roundFollows_separated helement hround) hmore

end Separated

/-! ## Literals -/

/-- Reads terms up to the closing parenthesis. -/
def closedTerms (n : Nat) (read : List Term) : RuleReader (List Term) := fun rest => do
  let (ts, rest) ← RuleReader.separated RuleReader.term ',' n rest
  match rest with
  | ')' :: rest => return (read ++ ts, rest)
  | rest => RuleReader.fail (.missing ',') rest

/-- What is still to be read of the terms of a literal. -/
def ReadsTerms (read : List Term) (rest : List Char) (r : Reading (List Term)) : Prop :=
  ∃ n, rest.length ≤ n ∧ r = closedTerms n read rest

theorem closedTerms_error {failure : ReadFailure} {read : List Term}
    (h : RuleReader.term rest = .error failure) : closedTerms n read rest = .error failure := by
  cases n <;> simp only [closedTerms, RuleReader.separated, h] <;> rfl

theorem closedTerms_ok {t : Term} {read : List Term} (h : RuleReader.term rest = .ok (t, left)) :
    closedTerms (n + 1) read rest =
      match RuleReader.skip left with
      | [] => RuleReader.fail (.missing ',') []
      | c :: left =>
        if c = ')' then .ok (read ++ [t], left)
        else if c = ',' then closedTerms n (read ++ [t]) left
        else RuleReader.fail (.missing ',') (c :: left) := by
  simp only [closedTerms, separated_succ, h]
  show (moreSeparated RuleReader.term ',' n [t] left >>= _) = _
  unfold moreSeparated
  cases RuleReader.skip left with
  | nil => rfl
  | cons c left =>
    by_cases hclosed : c = ')'
    · subst hclosed
      rfl
    by_cases hcomma : c = ','
    · subst hcomma
      simp only [if_pos, if_neg hclosed]
      cases RuleReader.separated RuleReader.term ',' n left with
      | error failure => rfl
      | ok result =>
        obtain ⟨ts, rest⟩ := result
        show (match rest with
          | ')' :: rest => _
          | rest => _) = (match rest with
          | ')' :: rest => _
          | rest => _)
        split <;> simp
    · simp only [if_neg hclosed, if_neg hcomma]
      show (match c :: left with
        | ')' :: rest => _
        | rest => _) = _
      split
      · simp_all
      · rfl

/-- What follows a term closes the literal or separates another term. -/
theorem follows_anotherTerm : Follows 1 front rest anotherTerm
    (match RuleReader.skip rest with
      | [] => RuleReader.fail (.missing ',') []
      | c :: left =>
        if c = ')' then .ok (false, left)
        else if c = ',' then .ok (true, left)
        else RuleReader.fail (.missing ',') (c :: left)) := by
  refine follows_skip.bind_ok fun front => ?_
  have hcomma (front : List Char) : Follows 1 front (RuleReader.skip rest) (expect ',')
      ((RuleReader.expect ',' (RuleReader.skip rest)).map fun left => ((), left)) := follows_expect
  rw [RuleReader.expect, skip_skip] at hcomma
  generalize RuleReader.skip rest = rest at hcomma
  cases rest with
  | nil => exact (follows_eat_of_ne (by simp)).bind_ok fun front => (hcomma front).bind_error
  | cons c left =>
    by_cases hc : c = ')'
    · subst hc
      exact follows_eat_cons.bind_ok fun _ => .pure
    refine (follows_eat_of_ne (by simpa using hc)).bind_ok fun front => ?_
    simp only [if_neg hc]
    by_cases hsep : c = ','
    · simp only [if_pos hsep] at hcomma ⊢
      exact (hcomma front).bind_ok fun _ => .pure
    · simp only [if_neg hsep] at hcomma ⊢
      exact (hcomma front).bind_error

/-- A round reads a term and what follows it. -/
theorem roundFollows_terms {read : List Term} {r : Reading (List Term)}
    (h : ReadsTerms read rest r) :
    RoundFollows front rest (termsRound read) ReadsTerms r := by
  obtain ⟨n, hn, rfl⟩ := h
  have hterm : Follows 1 front rest term (RuleReader.term rest) := follows_term
  cases hreader : RuleReader.term rest with
  | error failure =>
    rw [hreader] at hterm
    exact .failed (hterm.bind_error (i := 0)) (closedTerms_error hreader)
  | ok result =>
    obtain ⟨t, left⟩ := result
    rw [hreader] at hterm
    have hlt := hterm.length_le
    have hskip := length_skip_le left
    obtain ⟨m, rfl⟩ : ∃ m, n = m + 1 := ⟨n - 1, by omega⟩
    have hanother (front : List Char) : Follows 1 front left anotherTerm _ := follows_anotherTerm
    rw [closedTerms_ok hreader]
    cases hleft : RuleReader.skip left with
    | nil =>
      rw [hleft] at hanother
      exact .failed (hterm.bind_ok (i := 0) fun front => (hanother front).bind_error) rfl
    | cons c more =>
      rw [hleft, List.length_cons] at hskip
      rw [hleft] at hanother
      by_cases hclosed : c = ')'
      · simp only [if_pos hclosed] at hanother ⊢
        have hround : Follows 1 front rest (termsRound read) (.ok (.last (read ++ [t]), more)) :=
          hterm.bind_ok fun front => (hanother front).bind_ok fun _ => .pure
        exact .last hround rfl
      simp only [if_neg hclosed] at hanother ⊢
      by_cases hcomma : c = ','
      · simp only [if_pos hcomma] at hanother ⊢
        have hnext : Follows 1 front rest (termsRound read) (.ok (.again (read ++ [t]), more)) :=
          hterm.bind_ok fun front => (hanother front).bind_ok fun _ => .pure
        exact .again hnext ⟨m, by omega, rfl⟩
      · simp only [if_neg hcomma] at hanother ⊢
        exact .failed (hterm.bind_ok (i := 0) fun front => (hanother front).bind_error) rfl

theorem follows_terms : Follows 1 front rest terms (RuleReader.terms rest) := by
  refine follows_expect_bind fun front more _ => follows_skip.bind_ok fun front => ?_
  show Follows 0 front (RuleReader.skip more) _ (match RuleReader.skip more with
    | ')' :: rest => _
    | rest => closedTerms rest.length [] rest)
  split
  · next left hleft =>
    rw [hleft]
    exact follows_eat_cons.bind_ok fun _ => .pure
  · next hopen =>
    refine (follows_eat_of_ne (head?_ne_some hopen)).bind_ok fun front => ?_
    exact follows_loop (fun _ _ _ _ => roundFollows_terms) ⟨_, Nat.le_refl _, rfl⟩

theorem follows_literal : Follows 1 front rest literal (RuleReader.literal rest) := by
  refine follows_skip.bind_ok fun front => ?_
  rw [RuleReader.literal]
  generalize RuleReader.skip rest = rest
  cases hname : RuleReader.name? rest with
  | none => exact (follows_name?_of_none hname).bind_ok fun _ => .fail
  | some result =>
    exact (follows_name?_of_some hname).bind_ok fun _ => follows_terms.bind fun _ _ _ _ => .pure

/-! ## Comparisons -/

theorem follows_operatorAmong (operators : List (List Char × Comparison)) :
    Follows 0 front rest (operatorAmong operators)
      (match operators.find? fun o => o.1.isPrefixOf rest with
        | some (written, op) => .ok (some op, rest.drop written.length)
        | none => .ok (none, rest)) := by
  induction operators generalizing front with
  | nil => exact .pure
  | cons o others ih =>
    obtain ⟨written, op⟩ := o
    rw [List.find?_cons]
    by_cases hwritten : written.isPrefixOf rest = true
    · have heat : Follows written.length front rest (eatText written) _ := follows_eatText hwritten
      simp only [hwritten]
      exact (heat.mono (Nat.zero_le _)).bind_ok fun _ => .pure
    · simp only [hwritten]
      exact (follows_eatText_of_not hwritten).bind_ok fun _ => ih

theorem follows_comparison : Follows 0 front rest comparison (RuleReader.comparison rest) := by
  have hamong : Follows 0 front rest (operatorAmong RuleReader.operators) _ :=
    follows_operatorAmong RuleReader.operators
  rw [RuleReader.comparison]
  split
  · next hfind =>
    rw [hfind] at hamong
    exact hamong.bind_ok fun _ => .pure
  · next hfind =>
    rw [hfind] at hamong
    exact hamong.bind_ok fun _ => .fail

theorem follows_comparisonGoal :
    Follows 1 front rest comparisonGoal (RuleReader.comparisonGoal rest) := by
  refine follows_term.bind fun front left more _ => follows_skip.bind_ok fun front => ?_
  refine follows_comparison.bind fun front op more _ => ?_
  exact follows_term.bind fun _ _ _ _ => .pure

/-! ## Goals -/

section Goals

variable {bound m : Nat} {nested : Scan Goal}

/-- A conjunction is read where goals are read in texts that are short enough. -/
theorem follows_conjunction
    (hnested : ∀ front rest, rest.length < bound →
      Follows 1 front rest nested (RuleReader.goal n rest))
    (hrest : rest.length < bound) :
    Follows 1 front rest (conjunction nested)
      (RuleReader.separated (RuleReader.goal n) ',' rest.length rest) :=
  follows_separated hnested (fun _ => rfl) hrest (Nat.le_refl _)

/-- The branches in parentheses are read where goals are read in texts that are short enough. -/
theorem follows_branches
    (hnested : ∀ front rest, rest.length < bound →
      Follows 1 front rest nested (RuleReader.goal n rest))
    (hrest : rest.length < bound) :
    Follows 1 front rest (branches nested)
      (RuleReader.separated (fun t => RuleReader.separated (RuleReader.goal n) ',' t.length t) ';'
        rest.length rest) :=
  follows_separated (fun _ _ hlength => follows_conjunction hnested hlength) (fun _ => rfl) hrest
    (Nat.le_refl _)

/-- A goal is read as the reader does, where both may nest goals deep enough. -/
theorem follows_goalWithin (hn : rest.length < n) (hm : rest.length < m) :
    Follows 1 front rest (goalWithin m) (RuleReader.goal n rest) := by
  induction n generalizing front rest m with
  | zero => omega
  | succ n ih =>
    obtain ⟨m, rfl⟩ : ∃ l, m = l + 1 := ⟨m - 1, by omega⟩
    rw [goalWithin, RuleReader.goal]
    have hskip := length_skip_le rest
    refine follows_skip.bind_ok fun front => ?_
    generalize RuleReader.skip rest = rest at hskip
    refine follows_peek.bind_ok fun front => ?_
    -- in parentheses, the branches are shorter by the opening one
    by_cases hopen : rest.head? = some '('
    · obtain ⟨inner, rfl⟩ := List.head?_eq_some_iff.1 hopen
      rw [List.length_cons] at hskip
      rw [if_pos hopen]
      refine follows_bump_cons.bind_ok fun front => ?_
      have hnested (front rest : List Char) (h : rest.length < min n m) :
          Follows 1 front rest (goalWithin m) (RuleReader.goal n rest) := ih (by omega) (by omega)
      have hinner : inner.length < min n m := by omega
      refine (follows_branches hnested hinner).bind fun front read left _ => ?_
      exact follows_expect_bind fun _ _ _ => .pure
    rw [if_neg hopen]
    split
    · simp at hopen
    cases hname : RuleReader.name? rest with
    | none =>
      refine (follows_calledName?_of_none fun name left h => ?_).bind_ok fun _ =>
        follows_comparisonGoal
      simp [hname] at h
    | some result =>
      obtain ⟨name, left⟩ := result
      simp only
      -- a name with a parenthesis after it is a call, and any other starts a comparison
      split
      · next inner hinner =>
        refine (follows_calledName?_of_some hname hinner).bind_ok fun front => ?_
        by_cases hnot : name = ['n', 'o', 't']
        · have hlength : inner.length < n ∧ inner.length < m := by
            have hread : Follows 1 [] rest name? (.ok (some name, left)) :=
              follows_name?_of_some hname
            have hleft := hread.length_le
            have hskipped := length_skip_le left
            rw [hinner, List.length_cons] at hskipped
            omega
          simp only [if_pos hnot]
          refine follows_bump_cons.bind_ok fun front => ?_
          refine (ih hlength.1 hlength.2).bind fun front g left _ => ?_
          exact follows_expect_bind fun _ _ _ => .pure
        · simp only [if_neg hnot]
          exact follows_terms.bind fun _ _ _ _ => .pure
      · next hleft =>
        refine (follows_calledName?_of_none fun name' left' h => ?_).bind_ok fun _ =>
          follows_comparisonGoal
        obtain ⟨rfl, rfl⟩ := Prod.mk.inj (Option.some.inj (hname.symm.trans h))
        exact head?_ne_some hleft

theorem follows_goal (h : rest.length < n) : Follows 1 front rest goal (RuleReader.goal n rest) :=
  .limit fun _ => follows_goalWithin h

theorem follows_goals : Follows 1 front rest goals (RuleReader.goals rest) :=
  follows_conjunction (fun _ _ => follows_goal) (Nat.lt_succ_self _)

end Goals

/-! ## Rules -/

/-- Reads the body of a rule, if there is one. -/
def ruleBody : RuleReader (List Goal) := fun rest =>
  if [':', '-'].isPrefixOf (RuleReader.skip rest) then
    RuleReader.goals ((RuleReader.skip rest).drop 2)
  else return ([], RuleReader.skip rest)

theorem rule_eq (rest : List Char) : RuleReader.rule rest = do
    let (head, rest) ← RuleReader.literal (RuleReader.skip rest)
    let (body, rest) ← ruleBody rest
    let rest ← RuleReader.expect '.' rest
    return (⟨head, body⟩, rest) := by
  rw [RuleReader.rule, RuleReader.literal, RuleReader.literal, skip_skip]
  congr 1
  funext head
  simp only
  by_cases hmark : [':', '-'].isPrefixOf (RuleReader.skip head.2) = true
  · rw [ruleBody, if_pos hmark]
    obtain ⟨more, hmore⟩ := List.isPrefixOf_iff_prefix.1 hmark
    rw [← hmore]
    rfl
  · rw [ruleBody, if_neg hmark]
    split
    · next more hmore => exact absurd (by rw [hmore]; simp) hmark
    · rfl

theorem follows_body : Follows 0 front rest body (ruleBody rest) := by
  refine follows_skip.bind_ok fun front => ?_
  rw [ruleBody]
  by_cases hmark : [':', '-'].isPrefixOf (RuleReader.skip rest) = true
  · rw [if_pos hmark]
    refine Follows.bind_ok (j := 0) ((follows_eatText hmark).mono (Nat.zero_le _)) fun front => ?_
    exact follows_goals.mono (Nat.zero_le 1)
  · rw [if_neg hmark]
    exact (follows_eatText_of_not hmark).bind_ok fun _ => .pure

theorem follows_rule : Follows 1 front rest rule (RuleReader.rule rest) := by
  rw [rule_eq]
  refine follows_skip.bind_ok fun front => follows_literal.bind fun front head left _ => ?_
  refine follows_body.bind fun front goals left _ => ?_
  exact follows_expect_bind fun _ _ _ => .pure

/-- What is still to be read of a list of rules. -/
def ReadsRules (read : List Rule) (rest : List Char) (r : Reading (List Rule)) : Prop :=
  ∃ n, rest.length ≤ n ∧ r = (RuleReader.rules n rest).map fun rules => (read ++ rules, [])

/-- A round reads a rule, or is the last one at the end of the text. -/
theorem roundFollows_rules {read : List Rule} {r : Reading (List Rule)}
    (h : ReadsRules read rest r) : RoundFollows front rest (rulesRound read) ReadsRules r := by
  obtain ⟨n, hn, rfl⟩ := h
  have hskip := length_skip_le rest
  have hfollows {k : Nat} {r : Reading (Round (List Rule) (List Rule))}
      (h : ∀ front, Follows k front (RuleReader.skip rest) (do
        if ← atEnd then return .last read else return .again (read ++ [← rule])) r) :
      Follows k front rest (rulesRound read) r :=
    follows_skip.bind_ok h
  cases hleft : RuleReader.skip rest with
  | nil =>
    have hrules : RuleReader.rules n rest = .ok [] := by
      cases n with
      | zero => simp only [RuleReader.rules, RuleReader.finish, hleft]
      | succ n => simp only [RuleReader.rules, hleft]
    rw [hleft] at hfollows
    rw [hrules]
    refine .last (hfollows (k := 0) fun front => follows_atEnd.bind_ok fun _ => .pure) ?_
    exact congrArg (fun rules => Except.ok (rules, [])) (List.append_nil read)
  | cons c more =>
    rw [hleft] at hfollows hskip
    rw [List.length_cons] at hskip
    obtain ⟨m, rfl⟩ : ∃ m, n = m + 1 := ⟨n - 1, by omega⟩
    have hrules : RuleReader.rules (m + 1) rest =
        RuleReader.rule (c :: more) >>= fun read =>
          RuleReader.rules m read.2 >>= fun rs => pure (read.1 :: rs) := by
      simp only [RuleReader.rules, hleft]
    have hrule (front : List Char) : Follows 1 front (c :: more) rule
        (RuleReader.rule (c :: more)) := follows_rule
    rw [hrules]
    cases hreader : RuleReader.rule (c :: more) with
    | error failure =>
      rw [hreader] at hrule
      refine .failed (hfollows (k := 0) fun front => ?_) rfl
      exact follows_atEnd.bind_ok fun front => (hrule front).bind_error
    | ok result =>
      obtain ⟨r, left⟩ := result
      rw [hreader] at hrule
      have hlt := (hrule []).length_le
      rw [List.length_cons] at hlt
      have hnext : Follows 1 front rest (rulesRound read) (.ok (.again (read ++ [r]), left)) :=
        hfollows fun _ => follows_atEnd.bind_ok fun front => (hrule front).bind_ok fun _ => .pure
      refine .again hnext ⟨m, by omega, ?_⟩
      show Except.map _ (RuleReader.rules m left >>= fun rs => pure (r :: rs)) = _
      cases RuleReader.rules m left with
      | error failure => rfl
      | ok rules =>
        exact congrArg (fun rules => Except.ok (rules, [])) (List.append_cons read r rules)

end Scan

/-! ## Places -/

/-- Whether an error is at a place between two characters of a text, or at one of its ends. -/
def RuleError.PointsInto (text : String) : RuleError → Prop
  | .unreadable offset _ _ =>
    offset ≤ text.utf8ByteSize ∧ String.Pos.Raw.IsValid text ⟨offset⟩
  | _ => False

theorem Text.byteLength_pos {text : List Char} (h : 1 ≤ text.length) : 0 < byteLength text := by
  cases text with
  | nil => simp at h
  | cons c text =>
    have hc := c.utf8Size_pos
    rw [byteLength_cons]
    omega

theorem RuleError.pointsInto_of_append {text : String} {front rest : List Char}
    (fault : ReadFault) (found : Option Char) (h : text.toList = front ++ rest) :
    (RuleError.unreadable (Text.byteLength front) fault found).PointsInto text := by
  refine ⟨?_, Text.isValid_iff.2 ⟨front, rest, h, rfl⟩⟩
  rw [← Text.byteLength_toList, h, Text.byteLength_append]
  exact Nat.le_add_right _ _

namespace Scan

variable {α : Type} {front rest : List Char} {k : Nat}

/-- Whether every round, started between two characters of a text, comes to an end between two
characters, and has read some of the text where there is another round. -/
def Proceeds {σ : Type} (round : σ → Scan (Round σ α)) : Prop :=
  ∀ (text : String) (limit : Nat) (state : σ) (position : String.Pos.Raw),
    text.toList.length < limit → position.IsValid text →
    (∃ state' next, (round state).run ⟨text.toList, limit⟩ position.byteIdx =
        some (.ok (.again state', next)) ∧
      position.byteIdx < next ∧ String.Pos.Raw.IsValid text ⟨next⟩) ∨
    (∃ result next, (round state).run ⟨text.toList, limit⟩ position.byteIdx =
        some (.ok (.last result, next)) ∧
      position.byteIdx ≤ next ∧ String.Pos.Raw.IsValid text ⟨next⟩) ∨
    ∃ e, (round state).run ⟨text.toList, limit⟩ position.byteIdx = some (.error e) ∧
      e.PointsInto text

/-- A round proceeds where it follows some reader from every place. -/
theorem proceeds_of_follows {σ : Type} {round : σ → Scan (Round σ α)}
    (h : ∀ front rest state, ∃ expected r, RoundFollows front rest (round state) expected r) :
    Proceeds round := by
  intro text limit state position hlimit hposition
  obtain ⟨front, rest, htext, hfront⟩ := Text.isValid_iff.1 hposition
  have hplace {taken left : List Char} (hrest : rest = taken ++ left) :
      text.toList = front ++ taken ++ left := by rw [htext, hrest, List.append_assoc]
  have hvalid {taken left : List Char} (hrest : rest = taken ++ left) :
      String.Pos.Raw.IsValid text ⟨Text.byteLength (front ++ taken)⟩ :=
    Text.isValid_iff.2 ⟨front ++ taken, left, hplace hrest, rfl⟩
  rw [htext] at hlimit ⊢
  rw [hfront]
  obtain ⟨expected, r, hround⟩ := h front rest state
  cases hround with
  | again hfollows hnext =>
    cases hfollows with
    | ok hrest htaken hrun =>
      refine .inl ⟨_, _, hrun limit hlimit, ?_, hvalid hrest⟩
      have hpos := Text.byteLength_pos htaken
      rw [Text.byteLength_append]
      omega
  | last hfollows hr =>
    cases hfollows with
    | ok hrest htaken hrun =>
      refine .inr (.inl ⟨_, _, hrun limit hlimit, ?_, hvalid hrest⟩)
      rw [Text.byteLength_append]
      exact Nat.le_add_right _ _
  | failed hfollows hr =>
    cases hfollows with
    | error hrest hrun =>
      refine .inr (.inr ⟨_, hrun limit hlimit, ?_⟩)
      exact RuleError.pointsInto_of_append _ _ (hplace hrest)

/-! ## Texts -/

/-- A scan from the start of a text gives what the reader gives that it follows, and an error at a
place in the text. -/
theorem ofText_follows {scan : Scan α} {text : String} {r : Reading α}
    {parsed : Except RuleError α} (h : Follows k [] text.toList scan r)
    (hparsed : RuleReader.located text.toList (r.map Prod.fst) = parsed) :
    (∀ limit, text.toList.length < limit → scan.ofText limit text = some parsed) ∧
      ∀ e, parsed = .error e → e.PointsInto text := by
  subst hparsed
  cases h with
  | @ok taken left a hrest hk hrun =>
    refine ⟨fun limit hlimit => ?_, fun e he => by cases he⟩
    have hstart : scan.run ⟨text.toList, limit⟩ 0 = _ := hrun limit hlimit
    rw [ofText, hstart]
    rfl
  | @error taken failure hrest hrun =>
    have hoffset : Text.byteLength text.toList - Text.byteLength failure.rest =
        Text.byteLength taken := by
      rw [hrest, Text.byteLength_append, Nat.add_sub_cancel]
    have hlocated : RuleReader.located text.toList
        ((Except.error failure : Reading α).map Prod.fst) =
          .error (.unreadable (Text.byteLength taken) failure.fault failure.rest.head?) := by
      rw [← hoffset]
      rfl
    rw [hlocated]
    refine ⟨fun limit hlimit => ?_, fun e he => ?_⟩
    · have hstart : scan.run ⟨text.toList, limit⟩ 0 = _ := hrun limit hlimit
      rw [ofText, hstart]
      rfl
    · cases he
      exact RuleError.pointsInto_of_append _ _ hrest

theorem map_fst_finish {β : Type} (r : Except ReadFailure (β × List Char))
    (g : β × List Char → Except ReadFailure α) :
    (r >>= fun read => (g read).map fun a => (a, ([] : List Char))).map Prod.fst = r >>= g := by
  cases r with
  | error failure => rfl
  | ok read =>
    show ((g read).map _).map Prod.fst = g read
    cases g read <;> rfl

theorem scan_rule (text : String) :
    (∀ limit, text.toList.length < limit → Rule.scan limit text = some (Rule.parse text)) ∧
      ∀ e, Rule.parse text = .error e → e.PointsInto text := by
  have hfollows : Follows 1 [] text.toList _ (RuleReader.rule text.toList >>= fun read =>
      (RuleReader.finish read.1 read.2).map fun rule => (rule, [])) :=
    follows_rule.bind fun _ rule _ _ => follows_finish rule
  exact ofText_follows hfollows (congrArg _ (map_fst_finish _ _))

/-- Checks that nothing but white space is left after goals, or after a point. -/
def finishGoals (goals : List Goal) (rest : List Char) : Except ReadFailure (List Goal) :=
  match RuleReader.skip rest with
  | '.' :: rest => RuleReader.finish goals rest
  | rest => RuleReader.finish goals rest

theorem follows_finishGoals (goals : List Goal) : Follows 0 front rest (do
    skip
    let _ ← eat '.'
    expectEnd
    return goals) ((finishGoals goals rest).map fun goals => (goals, [])) := by
  refine follows_skip.bind_ok fun front => ?_
  rw [finishGoals]
  split
  · next left hleft =>
    rw [hleft]
    exact follows_eat_cons.bind_ok fun _ => follows_finish goals
  · next hpoint =>
    exact (follows_eat_of_ne (head?_ne_some hpoint)).bind_ok fun _ => follows_finish goals

theorem scan_goals (text : String) :
    (∀ limit, text.toList.length < limit → Goal.scanAll limit text = some (Goal.parseAll text)) ∧
      ∀ e, Goal.parseAll text = .error e → e.PointsInto text := by
  have hfollows : Follows 1 [] text.toList _ (RuleReader.goals text.toList >>= fun read =>
      (finishGoals read.1 read.2).map fun goals => (goals, [])) :=
    follows_goals.bind fun _ goals _ _ => follows_finishGoals goals
  exact ofText_follows hfollows (congrArg _ (map_fst_finish _ _))

theorem scan_rules (text : String) :
    (∀ limit, text.toList.length < limit → Rule.scanAll limit text = some (Rule.parseAll text)) ∧
      ∀ e, Rule.parseAll text = .error e → e.PointsInto text := by
  have hfollows : Follows 0 [] text.toList (loop rulesRound [])
      ((RuleReader.rules text.toList.length text.toList).map fun rules => (rules, [])) :=
    follows_loop (fun _ _ _ _ => roundFollows_rules) ⟨_, Nat.le_refl _, rfl⟩
  refine ofText_follows hfollows (congrArg _ ?_)
  exact map_fst_finish (.ok ((), [])) fun _ => RuleReader.rules text.toList.length text.toList

/-- Every text of one rule, of rules and of goals is scanned to an end, between its characters all
the time, with what reading it gives; an error is a syntax error at a place in the text. No loop
takes more rounds than the text has characters and one, and goals are not nested deeper. Each round
of the loops over rules, goals, branches, terms, quoted texts, digits, white space and comments
reads some of the text or is the last one. -/
theorem texts_scanned (text : String) :
    (∀ limit, text.toList.length < limit →
      Rule.scan limit text = some (Rule.parse text) ∧
        Rule.scanAll limit text = some (Rule.parseAll text) ∧
        Goal.scanAll limit text = some (Goal.parseAll text)) ∧
    (∀ e, Rule.parse text = .error e ∨ Rule.parseAll text = .error e ∨
      Goal.parseAll text = .error e → e.PointsInto text) ∧
    Proceeds rulesRound ∧ Proceeds (goalsRound goal) ∧ Proceeds (branchesRound goal) ∧
      Proceeds termsRound ∧ Proceeds quotedRound ∧ Proceeds digitsRound ∧ Proceeds skipRound ∧
      Proceeds commentRound := by
  obtain ⟨hrule, hruleError⟩ := scan_rule text
  obtain ⟨hrules, hrulesError⟩ := scan_rules text
  obtain ⟨hgoals, hgoalsError⟩ := scan_goals text
  have hgoal (bound : Nat) (front rest : List Char) (h : rest.length < bound) :
      Follows 1 front rest goal (RuleReader.goal bound rest) := follows_goal h
  refine ⟨fun limit hlimit => ⟨hrule limit hlimit, hrules limit hlimit, hgoals limit hlimit⟩, ?_,
    ?_, ?_, ?_, ?_, ?_, ?_, ?_, ?_⟩
  · rintro e (he | he | he)
    · exact hruleError e he
    · exact hrulesError e he
    · exact hgoalsError e he
  · exact proceeds_of_follows fun front rest state =>
      ⟨_, _, roundFollows_rules ⟨_, Nat.le_refl _, rfl⟩⟩
  · exact proceeds_of_follows fun front rest state =>
      ⟨_, _, roundFollows_separated (hgoal _) (fun _ => rfl)
        ⟨Nat.lt_succ_self _, _, Nat.le_refl _, rfl⟩⟩
  · exact proceeds_of_follows fun front rest state =>
      ⟨_, _, roundFollows_separated (fun _ _ => follows_conjunction (hgoal _)) (fun _ => rfl)
        ⟨Nat.lt_succ_self _, _, Nat.le_refl _, rfl⟩⟩
  · exact proceeds_of_follows fun front rest state =>
      ⟨_, _, roundFollows_terms ⟨_, Nat.le_refl _, rfl⟩⟩
  · exact proceeds_of_follows fun front rest state => ⟨_, _, roundFollows_quoted rfl⟩
  · exact proceeds_of_follows fun front rest state => ⟨_, _, roundFollows_digits rfl⟩
  · exact proceeds_of_follows fun front rest state => ⟨_, _, roundFollows_skip rfl⟩
  · exact proceeds_of_follows fun front rest state => ⟨_, _, roundFollows_comment rfl⟩

theorem texts_scanned_comment :
    Rule.scan 3 "%é" = some (.error (.unreadable 3 .noPredicate none)) ∧
      (RuleError.unreadable 3 .noPredicate none).PointsInto "%é" := by
  have hparse : Rule.parse "%é" = .error (.unreadable 3 .noPredicate none) := rfl
  obtain ⟨hscan, herror, -⟩ := texts_scanned "%é"
  exact ⟨(hscan 3 (by decide)).1.trans (congrArg some hparse), herror _ (.inl hparse)⟩

end Scan

end Factbase
