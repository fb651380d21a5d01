import Factbase.Proofs.RuleLanguage

/-! # Reading the language of rules

Whichever way a rule is written, it is read back, and so are rules that are written one after the
other (`Rule.parse_writings`).

A reader *reads* a text (`RuleReader.Reads`) when it takes all of it, with white space and comments
in front or not, whatever follows, as long as that cannot be taken for more of the text. Terms,
lists of them, goals and rules read their writings in this sense; the depth that bounds the reader
of goals is at most the length of the text. -/

namespace Factbase

namespace RuleReader

variable {α : Type} {text rest name gap : List Char} {c : Char}

/-! ## White space -/

/-- Whether a character is not skipped. -/
def Stands (c : Char) : Prop := Text.isBlank c = false ∧ c ≠ '%'

theorem skip_of_stands (h : Stands c) : skip (c :: rest) = c :: rest := by
  simp [skip, skipFrom, h.1, h.2]

theorem skipFrom_comment {line : List Char} (h : '\n' ∉ line) :
    skipFrom true (line ++ '\n' :: rest) = skip rest := by
  induction line with
  | nil => rfl
  | cons c line ih =>
    rw [List.mem_cons, not_or] at h
    have hc : (c != '\n') = true := by simpa using fun heq => h.1 heq.symm
    rw [List.cons_append, skipFrom, if_pos rfl, hc, ih h.2]

theorem skip_space_append {piece : List Char} (h : piece ∈ space) :
    skip (piece ++ rest) = skip rest := by
  rcases h with ⟨c, rfl, hblank⟩ | ⟨line, rfl, hline⟩
  · simp [skip, skipFrom, hblank]
  · have hcomment : skip ('%' :: (line ++ '\n' :: rest)) =
        skipFrom true (line ++ '\n' :: rest) := by
      simp [skip, skipFrom, show Text.isBlank '%' = false by decide]
    rw [List.cons_append, List.append_assoc, List.singleton_append, hcomment,
      skipFrom_comment hline]

/-- White space and comments are skipped. -/
theorem skip_append (h : gap ∈ gaps) : skip (gap ++ rest) = skip rest := by
  obtain ⟨pieces, rfl, hpieces⟩ := Language.mem_kstar.1 h
  clear h
  induction pieces with
  | nil => rfl
  | cons piece pieces ih =>
    obtain ⟨hpiece, hrest⟩ := List.forall_mem_cons.1 hpieces
    rw [List.flatten_cons, List.append_assoc, skip_space_append hpiece,
      ih hrest]

theorem skip_append_of_stands (hgap : gap ∈ gaps) (h : Stands c) :
    skip (gap ++ c :: rest) = c :: rest := by
  rw [skip_append hgap, skip_of_stands h]

theorem skip_skipFrom (inComment : Bool) (text : List Char) :
    skip (skipFrom inComment text) = skipFrom inComment text := by
  induction text generalizing inComment with
  | nil => rfl
  | cons c text ih =>
    rw [skipFrom]
    split_ifs with hcomment hblank hpercent
    · exact ih _
    · exact ih _
    · exact ih _
    · exact skip_of_stands ⟨by simpa using hblank, by simpa using hpercent⟩

theorem expect_append (hgap : gap ∈ gaps) (h : Stands c) :
    expect c (gap ++ c :: rest) = .ok rest := by
  simp [expect, skip_append_of_stands hgap h]

/-! ## Names -/

/-- What may stand after a term: neither more of a name nor the point of a number. -/
def EndsTerm (rest : List Char) : Prop :=
  ∀ c, rest.head? = some c → continuesName c = false ∧ c ≠ '.'

/-- White space and comments end a term, and so does a character that does not go on with one. -/
theorem endsTerm_append (hgap : gap ∈ gaps) (hname : continuesName c = false) (hpoint : c ≠ '.') :
    EndsTerm (gap ++ c :: rest) := by
  obtain ⟨pieces, rfl, hpieces⟩ := Language.mem_kstar.1 hgap
  intro d hd
  cases pieces with
  | nil =>
    obtain rfl : c = d := by simpa using hd
    exact ⟨hname, hpoint⟩
  | cons piece pieces =>
    rcases hpieces piece List.mem_cons_self with ⟨b, rfl, hblank⟩ | ⟨line, rfl, -⟩
    · obtain rfl : b = d := by simpa using hd
      refine ⟨continuesName_of_isBlank hblank, ?_⟩
      rintro rfl
      exact absurd hblank (by decide)
    · obtain rfl : '%' = d := by simpa using hd
      decide

theorem stands_of_continuesName (h : continuesName c = true) : Stands c := by
  refine ⟨isBlank_of_continuesName h, ?_⟩
  rintro rfl
  exact absurd h (by decide)

theorem IsName.stands {d : Char} {more : List Char} (h : IsName (d :: more)) : Stands d := by
  obtain ⟨e, _, heq, hstart, -⟩ := h
  obtain ⟨rfl, -⟩ := List.cons.inj heq
  exact stands_of_continuesName (continuesName_of_startsName hstart)

/-- A name is taken whole where what follows does not go on with it. -/
theorem IsName.name?_append (h : IsName name)
    (hrest : ∀ c, rest.head? = some c → continuesName c = false) :
    name? (name ++ rest) = some (name, rest) := by
  obtain ⟨d, more, rfl, hstart, hmore⟩ := h
  obtain ⟨htake, hdrop⟩ := takeWhile_append_of_head? hmore hrest
  rw [List.cons_append, name?, if_pos hstart, htake, hdrop]

/-! ## Quoted texts -/

/-- What is written for a character is read as that character. -/
theorem stringBody?_of_mem_charWritings {written : List Char} (h : written ∈ charWritings c) :
    stringBody? (written ++ rest) =
      (stringBody? rest).map fun (body, rest) => (c :: body, rest) := by
  rcases h with ⟨rfl, hquote, hslash⟩ | ⟨rfl, hn, ht⟩ | ⟨rfl, rfl⟩ | ⟨rfl, rfl⟩
  · rw [List.singleton_append, stringBody?]
    · exact fun h => absurd h hquote
    · exact fun _ _ h => absurd h hslash
    · exact fun h => absurd h hslash
  · simp [stringBody?, hn, ht]
  · simp [stringBody?]
  · simp [stringBody?]

/-- A quoted text is read up to its closing quote. -/
theorem stringBody?_of_mem_prod {chars body : List Char}
    (h : body ∈ (chars.map charWritings).prod) :
    stringBody? (body ++ '"' :: rest) = some (chars, rest) := by
  induction chars generalizing body with
  | nil =>
    obtain rfl : body = [] := (Language.mem_one body).1 h
    simp [stringBody?]
  | cons c chars ih =>
    rw [List.map_cons, List.prod_cons] at h
    obtain ⟨u, hu, v, hv, rfl⟩ := Language.mem_mul.1 h
    rw [List.append_assoc, stringBody?_of_mem_charWritings hu, ih hv]
    rfl

/-! ## Terms -/

/-- A term that is neither a variable nor a text starts with no mark of them. -/
theorem term_of_stands (h : Stands c) (hvar : c ≠ '?') (htext : c ≠ '"') : term (c :: rest) =
      if Text.isDigit c || c == '-' then do
        let (x, rest) ← number (c :: rest)
        return (.const (.number x), rest)
      else
        match name? (c :: rest) with
        | some (word, rest) => .ok (.const (wordAtom word), rest)
        | none => fail .noTerm (c :: rest) := by
  rw [term, skip_of_stands h]
  split
  · next heq => simp at heq
  · next heq => exact absurd (List.cons.inj heq).1 hvar
  · next heq => exact absurd (List.cons.inj heq).1 htext
  · next heq =>
    obtain ⟨rfl, rfl⟩ := List.cons.inj heq
    rfl

theorem continuesName_of_isDigit (h : Text.isDigit c = true) : continuesName c = true := by
  have hascii : c.toNat < 128 := by
    have hbounds : 48 ≤ c.toNat ∧ c.toNat ≤ 57 := by
      simpa [Text.isDigit, Char.le_def, UInt32.le_iff_toNat_le] using h
    omega
  simp [continuesName, Text.isAlphanumeric, Text.isNumeric, hascii, h]

/-- A numeral starts with a character that is not skipped and marks no other term. -/
theorem exists_numeral_eq (n : Number.Numeral) : ∃ c more, n.text = c :: more ∧ Stands c ∧
    c ≠ '?' ∧ c ≠ '"' ∧ c ≠ ')' ∧ (Text.isDigit c || c == '-') = true := by
  obtain ⟨c, more, hc, hfirst⟩ := n.exists_text_eq
  refine ⟨c, more, hc, ?_⟩
  rcases hfirst with hdigit | ⟨rfl, -⟩
  · have hne : ∀ d : Char, Text.isDigit d = false → c ≠ d := by
      rintro d hd rfl
      exact absurd (hdigit.symm.trans hd) (by decide)
    exact ⟨stands_of_continuesName (continuesName_of_isDigit hdigit), hne _ (by decide),
      hne _ (by decide), hne _ (by decide), by rw [hdigit, Bool.true_or]⟩
  · exact ⟨⟨by decide, by decide⟩, by decide, by decide, by decide, by decide⟩

/-- Digits and a point would belong to a numeral, but neither ends a term. -/
theorem EndsTerm.ends (h : EndsTerm rest) (n : Number.Numeral) : n.Ends rest := by
  constructor
  · intro d hd
    rw [← Bool.not_eq_true]
    intro hdigit
    have hname := (h d hd).1
    rw [continuesName_of_isDigit hdigit] at hname
    exact Bool.noConfusion hname
  · rintro - d more rfl
    exact absurd rfl (h '.' rfl).2

theorem term_number {n : Number.Numeral} {x : Float} (hx : Number.parse? n.text = some x)
    (hrest : n.Ends rest) : term (n.text ++ rest) = .ok (.const (.number x), rest) := by
  have hread : number (n.text ++ rest) = .ok (x, rest) := by
    simp only [number, n.leadingNumeral_append hrest, hx, List.drop_left]
  obtain ⟨d, more, hd, hstands, hvar, htext, -, hnumber⟩ := exists_numeral_eq n
  rw [hd, List.cons_append] at hread ⊢
  rw [term_of_stands hstands hvar htext, if_pos hnumber, hread]
  rfl

/-- A word that is no text is read as what it stands for. -/
theorem term_word {word : List Char} {a : Atom} (hword : word = ['t', 'r', 'u', 'e'] ∨
      word = ['f', 'a', 'l', 's', 'e'] ∨ word = ['n', 'u', 'l', 'l'])
    (ha : wordAtom word = a) (hrest : EndsTerm rest) :
    term (word ++ rest) = .ok (.const a, rest) := by
  have hname : IsName word ∧ ∃ d more, word = d :: more ∧ Stands d ∧ d ≠ '?' ∧ d ≠ '"' ∧
      (Text.isDigit d || d == '-') = false := by
    rcases hword with rfl | rfl | rfl
    all_goals
      exact ⟨⟨_, _, rfl, by decide, List.all_eq_true.1 (by decide)⟩, _, _, rfl,
        ⟨by decide, by decide⟩, by decide, by decide, by decide⟩
  obtain ⟨hname, d, more, rfl, hstands, hvar, htext, hnumber⟩ := hname
  have hread : name? (d :: more ++ rest) = some (d :: more, rest) :=
    hname.name?_append fun c hc => (hrest c hc).1
  rw [List.cons_append] at hread ⊢
  rw [term_of_stands hstands hvar htext, if_neg (by simp [hnumber]), hread]
  simp only [ha]

theorem term_var {s : String} (h : IsName s.toList) (hrest : EndsTerm rest) :
    term ('?' :: (s.toList ++ rest)) = .ok (.var s, rest) := by
  have hname : variableName s = s := by
    rw [← String.toList_inj, ← String.ofList_toList (s := s), h.variableName, String.toList_ofList]
  rw [term, skip_of_stands ⟨by decide, by decide⟩]
  simp only [h.name?_append fun c hc => (hrest c hc).1, Term.ofName, String.ofList_toList, hname]

theorem term_text {s : String} {body : List Char} (h : body ∈ (s.toList.map charWritings).prod) :
    term ('"' :: (body ++ '"' :: rest)) = .ok (.const (.text s), rest) := by
  rw [term, skip_of_stands ⟨by decide, by decide⟩]
  simp only [stringBody?_of_mem_prod h, String.ofList_toList]

/-- A term is read, whichever way it is written. -/
theorem term_of_mem_writings {t : Term} (h : t.IsRead) (ht : text ∈ t.writings)
    (hrest : EndsTerm rest) : term (text ++ rest) = .ok (t, rest) := by
  cases t with
  | var s =>
    obtain rfl : text = '?' :: s.toList := ht
    exact term_var h hrest
  | const a =>
    cases a with
    | null =>
      obtain rfl := mem_exactly.1 ht
      exact term_word (.inr (.inr rfl)) rfl hrest
    | bool b =>
      cases b
      · obtain rfl := mem_exactly.1 ht
        exact term_word (.inr (.inl rfl)) rfl hrest
      · obtain rfl := mem_exactly.1 ht
        exact term_word (.inl rfl) rfl hrest
    | number x =>
      obtain ⟨⟨n, rfl⟩, hx⟩ := ht
      exact term_number hx (hrest.ends n)
    | timestamp t => exact absurd h id
    | text s =>
      obtain ⟨_, rfl, _, hquoted, rfl⟩ := Language.mem_mul.1 ht
      obtain ⟨body, hbody, _, rfl, rfl⟩ := Language.mem_mul.1 hquoted
      have hread : term ('"' :: (body ++ '"' :: rest)) = .ok (.const (.text s), rest) :=
        term_text hbody
      simpa using hread

/-- A term starts with a character that is neither skipped nor closes a literal. -/
theorem exists_term_eq {t : Term} (ht : text ∈ t.writings) :
    ∃ c more, text = c :: more ∧ Stands c ∧ c ≠ ')' := by
  cases t with
  | var s =>
    obtain rfl : text = '?' :: s.toList := ht
    exact ⟨_, _, rfl, ⟨by decide, by decide⟩, by decide⟩
  | const a =>
    cases a with
    | null =>
      obtain rfl := mem_exactly.1 ht
      exact ⟨_, _, rfl, ⟨by decide, by decide⟩, by decide⟩
    | bool b =>
      cases b <;> obtain rfl := mem_exactly.1 ht <;>
        exact ⟨_, _, rfl, ⟨by decide, by decide⟩, by decide⟩
    | number x =>
      obtain ⟨⟨n, rfl⟩, -⟩ := ht
      obtain ⟨c, more, hc, hstands, -, -, hclose, -⟩ := exists_numeral_eq n
      exact ⟨c, more, hc, hstands, hclose⟩
    | timestamp t => exact absurd ht (Language.notMem_zero text)
    | text s =>
      obtain ⟨_, rfl, _, -, rfl⟩ := Language.mem_mul.1 ht
      exact ⟨_, _, rfl, ⟨by decide, by decide⟩, by decide⟩

/-! ## Readers of texts -/

/-- Whether a reader reads a value from a text, with white space and comments in front or not, and
leaves what comes after it, where that may stand there. -/
def Reads (p : RuleReader α) (text : List Char) (a : α) (ends : List Char → Prop) : Prop :=
  ∀ gap ∈ gaps, ∀ rest, ends rest →
    ∃ rest', p (gap ++ (text ++ rest)) = .ok (a, rest') ∧ skip rest' = skip rest

theorem reads_term {t : Term} (h : t.IsRead) (ht : text ∈ t.writings) :
    Reads term text t EndsTerm := by
  intro gap hgap rest hrest
  have hskip : term (gap ++ (text ++ rest)) = term (text ++ rest) := by
    simp only [term, skip_append hgap]
  exact ⟨rest, hskip.trans (term_of_mem_writings h ht hrest), rfl⟩

/-! ## Lists -/

/-- A list is read where no separator follows. The number bounds the length of the elements. -/
theorem separated_of_mem {element : RuleReader α} {writings : α → Language Char} {separator : Char}
    {as : List α} {ends : List Char → Prop} {n bound : Nat} (hne : as ≠ [])
    (helement : ∀ a ∈ as, ∀ u ∈ writings a, u.length ≤ bound → Reads element u a ends)
    (hstands : Stands separator)
    (hseparator : ∀ gap ∈ gaps, ∀ more, ends (gap ++ separator :: more))
    (htext : text ∈ separatedBy separator (as.map writings)) (hbound : text.length ≤ bound)
    (hn : as.length ≤ n + 1) (hgap : gap ∈ gaps) (hrest : ends rest)
    (hstop : (skip rest).head? ≠ some separator) :
    separated element separator n (gap ++ (text ++ rest)) = .ok (as, skip rest) := by
  -- each element but the last is ended by the separator, and the last one by what follows
  induction as generalizing n gap text with
  | nil => exact absurd rfl hne
  | cons a as ih =>
    obtain ⟨hfirst, hothers⟩ := List.forall_mem_cons.1 helement
    cases as with
    | nil =>
      obtain ⟨rest', hread, hskip⟩ := hfirst text htext hbound gap hgap rest hrest
      cases n with
      | zero => simp [separated, hread, hskip, bind, Except.bind, pure, Except.pure]
      | succ n =>
        simp only [separated, hread, hskip, bind, Except.bind, pure, Except.pure]
        split
        · next heq => rw [heq]
        · next c more heq =>
          rw [heq, List.head?_cons, Ne, Option.some.injEq] at hstop
          rw [if_neg hstop, heq]
    | cons next as =>
      obtain ⟨u, hu, gap₁, hgap₁, gap₂, hgap₂, v, hv, rfl⟩ := mem_separatedBy_cons.1 htext
      simp only [List.length_append, List.length_cons] at hbound hn
      obtain ⟨n, rfl⟩ : ∃ m, n = m + 1 := ⟨n - 1, by omega⟩
      obtain ⟨rest', hread, hskip⟩ := hfirst u hu (by omega) gap hgap
        (gap₁ ++ separator :: (gap₂ ++ (v ++ rest))) (hseparator gap₁ hgap₁ _)
      rw [skip_append_of_stands hgap₁ hstands] at hskip
      have hmore := ih (List.cons_ne_nil _ _) hothers hv (by omega) (n := n)
        (by rw [List.length_cons]; omega) hgap₂
      have hassoc : u ++ (gap₁ ++ separator :: (gap₂ ++ v)) ++ rest =
          u ++ (gap₁ ++ separator :: (gap₂ ++ (v ++ rest))) := by simp
      rw [hassoc, separated, hread]
      simp [hskip, hmore, bind, Except.bind, pure, Except.pure]

/-- A list is read, where no separator follows. -/
theorem separated_eq_ok {element : RuleReader α} {writings : α → Language Char} {separator : Char}
    {as : List α} {ends : List Char → Prop} (hne : as ≠ [])
    (helement : ∀ a ∈ as, ∀ u ∈ writings a, u.length ≤ text.length → Reads element u a ends)
    (hstands : Stands separator)
    (hseparator : ∀ gap ∈ gaps, ∀ more, ends (gap ++ separator :: more))
    (htext : text ∈ separatedBy separator (as.map writings)) (hgap : gap ∈ gaps)
    (hrest : ends rest) (hstop : (skip rest).head? ≠ some separator) :
    separated element separator (gap ++ (text ++ rest)).length (gap ++ (text ++ rest)) =
      .ok (as, skip rest) := by
  have hlength := length_le_of_mem_separatedBy htext
  rw [List.length_map] at hlength
  refine separated_of_mem hne helement hstands hseparator htext le_rfl ?_ hgap hrest hstop
  simp only [List.length_append]
  omega

/-! ## Literals -/

/-- So does a list of terms. -/
theorem exists_terms_eq {t : Term} {ts : List Term}
    (htext : text ∈ separatedBy ',' ((t :: ts).map Term.writings)) :
    ∃ c more, text = c :: more ∧ Stands c ∧ c ≠ ')' := by
  cases ts with
  | nil => exact exists_term_eq htext
  | cons next ts =>
    obtain ⟨u, hu, gap, -, gap', -, v, -, rfl⟩ := mem_separatedBy_cons.1 htext
    obtain ⟨c, more, rfl, hstands, hclose⟩ := exists_term_eq hu
    exact ⟨c, _, rfl, hstands, hclose⟩

/-- Terms are read, whichever way they are written. -/
theorem terms_of_mem_writings {ts : List Term} (h : ∀ t ∈ ts, t.IsRead)
    (htext : text ∈ enclosed (separatedBy ',' (ts.map Term.writings))) (hgap : gap ∈ gaps)
    (rest : List Char) : terms (gap ++ (text ++ rest)) = .ok (ts, rest) := by
  obtain ⟨gap₁, hgap₁, u, hu, gap₂, hgap₂, rfl⟩ := mem_enclosed.1 htext
  have hstands : Stands ')' := ⟨by decide, by decide⟩
  have hexpect : expect '(' (gap ++ ('(' :: (gap₁ ++ (u ++ (gap₂ ++ [')']))) ++ rest)) =
      .ok (gap₁ ++ (u ++ (gap₂ ++ ')' :: rest))) := by
    rw [List.cons_append, expect_append hgap ⟨by decide, by decide⟩]
    simp
  simp only [terms, hexpect, bind, Except.bind, skip_append hgap₁]
  cases ts with
  | nil =>
    obtain rfl : u = [] := (Language.mem_one u).1 hu
    rw [List.nil_append, skip_append_of_stands hgap₂ hstands]
    rfl
  | cons t ts =>
    have hskip : skip (gap₂ ++ ')' :: rest) = ')' :: rest := skip_append_of_stands hgap₂ hstands
    have hends : EndsTerm (gap₂ ++ ')' :: rest) :=
      endsTerm_append hgap₂ (by decide) (by decide)
    have hlist := separated_eq_ok (List.cons_ne_nil t ts)
      (fun t ht u hu _ => reads_term (h t ht) hu) ⟨by decide, by decide⟩
      (fun gap hgap more => endsTerm_append hgap (by decide) (by decide)) hu nil_mem_gaps hends
      (by simp [hskip])
    obtain ⟨c, more, rfl, hc, hclose⟩ := exists_terms_eq hu
    rw [List.nil_append, hskip, List.cons_append] at hlist
    rw [List.cons_append, skip_of_stands hc]
    split
    · next heq => exact absurd (List.cons.inj heq).1 hclose
    · simp only [hlist, pure, Except.pure]

/-- A literal is read, whichever way it is written. -/
theorem literal_of_mem_writings {l : Literal} (h : l.IsRead) (htext : text ∈ l.writings)
    (hgap : gap ∈ gaps) (rest : List Char) : literal (gap ++ (text ++ rest)) = .ok (l, rest) := by
  obtain ⟨gap', hgap', args, hargs, rfl⟩ := mem_applied.1 htext
  have hname := h.isExpressible_predicate.isName_word
  have hterms := terms_of_mem_writings h.terms hargs hgap' rest
  have hread : name? (l.predicate.word.toList ++ (gap' ++ (args ++ rest))) =
      some (l.predicate.word.toList, gap' ++ (args ++ rest)) := by
    obtain ⟨_, _, _, _, _, _, rfl⟩ := mem_enclosed.1 hargs
    exact hname.name?_append fun c hc =>
      (endsTerm_append hgap' (c := '(') (by decide) (by decide) c hc).1
  have hskip : skip (gap ++ (l.predicate.word.toList ++ (gap' ++ args) ++ rest)) =
      l.predicate.word.toList ++ (gap' ++ (args ++ rest)) := by
    obtain ⟨c, more, hc⟩ : ∃ c more, l.predicate.word.toList = c :: more :=
      hname.imp fun c h => h.imp fun more h => h.1
    rw [hc] at hname ⊢
    rw [skip_append hgap, List.cons_append, List.cons_append, skip_of_stands hname.stands]
    simp
  rw [literal, hskip, hread]
  simp only [hterms, Literal.named, String.ofList_toList, h.isExpressible_predicate.ofName_word,
    bind, Except.bind, pure, Except.pure]

/-! ## Goals -/

section Goals

variable {n : Nat} {inner : List Char}

theorem goal_of_open (hgap : gap ∈ gaps) : goal (n + 1) (gap ++ '(' :: inner) = (do
    let (branches, rest) ← separated (fun t => separated (goal n) ',' t.length t) ';' inner.length
      inner
    let rest ← expect ')' rest
    return (choice branches, rest)) := by
  rw [goal]
  simp only [skip_append_of_stands hgap (⟨by decide, by decide⟩ : Stands '(')]

/-- A name with a parenthesis after it is that of a literal, or `not`. -/
theorem goal_of_name {gap' : List Char} (hgap : gap ∈ gaps) (hname : IsName name)
    (hgap' : gap' ∈ gaps) : goal (n + 1) (gap ++ (name ++ (gap' ++ '(' :: inner))) =
      if name = ['n', 'o', 't'] then do
        let (g, rest) ← goal n inner
        let rest ← expect ')' rest
        return (.not g, rest)
      else do
        let (ts, rest) ← terms ('(' :: inner)
        return (.literal (.named (String.ofList name) ts), rest) := by
  have hread : name? (name ++ (gap' ++ '(' :: inner)) = some (name, gap' ++ '(' :: inner) :=
    hname.name?_append fun c hc => (endsTerm_append hgap' (by decide) (by decide) c hc).1
  obtain ⟨c, more, rfl, hstart, -⟩ := id hname
  have hopen : c ≠ '(' := by
    rintro rfl
    exact absurd hstart (by decide)
  rw [goal, skip_append hgap]
  rw [List.cons_append] at hread ⊢
  dsimp only
  rw [skip_of_stands hname.stands]
  split
  · next heq => exact absurd (List.cons.inj heq).1 hopen
  · rw [hread]
    simp only [skip_append_of_stands hgap' (⟨by decide, by decide⟩ : Stands '(')]

end Goals

/-- Whether a goal is read, whichever way it is written. The length of the text bounds how deep
goals are nested. -/
def IsReadBack (g : Goal) : Prop :=
  ∀ text ∈ g.writings, ∀ n ≥ text.length, Reads (goal n) text g fun _ => True

theorem isReadBack_literal {l : Literal} (h : l.IsRead) (hnot : l.predicate.name ≠ "not") :
    IsReadBack (.literal l) := by
  intro text htext n hn gap hgap rest _
  obtain ⟨gap', hgap', args, hargs, rfl⟩ := mem_applied.1 htext
  obtain ⟨gap₁, hgap₁, u, hu, gap₂, hgap₂, rfl⟩ := mem_enclosed.1 hargs
  have hname := h.isExpressible_predicate.isName_word
  have hterms := terms_of_mem_writings h.terms hargs nil_mem_gaps rest
  have hnot' : l.predicate.word.toList ≠ ['n', 'o', 't'] := by
    intro heq
    have hpredicate := h.isExpressible_predicate.ofName_word
    rw [show l.predicate.word = "not" from String.toList_inj.1 heq] at hpredicate
    rw [← hpredicate] at hnot
    exact hnot rfl
  obtain ⟨n, rfl⟩ : ∃ m, n = m + 1 := ⟨n - 1, by simp at hn; omega⟩
  refine ⟨rest, ?_, rfl⟩
  rw [List.nil_append, List.cons_append] at hterms
  rw [List.append_assoc, List.append_assoc, List.cons_append, goal_of_name hgap hname hgap',
    if_neg hnot', hterms]
  simp only [Literal.named, String.ofList_toList, h.isExpressible_predicate.ofName_word, bind,
    Except.bind, pure, Except.pure]

theorem isReadBack_not {g : Goal} (h : IsReadBack g) : IsReadBack (.not g) := by
  intro text htext n hn gap hgap rest _
  obtain ⟨gap', hgap', args, hargs, rfl⟩ := mem_applied.1 htext
  obtain ⟨gap₁, hgap₁, u, hu, gap₂, hgap₂, rfl⟩ := mem_enclosed.1 hargs
  have hname : IsName ['n', 'o', 't'] :=
    ⟨'n', ['o', 't'], rfl, by decide, List.all_eq_true.1 (by decide)⟩
  simp only [List.length_append, List.length_cons] at hn
  obtain ⟨n, rfl⟩ : ∃ m, n = m + 1 := ⟨n - 1, by omega⟩
  obtain ⟨rest', hread, hskip⟩ := h u hu n (by omega) gap₁ hgap₁ (gap₂ ++ ')' :: rest) trivial
  have hstands : Stands ')' := ⟨by decide, by decide⟩
  have hexpect : expect ')' rest' = .ok rest := by
    rw [expect, hskip, skip_append_of_stands hgap₂ hstands]
    rfl
  refine ⟨rest, ?_, rfl⟩
  have hassoc : ['n', 'o', 't'] ++ (gap' ++ '(' :: (gap₁ ++ (u ++ (gap₂ ++ [')'])))) ++ rest =
      ['n', 'o', 't'] ++ (gap' ++ '(' :: (gap₁ ++ (u ++ (gap₂ ++ ')' :: rest)))) := by simp
  rw [hassoc, goal_of_name hgap hname hgap', if_pos rfl, hread]
  simp only [hexpect, bind, Except.bind, pure, Except.pure]

/-- Goals are read, whichever way they are written with commas between them, where none follows. -/
theorem conjunction_of_mem_writings {goals : List Goal} (hne : goals ≠ [])
    (h : ∀ g ∈ goals, IsReadBack g) (htext : text ∈ Goal.conjunctionWritings goals) {n : Nat}
    (hn : text.length ≤ n) (hgap : gap ∈ gaps) (hstop : (skip rest).head? ≠ some ',') :
    separated (goal n) ',' (gap ++ (text ++ rest)).length (gap ++ (text ++ rest)) =
      .ok (goals, skip rest) :=
  separated_eq_ok hne (fun g hg u hu hlength => h g hg u hu n (hlength.trans hn))
    ⟨by decide, by decide⟩ (fun _ _ _ => trivial) htext hgap trivial hstop

/-- A choice of several goals is none of a single one. -/
theorem choice_eq {branches : List (List Goal)} (h : ∀ g, branches ≠ [[g]]) :
    choice branches = .anyOf branches := by
  unfold choice
  split
  · next g => exact absurd rfl (h g)
  · rfl

theorem isReadBack_anyOf {branches : List (List Goal)} (hne : branches ≠ [])
    (hsingle : ∀ g, branches ≠ [[g]]) (hbranch : ∀ branch ∈ branches, branch ≠ [])
    (h : ∀ branch ∈ branches, ∀ g ∈ branch, IsReadBack g) : IsReadBack (.anyOf branches) := by
  intro text htext n hn gap hgap rest _
  rw [Goal.writings, Goal.writingsOfBranches_eq] at htext
  obtain ⟨gap₁, hgap₁, u, hu, gap₂, hgap₂, rfl⟩ := mem_enclosed.1 htext
  simp only [List.length_append, List.length_cons] at hn
  obtain ⟨n, rfl⟩ : ∃ m, n = m + 1 := ⟨n - 1, by omega⟩
  have hstands : Stands ')' := ⟨by decide, by decide⟩
  have hsemicolon : Stands ';' := ⟨by decide, by decide⟩
  have hskip : skip (gap₂ ++ ')' :: rest) = ')' :: rest := skip_append_of_stands hgap₂ hstands
  -- a branch ends where no comma follows: at a semicolon, or at the parenthesis
  have hconjunction : ∀ branch ∈ branches, ∀ v ∈ Goal.conjunctionWritings branch,
      v.length ≤ u.length → Reads (fun text => separated (goal n) ',' text.length text) v branch
        fun rest => (skip rest).head? ≠ some ',' :=
    fun branch hmem v hv hlength gap hgap rest hrest => ⟨skip rest,
      conjunction_of_mem_writings (hbranch branch hmem) (h branch hmem) hv (by omega) hgap hrest,
      skip_skipFrom false rest⟩
  have hcomma : (skip (gap₂ ++ ')' :: rest)).head? ≠ some ',' := by simp [hskip]
  have hlist := separated_eq_ok hne hconjunction hsemicolon
    (fun gap hgap more => by simp [skip_append_of_stands hgap hsemicolon]) hu hgap₁ hcomma
    (by simp [hskip])
  have hassoc : '(' :: (gap₁ ++ (u ++ (gap₂ ++ [')']))) ++ rest =
      '(' :: (gap₁ ++ (u ++ (gap₂ ++ ')' :: rest))) := by simp
  have hexpect : expect ')' (')' :: rest) = .ok rest := expect_append nil_mem_gaps hstands
  refine ⟨rest, ?_, rfl⟩
  rw [hassoc, goal_of_open hgap, hlist]
  simp only [hskip, hexpect, choice_eq hsingle, bind, Except.bind, pure, Except.pure]

/-- A goal is read, whichever way it is written. -/
theorem isReadBack_of_isRead {g : Goal} (h : g.IsRead) : IsReadBack g := by
  induction h with
  | literal h hnot => exact isReadBack_literal h hnot
  | not h ih => exact isReadBack_not ih
  | anyOf hne hsingle hbranch h ih => exact isReadBack_anyOf hne hsingle hbranch ih

/-! ## Rules -/

/-- A rule is read, whichever way it is written. -/
theorem rule_of_mem_writings {r : Rule} (h : r.IsRead) (htext : text ∈ r.writings)
    (hgap : gap ∈ gaps) (rest : List Char) : rule (gap ++ (text ++ rest)) = .ok (r, rest) := by
  obtain ⟨head, hhead, body, hbody, gap', hgap', rfl⟩ := Rule.mem_writings.1 htext
  have hstands : Stands '.' := ⟨by decide, by decide⟩
  have hread := literal_of_mem_writings h.head hhead hgap (body ++ (gap' ++ '.' :: rest))
  have hassoc : gap ++ (head ++ (body ++ (gap' ++ ['.'])) ++ rest) =
      gap ++ (head ++ (body ++ (gap' ++ '.' :: rest))) := by simp
  have hskip : skip (gap' ++ '.' :: rest) = '.' :: rest := skip_append_of_stands hgap' hstands
  have hexpect : expect '.' ('.' :: rest) = .ok rest := expect_append nil_mem_gaps hstands
  obtain ⟨l, goals⟩ := r
  rw [hassoc, rule, hread]
  cases goals with
  | nil =>
    obtain rfl : body = [] := (Language.mem_one body).1 hbody
    simp [hskip, hexpect, bind, Except.bind, pure, Except.pure]
  | cons g goals =>
    obtain ⟨gap₁, hgap₁, gap₂, hgap₂, u, hu, rfl⟩ := Rule.mem_bodyWritings_cons.1 hbody
    -- the body ends at the point, for that is no comma
    have hgoals : RuleReader.goals (gap₂ ++ (u ++ (gap' ++ '.' :: rest))) =
        .ok (g :: goals, '.' :: rest) := by
      rw [RuleReader.goals, conjunction_of_mem_writings (List.cons_ne_nil g goals)
        (fun g hg => isReadBack_of_isRead (h.body g hg)) hu ?_ hgap₂ (by simp [hskip]),
        hskip]
      simp only [List.length_append]
      omega
    have hskip' : skip (gap₁ ++ ':' :: '-' :: (gap₂ ++ u) ++ (gap' ++ '.' :: rest)) =
        ':' :: '-' :: (gap₂ ++ (u ++ (gap' ++ '.' :: rest))) := by
      rw [List.append_assoc, List.cons_append, skip_append_of_stands hgap₁ ⟨by decide, by decide⟩]
      simp
    simp only [hskip', hgoals, hexpect, bind, Except.bind, pure, Except.pure]

/-- Each rule is a character at least. -/
theorem length_le_of_mem_programWritings {rs : List Rule} (htext : text ∈ Rule.programWritings rs) :
    rs.length ≤ text.length := by
  induction rs generalizing text with
  | nil => exact Nat.zero_le _
  | cons r rs ih =>
    obtain ⟨gap, -, _, hmore, rfl⟩ := Language.mem_mul.1 htext
    obtain ⟨u, hu, v, hv, rfl⟩ := Language.mem_mul.1 hmore
    obtain ⟨head, -, body, -, gap', -, rfl⟩ := Rule.mem_writings.1 hu
    have hle := ih hv
    simp only [List.length_append, List.length_cons]
    omega

/-- Rules are read one after the other. -/
theorem rules_of_mem_programWritings {rs : List Rule} (h : ∀ r ∈ rs, r.IsRead)
    (htext : text ∈ Rule.programWritings rs) {n : Nat} (hn : rs.length ≤ n) :
    rules n text = .ok rs := by
  induction rs generalizing text n with
  | nil =>
    have hskip : skip text = [] := by
      rw [← List.append_nil text, skip_append htext]
      rfl
    cases n <;> simp [rules, finish, hskip]
  | cons r rs ih =>
    obtain ⟨hr, hrs⟩ := List.forall_mem_cons.1 h
    obtain ⟨gap, hgap, _, hmore, rfl⟩ := Language.mem_mul.1 htext
    obtain ⟨u, hu, v, hv, rfl⟩ := Language.mem_mul.1 hmore
    obtain ⟨n, rfl⟩ : ∃ m, n = m + 1 := ⟨n - 1, by simp at hn; omega⟩
    have hothers := ih hrs hv (n := n) (by simpa using hn)
    have hread := rule_of_mem_writings hr hu nil_mem_gaps v
    have hstart : ∃ c more, u = c :: more ∧ Stands c := by
      obtain ⟨head, hhead, body, -, gap', -, rfl⟩ := Rule.mem_writings.1 hu
      obtain ⟨_, _, args, _, rfl⟩ := mem_applied.1 hhead
      have hname := hr.head.isExpressible_predicate.isName_word
      obtain ⟨c, more, hc, -⟩ := id hname
      rw [hc] at hname ⊢
      exact ⟨c, _, rfl, hname.stands⟩
    obtain ⟨c, more, rfl, hc⟩ := hstart
    rw [List.nil_append, List.cons_append] at hread
    rw [rules, skip_append hgap, List.cons_append, skip_of_stands hc]
    simp only [hread, hothers, bind, Except.bind, pure, Except.pure]

end RuleReader

namespace Rule

open RuleReader

/-- A rule that is expressible can be written, whichever way it is written it is read back, and so
are such rules that are written one after the other. -/
theorem parse_writings {rs : List Rule} (h : ∀ r ∈ rs, r.IsExpressible) :
    (∀ r ∈ rs, (∃ text : String, text.toList ∈ r.writings) ∧
      ∀ text : String, text.toList ∈ r.writings → Rule.parse text = .ok r) ∧
    ∀ text : String, text.toList ∈ programWritings rs → Rule.parseAll text = .ok rs := by
  refine ⟨fun r hr => ⟨?_, fun text htext => ?_⟩, fun text htext => ?_⟩
  · obtain ⟨chars, hchars⟩ := exists_writing (h r hr)
    exact ⟨String.ofList chars, by rwa [String.toList_ofList]⟩
  · have hread := rule_of_mem_writings (h r hr).isRead htext nil_mem_gaps []
    rw [List.append_nil, List.nil_append] at hread
    simp [parse, hread, bind, Except.bind, finish, skip, skipFrom, located]
  · have hread := rules_of_mem_programWritings (fun r hr => (h r hr).isRead) htext
      (length_le_of_mem_programWritings htext)
    simp only [parseAll, hread, located]

/-- What is not past a text. -/
def early : Rule where
  head := ⟨.derived "early", [.var "x"]⟩
  body := [.not (.literal ⟨.compare .gt, [.var "x", .const (.text "a\"")]⟩)]

/-- That rule with a comment in front. -/
def earlyText : String := "% by name\nearly(?x) :- not(gt(?x, \"a\\\"\"))."

theorem isExpressible_early : early.IsExpressible := by
  have hx : (Term.var "x").IsExpressible := show IsName "x".toList by decide
  have hearly : (Predicate.derived "early").IsExpressible := ⟨by decide, rfl⟩
  refine ⟨⟨hearly, List.forall_mem_singleton.2 hx⟩, List.forall_mem_singleton.2 ?_⟩
  exact .not (.literal ⟨trivial, List.forall_mem_cons.2 ⟨hx, List.forall_mem_singleton.2 trivial⟩⟩
    (by decide))

theorem earlyText_mem_programWritings :
    (earlyText ++ earlyText).toList ∈ programWritings [early, early] := by
  have hx : ['?', 'x'] ∈ (Term.var "x").writings := by simp [Term.writings, mem_exactly]
  have hchars : ['a', '\\', '"'] ∈ ("a\"".toList.map charWritings).prod := by
    have ha : ['a'] ∈ charWritings 'a' := .inl ⟨rfl, by decide, by decide⟩
    have hquote : ['\\', '"'] ∈ charWritings '"' := .inr (.inl ⟨rfl, by decide, by decide⟩)
    simpa using Language.append_mem_mul ha hquote
  have htext : ['"', 'a', '\\', '"', '"'] ∈ (Term.const (.text "a\"")).writings :=
    Language.append_mem_mul (mem_exactly.2 rfl) (Language.append_mem_mul hchars (mem_exactly.2 rfl))
  have hhead : "early".toList ++ '(' :: (['?', 'x'] ++ [')']) ∈ early.head.writings :=
    mem_applied_of_mem _ hx
  have hargs : ['?', 'x'] ++ ',' :: ' ' :: ['"', 'a', '\\', '"', '"'] ∈
      separatedBy ',' [(Term.var "x").writings, (Term.const (.text "a\"")).writings] :=
    append_mem_separatedBy hx htext
  have hbody := mem_applied_of_mem ['n', 'o', 't'] (mem_applied_of_mem "gt".toList hargs)
  have hgap : "% by name\n".toList ∈ gaps := Language.mem_kstar.2 ⟨["% by name\n".toList], by simp,
    List.forall_mem_singleton.2 (.inr ⟨" by name".toList, by decide, by decide⟩)⟩
  have hrule := (mem_writings (r := early)).2 ⟨_, hhead, _, mem_bodyWritings_cons.2
    ⟨_, blank_mem_gaps, _, blank_mem_gaps, _, hbody, rfl⟩, [], nil_mem_gaps, rfl⟩
  have hprogram : _ ∈ programWritings [early, early] :=
    Language.append_mem_mul hgap (Language.append_mem_mul hrule
      (Language.append_mem_mul hgap (Language.append_mem_mul hrule nil_mem_gaps)))
  convert hprogram using 1
  decide

/-- The rule is written, and where it is written twice it is read twice. -/
theorem parse_writings_early : (∃ text : String, Rule.parse text = .ok early) ∧
    Rule.parseAll (earlyText ++ earlyText) = .ok [early, early] := by
  have hrules : ∀ r ∈ [early, early], r.IsExpressible :=
    List.forall_mem_cons.2 ⟨isExpressible_early, List.forall_mem_singleton.2 isExpressible_early⟩
  obtain ⟨hone, hall⟩ := parse_writings hrules
  obtain ⟨⟨text, htext⟩, hread⟩ := hone early List.mem_cons_self
  exact ⟨⟨text, hread text htext⟩, hall _ earlyText_mem_programWritings⟩

end Rule

end Factbase
