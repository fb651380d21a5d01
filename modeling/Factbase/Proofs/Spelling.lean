import Factbase.Proofs.Alternatives
import Factbase.Proofs.QueryWriting
import Factbase.Proofs.StringLiterals
import Factbase.Proofs.TokenPlaces

/-! # Spelling queries

A text spells a language of tokens (`Find.Spells`) if it is divided into the tokens of a word of it,
whatever follows that may stand there. Longest-match tokens are told from what follows, so the
condition on this is part of the statement, and texts one after the other spell the product of their
languages.

Queries for the entities of a type that meet a clause are so spelled out of the spelling of the
clause, and are read back (`Find.Query.parse_textOf`). -/

namespace Factbase.Find

open RuleReader (IsName startsName)
open Writing (single word name)

/-- The pieces of a text are determined by it. -/
theorem Pieces.eq {place : Place} {text : List Char} {pieces pieces' : List Segment}
    (h : Pieces place text pieces) (h' : Pieces place text pieces') : pieces = pieces' := by
  induction h generalizing pieces' with
  | nil => cases h' with | nil => rfl
  | cons _ ih => cases h' with | cons h' => rw [ih h']

/-- A text spells a language: from any place on, in front of what may follow, it is divided into
white space and the tokens of a word of the language. -/
def Spells (text : List Char) (l : Language Token) (ends : List Char → Prop) : Prop :=
  ∀ place rest, ends rest → ∃ pieces, pieces.filterMap Segment.token? ∈ l ∧
    pieces.filterMap Segment.error? = [] ∧
      ∀ more, Pieces (place.advance text) rest more → Pieces place (text ++ rest) (pieces ++ more)

section Spelling

variable {text text' chars rest : List Char} {c : Char} {l l' : Language Token} {k : TokenKind}
  {ends ends' : List Char → Prop}

theorem Spells.mono (h : Spells text l ends) (hends : ∀ rest, ends' rest → ends rest) :
    Spells text l ends' := fun place rest hrest => h place rest (hends rest hrest)

/-- Texts one after the other spell one language after the other. -/
theorem Spells.append (h : Spells text l ends) (h' : Spells text' l' ends')
    (hends : ∀ rest, ends' rest → ends (text' ++ rest)) :
    Spells (text ++ text') (l * l') ends' := by
  intro place rest hrest
  obtain ⟨pieces, hl, herrors, hpieces⟩ := h place (text' ++ rest) (hends rest hrest)
  obtain ⟨pieces', hl', herrors', hpieces'⟩ := h' (place.advance text) rest hrest
  refine ⟨pieces ++ pieces', ?_, ?_, fun more hmore => ?_⟩
  · rw [List.filterMap_append]
    exact Language.append_mem_mul hl hl'
  · rw [List.filterMap_append, herrors, herrors', List.append_nil]
  · rw [Place.advance_append] at hmore
    rw [List.append_assoc, List.append_assoc]
    exact hpieces _ (hpieces' more hmore)

/-- A single piece. -/
theorem Pieces.piece {place : Place} {lexeme : Lexeme} {more : List Segment}
    (h : Lexeme.ofChars c (chars ++ rest) = (lexeme, chars.length))
    (hmore : Pieces (place.advance (c :: chars)) rest more) :
    Pieces place (c :: chars ++ rest) (⟨lexeme, c :: chars, place⟩ :: more) := by
  have hrest : Pieces (place.advance (c :: (chars ++ rest).take (Lexeme.ofChars c (chars ++ rest)).2))
      ((chars ++ rest).drop (Lexeme.ofChars c (chars ++ rest)).2) more := by
    rwa [h, List.take_left, List.drop_left]
  have hcons := Pieces.cons hrest
  rwa [h, List.take_left] at hcons

/-- A token spells a language with this token. -/
theorem spells_token
    (h : ∀ rest, ends rest → Lexeme.ofChars c (chars ++ rest) = (.token k, chars.length))
    (hl : ∀ place, [⟨k, c :: chars, place⟩] ∈ l) : Spells (c :: chars) l ends := by
  intro place rest hrest
  exact ⟨[⟨.token k, c :: chars, place⟩], hl place, rfl, fun _ => Pieces.piece (h rest hrest)⟩

/-- White space in front does not count. -/
theorem Spells.blank (h : Spells text l ends) : Spells (' ' :: text) l ends := by
  intro place rest hrest
  obtain ⟨pieces, hl, herrors, hpieces⟩ := h (place.advance [' ']) rest hrest
  refine ⟨⟨.skipped, [' '], place⟩ :: pieces, hl, herrors, fun more hmore => ?_⟩
  have hskipped : Lexeme.ofChars ' ' ([] ++ (text ++ rest)) = (.skipped, 0) := rfl
  exact Pieces.piece hskipped (hpieces more hmore)

/-- A text that spells a language has the tokens of a word of it, and no errors. -/
theorem tokenize_of_spells {text : String} (h : Spells text.toList l ends) (hends : ends []) :
    ∃ tokens ∈ l * single .finish, tokenize text = (tokens, []) := by
  obtain ⟨pieces, hl, herrors, hpieces⟩ := h .start [] hends
  replace hpieces := hpieces [] (.nil _)
  rw [List.append_nil, List.append_nil] at hpieces
  refine ⟨_, Language.append_mem_mul hl
    ⟨.finish (Place.start.advance text.toList), rfl, rfl⟩, ?_⟩
  rw [tokenize, (pieces_segments text.toList).eq hpieces, herrors]

/-! ### Words -/

/-- A text does not go on with a word. -/
def EndsWord (rest : List Char) : Prop := ∀ c, rest.head? = some c → Lexeme.continuesWord c = false

theorem endsWord_nil : EndsWord [] := by simp [EndsWord]

theorem endsWord_cons (h : Lexeme.continuesWord c = false) : EndsWord (c :: rest) := by
  simpa [EndsWord] using h

/-- What starts a name is no digit. -/
theorem isDigit_of_startsName (h : startsName c = true) : Text.isDigit c = false := by
  rw [← Bool.not_eq_true]
  intro hdigit
  have hbounds : 48 ≤ c.toNat ∧ c.toNat ≤ 57 := by
    simpa [Text.isDigit, Char.le_def, UInt32.le_iff_toNat_le] using hdigit
  have hletter : Text.isLetter c = false := by
    simp [Text.isLetter, Char.le_def, UInt32.le_iff_toNat_le]
    omega
  rw [startsName, Text.isAlphabetic, if_pos (by omega), hletter, Bool.false_or, beq_iff_eq] at h
  rw [h] at hdigit
  exact absurd hdigit (by decide)

/-- A name is a word of its own, reserved or not. -/
theorem Lexeme.ofChars_name (h : IsName (c :: chars)) (hrest : EndsWord rest) :
    ofChars c (chars ++ rest) =
      (.token (match Keyword.ofWord? (c :: chars) with
        | some word => .keyword word
        | none => .ident (String.ofList (c :: chars))), chars.length) := by
  obtain ⟨_, _, heq, hstart, hmore⟩ := h
  obtain ⟨rfl, rfl⟩ := List.cons.inj heq
  have hne : ∀ d : Char, startsName d = false → c ≠ d := by
    rintro d hd rfl
    exact Bool.false_ne_true (hd.symm.trans hstart)
  have hblank : Text.isBlank c = false :=
    RuleReader.isBlank_of_continuesName (RuleReader.continuesName_of_startsName hstart)
  have hword : (Text.isAlphabetic c || decide (c = '_')) = true := by
    simpa [startsName] using hstart
  have htake : (chars ++ rest).takeWhile continuesWord = chars :=
    (takeWhile_append_of_head? hmore hrest).1
  -- a name starts with no mark of the other kinds of pieces
  rw [ofChars, if_neg (by simp [hblank]), if_neg (by simp [hne '-' (by decide)]),
    if_neg (by simp [isDigit_of_startsName hstart, hne '-' (by decide)]),
    if_neg (hne '"' (by decide)), if_neg (hne '/' (by decide)), if_neg (hne '?' (by decide)),
    if_pos hword]
  cases hreserved : Keyword.ofWord? (c :: chars) <;> simp only [ofWord, htake, hreserved]

/-- A name is spelled by itself, also where it is a reserved word. -/
theorem spells_name {s : String} (h : IsName s.toList) : Spells s.toList (name s) EndsWord := by
  obtain ⟨c, chars, heq, -, -⟩ := id h
  have hs : String.ofList (c :: chars) = s := by rw [← heq, String.ofList_toList]
  rw [heq] at h ⊢
  refine spells_token (fun rest hrest => Lexeme.ofChars_name h hrest) fun place => ?_
  rw [name, Language.mem_add]
  cases hword : Keyword.ofWord? (c :: chars) with
  | none => exact .inl ⟨_, rfl, congrArg TokenKind.ident hs⟩
  | some w => exact .inr ⟨_, w, rfl, rfl, hs⟩

/-- A reserved word is spelled in upper case. -/
theorem spells_keyword (w : Keyword) : Spells w.name.toList (word w) EndsWord := by
  obtain ⟨c, chars, heq, hname, hword⟩ : ∃ c chars, w.name.toList = c :: chars ∧
      IsName (c :: chars) ∧ Keyword.ofWord? (c :: chars) = some w := by
    cases w <;> exact ⟨_, _, rfl, ⟨_, _, rfl, by decide, List.all_eq_true.1 (by decide)⟩, by decide⟩
  rw [heq]
  refine spells_token (k := .keyword w) (fun rest hrest => ?_) fun _ => ⟨_, rfl, rfl⟩
  rw [Lexeme.ofChars_name hname hrest, hword]

/-- A variable is spelled after a question mark. -/
theorem spells_var {var : String} (hne : var ≠ "") (h : IsWord var) :
    Spells ('?' :: var.toList) (single (.var var)) EndsWord := by
  refine spells_token (fun rest hrest => ?_) fun _ => ⟨_, rfl, rfl⟩
  have htake : (var.toList ++ rest).takeWhile Lexeme.continuesWord = var.toList :=
    (takeWhile_append_of_head? h hrest).1
  have hvar : Lexeme.ofChars '?' (var.toList ++ rest) = Lexeme.ofVariable (var.toList ++ rest) :=
    rfl
  rw [hvar, Lexeme.ofVariable, htake, if_neg (by simpa using hne), String.ofList_toList]

theorem spells_dot : Spells ['.'] (single .dot) fun _ => True :=
  spells_token (fun _ _ => rfl) fun _ => ⟨_, rfl, rfl⟩

/-- The literal of a text spells it. -/
theorem spells_literal (s : String) :
    Spells (Text.literal s).toList (single (.text s)) fun _ => True := by
  rw [Text.literal, String.toList_ofList]
  refine spells_token (fun rest _ => ?_) fun _ => ⟨_, rfl, rfl⟩
  have hstring : Lexeme.ofChars '"' (s.toList.flatMap Text.literalChar ++ '"' :: rest) =
      (.token (.text (String.ofList s.toList)), (s.toList.flatMap Text.literalChar).length + 1) :=
    Lexeme.ofChars_of_mem_prod (Text.flatMap_literalChar_mem s.toList)
      (Text.newline_not_mem_flatMap_literalChar s.toList)
  rw [String.ofList_toList] at hstring
  simpa using hstring

/-! ### Clauses -/

/-- Words stand apart. -/
theorem Spells.andWord (h : Spells text l EndsWord) (h' : Spells text' l' ends') :
    Spells (text ++ ' ' :: text') (l * l') ends' :=
  h.append h'.blank fun _ _ => endsWord_cons (by decide)

/-- A single equals sign is spelled in front of anything else. -/
theorem spells_equals :
    Spells ['='] (single (.operator .eq)) fun rest => rest.head? ≠ some '=' := by
  refine spells_token (fun rest hrest => ?_) fun _ => ⟨_, rfl, rfl⟩
  cases rest with
  | nil => rfl
  | cons c rest =>
    have hne : c ≠ '=' := by simpa using hrest
    have hsign : Lexeme.ofChars '=' (c :: rest) = Lexeme.ofSign '=' (c :: rest) := rfl
    rw [List.nil_append, hsign, Lexeme.ofSign]
    · rfl
    · exact fun _ heq => hne (List.cons.inj heq).1

variable {var attr : String}

/-- An attribute of a variable is spelled with a dot. -/
theorem spells_field (hne : var ≠ "") (hvar : IsWord var) (hattr : IsName attr.toList) :
    Spells (Field.display ⟨var, [attr]⟩).toList (Field.writings ⟨var, [attr]⟩) EndsWord := by
  have hpath := spells_dot.append (spells_name hattr) fun _ _ => trivial
  have hfield := (spells_var hne hvar).append hpath fun rest _ => endsWord_cons (by decide)
  simpa [Field.writings, Writing.afterEach, Field.toList_display, Field.attr?] using hfield

/-- A condition that an attribute has the value of a text. -/
theorem spells_equality (hne : var ≠ "") (hvar : IsWord var) (hattr : IsName attr.toList)
    (s : String) :
    Spells (Field.display ⟨var, [attr]⟩ ++ " = " ++ Text.literal s).toList
      (Condition.compare ⟨var, [attr]⟩ .eq (.text s)).writings fun _ => True := by
  have hvalue := spells_equals.append (spells_literal s).blank fun _ _ => by simp
  simpa [Condition.writings, Operand.writings] using (spells_field hne hvar hattr).andWord hvalue

/-- A condition that an attribute has one of the values that a text lists. -/
theorem spells_membership (hne : var ≠ "") (hvar : IsWord var) (hattr : IsName attr.toList)
    (s : String) :
    Spells (Field.display ⟨var, [attr]⟩ ++ " IN " ++ Text.literal s).toList
      (Condition.member ⟨var, [attr]⟩ (.text s)).writings fun _ => True := by
  have hvalue := (spells_keyword .IN).andWord (spells_literal s)
  simpa [Condition.writings, Operand.writings, Keyword.name] using
    (spells_field hne hvar hattr).andWord hvalue

/-- An alternative whose right side is a single condition. -/
theorem spells_either {left right : String} {c : Clause} {condition : Condition}
    (h : Spells left.toList c.writings EndsWord)
    (h' : Spells right.toList condition.writings EndsWord) :
    Spells (left ++ " OR " ++ right).toList (Clause.either c (.condition condition)).writings
      EndsWord := by
  simpa [Clause.writings, Clause.asRight, Keyword.name] using
    h.andWord ((spells_keyword .OR).andWord h')

end Spelling

/-! ## Queries for a clause -/

namespace Query

/-- The text of a query for the entities of a type that meet a clause. -/
def textOf (entityType var clause : String) : String :=
  "FIND " ++ entityType ++ " AS ?" ++ var ++ " WHERE " ++ clause ++ " RETURN ?" ++ var

/-- A query is read back where its clause is spelled out. -/
theorem parse_textOf {entityType var clause : String} {c : Clause}
    (htype : IsName entityType.toList) (hne : var ≠ "") (hvar : IsWord var)
    (hclause : Spells clause.toList c.writings EndsWord) (hoperands : c.HasOperands) :
    Query.parse (textOf entityType var clause) = .ok (.ofClause entityType var c) := by
  have hq : (Query.ofClause entityType var c).IsWritable := ⟨hoperands, by simp [ofClause]⟩
  have hvar' := spells_var hne hvar
  have hopening := (spells_keyword .FIND).andWord
    ((spells_name htype).andWord ((spells_keyword .AS).andWord hvar'))
  have hquery := hopening.andWord (((spells_keyword .WHERE).andWord hclause).andWord
    ((spells_keyword .RETURN).andWord hvar'))
  have hsentence : Spells (textOf entityType var clause).toList
      (Query.ofClause entityType var c).sentenceWritings EndsWord := by
    simpa [textOf, sentenceWritings, openingWritings, ofClause, returned?, Writing.optional,
      Writing.commaSeparated, Writing.afterEach, Field.writings, Keyword.name] using hquery
  obtain ⟨tokens, hmem, htokens⟩ := tokenize_of_spells hsentence endsWord_nil
  have hread : Query.ofTokens tokens = .ok (.ofClause entityType var c) :=
    ofTokens_of_mem_writings hq hmem
  simp only [Query.parse, htokens, hread, Except.mapError]

end Query

end Factbase.Find
