import Factbase.Find.Lexer
import Factbase.Proofs.RuleReading

/-! # String literals

Queries and rules write a text alike: between double quotes, each character as itself or after a
backslash (`RuleReader.charWritings`), and in a query on one line. A rule text is decoded while it
is read; in a query the end of the string is found first, and what stands before it is decoded then.
Both give back the text (`Find.Lexeme.ofChars_of_mem_prod`, `RuleReader.term_text`).

Every text can be written in this way, by escaping backslashes, quotes and line feeds only
(`Text.literal`), and is read back from that by both languages (`Text.reads_literal`). -/

namespace Factbase

open RuleReader (charWritings)

/-! ## Strings in queries -/

namespace Find.Lexeme

variable {c : Char} {written body chars rest : List Char}

/-- What is written for a character does not end a string. -/
theorem delimited?_of_mem_charWritings (h : written ∈ charWritings c) :
    delimited? '"' (written ++ rest) =
      (delimited? '"' rest).map fun (raw, rest) => (written ++ raw, rest) := by
  rcases h with ⟨rfl, hquote, hslash⟩ | ⟨rfl, -, -⟩ | ⟨rfl, -⟩ | ⟨rfl, -⟩
  · cases rest <;> simp [delimited?, hquote, hslash]
  · simp [delimited?]
  · simp [delimited?]
  · simp [delimited?]

/-- What is written for a character is decoded as that character. -/
theorem unescape_of_mem_charWritings (h : written ∈ charWritings c) :
    unescape (written ++ rest) = c :: unescape rest := by
  rcases h with ⟨rfl, -, hslash⟩ | ⟨rfl, hn, ht⟩ | ⟨rfl, rfl⟩ | ⟨rfl, rfl⟩
  · rw [List.singleton_append, unescape]
    exact fun _ _ h => absurd h hslash
  · simp [unescape, hn, ht]
  · simp [unescape]
  · simp [unescape]

/-- What is written for a text stands before the closing quote, and is decoded as the text. -/
theorem delimited?_of_mem_prod (h : body ∈ (chars.map charWritings).prod) :
    delimited? '"' (body ++ '"' :: rest) = some (body, rest) ∧ unescape body = chars := by
  induction chars generalizing body with
  | nil =>
    obtain rfl : body = [] := (Language.mem_one body).1 h
    exact ⟨by cases rest <;> simp [delimited?], rfl⟩
  | cons c chars ih =>
    rw [List.map_cons, List.prod_cons] at h
    obtain ⟨u, hu, v, hv, rfl⟩ := Language.mem_mul.1 h
    obtain ⟨hend, hdecoded⟩ := ih hv
    constructor
    · rw [List.append_assoc, delimited?_of_mem_charWritings hu, hend]
      rfl
    · rw [unescape_of_mem_charWritings hu, hdecoded]

/-- A string on one line is a token of its text, and takes all that is written for it. -/
theorem ofChars_of_mem_prod (h : body ∈ (chars.map charWritings).prod) (hline : '\n' ∉ body) :
    ofChars '"' (body ++ '"' :: rest) =
      (.token (.text (String.ofList chars)), body.length + 1) := by
  have hrest : restOfLine (body ++ '"' :: rest) = body ++ '"' :: restOfLine rest := by
    have hbody : ∀ c ∈ body, (c != '\n') = true := by
      rintro c hc
      rw [bne_iff_ne]
      rintro rfl
      exact hline hc
    rw [restOfLine, List.takeWhile_append_of_pos hbody]
    rfl
  obtain ⟨hend, hdecoded⟩ : delimited? '"' (body ++ '"' :: restOfLine rest) =
      some (body, restOfLine rest) ∧ unescape body = chars := delimited?_of_mem_prod h
  have hlength : (body ++ '"' :: restOfLine rest).length - (restOfLine rest).length =
      body.length + 1 := by
    rw [List.length_append, List.length_cons]
    omega
  have hstring : ofChars '"' (body ++ '"' :: rest) = ofText (restOfLine (body ++ '"' :: rest)) :=
    rfl
  rw [hstring, hrest, ofText, hend]
  simp only [hdecoded, hlength]

end Find.Lexeme

/-- A text that starts with a token as long as the text is this token alone. -/
theorem Find.tokenize_of_ofChars {c : Char} {rest : List Char} {kind : TokenKind}
    (h : Lexeme.ofChars c rest = (.token kind, rest.length)) :
    tokenize (String.ofList (c :: rest)) =
      ([⟨kind, c :: rest, .start⟩, .finish (Place.start.advance (c :: rest))], []) := by
  have hpieces : segments (c :: rest) = [⟨.token kind, c :: rest, .start⟩] := by
    rw [segments, List.length_cons, segmentsFrom, h]
    simp [segmentsFrom]
  rw [tokenize, String.toList_ofList, hpieces]
  rfl

/-! ## A literal for every text -/

namespace Text

/-- A character of a literal: backslashes, quotes and line feeds are escaped. -/
def literalChar (c : Char) : List Char :=
  if c = '\\' then ['\\', '\\']
  else if c = '"' then ['\\', '"']
  else if c = '\n' then ['\\', 'n']
  else [c]

/-- The literal of a text, with its quotes. -/
def literal (text : String) : String :=
  String.ofList ('"' :: (text.toList.flatMap literalChar ++ ['"']))

theorem literalChar_mem_charWritings (c : Char) : literalChar c ∈ charWritings c := by
  unfold literalChar
  split
  · next h => exact .inr (.inl ⟨by rw [h], by rw [h]; decide, by rw [h]; decide⟩)
  split
  · next h => exact .inr (.inl ⟨by rw [h], by rw [h]; decide, by rw [h]; decide⟩)
  split
  · next h => exact .inr (.inr (.inl ⟨rfl, h⟩))
  · next hslash hquote _ => exact .inl ⟨rfl, hquote, hslash⟩

theorem flatMap_literalChar_mem (chars : List Char) :
    chars.flatMap literalChar ∈ (chars.map charWritings).prod := by
  induction chars with
  | nil => exact (Language.mem_one _).2 rfl
  | cons c chars ih =>
    rw [List.flatMap_cons, List.map_cons, List.prod_cons]
    exact Language.append_mem_mul (literalChar_mem_charWritings c) ih

/-- A literal stands on one line. -/
theorem newline_not_mem_flatMap_literalChar (chars : List Char) :
    '\n' ∉ chars.flatMap literalChar := by
  rw [List.mem_flatMap]
  rintro ⟨c, -, hc⟩
  unfold literalChar at hc
  repeat' split at hc
  · simp at hc
  · simp at hc
  · simp at hc
  · next hline => exact hline (List.mem_singleton.1 hc).symm

/-- The literal of a text is read back by both languages: as a query text it is the token of the
text and nothing else, and in a rule it is a term, whatever stands after its closing quote. -/
theorem reads_literal (text : String) :
    Find.tokenize (literal text) =
        ([⟨.text text, (literal text).toList, .start⟩,
          .finish (Find.Place.start.advance (literal text).toList)], []) ∧
      ∀ rest,
        RuleReader.term ((literal text).toList ++ rest) = .ok (.const (.text text), rest) := by
  have hbody := flatMap_literalChar_mem text.toList
  have hline := newline_not_mem_flatMap_literalChar text.toList
  constructor
  · have hchars : Find.Lexeme.ofChars '"' (text.toList.flatMap literalChar ++ ['"']) =
        (.token (.text (String.ofList text.toList)),
          (text.toList.flatMap literalChar ++ ['"']).length) := by
      rw [List.length_append]
      exact Find.Lexeme.ofChars_of_mem_prod hbody hline
    rw [String.ofList_toList] at hchars
    rw [literal, String.toList_ofList]
    exact Find.tokenize_of_ofChars hchars
  · intro rest
    have hterm : RuleReader.term ('"' :: (text.toList.flatMap literalChar ++ '"' :: rest)) =
        .ok (.const (.text text), rest) := RuleReader.term_text hbody
    simpa [literal] using hterm

/-- Backslashes in front of other letters, and line feeds, are kept. -/
example : (literal "a\\n\"\n").toList = "\"a\\\\n\\\"\\n\"".toList := by decide

end Text

end Factbase
