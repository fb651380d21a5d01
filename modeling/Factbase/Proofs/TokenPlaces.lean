import Mathlib.Data.List.DropRight
import Factbase.Find.Lexer

/-! # Places of tokens

The pieces of a text follow each other without gap, so each stands after what is written in the
pieces before it (`Find.Pieces.of_append`). A place that was moved over some characters has the
line, the column and the offset that these characters give (`Find.Place.isAfter_advance`).

So the tokens of a text stand apart and in order, each token and each error is where its place says,
and between the tokens of a text without errors there are white space and comments only
(`Find.divides_tokenize`). -/

namespace Factbase

namespace Text

/-- A character adds its bytes. -/
theorem byteLength_cons (c : Char) (text : List Char) :
    byteLength (c :: text) = c.utf8Size + byteLength text := by
  have hfold : ∀ (text : List Char) (n : Nat),
      text.foldl (fun n c => n + c.utf8Size) n = n + byteLength text := by
    intro text
    induction text with
    | nil => exact fun n => rfl
    | cons d rest ih =>
      intro n
      have hcons : byteLength (d :: rest) = 0 + d.utf8Size + byteLength rest :=
        ih (0 + d.utf8Size)
      rw [List.foldl_cons, ih, hcons]
      omega
  rw [byteLength, List.foldl_cons, hfold, Nat.zero_add]

/-- Texts one after the other take the bytes of both. -/
theorem byteLength_append (text other : List Char) :
    byteLength (text ++ other) = byteLength text + byteLength other := by
  induction text with
  | nil => exact (Nat.zero_add _).symm
  | cons c rest ih => rw [List.cons_append, byteLength_cons, byteLength_cons, ih, Nat.add_assoc]

/-- The bytes of a string are those of its characters. -/
theorem byteLength_toList (text : String) : byteLength text.toList = text.utf8ByteSize := by
  have hchars : ∀ chars : List Char, (String.ofList chars).utf8ByteSize = byteLength chars := by
    intro chars
    induction chars with
    | nil => rfl
    | cons c rest ih =>
      rw [String.ofList_cons, String.utf8ByteSize_append, String.utf8ByteSize_singleton, ih,
        byteLength_cons]
  rw [← hchars, String.ofList_toList]

end Text

namespace Find

namespace Place

/-- Moving over two texts is moving over one and then over the other. -/
theorem advance_append (p : Place) (text other : List Char) :
    p.advance (text ++ other) = (p.advance text).advance other :=
  List.foldl_append

/-- Moving over a text adds its bytes. -/
theorem offset_advance (p : Place) (text : List Char) :
    (p.advance text).offset = p.offset + Text.byteLength text := by
  induction text generalizing p with
  | nil => rfl
  | cons c rest ih =>
    have hnext : (p.next c).offset = p.offset + c.utf8Size := by
      unfold next
      split <;> rfl
    rw [Text.byteLength_cons, ← Nat.add_assoc, ← hnext]
    exact ih (p.next c)

/-- A place counts what stands before it: the lines that end there, the characters since the last
of these ends, and the bytes. -/
structure IsAfter (p : Place) (front : List Char) : Prop where
  line : p.line = 1 + front.count '\n'
  column : p.column = 1 + (front.rtakeWhile (· != '\n')).length
  offset : p.offset = Text.byteLength front

/-- The place after a further character counts that one too. -/
theorem IsAfter.next {p : Place} {front : List Char} (h : p.IsAfter front) (c : Char) :
    (p.next c).IsAfter (front ++ [c]) := by
  have hbytes : Text.byteLength (front ++ [c]) = p.offset + c.utf8Size := by
    rw [Text.byteLength_append, h.offset, Text.byteLength_cons]
    rfl
  unfold Place.next
  by_cases hc : c = '\n'
  · subst hc
    constructor <;> simp [h.line, hbytes, Nat.add_assoc]
  · constructor <;> simp [h.line, h.column, hbytes, hc, Nat.add_assoc]

/-- The place after some characters counts them. -/
theorem isAfter_advance (front : List Char) : (start.advance front).IsAfter front := by
  induction front using List.reverseRecOn with
  | nil => constructor <;> rfl
  | append_singleton front c ih =>
    rw [advance_append]
    exact ih.next c

end Place

/-! ## Pieces -/

namespace Segment

/-- The byte after a piece. -/
def stop (s : Segment) : Nat := s.place.offset + Text.byteLength s.written

end Segment

/-- What is written in some pieces, one after the other. -/
def writtenOf (pieces : List Segment) : List Char := pieces.flatMap (·.written)

/-- The first piece is written first. -/
theorem writtenOf_cons (s : Segment) (pieces : List Segment) :
    writtenOf (s :: pieces) = s.written ++ writtenOf pieces :=
  List.flatMap_cons

/-- The pieces of a text from a place on: each is what the text starts with there. -/
inductive Pieces : Place → List Char → List Segment → Prop
  | nil (place : Place) : Pieces place [] []
  | cons {place : Place} {c : Char} {rest : List Char} {pieces : List Segment}
    (h : Pieces (place.advance (c :: rest.take (Lexeme.ofChars c rest).2))
      (rest.drop (Lexeme.ofChars c rest).2) pieces) :
    Pieces place (c :: rest)
      (⟨(Lexeme.ofChars c rest).1, c :: rest.take (Lexeme.ofChars c rest).2, place⟩ :: pieces)

/-- As many pieces are found as the text has, since each takes a character. -/
theorem pieces_segmentsFrom {n : Nat} {place : Place} {text : List Char}
    (hn : text.length ≤ n) : Pieces place text (segmentsFrom n place text) := by
  induction n generalizing place text with
  | zero =>
    obtain rfl := List.length_eq_zero_iff.1 (Nat.le_zero.1 hn)
    exact .nil place
  | succ n ih =>
    cases text with
    | nil => exact .nil place
    | cons c rest =>
      have hrest : (rest.drop (Lexeme.ofChars c rest).2).length ≤ n :=
        (List.drop_sublist _ _).length_le.trans (Nat.le_of_succ_le_succ hn)
      exact .cons (ih hrest)

/-- A text is divided into its pieces from the start on. -/
theorem pieces_segments (text : List Char) : Pieces .start text (segments text) :=
  pieces_segmentsFrom (Nat.le_refl _)

namespace Pieces

variable {place : Place} {text : List Char} {pieces before after : List Segment} {s : Segment}

/-- No character of a text is lost. -/
theorem writtenOf_eq (h : Pieces place text pieces) : writtenOf pieces = text := by
  induction h with
  | nil => rfl
  | cons _ ih => rw [writtenOf_cons, ih, List.cons_append, List.take_append_drop]

/-- Where a piece stands among others: after what these write before it, and it is what the text
starts with there. -/
theorem of_append (h : Pieces place text (before ++ s :: after)) :
    ∃ c rest, text = writtenOf before ++ c :: rest ∧
      s = ⟨(Lexeme.ofChars c rest).1, c :: rest.take (Lexeme.ofChars c rest).2,
        place.advance (writtenOf before)⟩ ∧
      writtenOf after = rest.drop (Lexeme.ofChars c rest).2 := by
  induction before generalizing place text with
  | nil =>
    cases h with
    | @cons _ c rest _ h => exact ⟨c, rest, rfl, rfl, h.writtenOf_eq⟩
  | cons b before ih =>
    cases h with
    | cons h =>
      obtain ⟨c, rest, htext, hs, hafter⟩ := ih h
      refine ⟨c, rest, ?_, ?_, hafter⟩
      · rw [writtenOf_cons, List.append_assoc, ← htext, List.cons_append, List.take_append_drop]
      · rw [writtenOf_cons, Place.advance_append, hs]

/-- A piece takes at least a byte, of the bytes that the text takes. -/
theorem offset_lt_stop (h : Pieces place text pieces) (hs : s ∈ pieces) :
    place.offset ≤ s.place.offset ∧ s.place.offset < s.stop ∧
      s.stop ≤ place.offset + Text.byteLength text := by
  obtain ⟨before, after, rfl⟩ := List.append_of_mem hs
  obtain ⟨c, rest, rfl, rfl, -⟩ := h.of_append
  have hrest : Text.byteLength (rest.take (Lexeme.ofChars c rest).2) ≤ Text.byteLength rest := by
    rw [← Nat.add_le_add_iff_right, ← Text.byteLength_append, List.take_append_drop]
    exact Nat.le_add_right ..
  have hc := c.utf8Size_pos
  rw [Segment.stop, Place.offset_advance, Text.byteLength_append, Text.byteLength_cons,
    Text.byteLength_cons]
  omega

/-- A piece ends where or before a later one starts. -/
theorem pairwise (h : Pieces place text pieces) :
    pieces.Pairwise fun s u => s.stop ≤ u.place.offset := by
  induction h with
  | nil => exact .nil
  | cons h ih =>
    refine List.pairwise_cons.2 ⟨fun u hu => ?_, ih⟩
    have hle := (h.offset_lt_stop hu).1
    rwa [Place.offset_advance] at hle

end Pieces

namespace Lexeme

/-- Whether a piece is read: a token that is not the end of the text, or a fault. -/
def IsRead : Lexeme → Prop
  | .skipped | .token .finish => False
  | .token _ | .fault _ => True

variable {c : Char} {rest : List Char}

/-- A sign is read. -/
theorem isRead_ofSign : (ofSign c rest).1.IsRead := by
  unfold ofSign
  split <;> trivial

/-- A word is read. -/
theorem isRead_ofWord : (ofWord c rest).1.IsRead := by
  unfold ofWord
  dsimp only
  split <;> trivial

/-- A number is read. -/
theorem isRead_ofNumber : (ofNumber rest).1.IsRead := by
  unfold ofNumber
  dsimp only
  split
  · split <;> trivial
  · trivial

/-- A string is read. -/
theorem isRead_ofText : (ofText rest).1.IsRead := by
  unfold ofText
  split <;> trivial

/-- A pattern is read. -/
theorem isRead_ofRegex : (ofRegex rest).1.IsRead := by
  unfold ofRegex
  split <;> trivial

/-- A variable is read. -/
theorem isRead_ofVariable : (ofVariable rest).1.IsRead := by
  unfold ofVariable
  dsimp only
  split <;> trivial

/-- What a text starts with is white space, a comment to the end of the line, or is read. -/
theorem ofChars_cases (c : Char) (rest : List Char) :
    (Text.isBlank c = true ∧ ofChars c rest = (.skipped, 0)) ∨
      (c = '-' ∧ rest.head? = some '-' ∧
        ofChars c rest = (.skipped, (restOfLine rest).length)) ∨
      (ofChars c rest).1.IsRead := by
  unfold ofChars
  -- the branches are the kinds of pieces, in order
  split
  · next hblank => exact .inl ⟨hblank, rfl⟩
  refine .inr ?_
  split
  · next hcomment => 
    obtain ⟨hc, hrest⟩ : c = '-' ∧ rest.head? = some '-' := by simpa using hcomment
    exact .inl ⟨hc, hrest, rfl⟩
  refine .inr ?_
  split
  · exact isRead_ofNumber
  split
  · exact isRead_ofText
  split
  · exact isRead_ofRegex
  split
  · exact isRead_ofVariable
  split
  · exact isRead_ofWord
  · exact isRead_ofSign

end Lexeme

/-! ## Tokens and errors -/

/-- The byte after a token. -/
def Token.stop (t : Token) : Nat := t.place.offset + Text.byteLength t.written

/-- A comment after a part of a text: from two dashes to the end of the line, with no token in
it. -/
structure IsComment (text : List Char) (tokens : List Token) (before comment : List Char) :
    Prop where
  dashes : ['-', '-'] <+: comment
  newline : '\n' ∉ comment
  toEnd : ∃ back, text = before ++ comment ++ back ∧ (back = [] ∨ back.head? = some '\n')
  apart : ∀ t ∈ tokens, t.stop ≤ Text.byteLength before ∨
    Text.byteLength (before ++ comment) ≤ t.place.offset

/-- How tokens and errors stand in a text. -/
structure Divides (text : String) (tokens : List Token) (errors : List Error) : Prop where
  /-- The end of the text is the last token, and no other. -/
  finish : ∃ others place, tokens = others ++ [.finish place] ∧
    place.offset = text.utf8ByteSize ∧ ∀ t ∈ others, t.kind ≠ .finish
  increasing : tokens.Pairwise fun t u => t.place.offset < u.place.offset
  disjoint : tokens.Pairwise fun t u => t.stop ≤ u.place.offset
  /-- A token is written where its place says. -/
  token : ∀ t ∈ tokens, ∃ front back,
    text.toList = front ++ t.written ++ back ∧ t.place.IsAfter front
  /-- An error is about what is written where its place says. -/
  error : ∀ e ∈ errors, ∃ front written back,
    text.toList = front ++ written ++ back ∧ e.place.IsAfter front ∧
      e.length = Text.byteLength written
  /-- Without errors, a character is in a token, white space, or in a comment. -/
  covered : errors = [] → ∀ front c back, text.toList = front ++ c :: back →
    (∃ t ∈ tokens, t.place.offset ≤ Text.byteLength front ∧ Text.byteLength front < t.stop) ∨
      Text.isBlank c = true ∨
      ∃ before part more, front = before ++ part ∧
        IsComment text.toList tokens before (part ++ c :: more)

namespace Segment

variable {s : Segment}

/-- The token that a piece is has its place and is written as it is. -/
theorem token?_eq_some {t : Token} :
    s.token? = some t ↔ s.lexeme = .token t.kind ∧ s.written = t.written ∧ s.place = t.place := by
  obtain ⟨kind, written, place⟩ := t
  unfold token?
  split
  · next kind' hkind => simp [hkind]
  · next hkind => simpa using fun heq => (hkind kind heq).elim

/-- The error that a piece is has its place and the length of what is written. -/
theorem error?_eq_some {e : Error} :
    s.error? = some e ↔
      s.lexeme = .fault e.fault ∧ s.place = e.place ∧ Text.byteLength s.written = e.length := by
  obtain ⟨fault, place, length⟩ := e
  unfold error?
  split
  · next fault' hfault => simp [hfault]
  · next hfault => simpa using fun heq => (hfault fault heq).elim

end Segment

section Text

variable {text : List Char} {s : Segment} {before after : List Segment}

/-- A piece of a text is written where its place says. -/
theorem stands_of_segments_eq (h : segments text = before ++ s :: after) :
    text = writtenOf before ++ s.written ++ writtenOf after ∧
      s.place.IsAfter (writtenOf before) := by
  obtain ⟨c, rest, rfl, rfl, hafter⟩ := (h ▸ pieces_segments text).of_append
  refine ⟨?_, Place.isAfter_advance _⟩
  rw [hafter, List.append_assoc, List.cons_append, List.take_append_drop]

/-- A character of a text is in one of its pieces. -/
theorem exists_segment {pieces : List Segment} {front back : List Char} {c : Char}
    (h : writtenOf pieces = front ++ c :: back) :
    ∃ before s after part more, pieces = before ++ s :: after ∧
      front = writtenOf before ++ part ∧ s.written = part ++ c :: more := by
  induction pieces generalizing front with
  | nil => simp [writtenOf] at h
  | cons s rest ih =>
    have hlater : ∀ later : List Char, writtenOf rest = later ++ c :: back →
        ∃ before u after part more, s :: rest = before ++ u :: after ∧
          s.written ++ later = writtenOf before ++ part ∧ u.written = part ++ c :: more := by
      intro later hlater
      obtain ⟨before, u, after, part, more, rfl, rfl, hu⟩ := ih hlater
      refine ⟨s :: before, u, after, part, more, rfl, ?_, hu⟩
      rw [writtenOf_cons, List.append_assoc]
    rw [writtenOf_cons] at h
    rcases List.append_eq_append_iff.1 h with ⟨later, rfl, hrest⟩ | ⟨more, hwritten, hrest⟩
    · exact hlater later hrest
    · cases more with
      | nil =>
        -- the character is the first after this piece
        have hfound := hlater [] hrest.symm
        rwa [List.append_nil, hwritten, List.append_nil] at hfound
      | cons d more =>
        obtain ⟨rfl, -⟩ := List.cons.inj hrest
        exact ⟨[], s, rest, front, more, rfl, rfl, hwritten⟩

/-- The characters up to the end of a line are those before the rest. -/
theorem take_restOfLine (rest : List Char) :
    rest.take (Lexeme.restOfLine rest).length = Lexeme.restOfLine rest :=
  (List.prefix_iff_eq_take.1 (List.takeWhile_prefix _)).symm

/-- After the end of a line there is a line feed, or nothing. -/
theorem drop_restOfLine (rest : List Char) :
    rest.drop (Lexeme.restOfLine rest).length = [] ∨
      (rest.drop (Lexeme.restOfLine rest).length).head? = some '\n' := by
  have hdrop : rest.drop (Lexeme.restOfLine rest).length = rest.dropWhile (· != '\n') := by
    have hleft : (rest.takeWhile (· != '\n') ++ rest.dropWhile (· != '\n')).drop
        (Lexeme.restOfLine rest).length = rest.dropWhile (· != '\n') := List.drop_left
    rwa [List.takeWhile_append_dropWhile] at hleft
  have hhead := List.head?_dropWhile_not (· != '\n') rest
  rw [hdrop]
  cases hrest : rest.dropWhile (· != '\n') with
  | nil => exact .inl rfl
  | cons c more =>
    rw [hrest] at hhead
    exact .inr (by simpa using hhead)

/-- A piece of a text is what the text starts with somewhere. -/
theorem exists_ofChars_eq (hs : s ∈ segments text) :
    ∃ c rest, s.lexeme = (Lexeme.ofChars c rest).1 := by
  obtain ⟨before, after, heq⟩ := List.append_of_mem hs
  obtain ⟨c, rest, -, rfl, -⟩ := (heq ▸ pieces_segments text).of_append
  exact ⟨c, rest, rfl⟩

/-- No token of a text is read as its end. -/
theorem kind_ne_finish (hs : s ∈ segments text) {kind : TokenKind}
    (h : s.lexeme = .token kind) : kind ≠ .finish := by
  obtain ⟨c, rest, hlexeme⟩ := exists_ofChars_eq hs
  rw [hlexeme] at h
  rintro rfl
  rcases Lexeme.ofChars_cases c rest with ⟨-, hskipped⟩ | ⟨-, -, hskipped⟩ | hread
  · simp [hskipped] at h
  · simp [hskipped] at h
  · rw [h] at hread
    exact hread

end Text

section Tokenize

variable (text : String)

/-- The tokens of a text are those of its pieces, and the end. -/
theorem mem_tokenize {t : Token} :
    t ∈ (tokenize text).1 ↔ (∃ s ∈ segments text.toList, s.token? = some t) ∨
      t = .finish (Place.start.advance text.toList) := by
  rw [tokenize, List.mem_append, List.mem_filterMap, List.mem_singleton]

/-- A piece takes at least a byte, of the bytes that the text takes. -/
theorem stop_le {s : Segment} (hs : s ∈ segments text.toList) :
    s.place.offset < s.stop ∧
      s.stop ≤ (Place.start.advance text.toList).offset := by
  obtain ⟨-, hlt, hle⟩ := (pieces_segments text.toList).offset_lt_stop hs
  rw [Place.offset_advance]
  exact ⟨hlt, hle⟩

/-- A token before another takes at least a byte, and ends where or before the other starts. -/
theorem pairwise_tokenize :
    (tokenize text).1.Pairwise fun t u => t.place.offset < t.stop ∧ t.stop ≤ u.place.offset := by
  have hpieces := (pieces_segments text.toList).pairwise
  refine List.pairwise_append.2 ⟨?_, List.pairwise_singleton .., ?_⟩
  · refine List.Pairwise.filterMap _ (fun s u hsu => ?_) (hpieces.imp_of_mem fun hs _ hle =>
      And.intro (stop_le text hs).1 hle)
    rintro t ht u' hu'
    obtain ⟨-, hwritten, hplace⟩ := Segment.token?_eq_some.1 ht
    obtain ⟨-, -, hplace'⟩ := Segment.token?_eq_some.1 hu'
    rwa [Segment.stop, hwritten, hplace, hplace'] at hsu
  · intro t ht u hu
    obtain ⟨s, hs, ht⟩ := List.mem_filterMap.1 ht
    obtain ⟨-, hwritten, hplace⟩ := Segment.token?_eq_some.1 ht
    obtain rfl := List.mem_singleton.1 hu
    have hs := stop_le text hs
    rwa [Segment.stop, hwritten, hplace] at hs

/-- Without errors, a piece that is read is a token. -/
theorem exists_token_of_isRead {s : Segment} (herrors : (tokenize text).2 = [])
    (hs : s ∈ segments text.toList) (hread : s.lexeme.IsRead) :
    ∃ t ∈ (tokenize text).1, s.written = t.written ∧ s.place = t.place := by
  cases hlexeme : s.lexeme with
  | skipped =>
    rw [hlexeme] at hread
    exact hread.elim
  | token kind =>
    have htoken : s.token? = some ⟨kind, s.written, s.place⟩ :=
      Segment.token?_eq_some.2 ⟨hlexeme, rfl, rfl⟩
    exact ⟨_, (mem_tokenize text).2 (.inl ⟨s, hs, htoken⟩), rfl, rfl⟩
  | fault fault =>
    have herror : s.error? = some ⟨fault, s.place, Text.byteLength s.written⟩ :=
      Segment.error?_eq_some.2 ⟨hlexeme, rfl, rfl⟩
    have hmem : _ ∈ (tokenize text).2 := List.mem_filterMap.2 ⟨s, hs, herror⟩
    rw [herrors] at hmem
    simp at hmem

/-- No token reaches into a piece that is skipped. -/
theorem apart_of_skipped {s : Segment} {before after : List Segment}
    (h : segments text.toList = before ++ s :: after) (hskipped : s.lexeme = .skipped) {t : Token}
    (ht : t ∈ (tokenize text).1) : t.stop ≤ s.place.offset ∨ s.stop ≤ t.place.offset := by
  have hpairwise := (pieces_segments text.toList).pairwise
  rw [h, List.pairwise_append, List.pairwise_cons] at hpairwise
  obtain ⟨-, ⟨hlater, -⟩, hearlier⟩ := hpairwise
  rcases (mem_tokenize text).1 ht with ⟨u, hu, htoken⟩ | rfl
  · obtain ⟨hlexeme, hwritten, hplace⟩ := Segment.token?_eq_some.1 htoken
    rw [Token.stop, ← hwritten, ← hplace]
    rw [h, List.mem_append, List.mem_cons] at hu
    rcases hu with hu | rfl | hu
    · exact .inl (hearlier u hu s List.mem_cons_self)
    · rw [hskipped] at hlexeme
      simp at hlexeme
    · exact .inr (hlater u hu)
  · have hs : s ∈ segments text.toList := h ▸ List.mem_append_right _ List.mem_cons_self
    exact .inr (stop_le text hs).2

/-- A piece that is skipped, from two dashes to the end of the line, is a comment. -/
theorem isComment_of_segments_eq {s : Segment} {before after : List Segment} {rest : List Char}
    (h : segments text.toList = before ++ s :: after) (hskipped : s.lexeme = .skipped)
    (hwritten : s.written = '-' :: Lexeme.restOfLine rest) (hrest : rest.head? = some '-')
    (hafter : writtenOf after = rest.drop (Lexeme.restOfLine rest).length) :
    IsComment text.toList (tokenize text).1 (writtenOf before) s.written := by
  obtain ⟨htext, hplace⟩ := stands_of_segments_eq h
  refine ⟨?_, ?_, ⟨_, htext, hafter ▸ drop_restOfLine rest⟩, fun t ht => ?_⟩
  · obtain ⟨more, rfl⟩ := List.head?_eq_some_iff.1 hrest
    exact ⟨Lexeme.restOfLine more, by rw [hwritten]; rfl⟩
  · rw [hwritten]
    intro hmem
    rcases List.mem_cons.1 hmem with heq | hmem
    · simp at heq
    · exact absurd (List.mem_takeWhile_imp hmem) (by simp)
  · have hapart := apart_of_skipped text h hskipped ht
    rwa [Segment.stop, hplace.offset, ← Text.byteLength_append] at hapart

/-- A piece of a text is one blank character, a comment, or is read. -/
theorem isBlank_or_isComment_or_isRead {s : Segment} {before after : List Segment}
    (h : segments text.toList = before ++ s :: after) :
    (∃ c, s.written = [c] ∧ Text.isBlank c = true) ∨
      IsComment text.toList (tokenize text).1 (writtenOf before) s.written ∨ s.lexeme.IsRead := by
  obtain ⟨c, rest, -, hpiece, hafter⟩ := (h ▸ pieces_segments text.toList).of_append
  have hlexeme : s.lexeme = (Lexeme.ofChars c rest).1 := congrArg Segment.lexeme hpiece
  have hwritten : s.written = c :: rest.take (Lexeme.ofChars c rest).2 :=
    congrArg Segment.written hpiece
  rcases Lexeme.ofChars_cases c rest with ⟨hblank, hskipped⟩ | ⟨rfl, hdash, hskipped⟩ | hread
  · rw [hskipped] at hwritten
    exact .inl ⟨c, hwritten, hblank⟩
  · rw [hskipped] at hlexeme hwritten hafter
    rw [take_restOfLine] at hwritten
    exact .inr (.inl (isComment_of_segments_eq text h hlexeme hwritten hdash hafter))
  · exact .inr (.inr (hlexeme ▸ hread))

/-- Every text is divided into tokens with the end as the last, into errors, and where there are
none, into white space and comments besides. -/
theorem divides_tokenize : Divides text (tokenize text).1 (tokenize text).2 where
  finish := by
    refine ⟨_, _, rfl, ?_, fun t ht => ?_⟩
    · rw [Place.offset_advance, Text.byteLength_toList]
      exact Nat.zero_add _
    · obtain ⟨s, hs, ht⟩ := List.mem_filterMap.1 ht
      exact kind_ne_finish hs (Segment.token?_eq_some.1 ht).1
  increasing := (pairwise_tokenize text).imp fun h => Nat.lt_of_lt_of_le h.1 h.2
  disjoint := (pairwise_tokenize text).imp fun h => h.2
  token := by
    intro t ht
    rcases (mem_tokenize text).1 ht with ⟨s, hs, htoken⟩ | rfl
    · obtain ⟨before, after, h⟩ := List.append_of_mem hs
      obtain ⟨-, hwritten, hplace⟩ := Segment.token?_eq_some.1 htoken
      have hstands := stands_of_segments_eq h
      rw [hwritten, hplace] at hstands
      exact ⟨_, _, hstands⟩
    · exact ⟨text.toList, [], by simp [Token.finish], Place.isAfter_advance _⟩
  error := by
    intro e he
    obtain ⟨s, hs, herror⟩ := List.mem_filterMap.1 he
    obtain ⟨before, after, h⟩ := List.append_of_mem hs
    obtain ⟨-, hplace, hlength⟩ := Segment.error?_eq_some.1 herror
    obtain ⟨htext, hafter⟩ := stands_of_segments_eq h
    exact ⟨_, _, _, htext, hplace ▸ hafter, hlength.symm⟩
  covered := by
    intro herrors front c back htext
    have hall : writtenOf (segments text.toList) = front ++ c :: back :=
      (pieces_segments text.toList).writtenOf_eq.trans htext
    obtain ⟨before, s, after, part, more, hpieces, rfl, hwritten⟩ := exists_segment hall
    rcases isBlank_or_isComment_or_isRead text hpieces with ⟨d, hd, hblank⟩ | hcomment | hread
    · obtain ⟨-, rfl, -⟩ : part = [] ∧ c = d ∧ more = [] := by
        simpa [hwritten, List.append_eq_cons_iff, eq_comm] using hd
      exact .inr (.inl hblank)
    · exact .inr (.inr ⟨_, part, more, rfl, hwritten ▸ hcomment⟩)
    · have hs : s ∈ segments text.toList := hpieces ▸ List.mem_append_right _ List.mem_cons_self
      obtain ⟨t, ht, htwritten, htplace⟩ := exists_token_of_isRead text herrors hs hread
      refine .inl ⟨t, ht, ?_⟩
      rw [Token.stop, ← htwritten, ← htplace, (stands_of_segments_eq hpieces).2.offset, hwritten,
        Text.byteLength_append, Text.byteLength_append, Text.byteLength_cons]
      have hc := c.utf8Size_pos
      omega

end Tokenize

end Find

end Factbase
