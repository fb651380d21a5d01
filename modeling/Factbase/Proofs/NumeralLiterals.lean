import Factbase.Proofs.NumberRange
import Factbase.Proofs.TokenPlaces
import Factbase.Proofs.RuleReading

/-! # Numerals in both languages

Queries and rules find the same numeral in front of a text and read it as the same number. A rule
takes this number as it is; a query has an error instead of a token where it is not finite. So the
languages agree exactly on the numerals below `Number.finiteBound`, and beyond it a rule has an
infinite constant that no query can name (`Number.Numeral.reads`). -/

namespace Factbase

open Number (Numeral)

/-! ## Numerals in queries -/

namespace Find

variable {n : Numeral} {c : Char} {more rest : List Char}

/-- What a numeral is in a query. -/
def Lexeme.ofNumeral (n : Numeral) : Lexeme :=
  if Number.isFinite n.number then .token (.number n.number) else .fault (.invalidNumber n.text)

/-- A numeral is one piece. -/
theorem Lexeme.ofChars_numeral (htext : n.text = c :: more) (hrest : n.Ends rest) :
    ofChars c (more ++ rest) = (ofNumeral n, more.length) := by
  obtain ⟨d, digits, heq, hfirst⟩ := n.exists_text_eq
  obtain ⟨rfl, rfl⟩ := List.cons.inj (htext.symm.trans heq)
  have hnumber : ofNumber (c :: (more ++ rest)) = (ofNumeral n, more.length) := by
    have hwritten : Number.leadingNumeral (c :: (more ++ rest)) = n.text := by
      rw [← n.leadingNumeral_append hrest, htext, List.cons_append]
    simp only [ofNumber, hwritten, n.parse?_text, ofNumeral]
    rw [htext, List.length_cons, Nat.add_sub_cancel]
  rcases hfirst with hdigit | ⟨rfl, hdigit⟩
  · have hblank : Text.isBlank c = false :=
      RuleReader.isBlank_of_continuesName (RuleReader.continuesName_of_isDigit hdigit)
    have hsign : c ≠ '-' := by
      rintro rfl
      exact absurd hdigit (by decide)
    rw [ofChars, if_neg (by simp [hblank]), if_neg (by simp [hsign]), if_pos (by simp [hdigit]),
      hnumber]
  · obtain ⟨e, digits, rfl⟩ : ∃ e digits, more = e :: digits := by
      cases more with
      | nil => exact Bool.noConfusion hdigit
      | cons e digits => exact ⟨e, digits, rfl⟩
    have hdigit' : Text.isDigit e = true := hdigit
    -- two signs would start a comment
    have hsign : e ≠ '-' := by
      rintro rfl
      exact Bool.noConfusion hdigit'
    rw [ofChars, if_neg (by decide), if_neg (by simp [hsign]), if_pos (by simp [hdigit']), hnumber]

/-- A text that starts with a numeral is divided into the numeral and the pieces of the rest. -/
theorem segmentsFrom_numeral (hrest : n.Ends rest) (k : Nat) (place : Place) :
    segmentsFrom (k + 1) place (n.text ++ rest) =
      ⟨.ofNumeral n, n.text, place⟩ :: segmentsFrom k (place.advance n.text) rest := by
  obtain ⟨c, more, htext, -⟩ := n.exists_text_eq
  rw [htext, List.cons_append, segmentsFrom, Lexeme.ofChars_numeral htext hrest]
  simp only [List.take_left, List.drop_left]

theorem segments_numeral (n : Numeral) : segments n.text = [⟨.ofNumeral n, n.text, .start⟩] := by
  obtain ⟨c, more, htext, -⟩ := n.exists_text_eq
  have hpieces := segmentsFrom_numeral n.ends_nil more.length .start
  rw [List.append_nil] at hpieces
  have hlength : n.text.length = more.length + 1 := by rw [htext, List.length_cons]
  rw [segments, hlength, hpieces]
  simp [segmentsFrom]

end Find

/-! ## Agreement -/

namespace Number.Numeral

variable {n : Numeral} {rest : List Char}

/-- From the bound on a numeral is read as the infinity of its sign. -/
theorem number_eq_infinity (hvalue : finiteBound ≤ n.value) :
    n.number = if n.negative then -infinity else infinity := by
  rw [value_eq] at hvalue
  rw [number, ofParts, ofDecimal_eq_ite, ofDecimal_eq_infinity hvalue]

/-- In a rule and in a query the same numeral is told from what follows. The rule has its number as
a constant. The query has this number as a token if it is finite, and otherwise an error that names
the numeral. The number is finite exactly if the value of the numeral is below the bound, and the
infinity with the sign of the numeral from there on. -/
theorem reads (n : Numeral) (hrest : n.Ends rest) :
    RuleReader.term (n.text ++ rest) = .ok (.const (.number n.number), rest) ∧
      (∀ k place, Find.segmentsFrom (k + 1) place (n.text ++ rest) =
        ⟨if isFinite n.number then .token (.number n.number) else .fault (.invalidNumber n.text),
            n.text, place⟩ :: Find.segmentsFrom k (place.advance n.text) rest) ∧
      (isFinite n.number = true ↔ n.value < finiteBound) ∧
      (finiteBound ≤ n.value → n.number = if n.negative then -infinity else infinity) :=
  ⟨RuleReader.term_number n.parse?_text hrest, Find.segmentsFrom_numeral hrest,
    n.isFinite_number_iff, number_eq_infinity⟩

/-- A second point ends a numeral. -/
theorem reads_twoAndHalf :
    RuleReader.term ['2', '.', '5', '.'] = .ok (.const (.number 2.5), ['.']) ∧
      Find.segments ['2', '.', '5', '.'] =
        [⟨.token (.number 2.5), ['2', '.', '5'], .start⟩, ⟨.token .dot, ['.'], ⟨1, 4, 3⟩⟩] := by
  have hends : Ends ⟨false, ['2'], ['5'], List.cons_ne_nil _ _,
      List.forall_mem_singleton.2 rfl, List.forall_mem_singleton.2 rfl⟩ ['.'] :=
    ⟨fun _ hc => Option.some.inj hc ▸ rfl, fun h => absurd h (List.cons_ne_nil _ _)⟩
  obtain ⟨hterm, hsegments, -⟩ := reads _ hends
  exact ⟨hterm, hsegments 3 .start⟩

/-- The languages do not agree on all numerals, and a constant of a rule need not be finite: four
hundred nines are an infinite constant of a rule, and an error in a query. -/
theorem not_reads_alike :
    (¬ ∀ (n : Numeral) (x : Float), RuleReader.term n.text = .ok (.const (.number x), []) ↔
        Find.segments n.text = [⟨.token (.number x), n.text, .start⟩]) ∧
      ¬ ∀ (n : Numeral) (x : Float), RuleReader.term n.text = .ok (.const (.number x), []) →
        isFinite x = true := by
  obtain ⟨n, hn⟩ : ∃ n, n = ofDigits false (List.replicate 400 '9') (List.cons_ne_nil _ _)
      fun _ hc => List.eq_of_mem_replicate hc ▸ rfl := ⟨_, rfl⟩
  have hinfinite : isFinite n.number = false := by
    subst hn
    decide +kernel
  have hterm : RuleReader.term n.text = .ok (.const (.number n.number), []) := by
    have hread := RuleReader.term_number n.parse?_text n.ends_nil
    rwa [List.append_nil] at hread
  constructor
  · intro h
    have htoken := (h n n.number).1 hterm
    rw [Find.segments_numeral, Find.Lexeme.ofNumeral, hinfinite] at htoken
    simp at htoken
  · intro h
    exact Bool.false_ne_true (hinfinite.symm.trans (h n n.number hterm))

end Number.Numeral

end Factbase
