import Mathlib.Data.List.Chain
import Mathlib.Data.List.TakeDrop
import Mathlib.Data.List.TakeWhile
import Mathlib.Data.Option.Basic
import Factbase.Atom

/-! # Texts of dates

A hyphen stands in a numeral at the front, or behind the mark of the exponent, but never right
behind a digit (`Number.isChain_of_parse?`). In the text of a date it does, between the year and the
month (`Timestamp.exists_hyphen_of_parse?`). So no text is both, and what holds an instant holds no
number (`Atom.number?_of_parse?`). -/

namespace Factbase

/-! ## Hyphens in numerals -/

namespace Number

/-- What stands next to each other in a numeral: no hyphen behind a digit. -/
def MayPrecede (c d : Char) : Prop := Text.isDigit c = true → d ≠ '-'

variable {text digits rest : List Char} {negative : Bool} {x : Float}

theorem isChain_of_hyphen_not_mem (h : '-' ∉ text) : text.IsChain MayPrecede := by
  refine List.isChain_iff_forall_rel_of_append_cons_cons.2 fun c d before after heq _ => ?_
  rintro rfl
  exact h (by simp [heq])

theorem hyphen_not_mem_of_isDigit (h : ∀ c ∈ digits, Text.isDigit c = true) : '-' ∉ digits :=
  fun hmem => absurd (h _ hmem) (by decide)

/-- Behind digits anything may stand that does not start with a hyphen. -/
theorem isChain_digits_append (hdigits : ∀ c ∈ digits, Text.isDigit c = true)
    (hrest : rest.IsChain MayPrecede) (hhead : rest.head? ≠ some '-') :
    (digits ++ rest).IsChain MayPrecede := by
  refine List.isChain_append.2
    ⟨isChain_of_hyphen_not_mem (hyphen_not_mem_of_isDigit hdigits), hrest, fun c _ d hd _ => ?_⟩
  rintro rfl
  exact hhead hd

/-- Behind a character that is no digit anything may stand. -/
theorem isChain_cons_of_not_isDigit {c : Char} (hc : Text.isDigit c = false)
    (hrest : rest.IsChain MayPrecede) : (c :: rest).IsChain MayPrecede :=
  List.isChain_cons.2 ⟨fun _ _ hdigit => by simp [hc] at hdigit, hrest⟩

/-- The exponent starts with its mark, which a hyphen may follow. -/
theorem isChain_of_readExponent? {e : Int} (h : readExponent? text = some e) :
    text.IsChain MayPrecede ∧ text.head? ≠ some '-' := by
  cases text with
  | nil => exact ⟨.nil, by simp⟩
  | cons mark rest =>
    simp only [readExponent?] at h
    split at h
    · next hmark =>
      obtain ⟨hdigit, hne⟩ : Text.isDigit mark = false ∧ mark ≠ '-' := by
        rcases Bool.or_eq_true_iff.1 hmark with hc | hc <;> rw [beq_iff_eq.1 hc] <;> decide
      refine ⟨isChain_cons_of_not_isDigit hdigit ?_, fun hhead => hne (Option.some.inj hhead)⟩
      have hchain : ∀ digits : List Char, ¬ (digits.isEmpty || !digits.all Text.isDigit) = true →
          digits.IsChain MayPrecede := by
        intro digits hdigits
        refine isChain_of_hyphen_not_mem (hyphen_not_mem_of_isDigit fun c hc => ?_)
        simp only [Bool.or_eq_true, not_or, Bool.not_eq_true', Bool.not_eq_false] at hdigits
        exact List.all_eq_true.1 hdigits.2 c hc
      -- a sign, or digits at once
      split at h
      all_goals
        split at h
        · simp at h
        · next hdigits =>
          first
          | exact isChain_cons_of_not_isDigit rfl (hchain _ hdigits)
          | exact hchain _ hdigits
    · simp at h

/-- Behind the digits of a numeral a point with digits may stand, and an exponent. -/
theorem isChain_of_readUnsigned? (h : readUnsigned? negative text = some x) :
    text.IsChain MayPrecede := by
  have hdigits : ∀ cs : List Char, ∀ c ∈ cs.takeWhile Text.isDigit, Text.isDigit c = true :=
    fun cs c hc => List.mem_takeWhile_imp hc
  simp only [readUnsigned?, List.span_eq_takeWhile_dropWhile] at h
  have hrest : (text.dropWhile Text.isDigit).IsChain MayPrecede ∧
      (text.dropWhile Text.isDigit).head? ≠ some '-' := by
    split at h
    · next more hpoint =>
      split at h
      · simp at h
      · obtain ⟨e, he, -⟩ := Option.map_eq_some_iff.1 h
        obtain ⟨hchain, hhead⟩ := isChain_of_readExponent? he
        rw [hpoint]
        refine ⟨isChain_cons_of_not_isDigit rfl ?_, by simp⟩
        rw [← List.takeWhile_append_dropWhile (p := Text.isDigit) (l := more)]
        exact isChain_digits_append (hdigits more) hchain hhead
    · split at h
      · simp at h
      · obtain ⟨e, he, -⟩ := Option.map_eq_some_iff.1 h
        exact isChain_of_readExponent? he
  rw [← List.takeWhile_append_dropWhile (p := Text.isDigit) (l := text)]
  exact isChain_digits_append (hdigits text) hrest.1 hrest.2

/-- The names of the numbers without digits have no hyphens. -/
theorem isChain_of_readNamed? (h : readNamed? negative text = some x) :
    text.IsChain MayPrecede := by
  refine isChain_of_hyphen_not_mem fun hmem => ?_
  have hname : '-' ∈ text.map Char.toLower := List.mem_map.2 ⟨'-', hmem, rfl⟩
  simp only [readNamed?, Bool.or_eq_true, beq_iff_eq] at h
  split at h
  · next heq =>
    rcases heq with heq | heq <;> rw [heq] at hname <;> exact absurd hname (by decide)
  · split at h
    · next heq =>
      rw [heq] at hname
      exact absurd hname (by decide)
    · simp at h

/-- In a text that is read as a number no hyphen stands behind a digit. -/
theorem isChain_of_parse? (h : parse? text = some x) : text.IsChain MayPrecede := by
  unfold parse? at h
  split at h
  next negative unsigned hsign =>
    have hchain : unsigned.IsChain MayPrecede := by
      split at h
      · next hdigits => exact isChain_of_readUnsigned? hdigits
      · exact isChain_of_readNamed? h
    split at hsign
    all_goals
      obtain ⟨-, rfl⟩ := Prod.mk.inj hsign
      first
      | exact isChain_cons_of_not_isDigit rfl hchain
      | exact hchain

end Number

/-! ## Hyphens in dates -/

namespace Timestamp

variable {input rest : List Char} {p p' : Parts}

/-- What is read of digits ends with one. -/
theorem exists_digit_of_readDigits? {least most : Nat} {digits : List Char} (hleast : 0 < least)
    (h : readDigits? least most input = some (digits, rest)) :
    ∃ before d, Text.isDigit d = true ∧ input = before ++ d :: rest := by
  simp only [readDigits?] at h
  split at h
  · simp at h
  · next hlength =>
    obtain ⟨hdigits, hrest⟩ := Prod.mk.inj (Option.some.inj h)
    have hprefix : digits <+: input := by
      rw [← hdigits]
      exact (List.takeWhile_prefix _).trans (List.take_prefix _ _)
    have hne : digits ≠ [] := by
      rw [← hdigits]
      exact List.ne_nil_of_length_pos (by omega)
    refine ⟨digits.dropLast, digits.getLast hne, ?_, ?_⟩
    · have hlast : digits.getLast hne ∈ (input.take most).takeWhile Text.isDigit :=
        hdigits ▸ List.getLast_mem hne
      exact List.mem_takeWhile_imp hlast
    · rw [List.append_cons, List.dropLast_append_getLast, ← hrest, hdigits]
      exact (List.prefix_iff_eq_append.1 hprefix).symm

/-- The items that read a field, at its full width or not. -/
def Item.IsField : Item → Prop
  | .full _ | .upTo _ => True
  | _ => False

/-- What is read of a field ends with a digit. -/
theorem exists_digit_of_readItem? {item : Item} (hfield : item.IsField)
    (h : readItem? item p input = some (p', rest)) :
    ∃ before d, Text.isDigit d = true ∧ input = before ++ d :: rest := by
  cases item with
  | full f =>
    obtain ⟨⟨digits, _⟩, hread, heq⟩ := Option.map_eq_some_iff.1 h
    obtain ⟨-, rfl⟩ := Prod.mk.inj heq
    exact exists_digit_of_readDigits? (by cases f <;> decide) hread
  | upTo f =>
    -- white space in front, and the sign of a year
    have hblank : ∃ blank, input = blank ++ skipBlank input :=
      ⟨_, List.takeWhile_append_dropWhile.symm⟩
    obtain ⟨blank, hinput⟩ := hblank
    simp only [readItem?] at h
    split at h
    all_goals
      obtain ⟨⟨digits, _⟩, hread, heq⟩ := Option.map_eq_some_iff.1 h
      obtain ⟨-, rfl⟩ := Prod.mk.inj heq
      obtain ⟨before, d, hd, hrest⟩ := exists_digit_of_readDigits? Nat.one_pos hread
    · next hskip _ => exact ⟨blank ++ '-' :: before, d, hd, by rw [hinput, hskip, hrest]; simp⟩
    · next hskip _ => exact ⟨blank ++ '+' :: before, d, hd, by rw [hinput, hskip, hrest]; simp⟩
    · exact ⟨blank ++ before, d, hd, by rw [hinput, hrest, List.append_assoc]⟩
  | oneOf characters => exact hfield.elim
  | space => exact hfield.elim
  | fraction => exact hfield.elim

/-- In front of the rest of a layout a field and a hyphen were read. -/
theorem exists_hyphen_of_readItems? (field : Item) (hfield : field.IsField) {items : List Item}
    {r : Parts × List Char} (h : readItems? (field :: .oneOf ['-'] :: items) p input = some r) :
    ∃ before d after, Text.isDigit d = true ∧ input = before ++ d :: '-' :: after := by
  rw [readItems?] at h
  split at h
  · next p₁ rest hread =>
    obtain ⟨before, d, hd, hinput⟩ := exists_digit_of_readItem? hfield hread
    rw [readItems?] at h
    split at h
    · next p₂ after hhyphen =>
      cases rest with
      | nil => simp [readItem?] at hhyphen
      | cons c rest =>
        simp only [readItem?] at hhyphen
        split at hhyphen
        · next hc =>
          obtain rfl : c = '-' := by simpa using hc
          exact ⟨before, d, rest, hd, hinput⟩
        · simp at hhyphen
    · simp at h
  · simp at h

theorem exists_hyphen_of_readUniversal? {items : List Item} {t : Timestamp}
    (h : readUniversal? (.upTo .year :: .oneOf ['-'] :: items) input = some t) :
    ∃ before d after, Text.isDigit d = true ∧ input = before ++ d :: '-' :: after := by
  unfold readUniversal? at h
  split at h
  · next hread => exact exists_hyphen_of_readItems? (.upTo .year) trivial hread
  · simp at h

theorem exists_hyphen_of_readFull? {t : Timestamp} (h : readFull? input = some t) :
    ∃ before d after, Text.isDigit d = true ∧ input = before ++ d :: '-' :: after := by
  unfold readFull? at h
  split at h
  · next hread => exact exists_hyphen_of_readItems? (.full .year) trivial hread
  · simp at h

/-- In a text that is read as a date a hyphen stands behind a digit. -/
theorem exists_hyphen_of_parse? {text : String} {t : Timestamp} (h : parse? text = some t) :
    ∃ before d after, Text.isDigit d = true ∧
      Text.trim text.toList = before ++ d :: '-' :: after := by
  simp only [parse?] at h
  split at h
  · simp at h
  · simp only [Option.orElse_eq_some] at h
    rcases h with h | ⟨-, h | ⟨-, h | ⟨-, h⟩⟩⟩
    · exact exists_hyphen_of_readFull? h
    all_goals exact exists_hyphen_of_readUniversal? h

end Timestamp

/-- A text that is read as a date is not read as a number. -/
theorem Atom.number?_of_parse? {text : String} {t : Timestamp}
    (h : Timestamp.parse? text = some t) : (Atom.text text).number? = none := by
  obtain ⟨before, d, after, hd, htext⟩ := Timestamp.exists_hyphen_of_parse? h
  rw [number?, Option.filter_eq_none_iff]
  intro x hx
  have hchain := Number.isChain_of_parse? hx
  rw [htext, List.isChain_append_cons_cons] at hchain
  exact absurd rfl (hchain.2.1 hd)

end Factbase
