import Factbase.Atom
import Factbase.Proofs.DecimalReading

/-! # Numerals that are read back

A finite number is written as a plain `Numeral`: a sign, digits, and digits after a point where
there are any. Such a numeral is read as the number to which its value rounds, so the text of a
finite number is read as a number with the same place in the order (`Number.exists_numeral`), also
where other text follows (`Number.Numeral.leadingNumeral_append`). -/

namespace Factbase

/-- Characters of a kind are told from what stands after them and starts with another kind. -/
theorem takeWhile_append_of_head? {p : Char → Bool} {front rest : List Char}
    (h : ∀ c ∈ front, p c = true) (hrest : ∀ c, rest.head? = some c → p c = false) :
    (front ++ rest).takeWhile p = front ∧ (front ++ rest).dropWhile p = rest := by
  have hnone : rest.takeWhile p = [] ∧ rest.dropWhile p = rest := by
    cases rest with
    | nil => exact ⟨rfl, rfl⟩
    | cons c rest => simp [hrest c rfl]
  rw [List.takeWhile_append_of_pos h, List.dropWhile_append_of_pos h, hnone.1, hnone.2,
    List.append_nil]
  exact ⟨rfl, rfl⟩

namespace Number

/-! ## Plain numerals -/

/-- A plain numeral: a sign, digits, and digits after a point. -/
structure Numeral where
  negative : Bool
  whole : List Char
  fraction : List Char
  whole_ne_nil : whole ≠ []
  isDigit_whole : ∀ c ∈ whole, Text.isDigit c = true
  isDigit_fraction : ∀ c ∈ fraction, Text.isDigit c = true

namespace Numeral

variable {n : Numeral} {rest : List Char}

/-- The digits after the point, with the point when there are any. -/
def pointed (n : Numeral) : List Char := if n.fraction = [] then [] else '.' :: n.fraction

/-- The digits with the point. -/
def unsigned (n : Numeral) : List Char := n.whole ++ n.pointed

/-- The numeral as written. -/
def text (n : Numeral) : List Char := if n.negative then '-' :: n.unsigned else n.unsigned

/-- The number that is read. -/
def number (n : Numeral) : Float := ofParts n.negative n.whole n.fraction 0

/-- A numeral starts with a digit, or with a sign in front of a digit. -/
theorem exists_text_eq (n : Numeral) :
    ∃ c more, n.text = c :: more ∧
      (Text.isDigit c = true ∨ c = '-' ∧ more.head?.any Text.isDigit = true) := by
  obtain ⟨d, digits, hwhole⟩ := List.exists_cons_of_ne_nil n.whole_ne_nil
  have hdigit := n.isDigit_whole d (by rw [hwhole]; exact List.mem_cons_self)
  have hunsigned : n.unsigned = d :: (digits ++ n.pointed) := by rw [unsigned, hwhole]; rfl
  unfold text
  split
  · exact ⟨_, _, rfl, .inr ⟨rfl, by rw [hunsigned]; exact hdigit⟩⟩
  · exact ⟨_, _, hunsigned, .inl hdigit⟩

/-- A text does not go on with a numeral: it starts neither with a digit nor, where the numeral has
no point, with a point and a digit. -/
structure Ends (n : Numeral) (rest : List Char) : Prop where
  digit : ∀ c, rest.head? = some c → Text.isDigit c = false
  point : n.fraction = [] → ∀ c more, rest = '.' :: c :: more → Text.isDigit c = false

theorem ends_nil (n : Numeral) : n.Ends [] := ⟨by simp, by simp⟩

/-- What stands after the whole part does not start with a digit. -/
theorem head?_pointed_append (hrest : ∀ c, rest.head? = some c → Text.isDigit c = false)
    {c : Char} (h : (n.pointed ++ rest).head? = some c) : Text.isDigit c = false := by
  unfold pointed at h
  split at h
  · exact hrest c h
  · obtain rfl : '.' = c := by simpa using h
    rfl

/-- A numeral that stands in front of a text is told from it, where the text does not go on with
it. -/
theorem leadingNumeral_append (n : Numeral) (hrest : n.Ends rest) :
    leadingNumeral (n.text ++ rest) = n.text := by
  have hdigit := hrest.digit
  obtain ⟨sign, hsign⟩ : ∃ sign : List Char, sign = if n.negative then ['-'] else [] := ⟨_, rfl⟩
  have htext : n.text = sign ++ (n.whole ++ n.pointed) := by
    rw [text, hsign]
    cases n.negative <;> rfl
  have hfirst : ((n.text ++ rest).take 1).filter (· == '-') = sign := by
    obtain ⟨c, more, hc⟩ := List.exists_cons_of_ne_nil n.whole_ne_nil
    have hdigit' := n.isDigit_whole c (by rw [hc]; exact List.mem_cons_self)
    have hne : c ≠ '-' := by
      rintro rfl
      exact absurd hdigit' (by decide)
    rw [htext, hsign, hc]
    cases n.negative <;> simp [hne]
  have hdrop : (n.text ++ rest).drop sign.length = n.whole ++ (n.pointed ++ rest) := by
    rw [htext, List.append_assoc, List.drop_left, List.append_assoc]
  have hwhole : (n.whole ++ (n.pointed ++ rest)).takeWhile Text.isDigit = n.whole :=
    (takeWhile_append_of_head? n.isDigit_whole fun c => head?_pointed_append hdigit).1
  have hdrop' : (n.text ++ rest).drop (sign.length + n.whole.length) = n.pointed ++ rest := by
    rw [← List.drop_drop, hdrop, List.drop_left]
  unfold leadingNumeral
  simp only [hfirst, hdrop, hwhole, hdrop']
  rw [htext, List.append_assoc]
  congr 2
  by_cases hnil : n.fraction = []
  · rw [pointed, if_pos hnil, List.nil_append]
    split
    · next c more => rw [hrest.point hnil c more rfl, if_neg Bool.false_ne_true]
    · rfl
  · obtain ⟨d, more, hmore⟩ := List.exists_cons_of_ne_nil hnil
    have hd := n.isDigit_fraction d (by rw [hmore]; exact List.mem_cons_self)
    have htake := (takeWhile_append_of_head? n.isDigit_fraction hdigit).1
    rw [hmore, List.cons_append] at htake
    rw [pointed, if_neg hnil, hmore, List.cons_append, List.cons_append]
    simp only [hd, if_true, htake]

/-- The digits of a numeral are read. -/
theorem readUnsigned?_unsigned (n : Numeral) :
    readUnsigned? n.negative n.unsigned = some n.number := by
  have hend := n.ends_nil.digit
  have hpoint : ∀ c, n.pointed.head? = some c → Text.isDigit c = false := by
    intro c hc
    rw [← List.append_nil n.pointed] at hc
    exact head?_pointed_append hend hc
  have hwhole := takeWhile_append_of_head? n.isDigit_whole hpoint
  have hfraction := takeWhile_append_of_head? n.isDigit_fraction hend
  rw [List.append_nil] at hfraction
  have hne : n.whole.isEmpty = false := by simpa using n.whole_ne_nil
  unfold readUnsigned?
  simp only [unsigned, List.span_eq_takeWhile_dropWhile, hwhole]
  by_cases hnil : n.fraction = []
  · simp [pointed, hnil, hne, readExponent?, number]
  · simp [pointed, hnil, hne, hfraction, readExponent?, number]

/-- A numeral is read. -/
theorem parse?_text (n : Numeral) : parse? n.text = some n.number := by
  have hread := n.readUnsigned?_unsigned
  cases hnegative : n.negative with
  | true =>
    rw [hnegative] at hread
    simp only [parse?, text, hnegative, if_true, hread]
  | false =>
    rw [hnegative] at hread
    obtain ⟨c, more, hc⟩ := List.exists_cons_of_ne_nil n.whole_ne_nil
    have hdigit := n.isDigit_whole c (by rw [hc]; exact List.mem_cons_self)
    have hunsigned : n.unsigned = c :: (more ++ n.pointed) := by rw [unsigned, hc]; rfl
    have htext : n.text = c :: (more ++ n.pointed) := by simp [text, hnegative, hunsigned]
    rw [hunsigned] at hread
    -- a digit is no sign
    rw [htext, parse?, hread]
    · exact fun ds heq => absurd ((List.cons.inj heq).1 ▸ hdigit) (by decide)
    · exact fun ds heq => absurd ((List.cons.inj heq).1 ▸ hdigit) (by decide)

/-- The value of a numeral without its sign. -/
def value (n : Numeral) : ℚ :=
  Nat.ofDigitChars 10 (n.whole ++ n.fraction) 0 / 10 ^ n.fraction.length

theorem value_eq (n : Numeral) :
    n.value = digitsValue (n.whole ++ n.fraction) * 10 ^ (0 - (n.fraction.length : Int)) := by
  rw [value, zero_sub, zpow_neg, zpow_natCast, ← div_eq_mul_inv]
  rfl

/-- A numeral is read as the number to which its value rounds. -/
theorem magnitude_number {M : Nat} (hM : 0 < M) (hfinite : M < infiniteMagnitude)
    (hround : Rounds M n.value) :
    magnitude n.number = M ∧ isNegative n.number = n.negative := by
  rw [value_eq] at hround
  exact magnitude_ofDecimal hM hfinite hround

end Numeral

/-! ## Texts of numbers -/

/-- A number that has the sign and the magnitude of a finite number equals it. -/
theorem equals_of_magnitude {x y : Float} (hfinite : isFinite x = true)
    (hmagnitude : magnitude y = magnitude x) (hnegative : isNegative y = isNegative x) :
    equals x y = true := by
  have hnan : isNaN x = false := by
    rw [isFinite, decide_eq_true_eq] at hfinite
    simp only [isNaN, decide_eq_false_iff_not]
    omega
  have hnan' : isNaN y = false := by rw [isNaN, hmagnitude]; exact hnan
  have hrank : rank y = rank x := by rw [rank, hmagnitude, hnegative]; rfl
  simp [equals, hnan, hnan', hrank]

namespace Numeral

/-- Digits alone. -/
def ofDigits (negative : Bool) (digits : List Char) (hne : digits ≠ [])
    (hdigit : ∀ c ∈ digits, c.isDigit = true) : Numeral :=
  ⟨negative, digits, [], hne, hdigit, by simp⟩

theorem value_ofDigits {negative : Bool} {digits : List Char} (hne : digits ≠ [])
    (hdigit : ∀ c ∈ digits, c.isDigit = true) :
    (ofDigits negative digits hne hdigit).value = Nat.ofDigitChars 10 digits 0 := by
  simp [value, ofDigits]

theorem text_ofDigits {negative : Bool} {digits : List Char} (hne : digits ≠ [])
    (hdigit : ∀ c ∈ digits, c.isDigit = true) :
    (ofDigits negative digits hne hdigit).text = if negative then '-' :: digits else digits := by
  simp [text, unsigned, pointed, ofDigits]

/-- A whole number is written as a numeral without a point. -/
def ofInt (k : Int) : Numeral :=
  ofDigits (k < 0) (Decimal.digitChars k.natAbs) (Decimal.digitChars_ne_nil _)
    fun _ => Decimal.isDigit_of_mem_digitChars

theorem text_ofInt (k : Int) : (ofInt k).text = (toString k).toList := by
  rw [ofInt, text_ofDigits, toList_toString]

theorem value_ofInt (k : Int) : (ofInt k).value = k.natAbs := by
  rw [ofInt, value_ofDigits, Decimal.value_digitChars]

/-- What writes a number other than zero: its sign and a value that rounds to it. -/
structure Shows (n : Numeral) (x : Float) : Prop where
  negative_eq : n.negative = isNegative x
  rounds : Rounds (magnitude x) n.value

theorem Shows.equals {n : Numeral} {x : Float} (h : n.Shows x) (hx : 0 < magnitude x)
    (hfinite : isFinite x = true) : Number.equals x n.number = true := by
  obtain ⟨hmagnitude, hnegative⟩ :=
    magnitude_number hx (of_decide_eq_true hfinite) h.rounds
  exact equals_of_magnitude hfinite hmagnitude (hnegative.trans h.negative_eq)

/-- The positional text of a number shows it. -/
theorem exists_shows_text {x : Float} (hx : 0 < magnitude x) (hfinite : isFinite x = true) :
    ∃ n : Numeral, (Number.text x).toList = n.text ∧ n.Shows x := by
  have hround := Decimal.rounds_ofFloat .up hx
  rw [toList_text hfinite]
  rcases Decimal.exists_positional_eq (Decimal.ofFloat .up x) with
    ⟨digits, heq, hne, hdigit, hvalue⟩ | ⟨whole, fraction, heq, hne, hne', hw, hf, hvalue⟩
  · refine ⟨ofDigits (isNegative x) digits hne hdigit, ?_, rfl, ?_⟩
    · rw [text_ofDigits, heq]
    · rwa [value_ofDigits, hvalue]
  · refine ⟨⟨isNegative x, whole, fraction, hne, hw, hf⟩, ?_, rfl, ?_⟩
    · rw [heq]
      simp [text, unsigned, pointed, hne']
    · rwa [value, hvalue]

end Numeral

/-- The text of a finite number is a numeral, which is read as a number that equals it. -/
theorem exists_numeral {x : Float} (hfinite : isFinite x = true) :
    ∃ n : Numeral, (shortText x).toList = n.text ∧ equals x n.number = true := by
  rcases Nat.eq_zero_or_pos (magnitude x) with hx | hx
  · refine ⟨.ofInt 0, by rw [Numeral.text_ofInt, shortText_eq_zero hx], ?_⟩
    have hzero : magnitude (Numeral.ofInt 0).number = 0 := by decide +kernel
    simp [equals, isNaN, rank, hzero, hx]
  · have htext : ∃ n : Numeral, (text x).toList = n.text ∧ equals x n.number = true := by
      obtain ⟨n, hn, hshows⟩ := Numeral.exists_shows_text hx hfinite
      exact ⟨n, hn, hshows.equals hx hfinite⟩
    unfold shortText
    split
    · next k hwhole =>
      split
      · obtain ⟨hsign, hvalue⟩ := whole?_eq hwhole hx
        have hshows : (Numeral.ofInt k).Shows x := by
          refine ⟨hsign, ?_⟩
          rw [Numeral.value_ofInt, hvalue]
          exact rounds_exactValue hx
        exact ⟨_, (Numeral.text_ofInt k).symm, hshows.equals hx hfinite⟩
      · exact htext
    · exact htext

end Number

end Factbase
