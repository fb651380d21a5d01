import Mathlib.Data.List.TakeWhile
import Mathlib.Data.Nat.Cast.Field
import Factbase.Proofs.Rounding

/-! # Texts of numbers

A finite number is written with digits and at most one point, after a sign when it is negative. The
written value rounds to the number, so finite numbers with the same text have the same place in the
order (`Number.rank_eq_of_shortText_eq`): the zeros, which share a place, are both written `0`. The
other numbers are written with letters (`Number.isFinite_eq_of_shortText_eq`). -/

namespace Factbase

/-- Digits and points. -/
def IsPlain (text : List Char) : Prop := ∀ c ∈ text, c.isDigit = true ∨ c = '.'

/-- The value of digits with at most one point. -/
def plainValue (text : List Char) : ℚ :=
  Nat.ofDigitChars 10 (text.filter (· != '.')) 0 /
    10 ^ ((text.dropWhile (· != '.')).length - 1)

namespace Decimal

theorem isDigit_of_mem_digitChars {n : Nat} {c : Char} (h : c ∈ digitChars n) :
    c.isDigit = true :=
  Nat.isDigit_of_mem_toDigits (by decide) (by decide) h

/-- Digits hold no point. -/
theorem ne_point_of_isDigit {c : Char} (h : c.isDigit = true) : (c != '.') = true := by
  have hne : c ≠ '.' := by
    rintro rfl
    exact absurd h (by decide)
  simpa using hne

/-- Digits alone have the value that they have as a natural number. -/
theorem plainValue_of_isDigit {digits : List Char} (h : ∀ c ∈ digits, c.isDigit = true) :
    plainValue digits = Nat.ofDigitChars 10 digits 0 := by
  have hpoint : ∀ c ∈ digits, (c != '.') = true := fun c hc => ne_point_of_isDigit (h c hc)
  rw [plainValue, List.filter_eq_self.2 hpoint, List.dropWhile_eq_nil_iff.2 hpoint]
  simp

/-- Digits before and after a point are shifted by the number of those after it. -/
theorem plainValue_point {whole fraction : List Char} (hw : ∀ c ∈ whole, c.isDigit = true)
    (hf : ∀ c ∈ fraction, c.isDigit = true) :
    plainValue (whole ++ '.' :: fraction) =
      Nat.ofDigitChars 10 (whole ++ fraction) 0 / 10 ^ fraction.length := by
  have hpoint : ∀ c ∈ whole, (c != '.') = true := fun c hc => ne_point_of_isDigit (hw c hc)
  have hpoint' : ∀ c ∈ fraction, (c != '.') = true := fun c hc => ne_point_of_isDigit (hf c hc)
  have hfilter : (whole ++ '.' :: fraction).filter (· != '.') = whole ++ fraction := by
    rw [List.filter_append, List.filter_eq_self.2 hpoint, List.filter_cons_of_neg (by simp),
      List.filter_eq_self.2 hpoint']
  have hdrop : (whole ++ '.' :: fraction).dropWhile (· != '.') = '.' :: fraction := by
    rw [List.dropWhile_append_of_pos hpoint]
    simp
  rw [plainValue, hfilter, hdrop, List.length_cons, Nat.add_sub_cancel]

theorem value_digitChars (n : Nat) : Nat.ofDigitChars 10 (digitChars n) 0 = n :=
  Nat.ofDigitChars_toDigits (by decide) (by decide)

theorem digitChars_ne_nil (n : Nat) : digitChars n ≠ [] := Nat.toDigits_ne_nil

theorem isDigit_of_mem_zeros {n : Nat} {c : Char} (h : c ∈ List.replicate n '0') :
    c.isDigit = true := by
  rw [List.eq_of_mem_replicate h]
  decide

/-- Zeros in front leave the value of digits alone. -/
theorem value_zeros_append (n : Nat) (digits : List Char) :
    Nat.ofDigitChars 10 (List.replicate n '0' ++ digits) 0 = Nat.ofDigitChars 10 digits 0 := by
  rw [Nat.ofDigitChars_append, Nat.ofDigitChars_replicate_zero, Nat.mul_zero]

/-- What the positional layout looks like: digits, or digits around a point. -/
theorem exists_positional_eq (d : Decimal) :
    (∃ digits, d.positional = digits ∧ digits ≠ [] ∧ (∀ c ∈ digits, c.isDigit = true) ∧
      (Nat.ofDigitChars 10 digits 0 : ℚ) = d.value) ∨
    (∃ whole fraction, d.positional = whole ++ '.' :: fraction ∧ whole ≠ [] ∧ fraction ≠ [] ∧
      (∀ c ∈ whole, c.isDigit = true) ∧ (∀ c ∈ fraction, c.isDigit = true) ∧
      (Nat.ofDigitChars 10 (whole ++ fraction) 0 / 10 ^ fraction.length : ℚ) = d.value) := by
  unfold positional value
  cases hexponent : d.exponent with
  | ofNat e =>
    -- zeros follow the digits
    left
    dsimp only
    split
    · next hzero =>
      exact ⟨['0'], rfl, by simp, List.forall_mem_singleton.2 rfl,
        by simp [hzero, Nat.ofDigitChars]⟩
    · refine ⟨_, rfl, List.append_ne_nil_of_left_ne_nil (digitChars_ne_nil _) _, ?_, ?_⟩
      · intro c hc
        rcases List.mem_append.1 hc with hc | hc
        · exact isDigit_of_mem_digitChars hc
        · exact isDigit_of_mem_zeros hc
      · rw [Nat.ofDigitChars_append, Nat.ofDigitChars_replicate_zero, value_digitChars]
        push_cast
        rw [Int.ofNat_eq_natCast, zpow_natCast, mul_comm]
  | negSucc e =>
    -- zeros in front leave a digit before the point
    right
    dsimp only
    generalize hpadded : List.replicate (e + 1 + 1 - (digitChars d.digits).length) '0' ++
      digitChars d.digits = padded
    have hdigit : ∀ c ∈ padded, c.isDigit = true := by
      intro c hc
      rw [← hpadded] at hc
      rcases List.mem_append.1 hc with hc | hc
      · exact isDigit_of_mem_zeros hc
      · exact isDigit_of_mem_digitChars hc
    have hlength : e + 1 < padded.length := by
      rw [← hpadded, List.length_append, List.length_replicate]
      omega
    have hwhole : padded.take (padded.length - (e + 1)) ≠ [] := by
      rw [ne_eq, List.take_eq_nil_iff]
      rintro (hzero | hnil)
      · omega
      · simp [hnil] at hlength
    have hfraction : padded.drop (padded.length - (e + 1)) ≠ [] := by
      rw [ne_eq, List.drop_eq_nil_iff]
      omega
    refine ⟨_, _, rfl, hwhole, hfraction, fun c hc => hdigit c (List.mem_of_mem_take hc),
      fun c hc => hdigit c (List.mem_of_mem_drop hc), ?_⟩
    rw [List.take_append_drop, List.length_drop, ← hpadded, value_zeros_append, value_digitChars,
      hpadded, Nat.sub_sub_self hlength.le, zpow_negSucc, div_eq_mul_inv]

/-- The positional layout consists of digits and points. -/
theorem isPlain_positional (d : Decimal) : IsPlain d.positional := by
  intro c hc
  rcases exists_positional_eq d with
    ⟨digits, heq, -, hdigit, -⟩ | ⟨whole, fraction, heq, -, -, hw, hf, -⟩
  · exact .inl (hdigit c (heq ▸ hc))
  · rw [heq, List.mem_append, List.mem_cons] at hc
    rcases hc with hc | rfl | hc
    · exact .inl (hw c hc)
    · exact .inr rfl
    · exact .inl (hf c hc)

/-- The positional layout has the value of the decimal. -/
theorem plainValue_positional (d : Decimal) : plainValue d.positional = d.value := by
  rcases exists_positional_eq d with
    ⟨digits, heq, -, hdigit, hvalue⟩ | ⟨whole, fraction, heq, -, -, hw, hf, hvalue⟩
  · rw [heq, plainValue_of_isDigit hdigit, hvalue]
  · rw [heq, plainValue_point hw hf, hvalue]

end Decimal

namespace Number

/-- What a text writes: a sign, and a value with digits and at most one point. -/
def Writes (text : String) (negative : Bool) (v : ℚ) : Prop :=
  ∃ plain, text.toList = (if negative then '-' :: plain else plain) ∧ IsPlain plain ∧
    plainValue plain = v

theorem not_mem_minus {plain : List Char} (h : IsPlain plain) : '-' ∉ plain := by
  intro hmem
  rcases h '-' hmem with h | h
  · exact absurd h (by decide)
  · exact absurd h (by decide)

/-- A text writes one sign and one value. -/
theorem Writes.unique {text : String} {n₁ n₂ : Bool} {v₁ v₂ : ℚ} (h₁ : Writes text n₁ v₁)
    (h₂ : Writes text n₂ v₂) : n₁ = n₂ ∧ v₁ = v₂ := by
  obtain ⟨p₁, hp₁, hplain₁, rfl⟩ := h₁
  obtain ⟨p₂, hp₂, hplain₂, rfl⟩ := h₂
  rw [hp₁] at hp₂
  cases n₁ <;> cases n₂
  · exact ⟨rfl, congrArg plainValue hp₂⟩
  · have hp : p₁ = '-' :: p₂ := hp₂
    exact absurd (hp ▸ List.mem_cons_self) (not_mem_minus hplain₁)
  · have hp : '-' :: p₁ = p₂ := hp₂
    exact absurd (hp ▸ List.mem_cons_self) (not_mem_minus hplain₂)
  · have hp : '-' :: p₁ = '-' :: p₂ := hp₂
    exact ⟨rfl, congrArg plainValue (List.cons.inj hp).2⟩

/-- The digits of a whole number, with its sign. -/
theorem toList_toString (n : Int) : (toString n).toList =
    if decide (n < 0) then '-' :: Decimal.digitChars n.natAbs else Decimal.digitChars n.natAbs := by
  rw [Int.toString_eq_repr, Int.repr_eq_if]
  by_cases hn : n < 0
  · have habs : (-n).toNat = n.natAbs := by omega
    simp [hn, not_le.2 hn, habs, Decimal.digitChars]
  · have habs : n.toNat = n.natAbs := by omega
    simp [hn, not_lt.1 hn, habs, Decimal.digitChars]

/-- What a whole number is written as. -/
theorem writes_toString (n : Int) : Writes (toString n) (n < 0) n.natAbs := by
  refine ⟨Decimal.digitChars n.natAbs, toList_toString n,
    fun c hc => .inl (Decimal.isDigit_of_mem_digitChars hc), ?_⟩
  · rw [Decimal.plainValue_of_isDigit fun c hc => Decimal.isDigit_of_mem_digitChars hc,
      Decimal.value_digitChars]

/-- A whole number has exactly the value of its magnitude. -/
theorem wholeMagnitude?_eq {x : Float} {n : Nat} (h : wholeMagnitude? x = some n) :
    (n : ℚ) = exactValue (magnitude x) := by
  unfold wholeMagnitude? at h
  rw [exactValue, ← mantissa_eq, ← exponent_eq]
  split at h
  · next q hq =>
    rw [hq, ← Option.some.inj h]
    simp
  · next q hq =>
    simp only [Nat.pow_eq] at h
    split at h
    · next hdvd =>
      rw [hq, ← Option.some.inj h, Nat.cast_div (Nat.dvd_of_mod_eq_zero hdvd) (by positivity),
        zpow_negSucc, div_eq_mul_inv]
      push_cast
      rfl
    · simp at h

/-- A whole number other than zero has its sign and exactly the value of its magnitude. -/
theorem whole?_eq {x : Float} {n : Int} (h : whole? x = some n) (hx : 0 < magnitude x) :
    decide (n < 0) = isNegative x ∧ (n.natAbs : ℚ) = exactValue (magnitude x) := by
  unfold whole? at h
  split at h
  · obtain ⟨k, hk, rfl⟩ := Option.map_eq_some_iff.1 h
    have hvalue := wholeMagnitude?_eq hk
    have hpos : (0 : ℚ) < k := hvalue ▸ (rounds_exactValue hx).pos
    have hk0 : 0 < k := by exact_mod_cast hpos
    rw [← hvalue]
    cases isNegative x
    · simp
    · simp
      omega
  · simp at h

/-- Both zeros have the same text. -/
theorem shortText_eq_zero {x : Float} (hx : magnitude x = 0) :
    shortText x = toString (0 : Int) := by
  have hfinite : isFinite x = true := by simp [isFinite, hx, infiniteMagnitude]
  have hmagnitude : wholeMagnitude? x = some 0 := by
    have hm : mantissa x = 0 := by simp [mantissa, hx]
    unfold wholeMagnitude?
    rw [hm]
    split <;> simp
  have hwhole : whole? x = some 0 := by simp [whole?, hfinite, hmagnitude]
  rw [shortText, hwhole]
  rfl

/-- Zero is written without a sign. -/
theorem writes_zero {x : Float} (hx : magnitude x = 0) : Writes (shortText x) false 0 := by
  rw [shortText_eq_zero hx]
  exact writes_toString 0

/-- Finite numbers are numbers. -/
theorem isNaN_of_isFinite {x : Float} (h : isFinite x = true) : isNaN x = false := by
  simp only [isFinite, isNaN, decide_eq_true_eq, decide_eq_false_iff_not] at h ⊢
  omega

/-- The positional text of a finite number, with its sign. -/
theorem toList_text {x : Float} (hfinite : isFinite x = true) : (text x).toList =
    if isNegative x then '-' :: (Decimal.ofFloat .up x).positional
    else (Decimal.ofFloat .up x).positional := by
  simp [text, isNaN_of_isFinite hfinite, hfinite, signed]

/-- A finite number other than zero is written with its sign and a value that rounds to it. -/
theorem exists_writes {x : Float} (hfinite : isFinite x = true) (hx : 0 < magnitude x) :
    ∃ v, Writes (shortText x) (isNegative x) v ∧ Rounds (magnitude x) v := by
  have htext : ∃ v, Writes (text x) (isNegative x) v ∧ Rounds (magnitude x) v := by
    refine ⟨_, ⟨_, toList_text hfinite, Decimal.isPlain_positional _, rfl⟩, ?_⟩
    rw [Decimal.plainValue_positional]
    exact Decimal.rounds_ofFloat .up hx
  unfold shortText
  split
  · next n hwhole =>
    split
    · have hwrites := writes_toString n
      rw [(whole?_eq hwhole hx).1, (whole?_eq hwhole hx).2] at hwrites
      exact ⟨_, hwrites, rounds_exactValue hx⟩
    · exact htext
  · exact htext

/-- A finite number is written with digits and points after its sign. -/
theorem exists_writes_of_isFinite {x : Float} (hfinite : isFinite x = true) :
    ∃ negative v, Writes (shortText x) negative v := by
  rcases Nat.eq_zero_or_pos (magnitude x) with hx | hx
  · exact ⟨_, _, writes_zero hx⟩
  · obtain ⟨v, hv, -⟩ := exists_writes hfinite hx
    exact ⟨_, _, hv⟩

/-- Finite numbers with the same text have the same place in the order. -/
theorem rank_eq_of_shortText_eq {x y : Float} (hx : isFinite x = true) (hy : isFinite y = true)
    (h : shortText x = shortText y) : rank x = rank y := by
  rcases Nat.eq_zero_or_pos (magnitude x) with hx0 | hx0 <;>
    rcases Nat.eq_zero_or_pos (magnitude y) with hy0 | hy0
  · simp [rank, hx0, hy0]
  · obtain ⟨v, hv, hround⟩ := exists_writes hy hy0
    -- zero is written with the value zero, which rounds to no other number
    have hzero := ((h ▸ writes_zero hx0).unique hv).2
    exact absurd hround.pos (by rw [← hzero]; exact lt_irrefl _)
  · obtain ⟨v, hv, hround⟩ := exists_writes hx hx0
    have hzero := ((h ▸ hv).unique (writes_zero hy0)).2
    exact absurd hround.pos (by rw [hzero]; exact lt_irrefl _)
  · obtain ⟨v, hv, hround⟩ := exists_writes hx hx0
    obtain ⟨w, hw, hround'⟩ := exists_writes hy hy0
    obtain ⟨hsign, rfl⟩ := (h ▸ hv).unique hw
    rw [rank, rank, hsign, hround.unique hround']

/-- How a number that is not finite is written. -/
theorem shortText_of_not_isFinite {x : Float} (hx : isFinite x = false) :
    shortText x =
      if isNaN x then "NaN" else if isNegative x then "-inf" else "inf" := by
  have hwhole : whole? x = none := by simp [whole?, hx]
  rw [shortText, hwhole, text, hx, signed]
  cases isNaN x <;> cases isNegative x <;> rfl

/-- The text of a number that is not finite writes no value. -/
theorem not_writes_of_not_isFinite {x : Float} (hx : isFinite x = false) {negative : Bool} {v : ℚ} :
    ¬ Writes (shortText x) negative v := by
  rintro ⟨plain, heq, hplain, -⟩
  have hchars : ∀ c ∈ (shortText x).toList, c.isDigit = true ∨ c = '.' ∨ c = '-' := by
    intro c hc
    rw [heq] at hc
    cases negative with
    | false => exact (hplain c hc).imp_right .inl
    | true =>
      rcases List.mem_cons.1 hc with rfl | hc
      · exact .inr (.inr rfl)
      · exact (hplain c hc).imp_right .inl
  rw [shortText_of_not_isFinite hx] at hchars
  -- the texts that are left hold a letter
  split at hchars
  · exact absurd (hchars 'N' (by decide)) (by decide)
  · split at hchars
    · exact absurd (hchars 'n' (by decide)) (by decide)
    · exact absurd (hchars 'n' (by decide)) (by decide)

/-- Numbers with the same text are both finite, or neither is. -/
theorem isFinite_eq_of_shortText_eq {x y : Float} (h : shortText x = shortText y) :
    isFinite x = isFinite y := by
  cases hx : isFinite x <;> cases hy : isFinite y
  · rfl
  · obtain ⟨n, v, hv⟩ := exists_writes_of_isFinite hy
    exact absurd (h ▸ hv) (not_writes_of_not_isFinite hx)
  · obtain ⟨n, v, hv⟩ := exists_writes_of_isFinite hx
    exact absurd (h ▸ hv) (not_writes_of_not_isFinite hy)
  · rfl

/-- A number is determined by its sign and its magnitude. -/
theorem eq_of_magnitude_eq {x y : Float} (hmagnitude : magnitude x = magnitude y)
    (hnegative : isNegative x = isNegative y) : x = y := by
  have hbits : x.toBits = y.toBits := by
    rw [← UInt64.toNat_inj]
    have hx := x.toBits.toNat_lt
    have hy := y.toBits.toNat_lt
    simp only [magnitude, isNegative, decide_eq_decide] at hmagnitude hnegative
    omega
  obtain ⟨⟨bits, hvalid⟩⟩ := x
  obtain ⟨⟨bits', hvalid'⟩⟩ := y
  obtain rfl : bits = bits' := hbits
  rfl

/-- Numbers at one place in the order are the same, or both are zero. -/
theorem eq_or_of_rank_eq {x y : Float} (h : rank x = rank y) :
    x = y ∨ magnitude x = 0 ∧ magnitude y = 0 := by
  unfold rank at h
  by_cases hsign : isNegative x = isNegative y
  · refine .inl (eq_of_magnitude_eq ?_ hsign)
    rw [hsign] at h
    split at h <;> omega
  · -- what lies on both sides of zero is zero
    right
    cases hx : isNegative x <;> cases hy : isNegative y
    · simp [hx, hy] at hsign
    · rw [hx, hy, if_neg Bool.false_ne_true, if_pos rfl] at h
      omega
    · rw [hx, hy, if_pos rfl, if_neg Bool.false_ne_true] at h
      omega
    · simp [hx, hy] at hsign

/-- NaN is not finite. -/
theorem isFinite_of_isNaN {x : Float} (h : isNaN x = true) : isFinite x = false := by
  cases hfinite : isFinite x with
  | false => rfl
  | true =>
    rw [isNaN_of_isFinite hfinite] at h
    exact absurd h Bool.false_ne_true

/-- NaN is written in letters. -/
theorem shortText_of_isNaN {x : Float} (h : isNaN x = true) : shortText x = "NaN" := by
  rw [shortText_of_not_isFinite (isFinite_of_isNaN h), if_pos h]

/-- What is written like NaN is NaN. -/
theorem isNaN_eq_of_shortText_eq {x y : Float} (h : shortText x = shortText y) :
    isNaN x = isNaN y := by
  have hnan : ∀ {x y : Float}, shortText x = shortText y → isNaN x = true → isNaN y = true := by
    intro x y h hx
    have hy : isFinite y = false := isFinite_eq_of_shortText_eq h ▸ isFinite_of_isNaN hx
    by_contra hne
    rw [shortText_of_isNaN hx, shortText_of_not_isFinite hy, if_neg hne] at h
    split at h <;> exact absurd h (by decide)
  rw [Bool.eq_iff_iff]
  exact ⟨hnan h, hnan h.symm⟩

/-- Numbers other than NaN with the same text have the same place in the order. -/
theorem rank_eq_of_not_isNaN {x y : Float} (h : shortText x = shortText y)
    (hx : isNaN x = false) (hy : isNaN y = false) : rank x = rank y := by
  have hfinite := isFinite_eq_of_shortText_eq h
  cases hfx : isFinite x with
  | true => exact rank_eq_of_shortText_eq hfx (hfinite ▸ hfx) h
  | false =>
    -- the infinities have one magnitude, and the sign is written
    have hfy : isFinite y = false := hfinite ▸ hfx
    rw [shortText_of_not_isFinite hfx, shortText_of_not_isFinite hfy, hx, hy] at h
    simp only [isNaN, isFinite, decide_eq_false_iff_not] at hx hy hfx hfy
    have hmagnitude : magnitude x = magnitude y := by omega
    have hsign : isNegative x = isNegative y := by
      cases hsx : isNegative x <;> cases hsy : isNegative y <;> simp [hsx, hsy] at h ⊢
    rw [rank, rank, hmagnitude, hsign]

/-- Numbers are written alike if and only if they are equal or both NaN. -/
theorem shortText_eq_iff {x y : Float} :
    shortText x = shortText y ↔ equals x y = true ∨ isNaN x = true ∧ isNaN y = true := by
  constructor
  · intro h
    have hnan := isNaN_eq_of_shortText_eq h
    cases hx : isNaN x with
    | true => exact .inr ⟨rfl, hnan ▸ hx⟩
    | false =>
      have hy : isNaN y = false := hnan ▸ hx
      exact .inl (by simp [equals, hx, hy, rank_eq_of_not_isNaN h hx hy])
  · rintro (h | ⟨hx, hy⟩)
    · simp only [equals, Bool.and_eq_true, beq_iff_eq] at h
      rcases eq_or_of_rank_eq h.2 with rfl | ⟨hx, hy⟩
      · rfl
      · rw [shortText_eq_zero hx, shortText_eq_zero hy]
    · rw [shortText_of_isNaN hx, shortText_of_isNaN hy]

/-- The characters of the text of a number. -/
theorem mem_shortText {x : Float} {c : Char} (h : c ∈ (shortText x).toList) :
    c.isDigit = true ∨ c ∈ ['.', '-', 'N', 'a', 'i', 'n', 'f'] := by
  cases hfinite : isFinite x with
  | true =>
    obtain ⟨negative, v, plain, heq, hplain, -⟩ := exists_writes_of_isFinite hfinite
    rw [heq] at h
    have hmem : ∀ c ∈ plain, c.isDigit = true ∨ c ∈ ['.', '-', 'N', 'a', 'i', 'n', 'f'] := by
      intro c hc
      rcases hplain c hc with hdigit | rfl
      · exact .inl hdigit
      · exact .inr (by decide)
    cases negative with
    | false => exact hmem c h
    | true =>
      rcases List.mem_cons.1 h with rfl | h
      · exact .inr (by decide)
      · exact hmem c h
  | false =>
    right
    have hwords : ∀ text ∈ ["NaN", "-inf", "inf"],
        text.toList ⊆ ['.', '-', 'N', 'a', 'i', 'n', 'f'] := by decide
    rw [shortText_of_not_isFinite hfinite] at h
    split at h
    · exact hwords "NaN" (by decide) h
    · split at h
      · exact hwords "-inf" (by decide) h
      · exact hwords "inf" (by decide) h

end Number

end Factbase
