import Factbase.Proofs.NumberText
import Factbase.Proofs.RoundedOperations

/-! # Numbers of decimals

A decimal that is read becomes the number to which its value rounds (`Number.magnitude_ofDecimal`),
on the short way over products and quotients of numbers that are exact, and on the long way over
large natural numbers. The shortcuts for huge exponents take no part in it: what is in range stays
clear of them.

So a natural number below `2 ^ 53` keeps its value (`Number.whole?_ofNat`). -/

namespace Factbase.Number

open Float.Model Float.Model.UnpackedFloat

/-! ## Range -/

/-- Half of the last place beyond the largest finite number. -/
def finiteBound : ℚ := 2 ^ 1024 - 2 ^ 970

theorem midpoint_pred_infiniteMagnitude : midpoint (infiniteMagnitude - 1) = finiteBound := by
  have hmantissa : mantissaOf (infiniteMagnitude - 1) = 2 ^ 53 - 1 := by decide
  have hexponent : exponentOf (infiniteMagnitude - 1) - 2 = (969 : ℕ) := by decide
  have hhigh : (2 : ℚ) ^ 1024 = 2 ^ 55 * 2 ^ 969 := by rw [← pow_add]
  have hlow : (2 : ℚ) ^ 970 = 2 * 2 ^ 969 := by rw [← pow_succ']
  rw [midpoint, hmantissa, hexponent, zpow_natCast, finiteBound, hhigh, hlow, ← sub_mul]
  norm_num

/-- What rounds to a finite number is below this bound. -/
theorem Rounds.lt_finiteBound_iff {M : Nat} {v : ℚ} (h : Rounds M v) :
    v < finiteBound ↔ M < infiniteMagnitude := by
  rw [← midpoint_pred_infiniteMagnitude]
  constructor
  · intro hv
    by_contra hM
    have hle : midpoint (infiniteMagnitude - 1) ≤ midpoint (M - 1) :=
      strictMono_midpoint.monotone (by omega)
    exact absurd (hle.trans h.bounds.1) hv.not_ge
  · intro hM
    rcases Nat.lt_or_ge M (infiniteMagnitude - 1) with hlt | hge
    · exact h.bounds.2.trans_lt (strictMono_midpoint hlt)
    · -- the largest finite number has an odd mantissa, to which its upper midpoint does not round
      obtain rfl : M = infiniteMagnitude - 1 := by omega
      exact (h.bounds_of_odd (by decide)).2

theorem finiteBound_lt : finiteBound < 2 ^ (1024 : Int) := by
  have hpos : (0 : ℚ) < 2 ^ 970 := by positivity
  exact sub_lt_self _ hpos

/-- A value below the bound has no huge exponent. -/
theorem exponent_lt {m : Nat} {e : Int} (hm : 0 < m) (hv : (m * 10 ^ e : ℚ) < finiteBound) :
    e < 1024 := by
  by_contra hlarge
  have hm' : (1 : ℚ) ≤ m := by exact_mod_cast hm
  have hle : (2 : ℚ) ^ (1024 : Int) ≤ m * 10 ^ e :=
    calc (2 : ℚ) ^ (1024 : Int) ≤ 2 ^ e := zpow_le_zpow_right₀ (by norm_num) (by omega)
      _ ≤ 10 ^ e := zpow_le_zpow_left₀ (by omega) (by norm_num) (by norm_num)
      _ ≤ m * 10 ^ e := le_mul_of_one_le_left (by positivity) hm'
  exact absurd (hv.trans finiteBound_lt) hle.not_gt

theorem pos_of_midpoint_lt {m : Nat} {e : Int} (hv : midpoint 0 < m * 10 ^ e) : 0 < m := by
  have hpos : (0 : ℚ) < midpoint 0 := by
    rw [midpoint_zero]
    positivity
  rw [Nat.pos_iff_ne_zero]
  rintro rfl
  rw [Nat.cast_zero, zero_mul] at hv
  exact hpos.not_gt hv

/-- A value beyond half of the least number has no exponent far below zero. -/
theorem lt_exponent {m : Nat} {e : Int} (hv : midpoint 0 < m * 10 ^ e) :
    -((m.log2 : Int) + 1076) < e := by
  by_contra hsmall
  obtain ⟨k, rfl⟩ : ∃ k : Nat, e = -k := ⟨(-e).toNat, by omega⟩
  have hmax : (m : ℚ) ≤ 2 ^ (m.log2 + 1) := by exact_mod_cast Nat.lt_log2_self.le
  have hle : (m : ℚ) * 10 ^ (-(k : Int)) ≤ 2 ^ (-1075 : Int) :=
    calc (m : ℚ) * 10 ^ (-(k : Int)) ≤ 2 ^ (m.log2 + 1) * 2 ^ (-(k : Int)) := by
          simp only [zpow_neg, zpow_natCast]
          gcongr
          norm_num
      _ = 2 ^ (((m.log2 + 1 : ℕ) : Int) + -(k : Int)) := by
          rw [zpow_add₀ (by norm_num), zpow_natCast]
      _ ≤ 2 ^ (-1075 : Int) := zpow_le_zpow_right₀ (by norm_num) (by omega)
  rw [midpoint_zero] at hv
  exact absurd hv hle.not_gt

/-! ## The long way -/

/-- A decimal, rounded. -/
theorem isRounding_ofScientific {m : Nat} {e : Int} (hm : 0 < m) (hhigh : e ≤ 2048)
    (hlow : -(2048 + (m.log2 : Int)) ≤ e) :
    IsRounding (UnpackedFloat.ofScientific Format.binary64 m e) (m * 10 ^ e) := by
  have hlimit : (2 ^ Format.binary64.exponentBits : Int) = 2048 := by norm_num
  unfold UnpackedFloat.ofScientific
  rw [dif_neg hm.ne', hlimit, if_neg (by omega), if_neg (by omega)]
  split
  · next hnonneg =>
    obtain ⟨k, rfl⟩ := Int.eq_ofNat_of_zero_le hnonneg
    have hpow : 0 < 10 ^ (k : Int).toNat := by positivity
    have hlarge : 2 ^ 52 ≤ m <<< 53 * 10 ^ (k : Int).toNat := by
      rw [Nat.shiftLeft_eq]
      calc 2 ^ 52 ≤ 1 * 2 ^ 53 * 1 := by norm_num
        _ ≤ m * 2 ^ 53 * 10 ^ (k : Int).toNat := by
          gcongr
          · exact hm
          · exact hpow
    have hne : m <<< 53 * 10 ^ (k : Int).toNat ≠ 0 := by omega
    have hvalue : ((m <<< Format.binary64.mantissaBits : ℕ) : ℚ) *
        2 ^ (-(Format.binary64.mantissaBits : Int)) *
          ((10 ^ (k : Int).toNat : ℕ) * 2 ^ (0 : Int)) = m * 10 ^ (k : Int) := by
      generalize Format.binary64.mantissaBits = c
      rw [Nat.shiftLeft_eq, Int.toNat_natCast, zpow_neg, zpow_natCast, zpow_natCast]
      push_cast
      field_simp
    rw [← hvalue]
    exact isRounding_mul ((Nat.le_log2 hne).2 hlarge)
  · next hneg =>
    obtain ⟨k, rfl⟩ : ∃ k : Nat, e = -k := ⟨(-e).toNat, by omega⟩
    have hvalue : (m : ℚ) * 2 ^ (0 : Int) / ((10 ^ (- -(k : Int)).toNat : ℕ) * 2 ^ (0 : Int)) =
        m * 10 ^ (-(k : Int)) := by
      rw [neg_neg, Int.toNat_natCast, zpow_neg, zpow_natCast]
      push_cast
      field_simp
    rw [← hvalue]
    exact isRounding_div

/-! ## The short way -/

/-- A positive number that is exactly a natural number. -/
structure IsNat (x : Float) (n : Nat) : Prop where
  isFinite_eq : isFinite x = true
  isNegative_eq : isNegative x = false
  normal : 2 ^ 52 ≤ magnitude x
  value_eq : exactValue (magnitude x) = n

/-- The powers of ten that are kept are powers of ten. -/
theorem isNat_powersOfTen {e : Nat} (h : e < Float.exactlyRepresentablePowersOfTen.size) :
    IsNat Float.exactlyRepresentablePowersOfTen[e] (10 ^ e) := by
  have hall : ∀ e : Fin 23, ∀ x, Float.exactlyRepresentablePowersOfTen[e.val]? = some x →
      isFinite x = true ∧ isNegative x = false ∧ 2 ^ 52 ≤ magnitude x ∧
        wholeMagnitude? x = some (10 ^ e.val) := by
    decide +kernel
  obtain ⟨hfinite, hsign, hnormal, hvalue⟩ := hall ⟨e, h⟩ _ (Array.getElem?_eq_getElem h)
  exact ⟨hfinite, hsign, hnormal, (wholeMagnitude?_eq hvalue).symm⟩

/-- A natural number below `2 ^ 53` is the value of a number. -/
theorem exists_exactValue_eq {n : Nat} (hn : 0 < n) (hlt : n < 2 ^ 53) :
    ∃ M, 2 ^ 52 ≤ M ∧ M < infiniteMagnitude ∧ exactValue M = n := by
  have hlog : n.log2 < 53 := (Nat.log2_lt hn.ne').2 hlt
  obtain ⟨k, hk⟩ : ∃ k, n.log2 + k = 52 := ⟨52 - n.log2, by omega⟩
  have hlow := Nat.log2_self_le hn.ne'
  have hhigh : n < 2 ^ (n.log2 + 1) := Nat.lt_log2_self
  have hlow' : 2 ^ 52 ≤ n * 2 ^ k := by
    rw [← hk, pow_add]
    gcongr
  have hhigh' : n * 2 ^ k < 2 ^ 53 := by
    have hexponent : 53 = n.log2 + 1 + k := by omega
    rw [hexponent, pow_add]
    gcongr
  have hcanonical : IsCanonical (n * 2 ^ k) (-k) := by
    constructor <;> omega
  refine ⟨magnitudeOf (n * 2 ^ k) (-k), ?_, ?_, ?_⟩
  · unfold magnitudeOf
    omega
  · unfold magnitudeOf infiniteMagnitude
    omega
  · rw [exactValue, hcanonical.mantissaOf_eq, hcanonical.exponentOf_eq, zpow_neg, zpow_natCast]
    push_cast
    field_simp

/-- A natural number below `2 ^ 53` becomes a number without loss. -/
theorem isNat_toFloat {n : Nat} (hn : 0 < n) (hlt : n < 2 ^ 53) : IsNat n.toUInt64.toFloat n := by
  obtain ⟨M, hnormal, hfinite, hvalue⟩ := exists_exactValue_eq hn hlt
  have hM : 0 < M := by omega
  have hnat : n.toUInt64.toNat = n := by
    rw [Nat.toUInt64, UInt64.toNat_ofNat']
    omega
  have hhas : Has (UnpackedFloat.ofUInt64 Format.binary64 n.toUInt64) false M := by
    rw [UnpackedFloat.ofUInt64, hnat]
    exact (isRounding_ofNat hn).has (hvalue ▸ rounds_exactValue hM) hM
  obtain ⟨hmagnitude, hsign⟩ := hhas.pack hM hfinite
  exact ⟨decide_eq_true (hmagnitude ▸ hfinite), hsign, hmagnitude ▸ hnormal, hmagnitude ▸ hvalue⟩

namespace IsNat

variable {x y : Float} {a b M : Nat}

/-- The operations take such a number apart into its mantissa and its exponent. -/
theorem unpack_eq (h : IsNat x a) :
    ∃ hpos, x.toModel.unpack = .finite .positive (mantissa x) (exponent x) hpos := by
  have hhas := has_unpack ((by norm_num : 0 < 2 ^ 52).trans_le h.normal) h.isFinite_eq
  rwa [h.isNegative_eq] at hhas

/-- The product rounds to nearest. -/
theorem mul (hx : IsNat x a) (hy : IsNat y b) (hM : 0 < M) (hfinite : M < infiniteMagnitude)
    (hround : Rounds M (a * b)) : magnitude (x * y) = M ∧ isNegative (x * y) = false := by
  obtain ⟨hposx, hunpackx⟩ := hx.unpack_eq
  obtain ⟨hposy, hunpacky⟩ := hy.unpack_eq
  have hlarge : 2 ^ 52 ≤ mantissa x * mantissa y := by
    have hlarge : 2 ^ 52 ≤ mantissa x := by
      have hnormal := hx.normal
      rw [mantissa_eq, mantissaOf]
      split <;> omega
    exact hlarge.trans (Nat.le_mul_of_pos_right _ hposy)
  have hhas : Has (UnpackedFloat.mul Format.binary64 x.toModel.unpack y.toModel.unpack)
      false M := by
    rw [hunpackx, hunpacky]
    rw [← hx.value_eq, ← hy.value_eq] at hround
    exact (isRounding_mul ((Nat.le_log2 (by omega)).2 hlarge)).has hround hM
  exact hhas.pack hM hfinite

/-- The quotient rounds to nearest. -/
theorem div (hx : IsNat x a) (hy : IsNat y b) (hM : 0 < M) (hfinite : M < infiniteMagnitude)
    (hround : Rounds M (a / b)) : magnitude (x / y) = M ∧ isNegative (x / y) = false := by
  obtain ⟨hposx, hunpackx⟩ := hx.unpack_eq
  obtain ⟨hposy, hunpacky⟩ := hy.unpack_eq
  have hhas : Has (UnpackedFloat.div Format.binary64 x.toModel.unpack y.toModel.unpack)
      false M := by
    rw [hunpackx, hunpacky]
    rw [← hx.value_eq, ← hy.value_eq] at hround
    exact isRounding_div.has hround hM
  exact hhas.pack hM hfinite

end IsNat

variable {m M e : Nat}

/-- The exponent of a decimal whose last digit stands that many places up or down. -/
def signedExponent (down : Bool) (e : Nat) : Int := if down then -(e : Int) else e

/-- Where the short way is not taken, the exponents are compared first. -/
theorem ofScientific_of_long (hlong : ¬ (m < 2 ^ 53 ∧ e ≤ 22)) :
    Float.ofScientific m down e = .ofModel (.pack
      (UnpackedFloat.ofScientific Format.binary64 m (signedExponent down e))) := by
  have hexponent : (if down then Int.negOfNat e else Int.ofNat e) = signedExponent down e := by
    cases down <;> simp [signedExponent, Int.negOfNat_eq]
  unfold Float.ofScientific
  rw [dif_neg hlong]
  dsimp only
  rw [hexponent]
  rfl

/-- A decimal becomes the number to which its value rounds. -/
theorem magnitude_ofScientific {down : Bool} (hM : 0 < M) (hfinite : M < infiniteMagnitude)
    (hround : Rounds M (m * 10 ^ signedExponent down e)) :
    magnitude (Float.ofScientific m down e) = M ∧
      isNegative (Float.ofScientific m down e) = false := by
  have hm := pos_of_midpoint_lt (hround.lt_of_pos hM)
  by_cases hshort : m < 2 ^ 53 ∧ e ≤ 22
  · have hx := isNat_toFloat hm hshort.1
    have hsize : Float.exactlyRepresentablePowersOfTen.size = 23 := rfl
    have hy : IsNat _ (10 ^ e) := isNat_powersOfTen (hsize ▸ Nat.lt_succ_of_le hshort.2)
    rw [Float.ofScientific, dif_pos hshort]
    cases down with
    | false =>
      refine hx.mul hy hM hfinite ?_
      simpa [signedExponent] using hround
    | true =>
      refine hx.div hy hM hfinite ?_
      simpa [signedExponent, div_eq_mul_inv] using hround
  · have hhigh := exponent_lt hm (hround.lt_finiteBound_iff.2 hfinite)
    have hlow := lt_exponent (hround.lt_of_pos hM)
    rw [ofScientific_of_long hshort]
    exact ((isRounding_ofScientific hm (by omega) (by omega)).has hround hM).pack hM hfinite

/-! ## Shortcuts -/

/-- Thirteen bits are at most four digits. -/
theorem two_pow_le_ten_pow (n : Nat) : 2 ^ n ≤ 10 ^ (4 * (n / 13 + 1)) :=
  calc 2 ^ n ≤ 2 ^ (13 * (n / 13 + 1)) := Nat.pow_le_pow_right (by norm_num) (by omega)
    _ = 8192 ^ (n / 13 + 1) := pow_mul ..
    _ ≤ 10000 ^ (n / 13 + 1) := Nat.pow_le_pow_left (by norm_num) _
    _ = 10 ^ (4 * (n / 13 + 1)) := (pow_mul 10 4 _).symm

/-- Three digits are at most ten bits. -/
theorem ten_pow_le_two_pow (n : Nat) : 10 ^ (3 * (n / 10)) ≤ 2 ^ n :=
  calc 10 ^ (3 * (n / 10)) = 1000 ^ (n / 10) := pow_mul 10 3 _
    _ ≤ 1024 ^ (n / 10) := Nat.pow_le_pow_left (by norm_num) _
    _ = 2 ^ (10 * (n / 10)) := (pow_mul 2 10 _).symm
    _ ≤ 2 ^ n := Nat.pow_le_pow_right (by norm_num) (by omega)

/-- The number of bits of the digits bounds a decimal by powers of ten. -/
theorem decimal_bounds {digits : Nat} (hdigits : digits ≠ 0) (e : Int) :
    (10 : ℚ) ^ (((3 * (digits.log2 / 10) : ℕ) : Int) + e) ≤ digits * 10 ^ e ∧
      (digits * 10 ^ e : ℚ) ≤ 10 ^ (((4 * ((digits.log2 + 1) / 13 + 1) : ℕ) : Int) + e) := by
  have hlow : (10 : ℚ) ^ (3 * (digits.log2 / 10)) ≤ digits := by
    exact_mod_cast (ten_pow_le_two_pow _).trans (Nat.log2_self_le hdigits)
  have hhigh : (digits : ℚ) ≤ 10 ^ (4 * ((digits.log2 + 1) / 13 + 1)) := by
    exact_mod_cast Nat.lt_log2_self.le.trans (two_pow_le_ten_pow _)
  have hten : (0 : ℚ) ≤ 10 ^ e := by positivity
  rw [zpow_add₀ (by norm_num), zpow_add₀ (by norm_num), zpow_natCast, zpow_natCast]
  exact ⟨mul_le_mul_of_nonneg_right hlow hten, mul_le_mul_of_nonneg_right hhigh hten⟩

/-- The bounds of finite numbers other than zero are between these powers of ten. -/
theorem bounds_decimal : (10 : ℚ) ^ (-332 : Int) ≤ midpoint 0 ∧ finiteBound < 10 ^ (316 : Int) := by
  have hpow : ∀ n : ℕ, (2 : ℚ) ^ (n : Int) ≤ 10 ^ ((4 * (n / 13 + 1) : ℕ) : Int) := by
    intro n
    simp only [zpow_natCast]
    exact_mod_cast two_pow_le_ten_pow n
  refine ⟨?_, finiteBound_lt.trans_le (hpow 1024)⟩
  rw [midpoint_zero, zpow_neg, zpow_neg]
  exact inv_anti₀ (by positivity) (hpow 1075)

/-- A decimal below the bound of finite numbers has no huge exponent for its digits. -/
theorem low_add_lt {digits : Nat} {e : Int} (hdigits : digits ≠ 0)
    (hv : (digits * 10 ^ e : ℚ) < finiteBound) : (3 * (digits.log2 / 10) : Nat) + e < 316 :=
  (zpow_lt_zpow_iff_right₀ (by norm_num : (1 : ℚ) < 10)).1
    (((decimal_bounds hdigits e).1.trans_lt hv).trans bounds_decimal.2)

/-- A decimal beyond half of the least number has no exponent far below zero for its digits. -/
theorem lt_high_add {digits : Nat} {e : Int} (hdigits : digits ≠ 0)
    (hv : midpoint 0 < digits * 10 ^ e) :
    -332 < (4 * ((digits.log2 + 1) / 13 + 1) : Nat) + e :=
  (zpow_lt_zpow_iff_right₀ (by norm_num : (1 : ℚ) < 10)).1
    ((bounds_decimal.1.trans_lt hv).trans_le (decimal_bounds hdigits e).2)

theorem ofDecimal_eq_ite (negative : Bool) (digits : Nat) (e : Int) :
    ofDecimal negative digits e =
      if negative then -ofDecimal false digits e else ofDecimal false digits e := rfl

/-- Without shortcut a decimal is converted as a whole. -/
theorem exists_ofScientific_eq {digits : Nat} {e : Int} (hdigits : digits ≠ 0)
    (hhigh : ¬ ((3 * (digits.log2 / 10) : Nat) : Int) + e > 400)
    (hlow : ¬ ((4 * ((digits.log2 + 1) / 13 + 1) : Nat) : Int) + e < -400) :
    ∃ down k, signedExponent down k = e ∧
      ofDecimal false digits e = Float.ofScientific digits down k := by
  simp only [ofDecimal, if_neg hdigits, if_neg hhigh, if_neg hlow, Bool.false_eq_true, if_false]
  cases e with
  | ofNat k => exact ⟨false, k, rfl, rfl⟩
  | negSucc k => exact ⟨true, k + 1, rfl, rfl⟩

/-- A decimal that is read becomes the number to which its value rounds. -/
theorem magnitude_ofDecimal {negative : Bool} {digits : Nat} {e : Int} (hM : 0 < M)
    (hfinite : M < infiniteMagnitude) (hround : Rounds M (digits * 10 ^ e)) :
    magnitude (ofDecimal negative digits e) = M ∧
      isNegative (ofDecimal negative digits e) = negative := by
  have hpos := hround.lt_of_pos hM
  have hdigits := (pos_of_midpoint_lt hpos).ne'
  have hhigh := low_add_lt hdigits (hround.lt_finiteBound_iff.2 hfinite)
  have hlow := lt_high_add hdigits hpos
  obtain ⟨down, k, rfl, hread⟩ := exists_ofScientific_eq (e := e) hdigits (by omega) (by omega)
  obtain ⟨hmagnitude, hsign⟩ := magnitude_ofScientific hM hfinite hround
  rw [ofDecimal_eq_ite, hread]
  cases negative with
  | false => exact ⟨hmagnitude, hsign⟩
  | true =>
    have hneg := magnitude_neg (x := Float.ofScientific digits down k) (by omega)
      (by simp [isFinite, hmagnitude, hfinite])
    rw [hmagnitude, hsign] at hneg
    exact hneg

/-- A number whose exact value is a natural number is that number. -/
theorem wholeMagnitude?_of_exactValue {x : Float} {n : Nat} (h : exactValue (magnitude x) = n) :
    wholeMagnitude? x = some n := by
  rw [exactValue, ← mantissa_eq, ← exponent_eq] at h
  unfold wholeMagnitude?
  cases hexponent : exponent x with
  | ofNat q =>
    rw [hexponent, Int.ofNat_eq_natCast, zpow_natCast] at h
    exact congrArg some (by exact_mod_cast h)
  | negSucc q =>
    have hmantissa : mantissa x = n * 2 ^ (q + 1) := by
      rw [hexponent, zpow_negSucc, ← div_eq_mul_inv, div_eq_iff (by positivity)] at h
      exact_mod_cast h
    simp [hmantissa, Nat.pow_eq]

/-- A natural number below `2 ^ 53` keeps its value as a number. -/
theorem whole?_ofNat {n : Nat} (hlt : n < 2 ^ 53) : whole? (Float.ofNat n) = some n := by
  rcases Nat.eq_zero_or_pos n with rfl | hn
  · decide +kernel
  obtain ⟨M, hnormal, hfinite, hvalue⟩ := exists_exactValue_eq hn hlt
  have hM : 0 < M := by omega
  have hround : Rounds M (n * 10 ^ signedExponent false 0) := by
    have hone : (n : ℚ) * 10 ^ signedExponent false 0 = n := by simp [signedExponent]
    rw [hone, ← hvalue]
    exact rounds_exactValue hM
  obtain ⟨hmagnitude, hsign⟩ := magnitude_ofScientific hM hfinite hround
  have hx : Float.ofNat n = Float.ofScientific n false 0 := rfl
  rw [← hx] at hmagnitude hsign
  have hwhole : wholeMagnitude? (Float.ofNat n) = some n :=
    wholeMagnitude?_of_exactValue (hmagnitude ▸ hvalue)
  simp [whole?, isFinite, hmagnitude, hfinite, hwhole, hsign]

end Factbase.Number
