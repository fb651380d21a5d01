import Factbase.Proofs.NumeralReading

/-! # The range of numbers

Every value beyond half of the least number rounds to some magnitude (`Number.exists_rounds`), and
below a bound to a finite one. So a decimal becomes a finite number exactly below that bound
(`Number.isFinite_ofDecimal_iff`): beyond it, it becomes an infinity, and next to zero it becomes
zero. The shortcuts for huge exponents agree with that. -/

namespace Factbase.Number

open Float.Model Float.Model.UnpackedFloat

/-! ## Values between midpoints -/

/-- The midpoints have no bound. -/
theorem exists_le_midpoint (v : ℚ) : ∃ M, v ≤ midpoint M := by
  obtain ⟨k, hk⟩ := pow_unbounded_of_one_lt v (by norm_num : (1 : ℚ) < 2)
  obtain ⟨M, hM⟩ : ∃ M, M = (k + 1077) * 2 ^ 52 := ⟨_, rfl⟩
  have hexponent : exponentOf M - 2 = k := by
    unfold exponentOf
    split <;> omega
  refine ⟨M, hk.le.trans ?_⟩
  rw [midpoint, hexponent, zpow_natCast]
  refine le_mul_of_one_le_left (by positivity) ?_
  have hpos : (0 : ℚ) ≤ mantissaOf M := by positivity
  linarith

/-- A value beyond half of the least number rounds to a magnitude. -/
theorem exists_rounds {v : ℚ} (hv : midpoint 0 < v) : ∃ M, 0 < M ∧ Rounds M v := by
  classical
  obtain ⟨M, hM, hleast⟩ : ∃ M, v ≤ midpoint M ∧ ∀ N < M, ¬ v ≤ midpoint N :=
    ⟨Nat.find (exists_le_midpoint v), Nat.find_spec (exists_le_midpoint v),
      fun _ => Nat.find_min (exists_le_midpoint v)⟩
  have hpos : 0 < M := by
    rw [Nat.pos_iff_ne_zero]
    rintro rfl
    exact hM.not_gt hv
  have hlow : midpoint (M - 1) < v := not_le.1 (hleast (M - 1) (by omega))
  rcases Nat.mod_two_eq_zero_or_one M with heven | hodd
  · refine ⟨M, hpos, ?_⟩
    rw [Rounds, mantissaOf_mod_two, if_pos heven]
    exact ⟨hlow.le, hM⟩
  · rcases hM.lt_or_eq with hlt | heq
    · refine ⟨M, hpos, ?_⟩
      rw [Rounds, mantissaOf_mod_two, if_neg (by omega)]
      exact ⟨hlow, hlt⟩
    · -- a midpoint above an odd mantissa rounds up
      refine ⟨M + 1, Nat.succ_pos M, ?_⟩
      rw [Rounds, mantissaOf_mod_two, if_pos (by omega), Nat.add_sub_cancel, heq]
      exact ⟨le_rfl, (strictMono_midpoint (Nat.lt_succ_self M)).le⟩

/-! ## Out of range -/

/-- What is packed with a magnitude that is too large is the infinity. -/
theorem Has.pack_of_le {u : UnpackedFloat} {M : Nat} (h : Has u false M)
    (hM : infiniteMagnitude ≤ M) : Float.ofModel (.pack u) = infinity := by
  obtain ⟨hpos, rfl⟩ := h
  have hbiased : 2 ^ Format.binary64.exponentBits ≤
      (exponentOf M + Format.binary64.exponentBias +
        Format.binary64.mantissaBitsWithoutImplicit).toNat + 1 := by
    have hbits : 2 ^ Format.binary64.exponentBits = 2048 := by norm_num
    have hbias : Format.binary64.exponentBias = 1023 := rfl
    have hwidth : Format.binary64.mantissaBitsWithoutImplicit = 52 := rfl
    rw [hbits, hbias, hwidth, exponentOf]
    unfold infiniteMagnitude at hM
    split <;> omega
  have hpack : UnpackedFloat.pack Format.binary64 (.finite (signOf false) (mantissaOf M)
      (exponentOf M) hpos) = UnpackedFloat.pack Format.binary64 (.infinity .positive) :=
    if_pos hbiased
  have hmodel : Float.Model.pack (.finite (signOf false) (mantissaOf M) (exponentOf M) hpos) =
      Float.Model.pack (.infinity .positive) := by
    simp only [Float.Model.pack, hpack]
  rw [hmodel]
  decide +kernel

section Decimals

variable {m e : Nat} {down : Bool}

theorem two_pow_lt_finiteBound : 2 ^ 141 < finiteBound := by
  have hhigh : (2 : ℚ) * 2 ^ 970 ≤ 2 ^ 1024 := by
    rw [← pow_succ']
    exact pow_le_pow_right₀ (by norm_num) (by norm_num)
  have hlow : (2 : ℚ) ^ 141 < 2 ^ 970 := pow_lt_pow_right₀ (by norm_num) (by norm_num)
  rw [finiteBound]
  generalize (2 : ℚ) ^ 970 = low, (2 : ℚ) ^ 1024 = high at *
  linarith

theorem midpoint_zero_lt_finiteBound : midpoint 0 < finiteBound := by
  rw [← midpoint_pred_infiniteMagnitude]
  exact strictMono_midpoint (by decide)

/-- The short way is taken only for decimals that are in range and not next to zero. -/
theorem bounds_of_short (hm : 0 < m) (hlt : m < 2 ^ 53) (he : e ≤ 22) :
    midpoint 0 < m * 10 ^ signedExponent down e ∧
      (m * 10 ^ signedExponent down e : ℚ) < finiteBound := by
  have hm' : (1 : ℚ) ≤ m := by exact_mod_cast hm
  have hlt' : (m : ℚ) ≤ 2 ^ 53 := by exact_mod_cast hlt.le
  have hexponent : -22 ≤ signedExponent down e ∧ signedExponent down e ≤ 22 := by
    unfold signedExponent
    split <;> omega
  have hlow : (10 : ℚ) ^ (-22 : Int) ≤ 10 ^ signedExponent down e :=
    zpow_le_zpow_right₀ (by norm_num) hexponent.1
  have hhigh : (10 : ℚ) ^ signedExponent down e ≤ 10 ^ (22 : Int) :=
    zpow_le_zpow_right₀ (by norm_num) hexponent.2
  constructor
  · calc midpoint 0 = 2 ^ (-1075 : Int) := midpoint_zero
      _ ≤ 2 ^ (-88 : Int) := zpow_le_zpow_right₀ (by norm_num) (by norm_num)
      _ < 10 ^ (-22 : Int) := by norm_num
      _ ≤ 10 ^ signedExponent down e := hlow
      _ ≤ m * 10 ^ signedExponent down e := le_mul_of_one_le_left (by positivity) hm'
  · calc (m * 10 ^ signedExponent down e : ℚ) ≤ 2 ^ 53 * 10 ^ (22 : Int) := by gcongr
      _ ≤ 2 ^ 141 := by norm_num
      _ < finiteBound := two_pow_lt_finiteBound

/-- A decimal beyond the bound becomes the infinity. -/
theorem ofScientific_eq_infinity (hv : finiteBound ≤ m * 10 ^ signedExponent down e) :
    Float.ofScientific m down e = infinity := by
  have hpos := midpoint_zero_lt_finiteBound.trans_le hv
  have hm := pos_of_midpoint_lt hpos
  have hlong : ¬ (m < 2 ^ 53 ∧ e ≤ 22) := fun h => hv.not_gt (bounds_of_short hm h.1 h.2).2
  rw [ofScientific_of_long hlong]
  by_cases hhigh : signedExponent down e ≤ 2048
  · obtain ⟨M, hM, hround⟩ := exists_rounds hpos
    have hlarge : infiniteMagnitude ≤ M := by
      rw [← not_lt, ← hround.lt_finiteBound_iff]
      exact hv.not_gt
    have hlow := lt_exponent hpos
    exact ((isRounding_ofScientific hm hhigh (by omega)).has hround hM).pack_of_le hlarge
  · have hlimit : (2 ^ Format.binary64.exponentBits : Int) = 2048 := by norm_num
    have hinfinite : UnpackedFloat.ofScientific Format.binary64 m (signedExponent down e) =
        .infinity .positive := by
      unfold UnpackedFloat.ofScientific
      rw [dif_neg hm.ne', hlimit, if_pos (by omega)]
    rw [hinfinite]
    decide +kernel

/-- A decimal next to zero becomes zero. -/
theorem ofScientific_eq_zero (hm : 0 < m)
    (hv : (m * 10 ^ signedExponent down e : ℚ) ≤ midpoint 0) :
    Float.ofScientific m down e = 0 := by
  have hlong : ¬ (m < 2 ^ 53 ∧ e ≤ 22) := fun h => hv.not_gt (bounds_of_short hm h.1 h.2).1
  have hhigh := exponent_lt hm (hv.trans_lt midpoint_zero_lt_finiteBound)
  have hzero : UnpackedFloat.ofScientific Format.binary64 m (signedExponent down e) =
      .zero .positive := by
    by_cases hlow : -(2048 + (m.log2 : Int)) ≤ signedExponent down e
    · exact (isRounding_ofScientific hm (by omega) hlow).eq_zero hv
    · have hlimit : (2 ^ Format.binary64.exponentBits : Int) = 2048 := by norm_num
      unfold UnpackedFloat.ofScientific
      rw [dif_neg hm.ne', hlimit, if_neg (by omega), if_pos (by omega)]
  rw [ofScientific_of_long hlong, hzero]
  decide +kernel

end Decimals

/-! ## Decimals that are read -/

section Read

variable {digits : Nat} {e : Int}

/-- Beyond the bound a decimal is read as the infinity. -/
theorem ofDecimal_eq_infinity (hv : finiteBound ≤ digits * 10 ^ e) :
    ofDecimal false digits e = infinity := by
  have hpos := midpoint_zero_lt_finiteBound.trans_le hv
  have hdigits := (pos_of_midpoint_lt hpos).ne'
  have hlow := lt_high_add hdigits hpos
  by_cases hhigh : ((3 * (digits.log2 / 10) : Nat) : Int) + e > 400
  · simp only [ofDecimal, if_neg hdigits, if_pos hhigh, Bool.false_eq_true, if_false]
  · obtain ⟨down, k, rfl, hread⟩ := exists_ofScientific_eq (e := e) hdigits hhigh (by omega)
    rw [hread, ofScientific_eq_infinity hv]

/-- Next to zero a decimal is read as zero. -/
theorem ofDecimal_eq_zero (hv : (digits * 10 ^ e : ℚ) ≤ midpoint 0) :
    ofDecimal false digits e = 0 := by
  by_cases hdigits : digits = 0
  · simp [ofDecimal, hdigits]
  · have hhigh := low_add_lt hdigits (hv.trans_lt midpoint_zero_lt_finiteBound)
    have hhigh' : ¬ ((3 * (digits.log2 / 10) : Nat) : Int) + e > 400 := by omega
    by_cases hlow : ((4 * ((digits.log2 + 1) / 13 + 1) : Nat) : Int) + e < -400
    · simp only [ofDecimal, if_neg hdigits, if_neg hhigh', if_pos hlow, Bool.false_eq_true,
        if_false]
    · obtain ⟨down, k, rfl, hread⟩ := exists_ofScientific_eq hdigits hhigh' hlow
      rw [hread, ofScientific_eq_zero (Nat.pos_of_ne_zero hdigits) hv]

/-- A decimal is read as a finite number exactly if its value is below the bound. -/
theorem isFinite_ofDecimal_iff (negative : Bool) :
    isFinite (ofDecimal negative digits e) = true ↔ (digits * 10 ^ e : ℚ) < finiteBound := by
  rcases le_or_gt finiteBound (digits * 10 ^ e : ℚ) with hlarge | hv
  · refine iff_of_false ?_ hlarge.not_gt
    rw [ofDecimal_eq_ite, ofDecimal_eq_infinity hlarge]
    cases negative <;> decide +kernel
  · refine iff_of_true ?_ hv
    rcases le_or_gt (digits * 10 ^ e : ℚ) (midpoint 0) with hsmall | hpos
    · rw [ofDecimal_eq_ite, ofDecimal_eq_zero hsmall]
      cases negative <;> decide +kernel
    · obtain ⟨M, hM, hround⟩ := exists_rounds hpos
      have hfinite := hround.lt_finiteBound_iff.1 hv
      have hmagnitude : magnitude (ofDecimal negative digits e) = M :=
        (magnitude_ofDecimal hM hfinite hround).1
      exact decide_eq_true (hmagnitude ▸ hfinite)

/-- A numeral is read as a finite number exactly if its value is below the bound. -/
theorem Numeral.isFinite_number_iff (n : Numeral) :
    isFinite n.number = true ↔ n.value < finiteBound := by
  rw [value_eq]
  exact isFinite_ofDecimal_iff n.negative

end Read

end Factbase.Number
