import Mathlib
import Factbase.Proofs.Rounding

/-! # Operations on numbers round to nearest

The operations on `Float` take numbers apart into mantissas and exponents, compute with these, and
shift the mantissa that results into place; two residual bits keep what is shifted out. So:

* a mantissa with its residual bits locates a value (`Number.Locates`), and shifting keeps that;
* the magnitude that a mantissa is rounded to is the one that the value rounds to
  (`Number.IsRounding.has`), and zero for a value that is not beyond half of the least number
  (`Number.IsRounding.eq_zero`);
* products, quotients and conversions round the exact result (`Number.isRounding_mul`,
  `Number.isRounding_div`, `Number.isRounding_ofNat`);
* packing and unpacking keep the sign and the magnitude (`Number.Has.pack`,
  `Number.has_unpack`). -/

namespace Factbase.Number

open Float.Model Float.Model.UnpackedFloat

/-! ## Mantissas and exponents -/

/-- A mantissa and an exponent as a number has them: all bits are used, or the exponent is the
least. -/
structure IsCanonical (m : Nat) (e : Int) : Prop where
  pos : 0 < m
  lt : m < 2 ^ 53
  le_exponent : -1074 ≤ e
  normal_or : 2 ^ 52 ≤ m ∨ e = -1074

/-- The magnitude of a mantissa and an exponent. A mantissa of one bit too many gives the magnitude
that its carry leads to. -/
def magnitudeOf (m : Nat) (e : Int) : Nat := (e + 1074).toNat * 2 ^ 52 + m

namespace IsCanonical

variable {m : Nat} {e : Int}

theorem mantissaOf_eq (h : IsCanonical m e) : mantissaOf (magnitudeOf m e) = m := by
  obtain ⟨hpos, hlt, hle, hnormal⟩ := h
  unfold mantissaOf magnitudeOf
  split <;> omega

theorem exponentOf_eq (h : IsCanonical m e) : exponentOf (magnitudeOf m e) = e := by
  obtain ⟨hpos, hlt, hle, hnormal⟩ := h
  unfold exponentOf magnitudeOf
  split <;> omega

end IsCanonical

/-! ## Mantissas with residual bits -/

/-- Whether a mantissa with its residual bits says where a value is: at the mantissa, in the middle
between it and the next one, or in one of the halves. -/
def Locates (em : ExtendedMantissa) (x : ℚ) : Prop :=
  if em.roundBit then
    if em.stickyBit then (em.mantissa : ℚ) + 1 / 2 < x ∧ x < em.mantissa + 1
    else x = em.mantissa + 1 / 2
  else
    if em.stickyBit then (em.mantissa : ℚ) < x ∧ x < em.mantissa + 1 / 2
    else x = em.mantissa

namespace Locates

variable {em : ExtendedMantissa} {x : ℚ}

/-- A shift halves the value. -/
theorem shiftRightOne (h : Locates em x) : Locates em.shiftRightOne (x / 2) := by
  obtain ⟨m, r, s⟩ := em
  have hsplit : ((m % 2 : ℕ) : ℚ) + 2 * ((m / 2 : ℕ) : ℚ) = m := by
    exact_mod_cast Nat.mod_add_div m 2
  rcases Nat.mod_two_eq_zero_or_one m with hm | hm <;> cases r <;> cases s <;>
    simp [Locates, ExtendedMantissa.shiftRightOne, hm] at h hsplit ⊢ <;>
    first | constructor <;> linarith | linarith

theorem shiftRight (h : Locates em x) (n : Nat) : Locates (em >>> n) (x / 2 ^ n) := by
  change Locates (n.repeat ExtendedMantissa.shiftRightOne em) (x / 2 ^ n)
  induction n with
  | zero => simpa [Nat.repeat] using h
  | succ n ih =>
    rw [Nat.repeat, pow_succ, ← div_div]
    exact ih.shiftRightOne

theorem bounds (h : Locates em x) : (em.mantissa : ℚ) ≤ x ∧ x < em.mantissa + 1 := by
  unfold Locates at h
  split at h <;> split at h <;> constructor <;> linarith

/-- The rounded mantissa is nearest to the value, and an odd one is properly nearer. -/
theorem two_mul_roundedMantissa (h : Locates em x) :
    |2 * x - 2 * em.roundedMantissa| ≤ 1 ∧
      (em.roundedMantissa % 2 = 1 → |2 * x - 2 * em.roundedMantissa| < 1) := by
  obtain ⟨m, r, s⟩ := em
  simp only [abs_le, abs_lt]
  cases r <;> cases s <;> simp only [Locates, if_true, if_false, Bool.false_eq_true] at h
  · -- exact
    subst h
    simp [ExtendedMantissa.roundedMantissa, ExtendedMantissa.accuracy,
      Accuracy.roundToNearestEven]
  · -- below the middle
    simp only [ExtendedMantissa.roundedMantissa, ExtendedMantissa.accuracy,
      Accuracy.roundToNearestEven]
    constructor
    · constructor <;> linarith
    · intro
      constructor <;> linarith
  · -- in the middle
    subst h
    simp only [ExtendedMantissa.roundedMantissa, ExtendedMantissa.accuracy,
      Accuracy.roundToNearestEven]
    rcases Nat.mod_two_eq_zero_or_one m with hm | hm
    · rw [hm]
      constructor
      · push_cast
        constructor <;> linarith
      · omega
    · rw [hm]
      constructor
      · push_cast
        constructor <;> linarith
      · omega
  · -- above the middle
    simp only [ExtendedMantissa.roundedMantissa, ExtendedMantissa.accuracy,
      Accuracy.roundToNearestEven]
    push_cast
    constructor
    · constructor <;> linarith
    · intro
      constructor <;> linarith

/-- Rounding adds one at most. -/
theorem le_roundedMantissa (em : ExtendedMantissa) :
    em.mantissa ≤ em.roundedMantissa ∧ em.roundedMantissa ≤ em.mantissa + 1 := by
  obtain ⟨m, r, s⟩ := em
  cases r <;> cases s <;>
    simp only [ExtendedMantissa.roundedMantissa, ExtendedMantissa.accuracy,
      Accuracy.roundToNearestEven] <;> omega

end Locates

/-! ## Rounding to nearest -/

/-- A value that is next to a mantissa rounds to the magnitude of the mantissa. -/
theorem IsCanonical.rounds {m : Nat} {e : Int} {x : ℚ} (h : IsCanonical m e)
    (hnear : |2 * x - 2 * m| ≤ 1) (hodd : m % 2 = 1 → |2 * x - 2 * m| < 1)
    (hnarrow : m = 2 ^ 52 → -1074 < e → (4 * m - 1 : ℚ) ≤ 4 * x) :
    Rounds (magnitudeOf m e) (x * 2 ^ e) := by
  have hpos := h.pos
  have hmagnitude : 0 < magnitudeOf m e := by
    unfold magnitudeOf
    omega
  have hvalue : x * 2 ^ e = 4 * x * 2 ^ (e - 2) := by
    rw [zpow_sub₀ (by norm_num)]
    ring
  have hplace : (0 : ℚ) < 2 ^ (e - 2) := by positivity
  unfold Rounds
  rw [midpoint_pred hmagnitude, midpoint, h.mantissaOf_eq, h.exponentOf_eq, hvalue]
  simp only [mul_le_mul_iff_left₀ hplace, mul_lt_mul_iff_left₀ hplace]
  rw [abs_le] at hnear
  split
  · refine ⟨?_, by linarith⟩
    split
    · next hwide =>
      rw [Nat.cast_sub (by omega)]
      push_cast
      obtain ⟨-, hlt, hle, hnormal⟩ := h
      unfold magnitudeOf at hwide
      exact hnarrow (by omega) (by omega)
    · rw [Nat.cast_sub (by omega)]
      push_cast
      linarith
  · next hmod =>
    have hstrict := abs_lt.1 (hodd (by omega))
    refine ⟨?_, by linarith⟩
    rw [if_neg ?_, Nat.cast_sub (by omega)]
    · push_cast
      linarith
    · unfold magnitudeOf
      omega

/-- A value rounds to the magnitude of the rounded mantissa, also where that one carries. -/
theorem Locates.rounds {em : ExtendedMantissa} {x : ℚ} {t : Int} (h : Locates em x)
    (hpos : 0 < em.roundedMantissa) (hlt : em.mantissa < 2 ^ 53) (ht : -1074 ≤ t)
    (hnormal : 2 ^ 52 ≤ em.mantissa ∨ t = -1074) :
    Rounds (magnitudeOf em.roundedMantissa t) (x * 2 ^ t) := by
  obtain ⟨hle, hle'⟩ := Locates.le_roundedMantissa em
  obtain ⟨hnear, hodd⟩ := h.two_mul_roundedMantissa
  obtain ⟨hfloor, hceil⟩ := h.bounds
  rcases Nat.lt_or_ge em.roundedMantissa (2 ^ 53) with hr | hr
  · refine IsCanonical.rounds ⟨hpos, hr, ht, by omega⟩ hnear hodd fun hnarrow hsub => ?_
    have hm : em.mantissa = em.roundedMantissa := by omega
    rw [hm] at hfloor
    linarith
  · -- the carry: the mantissa is the least one of the next exponent
    have hr' : em.roundedMantissa = 2 ^ 53 := by omega
    have hm : em.mantissa = 2 ^ 53 - 1 := by omega
    obtain ⟨c, hc⟩ : ∃ c : Nat, c = 2 ^ 52 := ⟨_, rfl⟩
    have hcast : (c : ℚ) = 2 ^ 52 := by exact_mod_cast congrArg (Nat.cast (R := ℚ)) hc
    have hcanonical : IsCanonical c (t + 1) := by
      constructor <;> omega
    have hmagnitude : magnitudeOf (2 ^ 53) t = magnitudeOf c (t + 1) := by
      unfold magnitudeOf
      omega
    have hvalue : x * 2 ^ t = x / 2 * 2 ^ (t + 1) := by
      rw [zpow_add_one₀ (by norm_num)]
      ring
    rw [hr', abs_le] at hnear
    rw [hm] at hceil
    norm_num at hnear hceil
    rw [hr', hmagnitude, hvalue]
    refine hcanonical.rounds ?_ (by omega) fun _ _ => ?_
    · rw [abs_le, hcast]
      constructor <;> linarith
    · rw [hcast]
      linarith

/-! ## Shifting -/

theorem mantissa_shiftRight (em : ExtendedMantissa) (n : Nat) :
    (em >>> n).mantissa = em.mantissa / 2 ^ n := by
  change (n.repeat ExtendedMantissa.shiftRightOne em).mantissa = _
  induction n with
  | zero => simp [Nat.repeat]
  | succ n ih =>
    rw [Nat.repeat, pow_succ, ← Nat.div_div_eq_div_mul]
    exact congrArg (· / 2) ih

/-- A mantissa of 53 bits is aimed at, if the exponent is not less than the least one. -/
theorem targetExponent_eq_max (e : Int) :
    Format.binary64.targetExponent e = max (e - 53) (-1074) := by
  rfl

theorem targetExponent_eq (m : Nat) (e : Int) :
    Format.binary64.targetExponent (totalExponent m e) = max (m.log2 + e - 52) (-1074) := by
  rw [targetExponent_eq_max, totalExponent]
  omega

/-- A mantissa that has at most one bit too many is shifted to the mantissa of its magnitude. -/
theorem shiftToTargetExponent_exact {m : Nat} {e : Int} (hpos : 0 < m) (hm : m ≤ 2 ^ 53)
    (he : -1074 ≤ e) (hnormal : 2 ^ 52 ≤ m ∨ e = -1074) :
    shiftToTargetExponent Format.binary64 m e .exact =
      (⟨mantissaOf (magnitudeOf m e), false, false⟩, exponentOf (magnitudeOf m e)) := by
  rw [shiftToTargetExponent, targetExponent_eq, shiftToExponent]
  rcases Nat.lt_or_ge m (2 ^ 53) with hlt | hge
  · have hcanonical : IsCanonical m e := ⟨hpos, hlt, he, hnormal⟩
    have hlog : m.log2 < 53 := (Nat.log2_lt hpos.ne').2 hlt
    have hshift : (max ((m.log2 : Int) + e - 52) (-1074) - e).toNat = 0 := by omega
    rw [hcanonical.mantissaOf_eq, hcanonical.exponentOf_eq, hshift]
    simp [HShiftRight.hShiftRight, Nat.repeat, ExtendedMantissa.ofMantissaAndAccuracy]
  · -- the mantissa carries: it becomes the least one of the next exponent
    obtain rfl : m = 2 ^ 53 := by omega
    have hshift : (max (((2 ^ 53 : Nat).log2 : Int) + e - 52) (-1074) - e).toNat = 1 := by
      rw [Nat.log2_two_pow]
      omega
    have hmantissa : mantissaOf (magnitudeOf (2 ^ 53) e) = 2 ^ 52 := by
      unfold mantissaOf magnitudeOf
      split <;> omega
    have hexponent : exponentOf (magnitudeOf (2 ^ 53) e) = e + 1 := by
      unfold exponentOf magnitudeOf
      split <;> omega
    rw [hmantissa, hexponent, hshift]
    rfl

/-- Half of the least number. -/
theorem midpoint_zero : midpoint 0 = 2 ^ (-1075 : Int) := by
  have hzero : midpoint 0 = (4 * (0 : ℕ) + 2) * 2 ^ ((-1076 : Int)) := rfl
  have hexponent : (-1075 : Int) = -1076 + 1 := rfl
  rw [hzero, hexponent, zpow_add_one₀ (by norm_num), Nat.cast_zero, mul_zero, zero_add, mul_comm]

/-- What rounds to a number other than zero is beyond half of the least one. -/
theorem Rounds.lt_of_pos {M : Nat} {v : ℚ} (h : Rounds M v) (hM : 0 < M) : midpoint 0 < v := by
  rcases Nat.lt_or_ge 1 M with hlt | hle
  · exact (strictMono_midpoint (by omega)).trans_le h.bounds.1
  · obtain rfl : M = 1 := by omega
    exact (h.bounds_of_odd rfl).1

/-- The sign that a sign bit stands for. -/
def signOf (negative : Bool) : Sign := if negative then .negative else .positive

/-- The number that is taken apart has a sign and a magnitude. -/
def Has (u : UnpackedFloat) (negative : Bool) (M : Nat) : Prop :=
  ∃ h, u = .finite (signOf negative) (mantissaOf M) (exponentOf M) h

/-- Shifting to the target exponent keeps what is located. The mantissa has 53 bits at most, and all
of them unless the exponent is the least. -/
theorem exists_shiftToTargetExponent_eq {m : Nat} {e : Int} {a : Accuracy} {v : ℚ}
    (hloc : Locates (.ofMantissaAndAccuracy m a) (v / 2 ^ e)) (hsize : 52 ≤ m.log2 ∨ e ≤ -1074) :
    ∃ em t, shiftToTargetExponent Format.binary64 m e a = (em, t) ∧ Locates em (v / 2 ^ t) ∧
      em.mantissa < 2 ^ 53 ∧ -1074 ≤ t ∧ (2 ^ 52 ≤ em.mantissa ∨ t = -1074) := by
  obtain ⟨t, ht⟩ : ∃ t, t = max ((m.log2 : Int) + e - 52) (-1074) := ⟨_, rfl⟩
  obtain ⟨n, hn⟩ : ∃ n : Nat, e + n = t := ⟨(t - e).toNat, by omega⟩
  obtain ⟨em, hem⟩ : ∃ em, em = ExtendedMantissa.ofMantissaAndAccuracy m a >>> n := ⟨_, rfl⟩
  have hmantissa : em.mantissa = m / 2 ^ n := by
    rw [hem, mantissa_shiftRight]
    congr 1
    unfold ExtendedMantissa.ofMantissaAndAccuracy
    split <;> rfl
  refine ⟨em, t, ?_, ?_, ?_, by omega, ?_⟩
  · have hshift : (t - e).toNat = n := by omega
    rw [shiftToTargetExponent, targetExponent_eq, ← ht, shiftToExponent, hshift, hem, hn]
  · have hv : v / 2 ^ t = v / 2 ^ e / 2 ^ n := by
      rw [← hn, zpow_add₀ (by norm_num), zpow_natCast, div_div]
    rw [hv, hem]
    exact hloc.shiftRight n
  · rw [hmantissa, Nat.div_lt_iff_lt_mul (by positivity), ← pow_add]
    refine Nat.lt_log2_self.trans_le (Nat.pow_le_pow_right (by norm_num) ?_)
    omega
  · by_cases hmin : t = -1074
    · exact .inr hmin
    · have hlog : m.log2 = 52 + n := by omega
      have hm : m ≠ 0 := by
        rintro rfl
        simp at hlog
        omega
      rw [hmantissa, Nat.le_div_iff_mul_le (by positivity), ← pow_add, ← hlog]
      exact .inl (Nat.log2_self_le hm)

/-- A mantissa with its residual bits rounds to zero exactly where the value that it locates is not
beyond half of the least number. -/
theorem Locates.roundedMantissa_eq_zero_iff {em : ExtendedMantissa} {t : Int} {v : ℚ}
    (hloc : Locates em (v / 2 ^ t)) (ht : -1074 ≤ t) (hnormal : 2 ^ 52 ≤ em.mantissa ∨ t = -1074) :
    em.roundedMantissa = 0 ↔ v ≤ midpoint 0 := by
  obtain ⟨hle, hle'⟩ := le_roundedMantissa em
  obtain ⟨hnear, hodd⟩ := hloc.two_mul_roundedMantissa
  obtain ⟨hfloor, -⟩ := hloc.bounds
  have hplace : (0 : ℚ) < 2 ^ t := by positivity
  have hhalf : midpoint 0 = 1 / 2 * 2 ^ (-1074 : Int) := by
    have hexponent : (-1075 : Int) = -1074 - 1 := rfl
    rw [midpoint_zero, hexponent, zpow_sub_one₀ (by norm_num), one_div, mul_comm]
  constructor
  · intro hzero
    have hleast : t = -1074 := by omega
    rw [hzero, abs_le] at hnear
    rw [hhalf, ← hleast, ← div_le_iff₀ hplace]
    push_cast at hnear
    linarith only [hnear.2]
  · intro hv
    -- the least exponent is at most the one of the mantissa
    have hx : v / 2 ^ t ≤ 1 / 2 := by
      rw [div_le_iff₀ hplace]
      refine hv.trans ?_
      rw [hhalf]
      gcongr
      norm_num
    have hsmall : em.mantissa = 0 := by
      have hlt : (em.mantissa : ℚ) < 1 := by linarith
      exact Nat.lt_one_iff.1 (by exact_mod_cast hlt)
    by_contra hpos
    have hone : em.roundedMantissa = 1 := by omega
    have hstrict := abs_lt.1 (hodd (by omega))
    rw [hone] at hstrict
    push_cast at hstrict
    linarith

/-- What is taken apart comes of a mantissa that locates a value and was rounded. -/
def IsRounding (u : UnpackedFloat) (v : ℚ) : Prop :=
  ∃ (m : Nat) (e : Int) (a : Accuracy), u = roundWithAccuracy Format.binary64 .positive m e a ∧
    Locates (.ofMantissaAndAccuracy m a) (v / 2 ^ e) ∧ (52 ≤ m.log2 ∨ e ≤ -1074)

/-- Rounding a mantissa that locates a value gives the magnitude to which the value rounds. -/
theorem IsRounding.has {u : UnpackedFloat} {v : ℚ} {M : Nat} (h : IsRounding u v)
    (hround : Rounds M v) (hM : 0 < M) : Has u false M := by
  obtain ⟨m, e, a, rfl, hloc, hsize⟩ := h
  obtain ⟨em, t, hfirst, hloc', hlt, hmin, hnormal⟩ := exists_shiftToTargetExponent_eq hloc hsize
  have hpos : 0 < em.roundedMantissa := by
    rw [Nat.pos_iff_ne_zero, Ne, hloc'.roundedMantissa_eq_zero_iff hmin hnormal, not_le]
    exact hround.lt_of_pos hM
  have hM' : M = magnitudeOf em.roundedMantissa t := by
    refine hround.unique ?_
    rw [← div_mul_cancel₀ v (zpow_ne_zero t (two_ne_zero' ℚ))]
    exact hloc'.rounds hpos hlt hmin hnormal
  -- rounding up may carry, so the mantissa is shifted once more
  obtain ⟨hle, hle'⟩ := Locates.le_roundedMantissa em
  have hsecond := shiftToTargetExponent_exact hpos (by omega) hmin (by omega : _ ∨ t = -1074)
  refine ⟨mantissaOf_pos hM, ?_⟩
  rw [roundWithAccuracy, hfirst]
  dsimp only
  rw [hsecond, ← hM']
  exact dif_neg (mantissaOf_pos hM).ne'

/-- Rounding a mantissa that locates a value next to zero gives zero. -/
theorem IsRounding.eq_zero {u : UnpackedFloat} {v : ℚ} (h : IsRounding u v)
    (hv : v ≤ midpoint 0) : u = .zero .positive := by
  obtain ⟨m, e, a, rfl, hloc, hsize⟩ := h
  obtain ⟨em, t, hfirst, hloc', -, hmin, hnormal⟩ := exists_shiftToTargetExponent_eq hloc hsize
  have hzero := (hloc'.roundedMantissa_eq_zero_iff hmin hnormal).2 hv
  have hsecond : (shiftToTargetExponent Format.binary64 0 t .exact).1.mantissa = 0 := by
    rw [shiftToTargetExponent, shiftToExponent, mantissa_shiftRight]
    exact Nat.zero_div _
  rw [roundWithAccuracy, hfirst]
  dsimp only
  rw [hzero]
  exact dif_pos hsecond

/-! ## Bits -/

/-- Sign, exponent and mantissa stand one after the other. -/
theorem toNat_packComponents (s : Sign) (e : BitVec 11) (m : BitVec 52) :
    (packComponents Format.binary64 s e m).toNat =
      s.toBitVec.toNat * 2 ^ 63 + e.toNat * 2 ^ 52 + m.toNat := by
  unfold packComponents
  rw [BitVec.toNat_append, BitVec.toNat_append, ← Nat.shiftLeft_add_eq_or_of_lt m.isLt,
    ← Nat.shiftLeft_add_eq_or_of_lt e.isLt]
  simp only [Nat.shiftLeft_eq]
  omega

theorem log2_mantissaOf {M : Nat} (hM : 0 < M) : (mantissaOf M).log2 + 1 = 53 ↔ 2 ^ 52 ≤ M := by
  have hpos := mantissaOf_pos hM
  have hlog : (mantissaOf M).log2 = 52 ↔ 2 ^ 52 ≤ M := by
    rw [Nat.log2_eq_iff hpos.ne']
    unfold mantissaOf
    split <;> omega
  omega

/-- The bits are the sign bit and the magnitude. -/
theorem toNat_pack {negative : Bool} {M : Nat} (hM : 0 < M) (hfinite : M < infiniteMagnitude) (h) :
    (UnpackedFloat.pack Format.binary64
      (.finite (signOf negative) (mantissaOf M) (exponentOf M) h)).toNat =
      (if negative then 2 ^ 63 else 0) + M := by
  have hsign : (signOf negative).toBitVec.toNat * 2 ^ 63 = if negative then 2 ^ 63 else 0 := by
    cases negative <;> rfl
  have hbiased : (exponentOf M + (1023 : ℕ) + (52 : ℕ)).toNat =
      if M < 2 ^ 52 then 1 else M / 2 ^ 52 := by
    unfold exponentOf
    split <;> omega
  have hfits : ¬ 2 ^ 11 ≤ (if M < 2 ^ 52 then 1 else M / 2 ^ 52) + 1 := by
    unfold infiniteMagnitude at hfinite
    split <;> omega
  have hbits : Format.binary64.mantissaBits = 53 := rfl
  have hbias : Format.binary64.exponentBias = 1023 := rfl
  simp only [UnpackedFloat.pack, hbits, hbias, log2_mantissaOf hM, hbiased, if_neg hfits]
  split
  · next hnormal =>
    have hmantissa : mantissaOf M % 2 ^ 52 = M % 2 ^ 52 := by
      rw [mantissaOf, if_neg hnormal.not_gt]
      omega
    rw [toNat_packComponents, hsign, BitVec.toNat_ofNat, BitVec.toNat_ofNat, hmantissa,
      if_neg hnormal.not_gt]
    unfold infiniteMagnitude at hfinite
    omega
  · next hsub =>
    have hmantissa : mantissaOf M % 2 ^ 52 = M := by
      rw [mantissaOf, if_pos (by omega)]
      omega
    rw [toNat_packComponents, hsign, BitVec.toNat_ofNat, BitVec.toNat_ofNat, hmantissa]
    omega

/-- What is packed has the sign and the magnitude that it had. -/
theorem Has.pack {u : UnpackedFloat} {negative : Bool} {M : Nat} (h : Has u negative M)
    (hM : 0 < M) (hfinite : M < infiniteMagnitude) :
    magnitude (.ofModel (.pack u)) = M ∧ isNegative (.ofModel (.pack u)) = negative := by
  obtain ⟨hpos, rfl⟩ := h
  have hbits : (Float.ofModel (.pack (.finite (signOf negative) (mantissaOf M) (exponentOf M)
      hpos))).toBits.toNat = (if negative then 2 ^ 63 else 0) + M := toNat_pack hM hfinite hpos
  unfold infiniteMagnitude at hfinite
  rw [magnitude, isNegative, hbits]
  cases negative <;> simp <;> omega

section Unpacking

variable (x : Float)

theorem toNat_unpackMantissa :
    (@unpackMantissa Format.binary64 x.toModel.toBits.toBitVec).toNat = magnitude x % 2 ^ 52 := by
  have hbits : x.toBits.toNat = x.toModel.toBits.toBitVec.toNat := rfl
  simp [unpackMantissa, magnitude, hbits]

theorem toNat_unpackExponent :
    (@unpackExponent Format.binary64 x.toModel.toBits.toBitVec).toNat = magnitude x / 2 ^ 52 := by
  have hbits : x.toBits.toNat = x.toModel.toBits.toBitVec.toNat := rfl
  simp [unpackExponent, Nat.shiftRight_eq_div_pow, magnitude, hbits]
  omega

theorem ofBitVec_unpackSign :
    Sign.ofBitVec (@unpackSign Format.binary64 x.toModel.toBits.toBitVec) =
      signOf (isNegative x) := by
  obtain ⟨b, hb⟩ : ∃ b : BitVec 64, b = x.toModel.toBits.toBitVec := ⟨_, rfl⟩
  have hbits : x.toBits.toNat = b.toNat := by rw [hb]; rfl
  have hsign : (@unpackSign Format.binary64 b).toNat = b.toNat / 2 ^ 63 % 2 := by
    simp [unpackSign, Nat.shiftRight_eq_div_pow]
  have hzero : @unpackSign Format.binary64 b = 0#1 ↔ isNegative x = false := by
    have hlt := b.isLt
    rw [← BitVec.toNat_inj, hsign, isNegative, hbits]
    simp
    omega
  rw [← hb]
  unfold Sign.ofBitVec signOf
  cases hneg : isNegative x
  · rw [if_pos (hzero.2 hneg)]
    rfl
  · rw [if_neg (by simp [hzero, hneg])]
    rfl

end Unpacking

/-- What is unpacked has the sign and the magnitude of the number. -/
theorem has_unpack {x : Float} (hx : 0 < magnitude x) (hfinite : isFinite x = true) :
    Has x.toModel.unpack (isNegative x) (magnitude x) := by
  have hmantissa := toNat_unpackMantissa x
  have hexponent := toNat_unpackExponent x
  have hsign := ofBitVec_unpackSign x
  unfold Float.Model.unpack
  generalize x.toModel.toBits.toBitVec = b at hmantissa hexponent hsign ⊢
  rw [isFinite, decide_eq_true_eq, infiniteMagnitude] at hfinite
  have hmax : @unpackExponent Format.binary64 b ≠ -1#_ := by
    rw [ne_eq, ← BitVec.toNat_inj, hexponent]
    simp
    omega
  have hone : (1#1 ++ @unpackMantissa Format.binary64 b).toNat =
      magnitude x % 2 ^ 52 + 2 ^ 52 := by
    rw [BitVec.toNat_append, ← Nat.shiftLeft_add_eq_or_of_lt (BitVec.isLt _), hmantissa]
    simp
    omega
  have hbias : Format.binary64.exponentBias = 1023 := rfl
  refine ⟨mantissaOf_pos hx, ?_⟩
  simp only [UnpackedFloat.unpack, hsign, if_neg hmax, hmantissa, hexponent, hone, hbias]
  split
  · next hzero =>
    have hlt : magnitude x < 2 ^ 52 := by
      rw [← BitVec.toNat_inj, hexponent] at hzero
      simp at hzero
      omega
    have hsub : @unpackMantissa Format.binary64 b ≠ 0#_ := by
      rw [ne_eq, ← BitVec.toNat_inj, hmantissa]
      simp
      omega
    rw [dif_neg hsub, UnpackedFloat.finite.injEq, mantissaOf, exponentOf, if_pos hlt, if_pos hlt]
    exact ⟨rfl, by omega, by omega⟩
  · next hnonzero =>
    have hge : ¬ magnitude x < 2 ^ 52 := by
      rw [← BitVec.toNat_inj, hexponent] at hnonzero
      simp at hnonzero
      omega
    rw [UnpackedFloat.finite.injEq, mantissaOf, exponentOf, if_neg hge, if_neg hge]
    exact ⟨rfl, rfl, by omega⟩

/-! ## Operations -/

/-- Negation changes the sign only. -/
theorem magnitude_neg {x : Float} (hx : 0 < magnitude x) (hfinite : isFinite x = true) :
    magnitude (-x) = magnitude x ∧ isNegative (-x) = !isNegative x := by
  obtain ⟨h, hunpack⟩ := has_unpack hx hfinite
  have hneg : Has x.toModel.unpack.neg (!isNegative x) (magnitude x) := by
    refine ⟨h, ?_⟩
    rw [hunpack]
    cases isNegative x <;> rfl
  exact hneg.pack hx (of_decide_eq_true hfinite)

section Operations

variable {m₁ m₂ : Nat} {e₁ e₂ : Int} {h₁ : 0 < m₁} {h₂ : 0 < m₂}

theorem locates_exact (m : Nat) : Locates (.ofMantissaAndAccuracy m .exact) m := by
  simp [Locates, ExtendedMantissa.ofMantissaAndAccuracy]

/-- A product, rounded. -/
theorem isRounding_mul (hsize : 52 ≤ (m₁ * m₂).log2) :
    IsRounding (mul Format.binary64 (.finite .positive m₁ e₁ h₁) (.finite .positive m₂ e₂ h₂))
      (m₁ * 2 ^ e₁ * (m₂ * 2 ^ e₂)) := by
  refine ⟨m₁ * m₂, e₁ + e₂, .exact, rfl, ?_, .inl hsize⟩
  have hvalue : (m₁ * 2 ^ e₁ * (m₂ * 2 ^ e₂) : ℚ) / 2 ^ (e₁ + e₂) = (m₁ * m₂ : ℕ) := by
    rw [zpow_add₀ (by norm_num)]
    push_cast
    field_simp
  rw [hvalue]
  exact locates_exact _

/-- A quotient with its remainder. -/
theorem locates_accuracyOfFraction {q r d : Nat} (hr : r < d) :
    Locates (.ofMantissaAndAccuracy q (accuracyOfFraction r d)) (q + r / d) := by
  have hd : (0 : ℚ) < d := by exact_mod_cast (Nat.zero_le r).trans_lt hr
  have hr' : (r : ℚ) / d < 1 := by
    rw [div_lt_one hd]
    exact_mod_cast hr
  unfold accuracyOfFraction
  split
  · next hzero => simp [Locates, ExtendedMantissa.ofMantissaAndAccuracy, hzero]
  · next hpos =>
    have hpos' : (0 : ℚ) < r / d := div_pos (by exact_mod_cast Nat.pos_of_ne_zero hpos) hd
    cases hcompare : compare (2 * r) d with
    | lt =>
      rw [Nat.compare_eq_lt] at hcompare
      have hhalf : (r : ℚ) / d < 1 / 2 := by
        rw [div_lt_div_iff₀ hd (by norm_num)]
        exact_mod_cast (by omega : r * 2 < 1 * d)
      simp only [Locates, ExtendedMantissa.ofMantissaAndAccuracy]
      exact ⟨by linarith, by linarith⟩
    | eq =>
      rw [Nat.compare_eq_eq] at hcompare
      have hhalf : (r : ℚ) / d = 1 / 2 := by
        rw [div_eq_div_iff hd.ne' (by norm_num)]
        exact_mod_cast (by omega : r * 2 = 1 * d)
      simp only [Locates, ExtendedMantissa.ofMantissaAndAccuracy]
      exact congrArg _ hhalf
    | gt =>
      rw [Nat.compare_eq_gt] at hcompare
      have hhalf : 1 / 2 < (r : ℚ) / d := by
        rw [div_lt_div_iff₀ (by norm_num) hd]
        exact_mod_cast (by omega : 1 * d < r * 2)
      simp only [Locates, ExtendedMantissa.ofMantissaAndAccuracy]
      exact ⟨by linarith, by linarith⟩

/-- The bits of a quotient, when the dividend has more by that many. -/
theorem le_log2_div {k n : Nat} (h₁ : 0 < m₁) (h₂ : 0 < m₂) (hk : m₂.log2 + 1 + k ≤ m₁.log2 + n) :
    k ≤ (m₁ <<< n / m₂).log2 := by
  have hle : m₂ * 2 ^ k ≤ m₁ * 2 ^ n :=
    calc m₂ * 2 ^ k ≤ 2 ^ (m₂.log2 + 1) * 2 ^ k := by
          gcongr
          exact Nat.lt_log2_self.le
      _ = 2 ^ (m₂.log2 + 1 + k) := (pow_add ..).symm
      _ ≤ 2 ^ (m₁.log2 + n) := Nat.pow_le_pow_right (by norm_num) hk
      _ = 2 ^ m₁.log2 * 2 ^ n := pow_add ..
      _ ≤ m₁ * 2 ^ n := by
          gcongr
          exact Nat.log2_self_le h₁.ne'
  have hquotient : 2 ^ k ≤ m₁ <<< n / m₂ := by
    rw [Nat.le_div_iff_mul_le h₂, Nat.shiftLeft_eq, mul_comm]
    exact hle
  exact (Nat.le_log2 ((by positivity : 0 < 2 ^ k).trans_le hquotient).ne').2 hquotient

/-- What a shifted quotient and its remainder locate. -/
theorem locates_shifted_div {n : Nat} {t : Int} (h₂ : 0 < m₂) (hn : t + n = e₁ - e₂) :
    Locates (.ofMantissaAndAccuracy (m₁ <<< n / m₂) (accuracyOfFraction (m₁ <<< n % m₂) m₂))
      (m₁ * 2 ^ e₁ / (m₂ * 2 ^ e₂) / 2 ^ t) := by
  have hm₂ : (m₂ : ℚ) ≠ 0 := by exact_mod_cast h₂.ne'
  have hsplit : ((m₁ <<< n / m₂ : ℕ) : ℚ) * m₂ + (m₁ <<< n % m₂ : ℕ) = m₁ * 2 ^ n := by
    rw [Nat.shiftLeft_eq]
    exact_mod_cast Nat.div_add_mod' (m₁ * 2 ^ n) m₂
  have hvalue : (m₁ * 2 ^ e₁ / (m₂ * 2 ^ e₂) : ℚ) / 2 ^ t =
      (m₁ <<< n / m₂ : ℕ) + (m₁ <<< n % m₂ : ℕ) / m₂ := by
    have he : (2 : ℚ) ^ e₁ = 2 ^ t * 2 ^ n * 2 ^ e₂ := by
      rw [← zpow_natCast, ← zpow_add₀ (by norm_num), ← zpow_add₀ (by norm_num), hn]
      congr 1
      omega
    rw [he]
    field_simp
    linear_combination -hsplit
  rw [hvalue]
  exact locates_accuracyOfFraction (Nat.mod_lt _ h₂)

/-- A quotient, rounded. Enough bits are added to the dividend first. -/
theorem isRounding_div :
    IsRounding (div Format.binary64 (.finite .positive m₁ e₁ h₁) (.finite .positive m₂ e₂ h₂))
      (m₁ * 2 ^ e₁ / (m₂ * 2 ^ e₂)) := by
  obtain ⟨t, ht⟩ : ∃ t, t = min (e₁ - e₂) (Format.binary64.targetExponent
    (totalExponent m₁ e₁ - totalExponent m₂ e₂)) := ⟨_, rfl⟩
  obtain ⟨n, hn⟩ : ∃ n : Nat, t + n = e₁ - e₂ := ⟨(e₁ - e₂ - t).toNat, by omega⟩
  have hshift : (e₁ - e₂ - t).toNat = n := by omega
  have hcore : divCore Format.binary64 m₁ e₁ m₂ e₂ = ((m₁ <<< n) / m₂, t,
      accuracyOfFraction ((m₁ <<< n) % m₂) m₂) := by
    rw [divCore, ← ht, hshift]
  refine ⟨m₁ <<< n / m₂, t, accuracyOfFraction (m₁ <<< n % m₂) m₂, ?_,
    locates_shifted_div h₂ hn, ?_⟩
  · change (let (m, e, acc) := divCore Format.binary64 m₁ e₁ m₂ e₂
      roundWithAccuracy Format.binary64 .positive m e acc) = _
    rw [hcore]
  · rw [targetExponent_eq_max] at ht
    unfold totalExponent at ht
    by_cases hmin : t ≤ -1074
    · exact .inr hmin
    · exact .inl (le_log2_div h₁ h₂ (by omega))

/-- A natural number, rounded. -/
theorem isRounding_ofNat {n : Nat} (hn : 0 < n) :
    IsRounding (UnpackedFloat.ofNat Format.binary64 n) n := by
  have hcompare : compare (n : Int) 0 = .gt := Int.compare_eq_gt.2 (by omega)
  have hnormalize : UnpackedFloat.ofNat Format.binary64 n =
      UnpackedFloat.round Format.binary64 .positive n 0 := by
    rw [UnpackedFloat.ofNat, UnpackedFloat.ofInt, UnpackedFloat.normalize, hcompare]
    rfl
  rw [hnormalize, UnpackedFloat.round, targetExponent_eq, decreaseExponent]
  obtain ⟨k, hk⟩ : ∃ k, k = (0 - max ((n.log2 : Int) + 0 - 52) (-1074)).toNat := ⟨_, rfl⟩
  rw [← hk]
  refine ⟨n <<< k, 0 - k, .exact, rfl, ?_, .inl ?_⟩
  · have hvalue : (n : ℚ) / 2 ^ (0 - (k : Int)) = (n <<< k : ℕ) := by
      rw [Nat.shiftLeft_eq, zero_sub, zpow_neg, zpow_natCast]
      push_cast
      field_simp
    rw [hvalue]
    exact locates_exact _
  · rw [Nat.le_log2 (by rw [Nat.shiftLeft_eq]; positivity), Nat.shiftLeft_eq]
    calc 2 ^ 52 ≤ 2 ^ (n.log2 + k) := Nat.pow_le_pow_right (by norm_num) (by omega)
      _ = 2 ^ n.log2 * 2 ^ k := pow_add ..
      _ ≤ n * 2 ^ k := by
        gcongr
        exact Nat.log2_self_le hn.ne'

end Operations

end Factbase.Number
