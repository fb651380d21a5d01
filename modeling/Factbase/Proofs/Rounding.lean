import Mathlib.Algebra.Order.Field.Power
import Mathlib.Algebra.Order.Field.Rat
import Mathlib.Data.Nat.Cast.Order.Field
import Mathlib.Tactic.FieldSimp
import Mathlib.Tactic.LinearCombination
import Mathlib.Tactic.Linarith
import Mathlib.Tactic.Ring
import Factbase.Number.Decimal

/-! # Rounding intervals of numbers

The numbers of one sign stand in the order of their magnitudes, and between two neighbours lies
their midpoint. What rounds to a number lies between the midpoints on its two sides
(`Number.Rounds`), and a midpoint itself rounds to the neighbour with the even mantissa. So no value
rounds to two numbers (`Number.Rounds.unique`).

The decimal that is searched for a number lies in its interval (`Decimal.rounds_ofFloat`). -/

namespace Factbase

namespace Number

/-- The mantissa that belongs to a magnitude. -/
def mantissaOf (m : Nat) : Nat := if m < 2 ^ 52 then m else m % 2 ^ 52 + 2 ^ 52

/-- The binary exponent that belongs to a magnitude. -/
def exponentOf (m : Nat) : Int := if m < 2 ^ 52 then -1074 else (m / 2 ^ 52 : Nat) - 1075

theorem mantissa_eq (x : Float) : mantissa x = mantissaOf (magnitude x) := rfl

theorem exponent_eq (x : Float) : exponent x = exponentOf (magnitude x) := rfl

/-- The exact value of a magnitude. -/
def exactValue (m : Nat) : ℚ := mantissaOf m * 2 ^ exponentOf m

/-- The value halfway between a magnitude and the next one. -/
def midpoint (m : Nat) : ℚ := (4 * mantissaOf m + 2) * 2 ^ (exponentOf m - 2)

/-- Whether a value rounds to a magnitude, ties to the even mantissa. -/
def Rounds (m : Nat) (v : ℚ) : Prop :=
  if mantissaOf m % 2 = 0 then midpoint (m - 1) ≤ v ∧ v ≤ midpoint m
  else midpoint (m - 1) < v ∧ v < midpoint m

/-- Neighbouring magnitudes have mantissas of different parity. -/
theorem mantissaOf_mod_two (m : Nat) : mantissaOf m % 2 = m % 2 := by
  unfold mantissaOf
  split <;> omega

theorem mantissaOf_pos {m : Nat} (h : 0 < m) : 0 < mantissaOf m := by
  unfold mantissaOf
  split <;> omega

/-- The midpoint below a magnitude, in quarters of its last place: the gap below a power of two is
half as wide. -/
theorem midpoint_pred {m : Nat} (h : 0 < m) :
    midpoint (m - 1) =
      ((if m % 2 ^ 52 = 0 ∧ 2 ^ 53 ≤ m then 4 * mantissaOf m - 1
        else 4 * mantissaOf m - 2 : ℕ) : ℚ) * 2 ^ (exponentOf m - 2) := by
  by_cases hnarrow : m % 2 ^ 52 = 0 ∧ 2 ^ 53 ≤ m
  · -- the predecessor has the largest mantissa of the exponent below
    have hm : mantissaOf m = 2 ^ 52 := by
      unfold mantissaOf
      split <;> omega
    have hm' : mantissaOf (m - 1) = 2 ^ 53 - 1 := by
      unfold mantissaOf
      split <;> omega
    have he : exponentOf m - 2 = (exponentOf (m - 1) - 2) + 1 := by
      unfold exponentOf
      split <;> split <;> omega
    rw [if_pos hnarrow, midpoint, hm, hm', he, zpow_add_one₀ (by norm_num)]
    norm_num
    ring
  · -- the predecessor has the same exponent
    have hm : mantissaOf m = mantissaOf (m - 1) + 1 := by
      unfold mantissaOf
      split <;> split <;> omega
    have he : exponentOf m = exponentOf (m - 1) := by
      unfold exponentOf
      split <;> split <;> omega
    have hsub : 4 * mantissaOf m - 2 = 4 * mantissaOf (m - 1) + 2 := by omega
    rw [if_neg hnarrow, hsub, midpoint, he]
    push_cast
    rfl

/-- Midpoints increase. -/
theorem strictMono_midpoint : StrictMono midpoint := by
  refine strictMono_nat_of_lt_succ fun m => ?_
  -- both midpoints, in quarters of the last place of the magnitude between them
  have hpred := midpoint_pred (Nat.succ_pos m)
  rw [Nat.succ_sub_one] at hpred
  rw [hpred, midpoint]
  refine mul_lt_mul_of_pos_right ?_ (by positivity)
  have hpos := mantissaOf_pos (Nat.succ_pos m)
  have hlt : (if (m + 1) % 2 ^ 52 = 0 ∧ 2 ^ 53 ≤ m + 1 then 4 * mantissaOf (m + 1) - 1
      else 4 * mantissaOf (m + 1) - 2) < 4 * mantissaOf (m + 1) + 2 := by
    split <;> omega
  exact_mod_cast hlt

namespace Rounds

/-- What rounds to a magnitude lies between the midpoints, ends included. -/
theorem bounds {m : Nat} {v : ℚ} (h : Rounds m v) : midpoint (m - 1) ≤ v ∧ v ≤ midpoint m := by
  unfold Rounds at h
  split at h
  · exact h
  · exact ⟨h.1.le, h.2.le⟩

/-- What rounds to an odd mantissa lies properly between the midpoints. -/
theorem bounds_of_odd {m : Nat} {v : ℚ} (h : Rounds m v) (hodd : m % 2 = 1) :
    midpoint (m - 1) < v ∧ v < midpoint m := by
  unfold Rounds at h
  rw [mantissaOf_mod_two, if_neg (by omega)] at h
  exact h

/-- What rounds to a magnitude is positive. -/
theorem pos {m : Nat} {v : ℚ} (h : Rounds m v) : 0 < v := by
  have hmid : 0 < midpoint (m - 1) := by
    unfold midpoint
    positivity
  exact hmid.trans_le h.bounds.1

/-- Of two magnitudes to which a value rounds, none is the smaller one. -/
theorem not_lt {m n : Nat} {v : ℚ} (hm : Rounds m v) (hn : Rounds n v) : ¬ m < n := by
  intro hlt
  have hle : midpoint m ≤ midpoint (n - 1) := strictMono_midpoint.monotone (by omega)
  have heq : midpoint m = midpoint (n - 1) :=
    le_antisymm hle (hn.bounds.1.trans hm.bounds.2)
  have hmn : m = n - 1 := strictMono_midpoint.injective heq
  -- neighbours meet in their midpoint, which one of the two leaves out
  rcases Nat.mod_two_eq_zero_or_one m with heven | hodd
  · have hv := (hn.bounds_of_odd (by omega)).1
    exact absurd (hv.trans_le hm.bounds.2) (by rw [heq]; exact lt_irrefl _)
  · have hv := (hm.bounds_of_odd hodd).2
    exact absurd (hn.bounds.1.trans_lt hv) (by rw [heq]; exact lt_irrefl _)

/-- No value rounds to two magnitudes. -/
theorem unique {m n : Nat} {v : ℚ} (hm : Rounds m v) (hn : Rounds n v) : m = n := by
  have h₁ := hm.not_lt hn
  have h₂ := hn.not_lt hm
  omega

end Rounds

/-- The exact value of a magnitude rounds to it. -/
theorem rounds_exactValue {m : Nat} (h : 0 < m) : Rounds m (exactValue m) := by
  have hpos := mantissaOf_pos h
  have hvalue : exactValue m = (4 * mantissaOf m) * 2 ^ (exponentOf m - 2) := by
    rw [exactValue, zpow_sub₀ (by norm_num)]
    ring
  have hlow : midpoint (m - 1) < exactValue m := by
    rw [midpoint_pred h, hvalue]
    refine mul_lt_mul_of_pos_right ?_ (by positivity)
    have hlt : (if m % 2 ^ 52 = 0 ∧ 2 ^ 53 ≤ m then 4 * mantissaOf m - 1
        else 4 * mantissaOf m - 2) < 4 * mantissaOf m := by
      split <;> omega
    exact_mod_cast hlt
  have hhigh : exactValue m < midpoint m := by
    rw [midpoint, hvalue]
    exact mul_lt_mul_of_pos_right (by linarith) (by positivity)
  unfold Rounds
  split
  · exact ⟨hlow.le, hhigh.le⟩
  · exact ⟨hlow, hhigh⟩

end Number

namespace Decimal

/-- The value of a decimal. -/
def value (d : Decimal) : ℚ := d.digits * 10 ^ d.exponent

/-- A power whose exponent is cut off at zero, as the full power. -/
theorem pow_toNat {b : ℚ} (hb : b ≠ 0) (e : Int) : b ^ e.toNat = b ^ e * b ^ (-e).toNat := by
  rw [← zpow_natCast b e.toNat, ← zpow_natCast b (-e).toNat, ← zpow_add₀ hb]
  congr 1
  omega

/-- Whole numbers compare as the values of which they are the same multiple. -/
theorem le_iff_of_scaled {a b : Nat} {x y w scale : ℚ} (hw : 0 < w) (hscale : 0 < scale)
    (ha : a * w = x * scale) (hb : b * w = y * scale) : a ≤ b ↔ x ≤ y := by
  rw [← @Nat.cast_le ℚ, ← mul_le_mul_iff_left₀ hw, ha, hb, mul_le_mul_iff_left₀ hscale]

/-- The step of a grid as a multiple of a quarter of the last place. -/
theorem gridUnit_eq (q k : Int) :
    (gridUnit q k : ℚ) * 2 ^ (q - 2) = 10 ^ k * quarter q k := by
  have hneg : -(2 - q) = q - 2 := by ring
  have htwo : (2 : ℚ) ^ (2 - q) * 2 ^ (q - 2) = 1 := by
    rw [← zpow_add₀ (by norm_num)]
    norm_num
  simp only [gridUnit, quarter, Nat.pow_eq]
  push_cast
  rw [pow_toNat (by norm_num) (2 - q), pow_toNat (by norm_num) k, hneg]
  linear_combination (2 ^ (q - 2).toNat * (10 ^ k * 10 ^ (-k).toNat) : ℚ) * htwo

/-- Comparing a multiple of a quarter with a point of the grid, in whole numbers and exactly. -/
theorem grid_bounds (c digits : Nat) (q k : Int) :
    (c * quarter q k ≤ digits * gridUnit q k ↔ (c : ℚ) * 2 ^ (q - 2) ≤ digits * 10 ^ k) ∧
      (digits * gridUnit q k ≤ c * quarter q k ↔ digits * 10 ^ k ≤ (c : ℚ) * 2 ^ (q - 2)) := by
  have hquarter : (0 : ℚ) < quarter q k := by
    simp only [quarter, Nat.pow_eq]
    positivity
  have hplace : (0 : ℚ) < 2 ^ (q - 2) := by positivity
  have hc : ((c * quarter q k : ℕ) : ℚ) * 2 ^ (q - 2) = c * 2 ^ (q - 2) * quarter q k := by
    rw [Nat.cast_mul, mul_right_comm]
  have hdigits :
      ((digits * gridUnit q k : ℕ) : ℚ) * 2 ^ (q - 2) = digits * 10 ^ k * quarter q k := by
    rw [Nat.cast_mul, mul_assoc, gridUnit_eq, mul_assoc]
  exact ⟨le_iff_of_scaled hplace hquarter hc hdigits, le_iff_of_scaled hplace hquarter hdigits hc⟩

section Search

variable {m : Nat} {tie : Tie} {k : Int} {d : Decimal}

/-- Whether the gap below a magnitude is half as wide as that above it. -/
def isNarrow (m : Nat) : Bool := m % 2 ^ 52 == 0 && 2 ^ 53 ≤ m

/-- What reads back to a magnitude rounds to it. -/
theorem rounds_of_readsBack (hm : 0 < m) {digits : Nat}
    (h : readsBack (Number.mantissaOf m) (Number.exponentOf m) (isNarrow m) k digits = true) :
    Number.Rounds m (digits * 10 ^ k) := by
  have hlow := Number.midpoint_pred hm
  have hhigh : Number.midpoint m =
      ((4 * Number.mantissaOf m + 2 : ℕ) : ℚ) * 2 ^ (Number.exponentOf m - 2) := by
    rw [Number.midpoint]
    push_cast
    rfl
  have hnarrow : isNarrow m = true ↔ m % 2 ^ 52 = 0 ∧ 2 ^ 53 ≤ m := by simp [isNarrow]
  simp only [readsBack, hnarrow] at h
  unfold Number.Rounds
  rw [hlow, hhigh]
  split at h
  · next heven =>
    rw [if_pos heven]
    simp only [Bool.and_eq_true, decide_eq_true_eq] at h
    exact ⟨(grid_bounds _ _ _ _).1.1 h.1, (grid_bounds _ _ _ _).2.1 h.2⟩
  · next hodd =>
    rw [if_neg hodd]
    simp only [Bool.and_eq_true, decide_eq_true_eq] at h
    exact ⟨(lt_iff_lt_of_le_iff_le (grid_bounds _ _ _ _).2).1 h.1,
      (lt_iff_lt_of_le_iff_le (grid_bounds _ _ _ _).1).1 h.2⟩

/-- A hit on a grid rounds to the magnitude that is searched for. -/
theorem rounds_of_onGrid? (hm : 0 < m)
    (h : onGrid? (Number.mantissaOf m) (Number.exponentOf m) (isNarrow m) tie k = some d) :
    Number.Rounds m d.value := by
  simp only [onGrid?] at h
  split at h
  · next hboth =>
    simp only [Bool.and_eq_true] at hboth
    obtain rfl := Option.some.inj h
    -- the tie decides between two points of the grid that both read back
    refine rounds_of_readsBack hm ?_
    dsimp only
    split
    · exact hboth.1.2
    · exact hboth.2
    · exact hboth.2
    · split
      · exact hboth.1.2
      · exact hboth.2
  · split at h
    · next hbelow =>
      simp only [Bool.and_eq_true] at hbelow
      obtain rfl := Option.some.inj h
      exact rounds_of_readsBack hm hbelow.2
    · split at h
      · next habove =>
        obtain rfl := Option.some.inj h
        exact rounds_of_readsBack hm habove
      · simp at h

/-- The exact decimal of a magnitude has its value. -/
theorem value_exact (m : Nat) :
    (exact (Number.mantissaOf m) (Number.exponentOf m)).value = Number.exactValue m := by
  unfold value Number.exactValue
  cases Number.exponentOf m with
  | ofNat q => simp [exact]
  | negSucc q =>
    have hten : (10 : ℚ) ^ (q + 1) = 5 ^ (q + 1) * 2 ^ (q + 1) := by
      rw [← mul_pow]
      norm_num
    simp only [exact, zpow_negSucc, Nat.pow_eq]
    push_cast
    rw [hten]
    field_simp

/-- The decimal that is found for a magnitude rounds to it. -/
theorem rounds_search (hm : 0 < m) (n : Nat) (k : Int) :
    Number.Rounds m
      (search (Number.mantissaOf m) (Number.exponentOf m) (isNarrow m) tie n k).value := by
  induction n generalizing k with
  | zero =>
    rw [search, value_exact]
    exact Number.rounds_exactValue hm
  | succ n ih =>
    rw [search]
    split
    · next hd => exact rounds_of_onGrid? hm hd
    · exact ih (k - 1)

end Search

/-- The decimal of a number other than zero rounds to its magnitude. -/
theorem rounds_ofFloat (tie : Tie) {x : Float} (h : 0 < Number.magnitude x) :
    Number.Rounds (Number.magnitude x) (ofFloat tie x).value := by
  have hm : Number.mantissa x ≠ 0 := (Number.mantissaOf_pos h).ne'
  rw [ofFloat, if_neg hm]
  exact rounds_search h _ _

end Decimal

end Factbase
