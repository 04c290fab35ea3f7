import Mathlib.Algebra.Order.Floor.Ring
import Mathlib.Algebra.Order.Field.Basic
import Mathlib.Tactic.Linarith
import Mathlib.Tactic.Ring

/-! Evenly spaced levels between two numbers, and the level nearest to a number. -/
namespace Levels

section Rounding
variable {K : Type*} [Field K] [LinearOrder K] [FloorRing K]

/-- The nearest integer; halves go away from zero. -/
def roundAway (x : K) : ℤ := if 0 ≤ x then ⌊x + 1 / 2⌋ else -⌊-x + 1 / 2⌋

variable [IsStrictOrderedRing K]

theorem abs_roundAway_sub (x : K) : |(roundAway x : K) - x| ≤ 1 / 2 := by
  unfold roundAway
  rw [abs_le]
  split
  · have low := Int.floor_le (x + 1 / 2)
    have high := Int.lt_floor_add_one (x + 1 / 2)
    constructor <;> linarith
  · have low := Int.floor_le (-x + 1 / 2)
    have high := Int.lt_floor_add_one (-x + 1 / 2)
    push_cast
    constructor <;> linarith

theorem roundAway_natCast (k : ℕ) : roundAway (k : K) = k := by
  unfold roundAway
  rw [if_pos (Nat.cast_nonneg k), Int.floor_eq_iff]
  push_cast
  constructor <;> linarith

theorem roundAway_range {x : K} {n : ℕ} (least : 0 ≤ x) (most : x ≤ n) :
    0 ≤ roundAway x ∧ roundAway x ≤ n := by
  unfold roundAway
  rw [if_pos least]
  constructor
  · exact Int.floor_nonneg.mpr (by linarith)
  · refine Int.lt_add_one_iff.mp (Int.floor_lt.mpr ?_)
    push_cast
    linarith

end Rounding

section Points
variable {K : Type*} [Field K]

/-- The number at a level, of `n` steps from `low` to `high`. -/
def point (n : ℕ) (low high : K) (k : ℕ) : K := k / n * (high - low) + low

def position (n : ℕ) (low high x : K) : K := (x - low) * (n / (high - low))

variable {n : ℕ} {low high : K}

@[simp] theorem point_zero : point n low high 0 = low := by
  rw [point, Nat.cast_zero, zero_div, zero_mul, zero_add]

section Exact
variable (steps : (n : K) ≠ 0)
include steps

theorem point_last : point n low high n = high := by
  rw [point, div_self steps, one_mul, sub_add_cancel]

variable (apart : low ≠ high)
include apart

theorem position_point (k : ℕ) : position n low high (point n low high k) = k := by
  have range : high - low ≠ 0 := sub_ne_zero.mpr apart.symm
  rw [position, point, add_sub_cancel_right]
  field_simp

theorem position_spec (x : K) : position n low high x / n * (high - low) + low = x := by
  have range : high - low ≠ 0 := sub_ne_zero.mpr apart.symm
  rw [position]
  field_simp
  ring

end Exact

variable [LinearOrder K] [IsStrictOrderedRing K]

theorem position_range (apart : low < high) {x : K} (least : low ≤ x) (most : x ≤ high) :
    0 ≤ position n low high x ∧ position n low high x ≤ n := by
  have range : 0 < high - low := sub_pos.mpr apart
  have steps : (0 : K) ≤ n / (high - low) := div_nonneg (Nat.cast_nonneg n) range.le
  constructor
  · exact mul_nonneg (sub_nonneg.mpr least) steps
  · calc position n low high x ≤ (high - low) * (n / (high - low)) :=
        mul_le_mul_of_nonneg_right (sub_le_sub_right most low) steps
      _ = n := mul_div_cancel₀ _ range.ne'

theorem point_range (steps : (0 : K) < n) (apart : low < high) {k : ℕ} (within : k ≤ n) :
    low ≤ point n low high k ∧ point n low high k ≤ high := by
  have range : 0 < high - low := sub_pos.mpr apart
  have part : (k : K) / n ≤ 1 := (div_le_one steps).mpr (Nat.cast_le.mpr within)
  constructor
  · exact le_add_of_nonneg_left (mul_nonneg (div_nonneg (Nat.cast_nonneg k) steps.le) range.le)
  · calc point n low high k ≤ 1 * (high - low) + low :=
        add_le_add_left (mul_le_mul_of_nonneg_right part range.le) low
      _ = high := by ring

theorem abs_point_sub (steps : (0 : K) < n) (apart : low < high) {x : K} {k : ℕ}
    (near : |(k : K) - position n low high x| ≤ 1 / 2) :
    |point n low high k - x| ≤ (high - low) / (2 * n) := by
  have range : 0 < high - low := sub_pos.mpr apart
  have offset : point n low high k - x = (k - position n low high x) * ((high - low) / n) := by
    conv_lhs => rw [← position_spec steps.ne' apart.ne x, point]
    ring
  rw [offset, abs_mul, abs_of_pos (div_pos range steps)]
  calc _ ≤ 1 / 2 * ((high - low) / n) := mul_le_mul_of_nonneg_right near (div_pos range steps).le
    _ = (high - low) / (2 * n) := by ring

end Points
end Levels
