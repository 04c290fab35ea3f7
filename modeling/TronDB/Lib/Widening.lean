import TronDB.Lib.Rounding

/-! The conversion of binary32 to binary64 keeps the order of numbers. -/
namespace Binary

theorem log2_scaled {m : Nat} (some_ : m ≠ 0) (k : Nat) : (m * 2 ^ k).log2 = m.log2 + k := by
  have positive : 0 < 2 ^ k := Nat.two_pow_pos k
  have nonzero : m * 2 ^ k ≠ 0 := Nat.mul_ne_zero some_ (Nat.ne_of_gt positive)
  rw [Nat.log2_eq_iff nonzero]
  constructor
  · rw [Nat.pow_add]
    exact Nat.mul_le_mul_right _ (Nat.log2_self_le some_)
  · rw [show m.log2 + k + 1 = (m.log2 + 1) + k by omega, Nat.pow_add]
    exact Nat.mul_lt_mul_of_pos_right Nat.lt_log2_self positive

theorem roundDiv_exact (low den : Nat) (positive : 0 < den) : roundDiv (low * den) den = low := by
  unfold roundDiv
  rw [Nat.mul_mod_left, Nat.mul_div_cancel low positive]
  dsimp only
  rw [if_neg]
  rintro (above | ⟨half, -⟩) <;> omega

/-- The bits of a binary64 for the bits of a binary32, both without the sign. -/
def wide (m : Nat) : Nat :=
  if m < 2 ^ 23 then F64.magnitudeOf m - 149 * 2 ^ 52
  else if m < 0xFF * 2 ^ 23 then m * 2 ^ 29 + 896 * 2 ^ 52
  else F64.infinity

theorem wide_le (m : Nat) : wide m ≤ F64.infinity := by
  unfold wide F64.infinity
  split
  · rename_i small
    have bound := @F64.magnitudeOf_lt m (by omega)
    omega
  · split <;> omega

theorem wide_mono {m m' : Nat} (le : m ≤ m') : wide m ≤ wide m' := by
  have bound := wide_le m
  have least : F64.magnitudeOf (2 ^ 23) = 1046 * 2 ^ 52 := by decide
  unfold wide F64.infinity at *
  by_cases small' : m' < 2 ^ 23
  · rw [if_pos small', if_pos (by omega)]
    have mono := F64.magnitudeOf_mono le
    omega
  · rw [if_neg small']
    by_cases normal' : m' < 0xFF * 2 ^ 23
    · rw [if_pos normal', if_pos (show m < 0xFF * 2 ^ 23 by omega)]
      split
      · rename_i small
        have mono := @F64.magnitudeOf_mono m (2 ^ 23) (by omega)
        omega
      · omega
    · rw [if_neg normal']
      exact bound

theorem F64.signed_parts (sign : Bool) {magnitude : Nat} (fits : magnitude < 2 ^ 63) :
    (F64.signed sign magnitude).negative = sign ∧ (F64.signed sign magnitude).magnitude = magnitude := by
  have word (k : Nat) (small : k < 2 ^ 64) : (UInt64.ofNat k).toNat = k :=
    UInt64.toNat_ofNat_of_lt' small
  unfold F64.signed F64.negative F64.magnitude
  cases sign with
  | true =>
    rw [if_pos rfl]
    dsimp only
    rw [word _ (by omega), decide_eq_true_eq]
    omega
  | false =>
    rw [if_neg Bool.false_ne_true]
    dsimp only
    rw [word _ (by omega), decide_eq_false_iff_not]
    omega

namespace F32

theorem nearest_subnormal (sign : Bool) {m : Nat} (small : m < 2 ^ 23) :
    F64.nearest sign (m * 2 ^ (1074 - 149)) 1 = F64.signed sign (wide m) := by
  generalize exponent : 1074 - 149 = k
  unfold F64.nearest
  refine congrArg (F64.signed sign) ?_
  have bound := wide_le m
  rw [Nat.div_one, Nat.one_mul]
  by_cases none_ : m = 0
  · rw [none_, Nat.zero_mul]
    decide
  · have log : m.log2 < 23 := (Nat.log2_lt none_).mpr small
    rw [log2_scaled none_]
    have split_ : m * 2 ^ k = m * 2 ^ (52 - m.log2) * 2 ^ (m.log2 + k - 52) := by
      rw [Nat.mul_assoc, ← Nat.pow_add]
      congr 2
      omega
    have least := (F64.significand_bounds none_).1
    have significand : F64.significand m = m * 2 ^ (52 - m.log2) := if_pos (by omega)
    rw [split_, roundDiv_exact _ _ (Nat.two_pow_pos _), ← significand]
    unfold wide at bound ⊢
    rw [if_pos small] at bound ⊢
    unfold F64.magnitudeOf at bound ⊢
    rw [if_neg none_] at bound ⊢
    unfold F64.infinity at bound ⊢
    omega

theorem toF64_eq {x : F32} (number : x.isNaN = false) :
    x.toF64 = F64.signed x.negative (wide x.magnitude) := by
  unfold isNaN at number
  rw [decide_eq_false_iff_not] at number
  unfold toF64
  generalize x.magnitude = m at number
  dsimp only
  split
  · rename_i top
    have fraction : m % 2 ^ 23 = 0 := by omega
    have whole : wide m = F64.infinity := by
      unfold wide
      rw [if_neg (by omega), if_neg (by omega)]
    rw [fraction, whole]
    rfl
  · split
    · rename_i low
      have same : m % 2 ^ 23 = m := by omega
      rw [same]
      exact nearest_subnormal x.negative (by omega)
    · refine congrArg (F64.signed x.negative) ?_
      unfold wide
      rw [if_neg (by omega), if_pos (by omega)]
      omega

theorem toF64_number {x : F32} (number : x.isNaN = false) : x.toF64.isNaN = false := by
  have bound := wide_le x.magnitude
  have fits : wide x.magnitude < 2 ^ 63 := by unfold F64.infinity at bound; omega
  rw [toF64_eq number, F64.isNaN, (F64.signed_parts _ fits).2, decide_eq_false_iff_not]
  exact Nat.not_lt.mpr bound

theorem key_toF64 {x : F32} (number : x.isNaN = false) :
    x.toF64.key = if x.negative then -(wide x.magnitude : Int) else wide x.magnitude := by
  have bound := wide_le x.magnitude
  have fits : wide x.magnitude < 2 ^ 63 := by unfold F64.infinity at bound; omega
  unfold F64.key
  rw [toF64_eq number, (F64.signed_parts _ fits).1, (F64.signed_parts _ fits).2]

/-- The order of numbers is kept. -/
theorem toF64_mono {x y : F32} (number : x.isNaN = false) (number' : y.isNaN = false)
    (le : x.key ≤ y.key) : x.toF64.key ≤ y.toF64.key := by
  have zero : wide 0 = 0 := by decide
  rw [key_toF64 number, key_toF64 number']
  unfold key at le
  have up := @wide_mono x.magnitude y.magnitude
  have down := @wide_mono y.magnitude x.magnitude
  split at le <;> split at le <;> simp only [*, if_true, if_false, Bool.false_eq_true]
  · have mono := down (by omega)
    omega
  · omega
  · have none_ : x.magnitude = 0 := by omega
    have none' : y.magnitude = 0 := by omega
    rw [none_, none', zero]
    decide
  · have mono := up (by omega)
    omega

end F32
/-! ### Sums of numbers -/

namespace F64

theorem isNaN_signed (sign : Bool) {magnitude : Nat} (below : magnitude ≤ infinity) :
    (signed sign magnitude).isNaN = false := by
  have fits : magnitude < 2 ^ 63 := by unfold infinity at below; omega
  rw [isNaN, (signed_parts sign fits).2, decide_eq_false_iff_not]
  exact Nat.not_lt.mpr below

theorem isNaN_neg {x : F64} (number : x.isNaN = false) : x.neg.isNaN = false :=
  isNaN_signed _ (Nat.le_of_not_lt (of_decide_eq_false number))

theorem isNaN_add {x y : F64} (number : x.isNaN = false) (number' : y.isNaN = false)
    (finite : x.isInfinite = false) : (x.add y).isNaN = false := by
  unfold add
  rw [number, number', finite]
  simp only [Bool.or_self, Bool.false_eq_true, if_false]
  split
  · exact number'
  · split
    · exact isNaN_signed _ (Nat.zero_le _)
    · exact isNaN_signed _ (Nat.min_le_left _ _)

theorem isNaN_toF32 {x : F64} (number : x.isNaN = false) : x.toF32.isNaN = false := by
  obtain ⟨n, bound, bits⟩ := toF32_number number
  have magnitude : x.toF32.magnitude = n := by
    rw [bits, F32.magnitude, UInt32.toNat_ofNat']
    split <;> omega
  rw [F32.isNaN, magnitude]
  exact decide_eq_false (by omega)

end F64

end Binary
