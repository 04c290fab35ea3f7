import TronDB.Lib.Arithmetic

/-! The conversion of integers to binary64 keeps their order. -/
namespace Binary

theorem roundShift_mono (shift : Nat) {m m' : Nat} (le : m ≤ m') :
    roundShift m shift ≤ roundShift m' shift := by
  have positive : 0 < 2 ^ shift := Nat.two_pow_pos shift
  have low := Nat.div_le_div_right (c := 2 ^ shift) le
  have whole := Nat.div_add_mod m (2 ^ shift)
  have whole' := Nat.div_add_mod m' (2 ^ shift)
  unfold roundShift
  dsimp only
  by_cases same : m / 2 ^ shift = m' / 2 ^ shift
  · rw [same] at whole ⊢
    have rest : m % 2 ^ shift ≤ m' % 2 ^ shift := by omega
    split <;> split <;> omega
  · split <;> split <;> omega

theorem roundShift_bounds {m shift : Nat} (least : 2 ^ (52 + shift) ≤ m) (below : m < 2 ^ (53 + shift)) :
    2 ^ 52 ≤ roundShift m shift ∧ roundShift m shift ≤ 2 ^ 53 := by
  have positive : 0 < 2 ^ shift := Nat.two_pow_pos shift
  have low : 2 ^ 52 ≤ m / 2 ^ shift := by
    rw [Nat.le_div_iff_mul_le positive, ← Nat.pow_add]
    exact least
  have high : m / 2 ^ shift < 2 ^ 53 := by
    rw [Nat.div_lt_iff_lt_mul positive, ← Nat.pow_add]
    exact below
  have step := roundShift_le m shift
  unfold roundShift at step ⊢
  dsimp only at step ⊢
  split <;> omega

namespace F64

def significand (m : Nat) : Nat :=
  if m.log2 ≤ 52 then m * 2 ^ (52 - m.log2) else roundShift m (m.log2 - 52)

/-- The bits of a natural number without the sign. -/
def magnitudeOf (m : Nat) : Nat :=
  if m = 0 then 0 else (m.log2 + 1023) * 2 ^ 52 + (significand m - 2 ^ 52)

theorem significand_bounds {m : Nat} (some_ : m ≠ 0) :
    2 ^ 52 ≤ significand m ∧ significand m ≤ 2 ^ 53 := by
  have least := Nat.log2_self_le some_
  have below : m < 2 ^ (m.log2 + 1) := Nat.lt_log2_self
  unfold significand
  split
  · rename_i small
    have scale : 2 ^ m.log2 * 2 ^ (52 - m.log2) = 2 ^ 52 := by
      rw [← Nat.pow_add]
      congr 1
      omega
    have scale' : 2 ^ (m.log2 + 1) * 2 ^ (52 - m.log2) = 2 ^ 53 := by
      rw [← Nat.pow_add]
      congr 1
      omega
    rw [← scale, ← scale']
    exact ⟨Nat.mul_le_mul_right _ least, Nat.mul_le_mul_right _ (Nat.le_of_lt below)⟩
  · rename_i large
    have shift : 52 + (m.log2 - 52) = m.log2 := by omega
    have shift' : 53 + (m.log2 - 52) = m.log2 + 1 := by omega
    refine roundShift_bounds ?_ ?_
    · rw [shift]
      exact least
    · rw [shift']
      exact below

theorem significand_mono {m m' : Nat} (le : m ≤ m') (same : m.log2 = m'.log2) :
    significand m ≤ significand m' := by
  unfold significand
  rw [same]
  split
  · exact Nat.mul_le_mul_right _ le
  · exact roundShift_mono _ le

theorem magnitudeOf_mono {m m' : Nat} (le : m ≤ m') : magnitudeOf m ≤ magnitudeOf m' := by
  by_cases none_ : m = 0
  · rw [none_]
    exact Nat.zero_le _
  · have some_ : m' ≠ 0 := by omega
    have logs := (Nat.le_log2 some_).mpr (Nat.le_trans (Nat.log2_self_le none_) le)
    obtain ⟨least, most⟩ := significand_bounds none_
    obtain ⟨least', -⟩ := significand_bounds some_
    unfold magnitudeOf
    rw [if_neg none_, if_neg some_]
    by_cases same : m.log2 = m'.log2
    · have step := significand_mono le same
      rw [same]
      omega
    · have further : m.log2 + 1 ≤ m'.log2 := by omega
      clear logs same le
      omega

theorem magnitudeOf_lt {m : Nat} (range : m < 2 ^ 64) : magnitudeOf m < 0x7FF * 2 ^ 52 := by
  unfold magnitudeOf
  split
  · exact Nat.mul_pos (by decide) (Nat.two_pow_pos 52)
  · rename_i some_
    have most := (significand_bounds some_).2
    have log : m.log2 < 64 := (Nat.log2_lt some_).mpr range
    omega

theorem ofInt_magnitude (n : Int) : ofInt n =
    ⟨UInt64.ofNat (if n < 0 then 2 ^ 63 + magnitudeOf n.natAbs else magnitudeOf n.natAbs)⟩ := rfl

theorem ofInt_parts {n : Int} (range : n.natAbs < 2 ^ 64) :
    (ofInt n).negative = decide (n < 0) ∧ (ofInt n).magnitude = magnitudeOf n.natAbs := by
  have bound := magnitudeOf_lt range
  have word (k : Nat) (fits : k < 2 ^ 64) : (UInt64.ofNat k).toNat = k :=
    UInt64.toNat_ofNat_of_lt' fits
  rw [ofInt_magnitude]
  unfold negative magnitude
  split
  · rename_i below
    dsimp only
    rw [word _ (by omega)]
    simp only [below, decide_true, decide_eq_true_eq]
    omega
  · rename_i above
    dsimp only
    rw [word _ (by omega)]
    simp only [above, decide_false, decide_eq_false_iff_not]
    omega

theorem ofInt_number {n : Int} (range : n.natAbs < 2 ^ 64) : (ofInt n).isNaN = false := by
  unfold isNaN
  rw [(ofInt_parts range).2, decide_eq_false_iff_not]
  exact Nat.not_lt.mpr (Nat.le_of_lt (magnitudeOf_lt range))

theorem key_ofInt {n : Int} (range : n.natAbs < 2 ^ 64) :
    (ofInt n).key = if n < 0 then -(magnitudeOf n.natAbs : Int) else magnitudeOf n.natAbs := by
  unfold key
  rw [(ofInt_parts range).1, (ofInt_parts range).2]
  simp only [decide_eq_true_eq]

theorem ofInt_mono {m n : Int} (range : m.natAbs < 2 ^ 64) (range' : n.natAbs < 2 ^ 64) (le : m ≤ n) :
    (ofInt m).key ≤ (ofInt n).key := by
  rw [key_ofInt range, key_ofInt range']
  split
  · split
    · have magnitudes := @magnitudeOf_mono n.natAbs m.natAbs (by omega)
      omega
    · omega
  · have magnitudes := @magnitudeOf_mono m.natAbs n.natAbs (by omega)
    split <;> omega

end F64
end Binary
