import Mathlib.Data.Int.Basic
import Mathlib.Tactic.Ring

/-! Machine integers whose arithmetic can be checked: each operation has a result or overflows. -/
namespace Checked

/-- Integers between two bounds. Their own arithmetic wraps. -/
class MachineInt (α : Type) [Add α] [Sub α] [Mul α] where
  low : Int
  high : Int
  value : α → Int
  ofInt : Int → α
  low_le (a : α) : low ≤ value a
  le_high (a : α) : value a ≤ high
  ofInt_value (a : α) : ofInt (value a) = a
  value_ofInt {n : Int} (above : low ≤ n) (below : n ≤ high) : value (ofInt n) = n
  add_eq (a b : α) : ofInt (value a + value b) = a + b
  sub_eq (a b : α) : ofInt (value a - value b) = a - b
  mul_eq (a b : α) : ofInt (value a * value b) = a * b

open MachineInt

variable {α : Type} [Add α] [Sub α] [Mul α] [MachineInt α]

def checked (n : Int) : Option α :=
  if low α ≤ n ∧ n ≤ high α then some (ofInt n) else none

def checkedAdd (a b : α) : Option α := checked (value a + value b)
def checkedSub (a b : α) : Option α := checked (value a - value b)
def checkedMul (a b : α) : Option α := checked (value a * value b)

theorem checked_eq_some {n : Int} {a : α} : checked n = some a ↔ value a = n := by
  unfold checked
  constructor
  · intro found
    split at found
    · rename_i inside
      cases found
      exact value_ofInt inside.1 inside.2
    · cases found
  · rintro rfl
    rw [if_pos ⟨low_le a, le_high a⟩, ofInt_value]

theorem checked_eq_none {n : Int} :
    (checked n : Option α) = none ↔ n < low α ∨ high α < n := by
  unfold checked
  constructor
  · intro missing
    split at missing
    · cases missing
    · omega
  · intro outside
    rw [if_neg (by omega)]

theorem checked_inside {n : Int} (above : low α ≤ n) (below : n ≤ high α) :
    ∃ a : α, checked n = some a ∧ value a = n :=
  ⟨ofInt n, checked_eq_some.mpr (value_ofInt above below), value_ofInt above below⟩

theorem wrapping_of_checked {a b c : α} :
    (checkedAdd a b = some c → a + b = c) ∧ (checkedSub a b = some c → a - b = c) ∧
      (checkedMul a b = some c → a * b = c) := by
  have same {n : Int} (found : checked n = some c) : ofInt n = c := by
    rw [← checked_eq_some.mp found, ofInt_value]
  exact ⟨fun found => (add_eq a b).symm.trans (same found),
    fun found => (sub_eq a b).symm.trans (same found),
    fun found => (mul_eq a b).symm.trans (same found)⟩

/-! ### The types of the machine -/

theorem uint32_ofInt (n : Nat) : UInt32.ofInt n = UInt32.ofNat n := by
  apply UInt32.toNat_inj.mp
  unfold UInt32.ofInt
  simp only [UInt32.toNat_ofNat']
  omega

theorem uint32_ofInt_toNat (a : UInt32) : UInt32.ofInt a.toNat = a := by
  rw [uint32_ofInt, UInt32.ofNat_toNat]

theorem toNat_toUInt32 {y : Int64} (above : 0 ≤ y.toInt) (below : y.toInt < 2 ^ 32) :
    (y.toUInt64.toUInt32.toNat : Int) = y.toInt := by
  have nonneg : (0 : Int64) ≤ y := Int64.le_iff_toInt_le.mpr above
  have same := Int64.toNat_toUInt64_of_le nonneg
  have clamped : (y.toNatClampNeg : Int) = y.toInt := Int.toNat_of_nonneg above
  rw [UInt64.toNat_toUInt32, same]
  omega

theorem toInt_toInt64 (d : UInt32) : d.toUInt64.toInt64.toInt = d.toNat := by
  have below := d.toNat_lt
  have same : d.toUInt64.toInt64.toBitVec.toNat = d.toNat := rfl
  have signed : d.toUInt64.toInt64.toInt = d.toUInt64.toInt64.toBitVec.toInt := rfl
  rw [signed, BitVec.toInt_eq_toNat_of_lt (by omega), same]

/-- The quotient by a positive number cannot overflow. -/
theorem toInt_div (a b : Int64) (positive : 0 < b.toInt) : (a / b).toInt = a.toInt.tdiv b.toInt := by
  have low := a.le_toInt
  have high := a.toInt_lt
  have small := Int.natAbs_tdiv_le_natAbs a.toInt b.toInt
  rw [Int64.toInt_div]
  have notLow : -2 ^ 63 ≤ a.toInt.tdiv b.toInt := by omega
  have notHigh : a.toInt.tdiv b.toInt < 2 ^ 63 := by
    by_cases neg : a.toInt < 0
    · have flipped := Int.tdiv_nonneg (by omega : 0 ≤ -a.toInt) (Int.le_of_lt positive)
      rw [Int.neg_tdiv] at flipped
      omega
    · omega
  exact Int.bmod_eq_of_le (by omega) (by omega)

instance : MachineInt Int64 where
  low := -2 ^ 63
  high := 2 ^ 63 - 1
  value := Int64.toInt
  ofInt := Int64.ofInt
  low_le a := a.le_toInt
  le_high a := Int.le_sub_one_of_lt a.toInt_lt
  ofInt_value a := Int64.ofInt_toInt a
  value_ofInt above below := Int64.toInt_ofInt_of_le above (Int.lt_of_le_sub_one below)
  add_eq a b := by rw [Int64.ofInt_add, Int64.ofInt_toInt, Int64.ofInt_toInt]
  sub_eq a b := by rw [Int64.ofInt_sub, Int64.ofInt_toInt, Int64.ofInt_toInt]
  mul_eq a b := by rw [Int64.ofInt_mul, Int64.ofInt_toInt, Int64.ofInt_toInt]

instance : MachineInt UInt32 where
  low := 0
  high := 2 ^ 32 - 1
  value a := a.toNat
  ofInt := UInt32.ofInt
  low_le a := Int.natCast_nonneg _
  le_high a := by
    have below := a.toNat_lt
    omega
  ofInt_value a := uint32_ofInt_toNat a
  value_ofInt {n} above below := by
    have size : UInt32.size = 2 ^ 32 := rfl
    obtain ⟨k, rfl⟩ := Int.eq_ofNat_of_zero_le above
    rw [uint32_ofInt, UInt32.toNat_ofNat_of_lt' (by omega)]
  add_eq a b := by rw [UInt32.ofInt_add, uint32_ofInt_toNat, uint32_ofInt_toNat]
  sub_eq a b := by
    rw [Int.sub_eq_add_neg, UInt32.ofInt_add, UInt32.ofInt_neg, uint32_ofInt_toNat,
      uint32_ofInt_toNat, UInt32.sub_eq_add_neg]
  mul_eq a b := by rw [UInt32.ofInt_mul, uint32_ofInt_toNat, uint32_ofInt_toNat]

/-! ### Results inside the bounds, and outside -/

theorem int64_checked {n : Int} (above : -2 ^ 63 ≤ n) (below : n < 2 ^ 63) :
    ∃ c : Int64, checked n = some c ∧ c.toInt = n :=
  checked_inside above (Int.le_sub_one_of_lt below)

theorem int64_checkedMul {a b : Int64} {n : Int} (factor : b.toInt = n)
    (above : -2 ^ 63 ≤ a.toInt * n) (below : a.toInt * n < 2 ^ 63) :
    ∃ c, checkedMul a b = some c ∧ c.toInt = a.toInt * n := by
  subst factor
  exact int64_checked above below

theorem int64_checked_high {n : Int} (outside : 2 ^ 63 ≤ n) :
    (checked n : Option Int64) = none :=
  checked_eq_none.mpr (.inr (Int.lt_of_lt_of_le (by decide) outside))

theorem int64_checkedMul_high {a b : Int64} {n : Int} (factor : b.toInt = n)
    (outside : 2 ^ 63 ≤ a.toInt * n) : checkedMul a b = none := by
  subst factor
  exact int64_checked_high outside

theorem uint32_checkedAdd {a b : UInt32} (below : a.toNat + b.toNat < 2 ^ 32) :
    ∃ c : UInt32, checkedAdd a b = some c ∧ c.toNat = a.toNat + b.toNat := by
  have inside : (a.toNat + b.toNat : Int) ≤ 2 ^ 32 - 1 := by omega
  obtain ⟨c, found, same⟩ := checked_inside (α := UInt32) (by exact Int.natCast_nonneg _) inside
  exact ⟨c, found, Int.ofNat.inj same⟩

theorem uint32_checkedMul {a b : UInt32} (below : a.toNat * b.toNat < 2 ^ 32) :
    ∃ c : UInt32, checkedMul a b = some c ∧ c.toNat = a.toNat * b.toNat := by
  have inside : (a.toNat * b.toNat : Int) ≤ 2 ^ 32 - 1 := by
    have cast : ((a.toNat * b.toNat : Nat) : Int) = a.toNat * b.toNat := Int.natCast_mul _ _
    omega
  obtain ⟨c, found, same⟩ := checked_inside (α := UInt32) (by exact Int.natCast_nonneg _) inside
  exact ⟨c, found, Int.ofNat.inj same⟩

theorem uint32_checkedMul_high {a b : UInt32} (outside : 2 ^ 32 ≤ a.toNat * b.toNat) :
    checkedMul a b = none := by
  refine checked_eq_none.mpr (.inr ?_)
  have cast : ((a.toNat * b.toNat : Nat) : Int) = a.toNat * b.toNat := Int.natCast_mul _ _
  change (2 ^ 32 - 1 : Int) < a.toNat * b.toNat
  omega

theorem uint32_checkedSub {a b : UInt32} (le : b.toNat ≤ a.toNat) :
    ∃ c : UInt32, checkedSub a b = some c ∧ c.toNat = a.toNat - b.toNat := by
  have small := a.toNat_lt
  obtain ⟨c, found, same⟩ := checked_inside (α := UInt32) (n := a.toNat - b.toNat)
    (by exact Int.sub_nonneg_of_le (Int.ofNat_le.mpr le)) (by change _ ≤ (2 ^ 32 - 1 : Int); omega)
  refine ⟨c, found, ?_⟩
  have value : (c.toNat : Int) = a.toNat - b.toNat := same
  omega

theorem uint32_checkedSub_low {a b : UInt32} (less : a.toNat < b.toNat) : checkedSub a b = none := by
  refine checked_eq_none.mpr (.inl ?_)
  change (a.toNat - b.toNat : Int) < 0
  omega

end Checked
