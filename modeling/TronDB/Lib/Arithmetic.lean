import TronDB.Lib.Binary

/-! Arithmetic of binary64: the exact result, rounded to nearest, ties to even. -/
namespace Binary

/-- A quotient rounded to the nearest integer, ties to even. -/
def roundDiv (num den : Nat) : Nat :=
  let low := num / den
  let rest := num % den
  if den < 2 * rest ∨ (den = 2 * rest ∧ low % 2 = 1) then low + 1 else low

namespace F64

def infinity : Nat := 0x7FF * 2 ^ 52

def nan : F64 := ⟨0x7FF8000000000000⟩

def zero : F64 := ⟨0⟩

def one : F64 := ⟨0x3FF0000000000000⟩

def thousand : F64 := ⟨0x408F400000000000⟩

def isInfinite (x : F64) : Bool := x.magnitude = infinity

def signed (negative : Bool) (magnitude : Nat) : F64 :=
  ⟨UInt64.ofNat (if negative then 2 ^ 63 + magnitude else magnitude)⟩

/-- The magnitude of a finite number in units of `2 ^ -1074`. -/
def units (x : F64) : Nat :=
  if x.magnitude < 2 ^ 52 then x.magnitude
  else (2 ^ 52 + x.magnitude % 2 ^ 52) * 2 ^ (x.magnitude / 2 ^ 52 - 1)

def signedUnits (x : F64) : Int := if x.negative then -(x.units : Int) else x.units

def nearest (negative : Bool) (num den : Nat) : F64 :=
  -- a significand of 53 bits, or less when the exponent is the lowest
  let shift := Nat.log2 (num / den) - 52
  signed negative (min infinity (shift * 2 ^ 52 + roundDiv num (den * 2 ^ shift)))

def neg (x : F64) : F64 := signed (!x.negative) x.magnitude

def add (x y : F64) : F64 :=
  if x.isNaN || y.isNaN then nan
  else if x.isInfinite then (if y.isInfinite && x.negative != y.negative then nan else x)
  else if y.isInfinite then y
  else
    let sum := x.signedUnits + y.signedUnits
    if sum = 0 then signed (x.negative && y.negative) 0 else nearest (sum < 0) sum.natAbs 1

def sub (x y : F64) : F64 := x.add y.neg

def mul (x y : F64) : F64 :=
  let negative := x.negative != y.negative
  if x.isNaN || y.isNaN then nan
  else if x.isInfinite || y.isInfinite then
    if x.magnitude = 0 || y.magnitude = 0 then nan else signed negative infinity
  else nearest negative (x.units * y.units) (2 ^ 1074)

def div (x y : F64) : F64 :=
  let negative := x.negative != y.negative
  if x.isNaN || y.isNaN || (x.isInfinite && y.isInfinite) then nan
  else if x.isInfinite then signed negative infinity
  else if y.isInfinite then signed negative 0
  else if y.magnitude = 0 then (if x.magnitude = 0 then nan else signed negative infinity)
  else nearest negative (x.units * 2 ^ 1074) y.units

def max (x y : F64) : F64 := if x.isNaN then y else if y.isNaN then x else if x.lt y then y else x

def min (x y : F64) : F64 := if x.isNaN then y else if y.isNaN then x else if y.lt x then y else x

example : (ofInt 1500).div thousand = ⟨0x3FF8000000000000⟩ ∧
    one.sub (mul ⟨0x3FB999999999999A⟩ (ofInt 2)) = ⟨0x3FE999999999999A⟩ ∧
    mul ⟨1⟩ ⟨0x3FE0000000000000⟩ = zero := by decide +kernel

end F64

namespace F32

def one : F32 := ⟨0x3F800000⟩

def ge (x y : F32) : Bool := !x.isNaN && !y.isNaN && y.key ≤ x.key

def toF64 (x : F32) : F64 :=
  let e := x.magnitude / 2 ^ 23
  let fraction := x.magnitude % 2 ^ 23
  if e = 0xFF then
    F64.signed x.negative
      (F64.infinity + (if fraction = 0 then 0 else 2 ^ 51) ||| fraction * 2 ^ 29)
  else if e = 0 then F64.nearest x.negative (fraction * 2 ^ (1074 - 149)) 1
  else F64.signed x.negative ((e + (1023 - 127)) * 2 ^ 52 + fraction * 2 ^ 29)

example : toF64 ⟨0x3F800000⟩ = F64.one ∧ toF64 ⟨1⟩ = ⟨0x36A0000000000000⟩ := by decide +kernel

end F32

/-! ### Rounding to 1.0 -/

/-- The least binary64 that rounds to the binary32 1.0. -/
def nearlyOne : F64 := ⟨0x3FEFFFFFF0000000⟩

theorem roundShift_le (m shift : Nat) : roundShift m shift ≤ m / 2 ^ shift + 1 := by
  unfold roundShift
  dsimp only
  split <;> omega

theorem roundShift_deep (m more : Nat) : roundShift m (29 + more) ≤ m / 2 ^ 29 + 1 := by
  have bound := roundShift_le m (29 + more)
  have small : m / 2 ^ (29 + more) ≤ m / 2 ^ 29 :=
    Nat.div_le_div_left (Nat.pow_le_pow_right (by omega) (by omega)) (by omega)
  omega

theorem toF32_one {x : F64} (positive : x.negative = false)
    (least : 0x3FEFFFFFF0000000 ≤ x.magnitude) (most : x.magnitude ≤ 0x3FF0000000000000) :
    x.toF32 = .one := by
  unfold F64.toF32
  simp only [positive, Bool.false_eq_true, if_false]
  generalize x.magnitude = m at least most
  have exponent : m / 2 ^ 52 = 1022 ∨ m / 2 ^ 52 = 1023 := by omega
  have rounded : (m / 2 ^ 52 - (1023 - 127)) * 2 ^ 23 +
      (roundShift (2 ^ 52 + m % 2 ^ 52) 29 - 2 ^ 23) = 0x3F800000 := by
    unfold roundShift
    dsimp only
    split <;> omega
  rw [if_neg (by omega), if_neg (by omega), if_pos (by omega), rounded]
  rfl

theorem toF32_negative {x : F64} (negative : x.negative = true) : x.toF32 ≠ .one := by
  have signed : ∃ n < 2 ^ 31, x.toF32 = ⟨UInt32.ofNat (2 ^ 31 + n)⟩ := by
    unfold F64.toF32
    simp only [negative, if_true]
    have bound : x.magnitude < 2 ^ 63 := Nat.mod_lt _ (by omega)
    generalize x.magnitude = m at bound
    refine ⟨_, ?_, rfl⟩
    split
    · split <;> omega
    · split
      · omega
      · split
        · have small := roundShift_le (2 ^ 52 + m % 2 ^ 52) 29
          omega
        · split
          · omega
          · have bound := roundShift_deep (2 ^ 52 + m % 2 ^ 52) (1023 - 126 - m / 2 ^ 52)
            omega
  obtain ⟨n, bound, bits⟩ := signed
  intro one
  have same := congrArg (fun y : F32 => y.bits.toNat) (bits.symm.trans one)
  simp only [UInt32.toNat_ofNat'] at same
  have value : F32.one.bits.toNat = 0x3F800000 := rfl
  omega

theorem toF32_magnitude_lt {x : F64} (below : x.magnitude < 0x3FEFFFFFF0000000) :
    ∃ n < 0x3F800000, x.toF32 = ⟨UInt32.ofNat (if x.negative then 2 ^ 31 + n else n)⟩ := by
  unfold F64.toF32
  dsimp only
  generalize x.magnitude = m at below
  refine ⟨_, ?_, rfl⟩
  rw [if_neg (by omega), if_neg (by omega)]
  split
  · unfold roundShift
    dsimp only
    split <;> omega
  · split
    · omega
    · have bound := roundShift_deep (2 ^ 52 + m % 2 ^ 52) (1023 - 126 - m / 2 ^ 52)
      omega

theorem toF32_small {x : F64} (below : x.magnitude < 0x3FEFFFFFF0000000) : x.toF32 ≠ .one := by
  cases negative : x.negative with
  | true => exact toF32_negative negative
  | false =>
    obtain ⟨n, less, bits⟩ := toF32_magnitude_lt below
    rw [negative] at bits
    intro one
    have same := congrArg (fun y : F32 => y.bits.toNat) (bits.symm.trans one)
    simp only [Bool.false_eq_true, if_false, UInt32.toNat_ofNat'] at same
    have value : F32.one.bits.toNat = 0x3F800000 := rfl
    omega

/-- Capped at 1.0, a number rounds to 1.0 unless it is below `nearlyOne`. -/
theorem toF32_capped (x : F64) : (x.min .one).toF32 = .one ↔ ¬ x.lt nearlyOne = true := by
  have full : F64.one.toF32 = F32.one := by decide
  have oneKey : F64.one.key = 0x3FF0000000000000 := by decide
  have nearKey : nearlyOne.key = 0x3FEFFFFFF0000000 := by decide
  have oneNumber : F64.one.isNaN = false := by decide
  have nearNumber : nearlyOne.isNaN = false := by decide
  unfold F64.min F64.lt
  cases number : x.isNaN with
  | true => simp [full]
  | false =>
    simp only [oneNumber, nearNumber, oneKey, nearKey, Bool.false_eq_true, if_false, Bool.not_false,
      Bool.true_and, decide_eq_true_eq, Int.not_lt]
    by_cases above : 0x3FF0000000000000 < x.key
    · rw [if_pos above]
      exact iff_of_true full (by omega)
    · rw [if_neg above]
      cases negative : x.negative with
      | true =>
        have key : x.key ≤ 0 := by
          simp only [F64.key, negative, if_true]
          omega
        exact iff_of_false (toF32_negative negative) (by omega)
      | false =>
        have key : x.key = x.magnitude := by simp only [F64.key, negative, Bool.false_eq_true, if_false]
        rw [key] at above ⊢
        constructor
        · intro one
          by_cases below : x.magnitude < 0x3FEFFFFFF0000000
          · exact absurd one (toF32_small below)
          · omega
        · intro least
          exact toF32_one negative (by omega) (by omega)

theorem toF32_number {x : F64} (number : x.isNaN = false) : ∃ n ≤ 0xFF * 2 ^ 23,
    x.toF32 = ⟨UInt32.ofNat (if x.negative then 2 ^ 31 + n else n)⟩ := by
  have bound : x.magnitude ≤ 0x7FF * 2 ^ 52 := by
    have := of_decide_eq_false number
    omega
  unfold F64.toF32
  dsimp only
  generalize x.magnitude = m at bound
  refine ⟨_, ?_, rfl⟩
  split
  · rw [if_pos (by omega)]
    omega
  · split
    · omega
    · split
      · have small := roundShift_le (2 ^ 52 + m % 2 ^ 52) 29
        omega
      · split
        · omega
        · have near := roundShift_le (2 ^ 52 + m % 2 ^ 52) (29 + (1023 - 126 - m / 2 ^ 52))
          have small : (2 ^ 52 + m % 2 ^ 52) / 2 ^ (29 + (1023 - 126 - m / 2 ^ 52)) ≤
              (2 ^ 52 + m % 2 ^ 52) / 2 ^ 29 :=
            Nat.div_le_div_left (Nat.pow_le_pow_right (by omega) (by omega)) (by omega)
          omega

/-- A number up to 1.0 is up to 1.0 as a binary32. -/
theorem ge_toF32 {x : F64} (most : F64.one.ge x = true) : F32.one.ge x.toF32 = true := by
  have oneKey : F64.one.key = 0x3FF0000000000000 := by decide
  have smallKey : F32.one.key = 0x3F800000 := by decide
  have smallNumber : F32.one.isNaN = false := by decide
  unfold F64.ge at most
  simp only [Bool.and_eq_true, Bool.not_eq_true', decide_eq_true_eq, oneKey] at most
  obtain ⟨⟨-, number⟩, below⟩ := most
  obtain ⟨n, bound, bits⟩ := toF32_number number
  have value : x.toF32.bits.toNat = if x.negative then 2 ^ 31 + n else n := by
    rw [bits, UInt32.toNat_ofNat']
    split <;> omega
  have magnitude : x.toF32.magnitude = n := by
    unfold F32.magnitude
    rw [value]
    split <;> omega
  have finite : x.toF32.isNaN = false := by
    unfold F32.isNaN
    rw [magnitude]
    exact decide_eq_false (by omega)
  unfold F32.ge
  rw [smallNumber, finite, smallKey]
  simp only [Bool.not_false, Bool.true_and, decide_eq_true_eq]
  unfold F32.key F32.negative
  rw [magnitude, value]
  cases negative : x.negative with
  | true =>
    rw [if_pos rfl, if_pos (decide_eq_true (by omega))]
    omega
  | false =>
    have key : x.key = x.magnitude := by
      simp only [F64.key, negative, Bool.false_eq_true, if_false]
    rw [if_neg Bool.false_ne_true, if_neg (by simp; omega)]
    by_cases near : 0x3FEFFFFFF0000000 ≤ x.magnitude
    · have one := toF32_one negative near (by omega)
      rw [one] at magnitude
      have : F32.one.magnitude = 0x3F800000 := by decide
      omega
    · obtain ⟨n', less, bits'⟩ := toF32_magnitude_lt (x := x) (by omega)
      rw [bits', negative] at value
      simp only [Bool.false_eq_true, if_false, UInt32.toNat_ofNat'] at value
      omega

end Binary
