import Mathlib.Data.List.Basic
import Mathlib.Tactic.Ring

/-! IEEE 754 binary64 and binary32 as bit patterns: comparison, and conversion of integers
to the nearest binary64, ties to even. -/
namespace Binary

structure F64 where
  bits : UInt64
  deriving DecidableEq, Repr

structure F32 where
  bits : UInt32
  deriving DecidableEq, Repr

/-- Division by a power of two, rounded to the nearest integer, ties to even. -/
def roundShift (m shift : Nat) : Nat :=
  let unit := 2 ^ shift
  let low := m / unit
  let rest := m % unit
  if unit < 2 * rest ∨ (unit = 2 * rest ∧ low % 2 = 1) then low + 1 else low

namespace F64

/-- The bits below the sign bit. Away from NaN they order the magnitudes. -/
def magnitude (x : F64) : Nat := x.bits.toNat % 2 ^ 63

def negative (x : F64) : Bool := 2 ^ 63 ≤ x.bits.toNat

/-- The exponent is all ones and the fraction is not zero. -/
def isNaN (x : F64) : Bool := 0x7FF * 2 ^ 52 < x.magnitude

/-- Away from NaN, numbers compare as these integers; both zeros are 0. -/
def key (x : F64) : Int := if x.negative then -(x.magnitude : Int) else x.magnitude

def eq (x y : F64) : Bool := !x.isNaN && !y.isNaN && x.key = y.key
def lt (x y : F64) : Bool := !x.isNaN && !y.isNaN && x.key < y.key
def gt (x y : F64) : Bool := y.lt x
def ge (x y : F64) : Bool := !x.isNaN && !y.isNaN && y.key ≤ x.key

/-- The nearest binary64 of an integer of magnitude below `2 ^ 1024`, ties to even. -/
def ofInt (n : Int) : F64 :=
  let m := n.natAbs
  let e := Nat.log2 m
  -- the significand, between `2 ^ 52` and `2 ^ 53`; a carry out of it raises the exponent
  let significand := if e ≤ 52 then m * 2 ^ (52 - e) else roundShift m (e - 52)
  let magnitude := if m = 0 then 0 else (e + 1023) * 2 ^ 52 + (significand - 2 ^ 52)
  ⟨UInt64.ofNat (if n < 0 then 2 ^ 63 + magnitude else magnitude)⟩

/-- Half of a number that is zero or at least `2 ^ -1021` in magnitude. -/
def half (x : F64) : F64 := if x.magnitude = 0 then x else ⟨x.bits - ((1 : UInt64) <<< 52)⟩

example : ofInt 1 = ⟨0x3FF0000000000000⟩ ∧ ofInt (-3) = ⟨0xC008000000000000⟩ ∧
    ofInt 9007199254740993 = ⟨0x4340000000000000⟩ := by decide

/-- The nearest binary32, ties to even; what is too large becomes infinite. -/
def toF32 (x : F64) : F32 :=
  let e := x.magnitude / 2 ^ 52
  let fraction := x.magnitude % 2 ^ 52
  let magnitude :=
    if e = 0x7FF then 0xFF * 2 ^ 23 + (if fraction = 0 then 0 else 2 ^ 22 + fraction / 2 ^ 29 % 2 ^ 22)
    else if 1023 + 127 < e then 0xFF * 2 ^ 23
    -- a normal result: the carry of the rounding runs into the exponent
    else if 1023 - 126 ≤ e then (e - (1023 - 127)) * 2 ^ 23 + (roundShift (2 ^ 52 + fraction) 29 - 2 ^ 23)
    else if e = 0 then 0
    else roundShift (2 ^ 52 + fraction) (29 + (1023 - 126 - e))
  ⟨UInt32.ofNat (if x.negative then 2 ^ 31 + magnitude else magnitude)⟩

example : (ofInt 1).toF32 = ⟨0x3F800000⟩ ∧ (ofInt 16777217).toF32 = ⟨0x4B800000⟩ := by decide

end F64

namespace F32

def magnitude (x : F32) : Nat := x.bits.toNat % 2 ^ 31

def negative (x : F32) : Bool := 2 ^ 31 ≤ x.bits.toNat

def isNaN (x : F32) : Bool := 0xFF * 2 ^ 23 < x.magnitude

def key (x : F32) : Int := if x.negative then -(x.magnitude : Int) else x.magnitude

def lt (x y : F32) : Bool := !x.isNaN && !y.isNaN && x.key < y.key

def absLt (x y : F32) : Bool := !x.isNaN && !y.isNaN && x.magnitude < y.magnitude

end F32
end Binary
