import TronDB.Core.Types
import TronDB.Lib.Arithmetic
import TronDB.Lib.ByteOrder

/-! Quantised vectors: one byte a component in the warm tier, one bit in the archive. -/
namespace Binary
open Bytes

/-- With the remainder in the last place, so that the rounding sees it. -/
def F64.sqrt (x : F64) : F64 :=
  if x.isNaN then .nan
  else if x.magnitude = 0 then x
  else if x.negative then .nan
  else if x.isInfinite then x
  else
    let scaled := x.units * 2 ^ 1074
    let root := Nat.sqrt scaled
    nearest false (2 * root + if root * root = scaled then 0 else 1) 2

namespace F32

def infinity : F32 := ⟨0x7F800000⟩

def negInfinity : F32 := ⟨0xFF800000⟩

def epsilon : F32 := ⟨0x34000000⟩

def byteMax : F32 := ⟨0x437F0000⟩

-- binary64 has more than twice the digits, so that rounding twice rounds right
def add (x y : F32) : F32 := (x.toF64.add y.toF64).toF32
def sub (x y : F32) : F32 := (x.toF64.sub y.toF64).toF32
def mul (x y : F32) : F32 := (x.toF64.mul y.toF64).toF32
def div (x y : F32) : F32 := (x.toF64.div y.toF64).toF32

def sqrt (x : F32) : F32 := x.toF64.sqrt.toF32

def isZero (x : F32) : Bool := x.magnitude = 0

def ofNat (n : Nat) : F32 := (F64.ofInt n).toF32

def sum (xs : List F32) : F32 := xs.foldl add ⟨0⟩

def max (x y : F32) : F32 := if x.isNaN then y else if y.isNaN then x else if x.lt y then y else x

def min (x y : F32) : F32 := if x.isNaN then y else if y.isNaN then x else if y.lt x then y else x

def ofByte (b : UInt8) : F32 := (F64.ofInt b.toNat).toF32

/-- Rounded half away from zero and clamped to a byte; a NaN becomes 0. -/
def roundToByte (x : F32) : UInt8 :=
  if x.isNaN || x.negative then 0
  else UInt8.ofNat (Nat.min 255 ((2 * x.toF64.units + 2 ^ 1074) / 2 ^ 1075))

def leBytes (x : F32) : List UInt8 := (beBytes 4 x.bits.toNat).reverse

def ofLE (bytes : List UInt8) : F32 := ⟨UInt32.ofNat (fromBE bytes.reverse)⟩

end F32
end Binary

namespace TronDB.Core
open Binary

structure QuantisedInt8 where
  min : F32
  max : F32
  data : List UInt8
  deriving DecidableEq, Repr

def isConstant (min max : F32) : Bool := (max.sub min).absLt .epsilon

/-- A constant vector is all zeros, and its least component carries the value. -/
def quantiseInt8 (vector : List F32) : QuantisedInt8 :=
  if vector = [] then ⟨⟨0⟩, ⟨0⟩, []⟩
  else
    let min := vector.foldl F32.min .infinity
    let max := vector.foldl F32.max .negInfinity
    if isConstant min max then ⟨min, max, List.replicate vector.length 0⟩
    else
      let scale := F32.byteMax.div (max.sub min)
      ⟨min, max, vector.map fun v => ((v.sub min).mul scale).roundToByte⟩

def dequantiseInt8 (q : QuantisedInt8) : List F32 :=
  if q.data = [] then []
  else if isConstant q.min q.max then List.replicate q.data.length q.min
  else
    let range := q.max.sub q.min
    q.data.map fun v => (((F32.ofByte v).div .byteMax).mul range).add q.min

def QuantisedInt8.toBytes (q : QuantisedInt8) : List UInt8 := q.min.leBytes ++ q.max.leBytes ++ q.data

def QuantisedInt8.fromBytes (bytes : List UInt8) : Except EngineError QuantisedInt8 :=
  if bytes.length < 8 then .error (.storage "Int8 data too short")
  else .ok ⟨.ofLE (bytes.take 4), .ofLE ((bytes.drop 4).take 4), bytes.drop 8⟩

structure QuantisedBinary where
  data : List UInt8
  dimensions : Nat
  deriving DecidableEq, Repr

/-- The signs of at most eight components, from the highest bit on. -/
def signBits (vector : List F32) : UInt8 :=
  vector.zipIdx.foldl (fun byte vi =>
    if vi.1.ge ⟨0⟩ then byte ||| (1 <<< UInt8.ofNat (7 - vi.2)) else byte) 0

def quantiseBinary (vector : List F32) : QuantisedBinary :=
  ⟨(List.range ((vector.length + 7) / 8)).map fun byte => signBits ((vector.drop (8 * byte)).take 8),
    vector.length⟩

def QuantisedBinary.toBytes (q : QuantisedBinary) : List UInt8 := q.data

example : dequantiseInt8 (quantiseInt8 [⟨0x3F800000⟩, ⟨0⟩, ⟨0xBF800000⟩]) =
      [⟨0x3F800000⟩, ⟨0x3B808100⟩, ⟨0xBF800000⟩] ∧
    (quantiseBinary [⟨0x3F800000⟩, ⟨0xBF800000⟩, ⟨0⟩]).data = [0xA0] := by decide +kernel

end TronDB.Core
