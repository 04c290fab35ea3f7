import TronDB.Core.ExactInt8
import TronDB.Lib.Packing
import TronDB.Lib.Walsh

/-! PolarQuant: a vector is rotated by signs and a Walsh-Hadamard transform, and each rotated
coordinate becomes a code of a few bits. -/
namespace Binary.F32

def neg (x : F32) : F32 := ⟨x.bits ^^^ 0x80000000⟩

instance : Zero F32 := ⟨⟨0⟩⟩
instance : One F32 := ⟨one⟩
instance : Add F32 := ⟨add⟩
instance : Sub F32 := ⟨sub⟩
instance : Mul F32 := ⟨mul⟩
instance : Div F32 := ⟨div⟩
instance : Neg F32 := ⟨neg⟩
instance : NatCast F32 := ⟨ofNat⟩

example : sqrt ⟨0x40800000⟩ = ⟨0x40000000⟩ ∧ sqrt ⟨0x40000000⟩ = ⟨0x3FB504F3⟩ := by decide +kernel

end Binary.F32

namespace TronDB.Core
open Binary Bytes Packing

/-- What the codec asks of its numbers beside the arithmetic. -/
class Scalar (α : Type*) where
  sqrt : α → α
  epsilon : α
  gt : α → α → Bool

instance : Scalar F32 := ⟨F32.sqrt, .epsilon, fun x y => y.lt x⟩

noncomputable instance : Scalar ℝ := ⟨Real.sqrt, exactEpsilon ℝ, fun x y => decide (y < x)⟩

structure PolarQuantConfig where
  bits : UInt8
  dimensions : Nat
  signs : List Bool
  paddedDim : Nat
  deriving DecidableEq, Repr

structure QuantisedPolar (α : Type*) where
  norm : α
  dimensions : Nat
  bits : UInt8
  data : List UInt8
  deriving DecidableEq, Repr

/-! ### The configuration -/

/-- The least power of two that is not below a number; past `2 ^ 63` it wraps to 0. -/
def nextPowerOfTwo (n : Nat) : Nat := (if n ≤ 1 then 1 else 2 ^ (Nat.log2 (n - 1) + 1)) % 2 ^ 64

def isPowerOfTwo (n : Nat) : Bool := n = 2 ^ Nat.log2 n

def xorshift64 (state : UInt64) : UInt64 :=
  let state := state ^^^ (state <<< 13)
  let state := state ^^^ (state >>> 7)
  state ^^^ (state <<< 17)

namespace PolarQuantConfig

def new (bits : UInt8) (dimensions : Nat) (seed : UInt64) : Except Fault PolarQuantConfig :=
  if 2 ≤ bits ∧ bits ≤ 4 then
    let paddedDim := nextPowerOfTwo dimensions
    let signs : List Bool := (List.iterate xorshift64 (xorshift64 seed) paddedDim).map fun state => state &&& 1 = 0
    .ok ⟨bits, dimensions, signs, paddedDim⟩
  else .error .assertion

def centroids (config : PolarQuantConfig) : Except Fault (List F32) :=
  match config.bits with
  | 2 => .ok [⟨0xBFC1555D⟩, ⟨0xBEE7D2C8⟩, ⟨0x3EE7D2C8⟩, ⟨0x3FC1555D⟩]
  | 3 => .ok [⟨0xC009B97A⟩, ⟨0xBFAC0538⟩, ⟨0xBF418990⟩, ⟨0xBE7AF9F9⟩, ⟨0x3E7AF9F9⟩, ⟨0x3F418990⟩,
      ⟨0x3FAC0538⟩, ⟨0x4009B97A⟩]
  | 4 => .ok [⟨0xC02EE908⟩, ⟨0xC00471E0⟩, ⟨0xBFCF2AA1⟩, ⟨0xBFA0D9D5⟩, ⟨0xBF7154D7⟩, ⟨0xBF283394⟩,
      ⟨0xBEC6C53E⟩, ⟨0xBE0389AE⟩, ⟨0x3E0389AE⟩, ⟨0x3EC6C53E⟩, ⟨0x3F283394⟩, ⟨0x3F7154D7⟩,
      ⟨0x3FA0D9D5⟩, ⟨0x3FCF2AA1⟩, ⟨0x400471E0⟩, ⟨0x402EE908⟩]
  | _ => .error .unreachable

def boundaries (config : PolarQuantConfig) : Except Fault (List F32) :=
  match config.bits with
  | 2 => .ok [⟨0xBF7B4A0F⟩, ⟨0⟩, ⟨0x3F7B4A0F⟩]
  | 3 => .ok [⟨0xBFDFBC17⟩, ⟨0xBF866500⟩, ⟨0xBF002406⟩, ⟨0⟩, ⟨0x3F002406⟩, ⟨0x3F866500⟩, ⟨0x3FDFBC17⟩]
  | 4 => .ok [⟨0xC019ADB1⟩, ⟨0xBFEC07B4⟩, ⟨0xBFB802BC⟩, ⟨0xBF8CC294⟩, ⟨0xBF4CC4F5⟩, ⟨0xBF05CBA1⟩,
      ⟨0xBE844596⟩, ⟨0⟩, ⟨0x3E844596⟩, ⟨0x3F05CBA1⟩, ⟨0x3F4CC4F5⟩, ⟨0x3F8CC294⟩, ⟨0x3FB802BC⟩,
      ⟨0x3FEC07B4⟩, ⟨0x4019ADB1⟩]
  | _ => .error .unreachable

end PolarQuantConfig

def leBytes32 (n : Nat) : List UInt8 := (beBytes 4 (n % 2 ^ 32)).reverse

def fromLE (bytes : List UInt8) : Nat := fromBE bytes.reverse

namespace PolarQuantConfig

def toBytes (config : PolarQuantConfig) : Except Fault (List UInt8) := do
  let signBytes := (config.paddedDim + 7) / 8
  let signData ← config.signs.zipIdx.foldlM
    (fun data sign => if sign.1 then setBit data sign.2 else return data) (List.replicate signBytes 0)
  return config.bits :: (leBytes32 config.dimensions ++ leBytes32 config.paddedDim ++ signData)

/-- The seed is not needed: the signs are in the bytes. -/
def fromBytes (bytes : List UInt8) (_seed : UInt64) : Except EngineError PolarQuantConfig :=
  if bytes.length < 9 then .error (.storage "PolarQuant config too short")
  else
    let bits := bytes.getD 0 0
    let dimensions := fromLE ((bytes.drop 1).take 4)
    let paddedDim := fromLE ((bytes.drop 5).take 4)
    let signBytes := (paddedDim + 7) / 8
    if bytes.length < 9 + signBytes then .error (.storage "PolarQuant config signs too short")
    else
      let signData := (bytes.drop 9).take signBytes
      let signs : List Bool := (List.range paddedDim).map fun i =>
        (signData.getD (i / 8) 0 >>> UInt8.ofNat (7 - i % 8)) &&& 1 = 1
      .ok ⟨bits, dimensions, signs, paddedDim⟩

end PolarQuantConfig

namespace QuantisedPolar

def toBytes (q : QuantisedPolar F32) : List UInt8 :=
  q.bits :: (leBytes32 q.dimensions ++ q.norm.leBytes ++ q.data)

def fromBytes (bytes : List UInt8) : Except EngineError (QuantisedPolar F32) :=
  if bytes.length < 9 then .error (.storage "PolarQuant data too short")
  else .ok {
    bits := bytes.getD 0 0
    dimensions := fromLE ((bytes.drop 1).take 4)
    norm := .ofLE ((bytes.drop 5).take 4)
    data := bytes.drop 9 }

end QuantisedPolar

/-! ### The rotation -/

section Butterflies
variable {α : Type} [Add α] [Sub α]

def butterfly (h : Nat) (data : List α) (j : Nat) : Except Fault (List α) := do
  let x ← readAt data j
  let y ← readAt data (j + h)
  let data ← writeAt data j (x + y)
  writeAt data (j + h) (x - y)

def block (h : Nat) (data : List α) (i : Nat) : Except Fault (List α) :=
  (List.range h).foldlM (fun data k => butterfly h data (i + k)) data

def stage (h : Nat) (data : List α) : Except Fault (List α) :=
  (List.range ((data.length + (h * 2 - 1)) / (h * 2))).foldlM (fun data b => block h data (b * (h * 2)))
    data

/-- `while h < n`, in at most as many rounds as given. -/
def stages : Nat → Nat → List α → Except Fault (List α)
  | 0, _, data => .ok data
  | rounds + 1, h, data =>
    if h < data.length then do
      let data ← stage h data
      stages rounds (h * 2) data
    else .ok data

end Butterflies

section Rotation
variable {α : Type} [Zero α] [One α] [Add α] [Sub α] [Mul α] [Div α] [Neg α] [NatCast α] [Scalar α]
  -- whether `debug_assert!` is compiled in
  (debugAssertions : Bool)

def fastWalshHadamard (data : List α) : Except Fault (List α) := do
  if debugAssertions && !isPowerOfTwo data.length then throw .assertion
  let data ← stages data.length 1 data
  let scale := 1 / Scalar.sqrt (data.length : α)
  return data.map (· * scale)

def rotateVector (vector : List α) (config : PolarQuantConfig) : Except Fault (List α) := do
  let padded ← vector.zipIdx.foldlM (fun padded v => do
    let sign ← readAt config.signs v.2
    writeAt padded v.2 (if sign then v.1 else -v.1)) (List.replicate config.paddedDim 0)
  fastWalshHadamard debugAssertions padded

/-- The norm, and the rotated coordinates that are quantised. -/
def polarCoordinates (vector : List α) (config : PolarQuantConfig) : Except Fault (α × List α) := do
  let dimensions := vector.length
  if dimensions ≠ config.dimensions then throw .assertion
  let norm := Scalar.sqrt ((vector.map fun v => v * v).foldl (· + ·) 0)
  let normalised :=
    if Scalar.gt norm Scalar.epsilon then vector.map (· / norm) else List.replicate dimensions 0
  let rotated ← rotateVector debugAssertions normalised config
  let scale := Scalar.sqrt (config.dimensions : α)
  -- only the original dimensions, not the padding
  if rotated.length < dimensions then throw .index
  return (norm, (rotated.take dimensions).map (· * scale))

/-- The vector of the given norm whose rotated coordinates are given. -/
def fromPolarCoordinates (norm : α) (dimensions : Nat) (coordinates : List α)
    (config : PolarQuantConfig) : Except Fault (List α) := do
  let scaleInv := 1 / Scalar.sqrt (config.dimensions : α)
  let rotated ← coordinates.zipIdx.foldlM (fun rotated c => writeAt rotated c.2 (c.1 * scaleInv))
    (List.replicate config.paddedDim 0)
  let rotated ← fastWalshHadamard debugAssertions rotated
  if config.signs.length < dimensions ∨ rotated.length < dimensions then throw .index
  return List.zipWith (fun sign r => (if sign then r else -r) * norm) (config.signs.take dimensions)
    (rotated.take dimensions)

end Rotation

/-! ### The codes -/

/-- A binary search among `size` boundaries from `base` on, in at most as many rounds as given. -/
def searchBase (compare : Nat → Ordering) : Nat → Nat → Nat → Nat
  | 0, base, _ => base
  | rounds + 1, base, size =>
    if 1 < size then
      let half := size / 2
      let mid := base + half
      searchBase compare rounds (if compare mid = .gt then base else mid) (size - half)
    else base

def quantiseScalar (value : F32) (boundaries : List F32) : UInt8 :=
  -- what is not comparable counts as equal
  let compare i :=
    let boundary := boundaries.getD i ⟨0⟩
    if boundary.lt value then Ordering.lt else if value.lt boundary then .gt else .eq
  if boundaries.length = 0 then 0
  else
    let base := searchBase compare boundaries.length 0 boundaries.length
    UInt8.ofNat (if compare base = .lt then base + 1 else base)

section Codec
variable (debugAssertions : Bool)

def quantisePolar (vector : List F32) (config : PolarQuantConfig) : Except Fault (QuantisedPolar F32) := do
  let (norm, coordinates) ← polarCoordinates debugAssertions vector config
  let boundaries ← config.boundaries
  let numLevels ← shiftLeft 1 config.bits.toNat
  let codes := coordinates.map fun scaled => min (quantiseScalar scaled boundaries) (numLevels - 1)
  let byteCount := (vector.length * config.bits.toNat + 7) / 8
  let data ← writeFields (List.replicate byteCount 0) config.bits.toNat codes 0
  return ⟨norm, vector.length, config.bits, data⟩

def unpackCodes (data : List UInt8) (count : Nat) (bits : UInt8) : Except Fault (List UInt8) :=
  readFields data count bits.toNat

def dequantisePolar (q : QuantisedPolar F32) (config : PolarQuantConfig) : Except Fault (List F32) := do
  let centroids ← config.centroids
  let codes ← unpackCodes q.data q.dimensions q.bits
  let coordinates ← codes.mapM fun code => readAt centroids code.toNat
  fromPolarCoordinates debugAssertions q.norm q.dimensions coordinates config

def approxInnerProductRaw (query : List F32) (quantised : QuantisedPolar F32)
    (config : PolarQuantConfig) : Except Fault F32 := do
  let approxVec ← dequantisePolar debugAssertions quantised config
  return (List.zipWith (· * ·) query approxVec).foldl (· + ·) 0

end Codec

end TronDB.Core
