import Mathlib.Data.List.Iterate
import TronDB.Core.PolarSafety

/-! Codes, quantised vectors and configurations in bytes, and what comes back. -/
namespace TronDB.Core
open Binary Bytes Packing

theorem length_leBytes32 (n : Nat) : (leBytes32 n).length = 4 := by
  rw [leBytes32, List.length_reverse, length_beBytes]

theorem fromLE_leBytes32 (n : Nat) : fromLE (leBytes32 n) = n % 2 ^ 32 := by
  rw [fromLE, leBytes32, List.reverse_reverse]
  exact fromBE_beBytes 4 _ (Nat.mod_lt _ (by decide))

theorem length_leBytes (x : F32) : x.leBytes.length = 4 := by
  rw [F32.leBytes, List.length_reverse, length_beBytes]

theorem ofLE_leBytes (x : F32) : F32.ofLE x.leBytes = x := by
  have bits : fromBE (beBytes 4 x.bits.toNat) = x.bits.toNat := fromBE_beBytes 4 _ x.bits.toNat_lt
  rw [F32.ofLE, F32.leBytes, List.reverse_reverse, bits, UInt32.ofNat_toNat]

/-! ### A quantised vector -/

theorem QuantisedPolar.fromBytes_toBytes (q : QuantisedPolar F32) :
    QuantisedPolar.fromBytes q.toBytes = .ok { q with dimensions := q.dimensions % 2 ^ 32 } := by
  have header := length_leBytes32 q.dimensions
  have norm := length_leBytes q.norm
  unfold QuantisedPolar.fromBytes QuantisedPolar.toBytes
  rw [if_neg (by simp only [List.length_cons, List.length_append, header, norm]; omega)]
  have dimensions : ((q.bits :: (leBytes32 q.dimensions ++ q.norm.leBytes ++ q.data)).drop 1).take 4 =
      leBytes32 q.dimensions := by
    rw [List.drop_one, List.tail_cons, List.append_assoc]
    exact List.take_left' header
  have behind : (q.bits :: (leBytes32 q.dimensions ++ q.norm.leBytes ++ q.data)).drop 5 =
      q.norm.leBytes ++ q.data := by
    rw [List.drop_succ_cons, List.append_assoc]
    exact List.drop_left' header
  have data : (q.bits :: (leBytes32 q.dimensions ++ q.norm.leBytes ++ q.data)).drop 9 = q.data := by
    rw [show 9 = 5 + 4 from rfl, ← List.drop_drop, behind]
    exact List.drop_left' norm
  rw [dimensions, behind, data, fromLE_leBytes32, List.take_left' norm, ofLE_leBytes]
  rfl

theorem QuantisedPolar.survives_iff (q : QuantisedPolar F32) :
    QuantisedPolar.fromBytes q.toBytes = .ok q ↔ q.dimensions < 2 ^ 32 := by
  rw [QuantisedPolar.fromBytes_toBytes]
  constructor
  · intro same
    have dimensions := congrArg QuantisedPolar.dimensions (Except.ok.inj same)
    exact dimensions ▸ Nat.mod_lt _ (by decide)
  · intro small
    rw [Nat.mod_eq_of_lt small]

theorem dimensions_quantisePolar {debugAssertions : Bool} {vector : List F32}
    {config : PolarQuantConfig} {q : QuantisedPolar F32}
    (quantised : quantisePolar debugAssertions vector config = .ok q) :
    q.dimensions = vector.length := by
  obtain ⟨_, -, rest⟩ := bind_ok.mp quantised
  obtain ⟨_, -, rest⟩ := bind_ok.mp rest
  obtain ⟨_, -, rest⟩ := bind_ok.mp rest
  obtain ⟨_, -, rest⟩ := bind_ok.mp rest
  cases rest
  rfl

/-! ### A configuration -/

theorem signs_packed (signs : List Bool) (data : List UInt8) :
    signs.zipIdx.foldlM (fun data sign => if sign.1 then setBit data sign.2 else return data) data =
      writeFields data 1 (signs.map fun sign => if sign then 1 else 0) 0 := by
  have one (data : List UInt8) (sign : Bool) (i : Nat) :
      writeField data 1 (i * 1) (if sign then 1 else 0) =
        if sign then setBit data i else return data := by
    unfold writeField
    rw [Nat.mul_one, List.range_one, List.foldlM_cons]
    simp only [List.foldlM_nil]
    cases sign <;> exact bind_pure _
  unfold writeFields
  rw [List.zipIdx_map, List.foldlM_map]
  congr 1
  funext data sign
  exact (one data sign.1 sign.2).symm

theorem PolarQuantConfig.toBytes_ok (config : PolarQuantConfig)
    (all : config.signs.length = config.paddedDim) : ∃ signData,
      config.toBytes = .ok (config.bits ::
        (leBytes32 config.dimensions ++ leBytes32 config.paddedDim ++ signData)) ∧
      signData.length = (config.paddedDim + 7) / 8 ∧
      ∀ i sign, config.signs[i]? = some sign → bit signData i = sign := by
  obtain ⟨signData, wrote, length, -, spelled⟩ := writeFields_ok (show 1 ≤ 8 by omega)
    (config.signs.map fun sign => if sign then 1 else 0)
    (show (0 + (config.signs.map fun sign => if sign then (1 : UInt8) else 0).length) * 1 ≤
        8 * (List.replicate ((config.paddedDim + 7) / 8) (0 : UInt8)).length by
      rw [List.length_map, List.length_replicate]
      omega) (fun j _ => bit_replicate _ j)
  refine ⟨signData, ?_, length.trans List.length_replicate, fun i sign listed => ?_⟩
  · unfold PolarQuantConfig.toBytes
    exact bind_ok.mpr ⟨signData, (signs_packed _ _).trans wrote, rfl⟩
  · have here := spelled i _ (by rw [List.getElem?_map, listed]; rfl) 0 Nat.one_pos
    rw [Nat.zero_add, Nat.mul_one, Nat.add_zero] at here
    rw [here]
    cases sign <;> rfl

theorem decide_bit (data : List UInt8) (i : Nat) :
    decide ((data.getD (i / 8) 0 >>> UInt8.ofNat (7 - i % 8)) &&& 1 = 1) = bit data i := by
  have value := toNat_bit (data.getD (i / 8) 0) (show 7 - i % 8 < 8 by omega)
  rw [List.getD_eq_getElem?_getD] at value ⊢
  unfold bit
  cases set : ((data[i / 8]?).getD 0).toNat.testBit (7 - i % 8) with
  | true =>
    rw [set] at value
    exact decide_eq_true (UInt8.toNat_inj.mp value)
  | false =>
    rw [set] at value
    refine decide_eq_false fun one => ?_
    rw [one] at value
    cases value

theorem PolarQuantConfig.survives_iff (config : PolarQuantConfig)
    (all : config.signs.length = config.paddedDim) : ∃ bytes, config.toBytes = .ok bytes ∧
      ∀ seed, PolarQuantConfig.fromBytes bytes seed = .ok config ↔
        config.dimensions < 2 ^ 32 ∧ config.paddedDim < 2 ^ 32 := by
  obtain ⟨signData, wrote, length, spelled⟩ := config.toBytes_ok all
  refine ⟨_, wrote, fun seed => ?_⟩
  have first := length_leBytes32 config.dimensions
  have second := length_leBytes32 config.paddedDim
  have small : config.paddedDim % 2 ^ 32 ≤ config.paddedDim := Nat.mod_le _ _
  generalize layout : config.bits ::
    (leBytes32 config.dimensions ++ leBytes32 config.paddedDim ++ signData) = bytes
  have size : bytes.length = 9 + signData.length := by
    rw [← layout]
    simp only [List.length_cons, List.length_append, first, second]
    omega
  have dimensions : (bytes.drop 1).take 4 = leBytes32 config.dimensions := by
    rw [← layout, List.drop_one, List.tail_cons, List.append_assoc]
    exact List.take_left' first
  have behind : bytes.drop 5 = leBytes32 config.paddedDim ++ signData := by
    rw [← layout, List.drop_succ_cons, List.append_assoc]
    exact List.drop_left' first
  have data : bytes.drop 9 = signData := by
    rw [show 9 = 5 + 4 from rfl, ← List.drop_drop, behind]
    exact List.drop_left' second
  have bits : bytes.getD 0 0 = config.bits := by
    rw [← layout]
    rfl
  have decoded : PolarQuantConfig.fromBytes bytes seed = .ok ⟨config.bits, config.dimensions % 2 ^ 32,
      (List.range (config.paddedDim % 2 ^ 32)).map fun i => decide (((signData.take
        ((config.paddedDim % 2 ^ 32 + 7) / 8)).getD (i / 8) 0 >>> UInt8.ofNat (7 - i % 8)) &&& 1 = 1),
      config.paddedDim % 2 ^ 32⟩ := by
    unfold PolarQuantConfig.fromBytes
    rw [if_neg (by omega), bits, dimensions, behind, data, List.take_left' second, fromLE_leBytes32,
      fromLE_leBytes32]
    exact if_neg (by omega)
  rw [decoded]
  constructor
  · intro same
    have dimensions := congrArg PolarQuantConfig.dimensions (Except.ok.inj same)
    have padded := congrArg PolarQuantConfig.paddedDim (Except.ok.inj same)
    exact ⟨dimensions ▸ Nat.mod_lt _ (by decide), padded ▸ Nat.mod_lt _ (by decide)⟩
  · rintro ⟨fits, fits'⟩
    rw [Nat.mod_eq_of_lt fits, Nat.mod_eq_of_lt fits', ← length, List.take_length]
    have signs : (List.range config.paddedDim).map (fun i =>
        decide ((signData.getD (i / 8) 0 >>> UInt8.ofNat (7 - i % 8)) &&& 1 = 1)) = config.signs := by
      refine List.ext_getElem (by simp [all]) fun i left right => ?_
      rw [List.getElem_map, List.getElem_range, decide_bit]
      exact spelled i _ (List.getElem?_eq_getElem right)
    rw [signs]

/-! ### What is built -/

theorem nextPowerOfTwo_lt_iff {n : Nat} (fits : n < 2 ^ 32) : nextPowerOfTwo n < 2 ^ 32 ↔ n ≤ 2 ^ 31 := by
  unfold nextPowerOfTwo
  by_cases tiny : n ≤ 1
  · rw [if_pos tiny]
    exact iff_of_true (by decide) (by omega)
  · rw [if_neg tiny]
    have some_ : n - 1 ≠ 0 := by omega
    have below : Nat.log2 (n - 1) < 32 := (Nat.log2_lt some_).mpr (by omega)
    have power : 2 ^ (Nat.log2 (n - 1) + 1) ≤ 2 ^ 32 := Nat.pow_le_pow_right (by omega) below
    rw [Nat.mod_eq_of_lt (by omega), Nat.pow_lt_pow_iff_right (by omega)]
    have least : Nat.log2 (n - 1) < 31 ↔ n - 1 < 2 ^ 31 := Nat.log2_lt some_
    omega

theorem PolarQuantConfig.new_ok {bits : UInt8} {dimensions : Nat} {seed : UInt64}
    {config : PolarQuantConfig} (built : PolarQuantConfig.new bits dimensions seed = .ok config) :
    config.dimensions = dimensions ∧ config.paddedDim = nextPowerOfTwo dimensions ∧
      config.signs.length = config.paddedDim := by
  unfold PolarQuantConfig.new at built
  split at built
  · cases built
    refine ⟨rfl, rfl, ?_⟩
    rw [List.length_map, List.length_iterate]
  · cases built

theorem PolarQuantConfig.new_survives_iff {bits : UInt8} {dimensions : Nat} {seed : UInt64}
    {config : PolarQuantConfig} (built : PolarQuantConfig.new bits dimensions seed = .ok config) :
    ∃ bytes, config.toBytes = .ok bytes ∧
      ∀ seed', PolarQuantConfig.fromBytes bytes seed' = .ok config ↔ dimensions ≤ 2 ^ 31 := by
  obtain ⟨same, padded, all⟩ := PolarQuantConfig.new_ok built
  obtain ⟨bytes, wrote, survives⟩ := config.survives_iff all
  refine ⟨bytes, wrote, fun seed' => ?_⟩
  rw [survives, same, padded]
  constructor
  · rintro ⟨fits, fits'⟩
    exact (nextPowerOfTwo_lt_iff fits).mp fits'
  · intro half
    have fits : dimensions < 2 ^ 32 := by omega
    exact ⟨fits, (nextPowerOfTwo_lt_iff fits).mpr half⟩

/-- Packed codes read back; a quantised vector comes back from its bytes below `2 ^ 32` dimensions,
and a configuration up to `2 ^ 31`. -/
theorem polar_survives_iff (debugAssertions : Bool) (bits : UInt8) :
    (2 ≤ bits → bits ≤ 4 → ∀ codes : List UInt8,
      (∀ code ∈ codes, code.toNat < 2 ^ bits.toNat) →
        ∃ data, writeFields (List.replicate ((codes.length * bits.toNat + 7) / 8) 0) bits.toNat codes 0 =
          .ok data ∧ unpackCodes data codes.length bits = .ok codes) ∧
    (∀ vector config q, quantisePolar debugAssertions vector config = .ok q →
      (QuantisedPolar.fromBytes q.toBytes = .ok q ↔ vector.length < 2 ^ 32)) ∧
    ∀ dimensions seed config, PolarQuantConfig.new bits dimensions seed = .ok config →
      ∃ bytes, config.toBytes = .ok bytes ∧
        ∀ seed', PolarQuantConfig.fromBytes bytes seed' = .ok config ↔ dimensions ≤ 2 ^ 31 := by
  refine ⟨fun _ most codes low => ?_, fun vector _ q quantised => ?_, fun _ _ _ built =>
    PolarQuantConfig.new_survives_iff built⟩
  · have byte : bits.toNat ≤ 4 := UInt8.le_iff_toNat_le.mp most
    exact readFields_writeFields (by omega) low
  · rw [q.survives_iff, dimensions_quantisePolar quantised]

/-- One dimension past `2 ^ 31`, and the padded length is written as 0. -/
theorem long_configuration_lost : ∃ config bytes,
    PolarQuantConfig.new 3 (2 ^ 31 + 1) 42 = .ok config ∧ config.toBytes = .ok bytes ∧
      PolarQuantConfig.fromBytes bytes 42 ≠ .ok config := by
  obtain ⟨config, built⟩ : ∃ config, PolarQuantConfig.new 3 (2 ^ 31 + 1) 42 = .ok config := by
    unfold PolarQuantConfig.new
    rw [if_pos (by decide)]
    exact ⟨_, rfl⟩
  obtain ⟨bytes, wrote, survives⟩ := PolarQuantConfig.new_survives_iff built
  exact ⟨config, bytes, built, wrote, fun same => absurd ((survives 42).mp same) (by decide)⟩

end TronDB.Core
