import TronDB.Core.PolarRotation

/-! Which stored codes can be dequantised without a panic. -/
namespace TronDB.Core
open Binary Packing Walsh

def ComesThrough {α : Type} (x : Except Fault α) : Prop := ∃ v, x = .ok v

/-- The headers fit each other and the bytes behind them: the configuration has a table and a length
that the transform takes, there are no more codes than coordinates, and every code lies in the data
and in the table. -/
structure Decodable (debugAssertions : Bool) (q : QuantisedPolar F32) (config : PolarQuantConfig) :
    Prop where
  bits : 2 ≤ config.bits.toNat ∧ config.bits.toNat ≤ 4
  padded : (∃ m, config.paddedDim = 2 ^ m) ∨ config.paddedDim = 0 ∧ debugAssertions = false
  dimensions : q.dimensions ≤ config.paddedDim
  codes : ∀ i < q.dimensions,
    (q.bits.toNat = 0 ∨
      q.bits.toNat ≤ 8 ∧ i * q.bits.toNat + q.bits.toNat ≤ 8 * q.data.length) ∧
    field q.data (i * q.bits.toNat) q.bits.toNat < 2 ^ config.bits.toNat

theorem centroids_ok (config : PolarQuantConfig) {centroids : List F32}
    (found : config.centroids = .ok centroids) :
    (2 ≤ config.bits.toNat ∧ config.bits.toNat ≤ 4) ∧ centroids.length = 2 ^ config.bits.toNat := by
  unfold PolarQuantConfig.centroids at found
  split at found
  · rename_i two
    cases found
    rw [two]
    decide
  · rename_i three
    cases found
    rw [three]
    decide
  · rename_i four
    cases found
    rw [four]
    decide
  · cases found

theorem centroids_found (config : PolarQuantConfig)
    (bits : 2 ≤ config.bits.toNat ∧ config.bits.toNat ≤ 4) : ComesThrough config.centroids := by
  have cases_ : config.bits = 2 ∨ config.bits = 3 ∨ config.bits = 4 := by
    have three : config.bits.toNat = 2 ∨ config.bits.toNat = 3 ∨ config.bits.toNat = 4 := by omega
    exact three.imp UInt8.toNat_inj.mp (Or.imp UInt8.toNat_inj.mp UInt8.toNat_inj.mp)
  unfold PolarQuantConfig.centroids
  rcases cases_ with two | three | four
  · rw [two]
    exact ⟨_, rfl⟩
  · rw [three]
    exact ⟨_, rfl⟩
  · rw [four]
    exact ⟨_, rfl⟩

theorem forall₂_range {α : Type} {n : Nat} {R : Nat → α → Prop} {ys : List α}
    (each : List.Forall₂ R (List.range n) ys) : ys.length = n ∧ ∀ i < n, ∃ y ∈ ys, R i y := by
  have same : n = ys.length := List.length_range.symm.trans each.length_eq
  refine ⟨same.symm, fun i below => ⟨ys[i], List.getElem_mem _, ?_⟩⟩
  have here := each.get (i := i) (by rwa [List.length_range]) (by omega)
  simpa using here

theorem readFields_comes_through (data : List UInt8) (count width : Nat) :
    ComesThrough (readFields data count width) ↔
      ∀ i < count, width = 0 ∨ width ≤ 8 ∧ i * width + width ≤ 8 * data.length := by
  constructor
  · rintro ⟨codes, ran⟩ i below
    obtain ⟨-, each⟩ := forall₂_range (mapM_ok.mp ran)
    obtain ⟨code, -, read⟩ := each i below
    exact ((readField_ok _ _ _ _).mp read).1
  · intro inside
    refine ⟨(List.range count).map fun i => UInt8.ofNat (field data (i * width) width), ?_⟩
    refine mapM_ok.mpr (List.forall₂_map_right_iff.mpr (List.forall₂_same.mpr fun i listed => ?_))
    have here := inside i (List.mem_range.mp listed)
    refine (readField_ok _ _ _ _).mpr ⟨here, UInt8.toNat_ofNat_of_lt' ?_⟩
    have below := field_lt data (i * width) width
    have byte : 2 ^ width ≤ 2 ^ 8 := Nat.pow_le_pow_right (by omega) (by omega)
    have size : UInt8.size = 2 ^ 8 := rfl
    omega

section Restoring
variable (debugAssertions : Bool)

/-- The coordinates are taken when there is room for them, and a length that the transform takes. -/
theorem fromPolarCoordinates_comes_through (norm : F32) (dimensions : Nat) (coordinates : List F32)
    (config : PolarQuantConfig) (all : coordinates.length = dimensions)
    (signs : config.signs.length = config.paddedDim) :
    ComesThrough (fromPolarCoordinates debugAssertions norm dimensions coordinates config) ↔
      dimensions ≤ config.paddedDim ∧
        ((∃ m, config.paddedDim = 2 ^ m) ∨ config.paddedDim = 0 ∧ debugAssertions = false) := by
  constructor
  · rintro ⟨v, ran⟩
    unfold fromPolarCoordinates at ran
    obtain ⟨placed, wrote, ran⟩ := bind_ok.mp ran
    obtain ⟨rotated, turned, ran⟩ := bind_ok.mp ran
    have each := foldlM_each (fun s => s.length = config.paddedDim)
      (fun c : F32 × Nat => c.2 < config.paddedDim) (fun s c s' same step => by
        obtain ⟨inside, rfl⟩ := writeAt_ok.mp step
        exact ⟨by rw [List.length_set, same], same ▸ inside⟩) (List.length_replicate ..) wrote
    refine ⟨?_, ?_⟩
    · by_contra beyond
      have last : (coordinates[config.paddedDim], config.paddedDim) ∈
          coordinates.zipIdx := List.mem_iff_getElem.mpr ⟨config.paddedDim, by simp; omega, by simp⟩
      exact absurd (each.2 _ last) (Nat.lt_irrefl _)
    · have through := (fastWalshHadamard_comes_through debugAssertions placed).mp ⟨_, turned⟩
      rwa [each.1] at through
  · rintro ⟨room, length⟩
    rw [← all] at room
    have size : (coordinates.map (· * (1 / Scalar.sqrt (config.dimensions : F32))) ++
        List.replicate (config.paddedDim - coordinates.length) 0).length = config.paddedDim := by
      rw [List.length_append, List.length_map, List.length_replicate]
      omega
    obtain ⟨rotated, turned⟩ := (fastWalshHadamard_comes_through debugAssertions _).mpr (size ▸ length)
    have same := length_fastWalshHadamard debugAssertions turned
    exact ⟨_, fromPolarCoordinates_ok debugAssertions norm room turned (by omega) (by omega)⟩

theorem dequantisePolar_comes_through (q : QuantisedPolar F32) (config : PolarQuantConfig)
    (signs : config.signs.length = config.paddedDim) :
    ComesThrough (dequantisePolar debugAssertions q config) ↔ Decodable debugAssertions q config := by
  unfold dequantisePolar unpackCodes
  constructor
  · rintro ⟨v, ran⟩
    obtain ⟨centroids, found, ran⟩ := bind_ok.mp ran
    obtain ⟨codes, read, ran⟩ := bind_ok.mp ran
    obtain ⟨coordinates, looked, ran⟩ := bind_ok.mp ran
    obtain ⟨bits, entries⟩ := centroids_ok config found
    have inside := (readFields_comes_through _ _ _).mp ⟨codes, read⟩
    obtain ⟨count, each⟩ := forall₂_range (mapM_ok.mp read)
    have looks := mapM_ok.mp looked
    have all : coordinates.length = q.dimensions := looks.length_eq.symm.trans count
    obtain ⟨room, length⟩ := (fromPolarCoordinates_comes_through debugAssertions q.norm q.dimensions
      coordinates config all signs).mp ⟨v, ran⟩
    refine ⟨bits, length, room, fun i below => ⟨inside i below, ?_⟩⟩
    obtain ⟨code, listed, here⟩ := each i below
    obtain ⟨k, at_, rfl⟩ := List.mem_iff_getElem.mp listed
    have entry := looks.get at_ (looks.length_eq ▸ at_)
    have below := inside_of_readAt entry
    rw [entries] at below
    rw [← ((readField_ok _ _ _ _).mp here).2]
    exact below
  · rintro ⟨bits, length, room, inside⟩
    obtain ⟨centroids, found⟩ := centroids_found config bits
    obtain ⟨-, entries⟩ := centroids_ok config found
    obtain ⟨codes, read⟩ := (readFields_comes_through q.data q.dimensions q.bits.toNat).mpr
      fun i below => (inside i below).1
    have each := mapM_ok.mp read
    have count := (forall₂_range each).1
    have looks (code : UInt8) (listed : code ∈ codes) :
        readAt centroids code.toNat = .ok (centroids.getD code.toNat 0) := by
      obtain ⟨k, at_, rfl⟩ := List.mem_iff_getElem.mp listed
      have here := each.get (i := k) (by rw [List.length_range]; omega) at_
      have value := ((readField_ok _ _ _ _).mp here).2
      have below := (inside k (by omega)).2
      have entry : codes[k].toNat < centroids.length := by
        rw [List.get_eq_getElem, List.get_eq_getElem, List.getElem_range] at value
        rw [entries, value]
        exact below
      rw [readAt_ok, List.getD_eq_getElem?_getD, List.getElem?_eq_getElem entry]
      rfl
    have looked : codes.mapM (fun code => readAt centroids code.toNat) =
        .ok (codes.map fun code => centroids.getD code.toNat 0) :=
      mapM_ok.mpr (List.forall₂_map_right_iff.mpr (List.forall₂_same.mpr looks))
    obtain ⟨v, ran⟩ := (fromPolarCoordinates_comes_through debugAssertions q.norm q.dimensions
      (codes.map fun code => centroids.getD code.toNat 0) config
      ((List.length_map _).trans count) signs).mpr ⟨room, length⟩
    exact ⟨v, bind_ok.mpr ⟨_, found, bind_ok.mpr ⟨_, read, bind_ok.mpr ⟨_, looked, ran⟩⟩⟩⟩

theorem signs_decoded {bytes : List UInt8} {seed : UInt64} {config : PolarQuantConfig}
    (decoded : PolarQuantConfig.fromBytes bytes seed = .ok config) :
    config.signs.length = config.paddedDim := by
  unfold PolarQuantConfig.fromBytes at decoded
  dsimp only at decoded
  split at decoded
  · cases decoded
  · split at decoded
    · cases decoded
    · cases decoded
      rw [List.length_map, List.length_range]

/-- What both decoders accept is dequantised without a panic exactly when the headers fit. -/
theorem decoded_comes_through_iff {b c : List UInt8} {seed : UInt64} {q : QuantisedPolar F32}
    {config : PolarQuantConfig} (_accepted : QuantisedPolar.fromBytes b = .ok q)
    (decoded : PolarQuantConfig.fromBytes c seed = .ok config) :
    ComesThrough (dequantisePolar debugAssertions q config) ∧
        (∀ query, ComesThrough (approxInnerProductRaw debugAssertions query q config)) ↔
      Decodable debugAssertions q config := by
  rw [← dequantisePolar_comes_through debugAssertions q config (signs_decoded decoded)]
  refine and_iff_left_of_imp fun ⟨v, ran⟩ query =>
    ⟨(List.zipWith (· * ·) query v).foldl (· + ·) 0, ?_⟩
  unfold approxInnerProductRaw
  rw [ran]
  rfl

end Restoring

/-- Nine bytes of zeros are a configuration without a table. -/
theorem zeros_unreachable : ∃ q config,
    QuantisedPolar.fromBytes (List.replicate 9 0) = .ok q ∧
    PolarQuantConfig.fromBytes (List.replicate 9 0) 0 = .ok config ∧
    dequantisePolar false q config = .error .unreachable :=
  ⟨⟨⟨0⟩, 0, 0, []⟩, ⟨0, 0, [], 0⟩, by decide, by decide, rfl⟩

/-- Three codes of two bits over three dimensions padded to four. -/
theorem three_codes_come_through :
    ComesThrough (dequantisePolar true ⟨⟨0x3F800000⟩, 3, 2, [0x93]⟩ ⟨2, 3, [true, false, true, true], 4⟩) ∧
      ∀ query, ComesThrough (approxInnerProductRaw true query ⟨⟨0x3F800000⟩, 3, 2, [0x93]⟩
        ⟨2, 3, [true, false, true, true], 4⟩) :=
  (decoded_comes_through_iff true
    (b := [2, 3, 0, 0, 0, 0, 0, 0x80, 0x3F, 0x93]) (by decide)
    (show PolarQuantConfig.fromBytes [2, 3, 0, 0, 0, 4, 0, 0, 0, 0xB0] 0 = _ by decide)).mpr
    { bits := by decide
      padded := .inl ⟨2, rfl⟩
      dimensions := by decide
      codes := by decide }

end TronDB.Core
