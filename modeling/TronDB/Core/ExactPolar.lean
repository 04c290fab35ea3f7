import TronDB.Core.PolarBytes

/-! PolarQuant over the real numbers, without its codes: what the rotation and its cut lose. -/
namespace TronDB.Core
open Binary Packing Walsh

/-! ### The transform alone -/

/-- The loops of the fast transform, without the scale behind them. -/
def unscaled {α : Type} [Add α] [Sub α] (data : List α) : Except Fault (List α) :=
  stages data.length 1 data

/-- What the loops lead to: applied twice they multiply by the length, and they are linear. -/
structure SelfInverse {R : Type} [CommRing R] (x y hx hy : List R) : Prop where
  left : unscaled x = .ok hx
  right : unscaled y = .ok hy
  twice : unscaled hx = .ok (x.map (x.length * ·))
  sum : unscaled (List.zipWith (· + ·) x y) = .ok (List.zipWith (· + ·) hx hy)
  multiple (c : R) : unscaled (x.map (c * ·)) = .ok (hx.map (c * ·))

/-- What the transform leads to: the loops' results with the scale, which keep inner products, and
it undoes itself. -/
structure Orthogonal (debugAssertions : Bool) (x y hx hy wx wy : List ℝ) : Prop where
  left : fastWalshHadamard debugAssertions x = .ok wx
  right : fastWalshHadamard debugAssertions y = .ok wy
  leftScaled : wx = hx.map (· * (1 / Real.sqrt x.length))
  rightScaled : wy = hy.map (· * (1 / Real.sqrt y.length))
  twice : fastWalshHadamard debugAssertions wx = .ok x
  inner : dot wx wy = dot x y

theorem unscaled_selfInverse {R : Type} [CommRing R] {m : Nat} {x y : List R}
    (left : x.length = 2 ^ m) (right : y.length = 2 ^ m) :
    SelfInverse x y (transform m x) (transform m y) := by
  constructor
  · exact stages_ok left
  · exact stages_ok right
  · unfold unscaled
    rw [stages_ok (length_transform left), transform_transform left, left, Nat.cast_pow, Nat.cast_ofNat]
  · have whole : (List.zipWith (· + ·) x y).length = 2 ^ m := by
      rw [List.length_zipWith, left, right, Nat.min_self]
    unfold unscaled
    rw [stages_ok whole, transform_add left right]
  · intro c
    have whole : (x.map (c * ·)).length = 2 ^ m := (List.length_map _).trans left
    unfold unscaled
    rw [stages_ok whole, transform_scale c left]

theorem scale_mul_self (m : Nat) :
    1 / Scalar.sqrt ((2 ^ m : Nat) : ℝ) * (1 / Scalar.sqrt ((2 ^ m : Nat) : ℝ)) = (2 ^ m)⁻¹ := by
  have power : (0 : ℝ) < ((2 ^ m : Nat) : ℝ) := Nat.cast_pos.mpr (Nat.two_pow_pos m)
  show 1 / Real.sqrt _ * (1 / Real.sqrt _) = _
  rw [one_div, ← mul_inv, Real.mul_self_sqrt power.le, Nat.cast_pow, Nat.cast_ofNat]

/-- On a power of two the loops are a linear map and its own inverse up to the length, and with the
scale they keep inner products. -/
theorem fastWalshHadamard_exact (debugAssertions : Bool) {m : Nat} {x y : List ℝ}
    (left : x.length = 2 ^ m) (right : y.length = 2 ^ m) :
    ∃ hx hy, SelfInverse x y hx hy ∧
      ∃ wx wy, Orthogonal debugAssertions x y hx hy wx wy := by
  refine ⟨_, _, unscaled_selfInverse left right, ?_⟩
  have square := scale_mul_self m
  have scaled {z : List ℝ} (whole : z.length = 2 ^ m) :
      1 / Real.sqrt z.length = 1 / Scalar.sqrt ((2 ^ m : Nat) : ℝ) := by
    rw [whole]
    rfl
  have forward {z : List ℝ} (whole : z.length = 2 ^ m) := fastWalshHadamard_ok debugAssertions whole
  generalize 1 / Scalar.sqrt ((2 ^ m : Nat) : ℝ) = s at square scaled forward
  have commuted (z : List ℝ) : z.map (· * s) = z.map (s * ·) :=
    List.map_congr_left fun u _ => mul_comm u s
  have power : (2 ^ m : ℝ) ≠ 0 := pow_ne_zero m two_ne_zero
  refine ⟨_, _, forward left, forward right, by rw [scaled left], by rw [scaled right], ?_, ?_⟩
  · rw [forward (by rw [List.length_map, length_transform left]), commuted, commuted (transform m x),
      transform_scale s (length_transform left), transform_transform left, List.map_map, List.map_map]
    refine congrArg Except.ok (List.map_id'' (fun u => ?_) x)
    show s * (s * (2 ^ m * u)) = u
    calc s * (s * (2 ^ m * u)) = s * s * 2 ^ m * u := by ring
      _ = u := by rw [square, inv_mul_cancel₀ power, one_mul]
  · rw [commuted, commuted, dot_scale, dot_comm, dot_scale, ← mul_assoc, square, dot_comm,
      dot_transform left (length_transform right), transform_transform right, dot_scale, ← mul_assoc,
      inv_mul_cancel₀ power, one_mul]

theorem fastWalshHadamard_four :
    ∃ hx hy, SelfInverse [1, 2, 3, 4] [5, 0, -1, 2] hx hy ∧
      ∃ wx wy, Orthogonal true [1, 2, 3, 4] [5, 0, -1, 2] hx hy wx wy :=
  fastWalshHadamard_exact true (m := 2) rfl rfl

/-! ### The rotation without its codes -/

/-- The two pipelines one behind the other, each code replaced by the coordinate itself. -/
def throughPolar {α : Type} [Zero α] [One α] [Add α] [Sub α] [Mul α] [Div α] [Neg α] [NatCast α]
    [Scalar α] (debugAssertions : Bool) (vector : List α) (config : PolarQuantConfig) :
    Except Fault (List α) := do
  let (norm, coordinates) ← polarCoordinates debugAssertions vector config
  fromPolarCoordinates debugAssertions norm vector.length coordinates config

def signed {α : Type} [Neg α] (config : PolarQuantConfig) (vector : List α) : List α :=
  List.zipWith (fun sign v => if sign then v else -v) config.signs vector

/-- The coordinates that the padding adds: all of them are zero. -/
def PaddingVanishes (config : PolarQuantConfig) (vector : List ℝ) : Prop :=
  ∀ k, config.dimensions ≤ k → k < config.paddedDim →
    dot (row ℝ (Nat.log2 config.paddedDim) k) (signed config vector) = 0

section Signs
variable {α : Type} [Neg α] {config : PolarQuantConfig} {vector : List α}
  (fits : vector.length ≤ config.signs.length)
include fits

theorem length_signed : (signed config vector).length = vector.length := by
  rw [signed, List.length_zipWith]
  exact Nat.min_eq_right fits

/-- The loop that copies the vector in front of zeros. -/
theorem signed_placed [Zero α] (room : vector.length ≤ config.paddedDim) :
    vector.zipIdx.foldlM (fun padded v => do
        let sign ← readAt config.signs v.2
        writeAt padded v.2 (if sign then v.1 else -v.1)) (List.replicate config.paddedDim 0) =
      .ok (signed config vector ++ List.replicate (config.paddedDim - vector.length) 0) := by
  have placed := writeEach_ok (fun (v : α) i => do
      let sign ← readAt config.signs i
      return if sign then v else -v) (signed config vector) []
    (List.replicate config.paddedDim 0) (length_signed fits).symm (fun i x y left right => by
      rw [signed, List.getElem?_zipWith] at right
      rw [left] at right
      have below := (List.getElem?_eq_some_iff.mp left).1
      have here : config.signs[i]? = some config.signs[i] :=
        List.getElem?_eq_getElem (by omega)
      rw [here] at right
      cases right
      rw [List.length_nil, Nat.zero_add]
      exact bind_ok.mpr ⟨_, readAt_ok.mpr here, rfl⟩) (by rwa [List.length_replicate])
  rw [List.drop_replicate] at placed
  refine Eq.trans ?_ placed
  congr 1
  funext padded v
  rw [bind_assoc]
  rfl

end Signs

theorem undone_iff {norm : ℝ} (some_ : norm ≠ 0) {signs : List Bool} {vector r : List ℝ}
    (same : r.length = vector.length) (fits : vector.length ≤ signs.length) :
    List.zipWith (fun sign r => (if sign then r else -r) * norm) (signs.take vector.length) r = vector ↔
      r = List.zipWith (fun sign v => if sign then v else -v) signs (vector.map (· / norm)) := by
  induction vector generalizing signs r with
  | nil =>
    cases List.eq_nil_of_length_eq_zero same
    simp
  | cons v vector ih =>
    cases r with
    | nil => cases same
    | cons u r =>
      cases signs with
      | nil => exact absurd fits (by simp)
      | cons sign signs =>
        have rest := ih (Nat.succ.inj same) (Nat.le_of_succ_le_succ fits)
        have here : (if sign then u else -u) * norm = v ↔ u = if sign then v / norm else -(v / norm) := by
          cases sign
          · rw [if_neg Bool.false_ne_true, if_neg Bool.false_ne_true, ← eq_div_iff some_, neg_eq_iff_eq_neg]
          · rw [if_pos rfl, if_pos rfl, eq_div_iff some_]
        simp only [List.length_cons, List.take_succ_cons, List.zipWith_cons_cons, List.map_cons,
          List.cons.injEq, rest, here]

theorem signed_div (norm : ℝ) (config : PolarQuantConfig) (vector : List ℝ) :
    signed config (vector.map (· / norm)) = (signed config vector).map (norm⁻¹ * ·) := by
  rw [signed, signed, List.zipWith_map_right, List.map_zipWith]
  congr 1
  funext sign v
  cases sign
  · exact (neg_div' norm v).symm ▸ div_eq_inv_mul _ _
  · exact div_eq_inv_mul v norm

theorem map_inv_mul_iff {c : ℝ} (some_ : c ≠ 0) {x a : List ℝ} :
    x.map (c⁻¹ * ·) = a ↔ x = a.map (c * ·) := by
  constructor
  · rintro rfl
    rw [List.map_map]
    exact (List.map_id'' (fun u => mul_inv_cancel_left₀ some_ u) x).symm
  · rintro rfl
    rw [List.map_map]
    exact List.map_id'' (fun u => inv_mul_cancel_left₀ some_ u) a

section Exact
variable (debugAssertions : Bool) {config : PolarQuantConfig} {vector : List ℝ} {m : Nat}
  (dimensions : config.dimensions = vector.length) (padded : config.paddedDim = 2 ^ m)
  (room : vector.length ≤ 2 ^ m) (signs : config.signs.length = 2 ^ m)
include dimensions padded room signs

/-- The first pipeline: the norm, and the scaled front of the transform. -/
theorem polarCoordinates_ok {norm : ℝ}
    (is_ : Scalar.sqrt ((vector.map fun v => v * v).foldl (· + ·) 0) = norm)
    (some_ : exactEpsilon ℝ < norm) :
    polarCoordinates debugAssertions vector config = .ok (norm,
      ((((transform m (signed config (vector.map (· / norm)) ++
        List.replicate (2 ^ m - vector.length) 0)).map (· * (1 / Scalar.sqrt ((2 ^ m : Nat) : ℝ)))).take
        vector.length).map (· * Scalar.sqrt (vector.length : ℝ)))) := by
  have normalised : (if Scalar.gt norm Scalar.epsilon then vector.map (· / norm)
      else List.replicate vector.length 0) = vector.map (· / norm) := if_pos (decide_eq_true some_)
  have length : (vector.map (· / norm)).length = vector.length := List.length_map _
  have whole : (signed config (vector.map (· / norm)) ++
      List.replicate (2 ^ m - vector.length) 0).length = 2 ^ m := by
    rw [List.length_append, length_signed (by omega), length, List.length_replicate]
    omega
  have rotated : rotateVector debugAssertions (vector.map (· / norm)) config =
      .ok ((transform m (signed config (vector.map (· / norm)) ++
        List.replicate (2 ^ m - vector.length) 0)).map (· * (1 / Scalar.sqrt ((2 ^ m : Nat) : ℝ)))) := by
    have placed := signed_placed (show (vector.map (· / norm)).length ≤ config.signs.length by omega)
      (by omega)
    rw [length, padded] at placed
    unfold rotateVector
    rw [padded]
    exact bind_ok.mpr ⟨_, placed, fastWalshHadamard_ok debugAssertions whole⟩
  unfold polarCoordinates
  dsimp only
  rw [is_, normalised, dimensions]
  refine (if_neg (not_not.mpr rfl)).trans ?_
  refine bind_ok.mpr ⟨_, rotated, ?_⟩
  refine if_neg ?_
  rw [List.length_map, length_transform whole]
  omega

theorem throughPolar_ok (some_ : vector.length ≠ 0) {norm : ℝ}
    (is_ : Scalar.sqrt ((vector.map fun v => v * v).foldl (· + ·) 0) = norm)
    (exceeds : exactEpsilon ℝ < norm) :
    throughPolar debugAssertions vector config =
      .ok (List.zipWith (fun sign r => (if sign then r else -r) * norm) (config.signs.take vector.length)
        (((transform m ((transform m (signed config (vector.map (· / norm)) ++
            List.replicate (2 ^ m - vector.length) 0)).take vector.length ++
          List.replicate (2 ^ m - vector.length) 0)).map ((2 ^ m)⁻¹ * ·)).take vector.length)) := by
  have length : (signed config (vector.map (· / norm))).length = vector.length := by
    rw [length_signed (by rw [List.length_map]; omega), List.length_map]
  generalize start : signed config (vector.map (· / norm)) = a at length
  have whole : (a ++ List.replicate (2 ^ m - vector.length) 0).length = 2 ^ m := by
    rw [List.length_append, length, List.length_replicate]
    omega
  generalize turned : transform m (a ++ List.replicate (2 ^ m - vector.length) 0) = y
  have size : y.length = 2 ^ m := turned ▸ length_transform whole
  have root : (Scalar.sqrt (vector.length : ℝ) : ℝ) ≠ 0 :=
    (Real.sqrt_pos.mpr (Nat.cast_pos.mpr (Nat.pos_of_ne_zero some_))).ne'
  generalize scale_ : (1 / Scalar.sqrt ((2 ^ m : Nat) : ℝ) : ℝ) = s
  have square : s * s = (2 ^ m)⁻¹ := scale_ ▸ scale_mul_self m
  have first := polarCoordinates_ok debugAssertions dimensions padded room signs is_ exceeds
  rw [start, turned, scale_] at first
  generalize front : ((y.map (· * s)).take vector.length).map
    (· * Scalar.sqrt (vector.length : ℝ)) = coordinates at first
  have count : coordinates.length = vector.length := by
    rw [← front, List.length_map, List.length_take, List.length_map]
    omega
  -- the scales of both sides cancel
  have rescaled : coordinates.map (· * (1 / Scalar.sqrt (config.dimensions : ℝ))) ++
      List.replicate (config.paddedDim - coordinates.length) 0 =
      (y.take vector.length ++ List.replicate (2 ^ m - vector.length) 0).map (s * ·) := by
    rw [count, padded, dimensions, ← front, List.map_map, List.map_take, List.map_append,
      List.map_replicate, mul_zero, List.map_take, List.map_map]
    congr 2
    refine List.map_congr_left fun c _ => ?_
    show c * s * Scalar.sqrt (vector.length : ℝ) * (1 / Scalar.sqrt (vector.length : ℝ)) = s * c
    rw [mul_assoc (c * s), mul_one_div_cancel root, mul_one, mul_comm]
  have whole' : (y.take vector.length ++ List.replicate (2 ^ m - vector.length) 0).length = 2 ^ m := by
    rw [List.length_append, List.length_take, List.length_replicate]
    omega
  generalize cut : y.take vector.length ++ List.replicate (2 ^ m - vector.length) 0 = z at rescaled whole'
  have back : fastWalshHadamard debugAssertions
      (coordinates.map (· * (1 / Scalar.sqrt (config.dimensions : ℝ))) ++
        List.replicate (config.paddedDim - coordinates.length) 0) =
      .ok ((transform m z).map ((2 ^ m)⁻¹ * ·)) := by
    rw [rescaled, fastWalshHadamard_ok debugAssertions (m := m) (by rw [List.length_map, whole']),
      transform_scale s whole', scale_, List.map_map]
    refine congrArg Except.ok (List.map_congr_left fun c _ => ?_)
    show s * c * s = _
    rw [← square]
    ring
  refine bind_ok.mpr ⟨_, first, ?_⟩
  refine fromPolarCoordinates_ok debugAssertions norm (by omega) back (by omega) ?_
  rw [List.length_map, length_transform whole']
  omega

theorem drop_vanishes_iff {norm : ℝ} (some_ : norm ≠ 0) :
    (∀ u ∈ (transform m (signed config (vector.map (· / norm)) ++
      List.replicate (2 ^ m - vector.length) 0)).drop vector.length, u = 0) ↔
      PaddingVanishes config vector := by
  have whole : (signed config (vector.map (· / norm)) ++
      List.replicate (2 ^ m - vector.length) 0).length = 2 ^ m := by
    rw [List.length_append, length_signed (by rw [List.length_map]; omega), List.length_map,
      List.length_replicate]
    omega
  have component (k : Nat) : dot (row ℝ m k) (signed config (vector.map (· / norm)) ++
      List.replicate (2 ^ m - vector.length) 0) = norm⁻¹ * dot (row ℝ m k) (signed config vector) := by
    rw [dot_append_zeros, signed_div, dot_scale]
  unfold PaddingVanishes
  rw [transform_eq_rows whole, padded, dimensions, Nat.log2_two_pow]
  simp only [component]
  constructor
  · intro vanish k above below
    have listed : norm⁻¹ * dot (row ℝ m k) (signed config vector) ∈ ((List.range (2 ^ m)).map fun k =>
        norm⁻¹ * dot (row ℝ m k) (signed config vector)).drop vector.length := by
      refine List.mem_drop_iff_getElem.mpr ⟨k - vector.length, by simp; omega, ?_⟩
      rw [List.getElem_map, List.getElem_range, Nat.add_sub_cancel' above]
    exact (mul_eq_zero.mp (vanish _ listed)).resolve_left (inv_ne_zero some_)
  · intro vanish u listed
    obtain ⟨i, below, rfl⟩ := List.mem_drop_iff_getElem.mp listed
    rw [List.length_map, List.length_range] at below
    rw [List.getElem_map, List.getElem_range, vanish _ (by omega) (by omega), mul_zero]

theorem throughPolar_general (some_ : vector.length ≠ 0)
    (exceeds : exactEpsilon ℝ < Real.sqrt ((vector.map fun v => v * v).foldl (· + ·) 0)) :
    throughPolar debugAssertions vector config = .ok vector ↔ PaddingVanishes config vector := by
  generalize is_ : Real.sqrt ((vector.map fun v => v * v).foldl (· + ·) 0) = norm at exceeds
  have positive : norm ≠ 0 := (exactEpsilon_pos.trans exceeds).ne'
  have length : (signed config (vector.map (· / norm))).length = vector.length := by
    rw [length_signed (by rw [List.length_map]; omega), List.length_map]
  have power : (2 ^ m : ℝ) ≠ 0 := pow_ne_zero m two_ne_zero
  have cut := truncated_iff (K := ℝ) (m := m) (a := signed config (vector.map (· / norm))) (by omega)
  rw [length] at cut
  have size : (transform m ((transform m (signed config (vector.map (· / norm)) ++
      List.replicate (2 ^ m - vector.length) 0)).take vector.length ++
        List.replicate (2 ^ m - vector.length) 0)).length = 2 ^ m := by
    refine length_transform ?_
    rw [List.length_append, List.length_take, length_transform, List.length_replicate]
    · omega
    · rw [List.length_append, length, List.length_replicate]
      omega
  rw [throughPolar_ok debugAssertions dimensions padded room signs some_ is_ exceeds, Except.ok.injEq,
    undone_iff positive (by rw [List.length_take, List.length_map, size]; omega) (by omega), ← signed,
    ← drop_vanishes_iff dimensions padded room signs positive, ← cut, ← List.map_take]
  exact map_inv_mul_iff power

end Exact

theorem nextPowerOfTwo_power {n : Nat} (word : n ≤ 2 ^ 63) :
    ∃ m, nextPowerOfTwo n = 2 ^ m ∧ n ≤ 2 ^ m := by
  unfold nextPowerOfTwo
  by_cases tiny : n ≤ 1
  · rw [if_pos tiny]
    exact ⟨0, rfl, tiny⟩
  · rw [if_neg tiny]
    have some_ : n - 1 ≠ 0 := by omega
    have below : Nat.log2 (n - 1) < 63 := (Nat.log2_lt some_).mpr (by omega)
    have least : n - 1 < 2 ^ (Nat.log2 (n - 1) + 1) := Nat.lt_log2_self
    exact ⟨_, Nat.mod_eq_of_lt (Nat.pow_lt_pow_right (by omega) (by omega)), by omega⟩

/-- The rotation loses nothing of a vector exactly when its padding vanishes; at a power of two it
has no padding. -/
theorem throughPolar_iff (debugAssertions : Bool) {config : PolarQuantConfig} {vector : List ℝ}
    (some_ : 1 ≤ vector.length) (word : vector.length ≤ 2 ^ 63)
    (dimensions : config.dimensions = vector.length)
    (padded : config.paddedDim = nextPowerOfTwo vector.length)
    (signs : config.signs.length = config.paddedDim)
    (exceeds : exactEpsilon ℝ < Real.sqrt ((vector.map fun v => v * v).foldl (· + ·) 0)) :
    throughPolar debugAssertions vector config = .ok vector ↔ PaddingVanishes config vector := by
  obtain ⟨m, power, room⟩ := nextPowerOfTwo_power word
  rw [power] at padded
  exact throughPolar_general debugAssertions dimensions padded room (signs.trans padded)
    (Nat.pos_iff_ne_zero.mp some_) exceeds

theorem exactEpsilon_lt_one : exactEpsilon ℝ < 1 := by
  have small : F32.epsilon.value < 1 := by decide +kernel
  unfold exactEpsilon
  exact_mod_cast small

section ThreeDimensions

theorem row_three : row ℝ (Nat.log2 4) 3 = [1, -1, -1, 1] := by
  rw [show Nat.log2 4 = 2 by decide, row]
  have bits : (List.range (2 ^ 2)).map (fun i => commonBits 2 i 3) = [0, 1, 1, 2] := by decide
  have signs := congrArg (List.map fun n => (-1 : ℝ) ^ n) bits
  rw [List.map_map] at signs
  refine signs.trans ?_
  simp

theorem throughPolar_diagonal :
    throughPolar true [(1 : ℝ), 1, 0] ⟨3, 3, [true, true, true, true], 4⟩ = .ok [1, 1, 0] := by
  have exceeds : exactEpsilon ℝ <
      Real.sqrt (([1, 1, 0].map fun v : ℝ => v * v).foldl (· + ·) 0) := by
    refine exactEpsilon_lt_one.trans_le (Real.one_le_sqrt.mpr ?_)
    norm_num
  refine (throughPolar_iff true (by simp) (by simp) rfl rfl rfl exceeds).mpr fun k above below => ?_
  obtain rfl : k = 3 := Nat.le_antisymm (Nat.le_of_lt_succ below) above
  rw [row_three]
  simp [signed, dot]

/-- A unit vector of three dimensions: a quarter of it is in the fourth coordinate. -/
theorem three_dimensions_lose : throughPolar true [(1 : ℝ), 0, 0] ⟨3, 3, [true, true, true, true], 4⟩ ≠
    .ok [1, 0, 0] := by
  rw [ne_eq, throughPolar_general true (m := 2) rfl rfl (by simp) rfl (by simp)
    (by simpa using exactEpsilon_lt_one)]
  intro vanish
  have fourth := vanish 3 (Nat.le_refl 3) (by decide)
  rw [row_three] at fourth
  simp [signed, dot] at fourth

end ThreeDimensions
end TronDB.Core
