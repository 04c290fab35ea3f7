import Mathlib.Algebra.Order.Floor.Semiring
import Mathlib.Data.Rat.Floor
import TronDB.Core.ExactDecay
import TronDB.Core.Quantise
import TronDB.Lib.Levels

/-! One byte a component over an ordered field, where only the code's own rounding is left: how
far a vector moves, and that it moves once. -/
namespace TronDB.Core
open Binary Levels

variable {K : Type*} [Field K] [LinearOrder K]

def exactEpsilon (K : Type*) [Field K] : K := (F32.epsilon.value : ℚ)

structure ExactInt8 (K : Type*) where
  min : K
  max : K
  data : List UInt8
  deriving DecidableEq, Repr

def ExactInt8.isConstant (min max : K) : Prop := |max - min| < exactEpsilon K

instance (min max : K) : Decidable (ExactInt8.isConstant min max) := by
  unfold ExactInt8.isConstant
  infer_instance

section Quantise
variable [FloorRing K]

/-- Rounded half away from zero and clamped to a byte. -/
def exactByte (x : K) : UInt8 := UInt8.ofNat (Min.min 255 (roundAway x).toNat)

def exactQuantiseInt8 : List K → ExactInt8 K
  | [] => ⟨0, 0, []⟩
  | first :: rest =>
    let min := rest.foldl Min.min first
    let max := rest.foldl Max.max first
    if ExactInt8.isConstant min max then ⟨min, max, List.replicate (rest.length + 1) 0⟩
    else
      let scale := 255 / (max - min)
      ⟨min, max, (first :: rest).map fun v => exactByte ((v - min) * scale)⟩

end Quantise

def exactDequantiseInt8 (q : ExactInt8 K) : List K :=
  if q.data = [] then []
  else if ExactInt8.isConstant q.min q.max then List.replicate q.data.length q.min
  else
    let range := q.max - q.min
    q.data.map fun v => (v.toNat : K) / 255 * range + q.min

/-- A vector behind a demotion to the warm tier and a promotion. -/
def throughInt8 [FloorRing K] (v : List K) : List K := exactDequantiseInt8 (exactQuantiseInt8 v)

example : throughInt8 [1, 0, -1] = [1, (1 : ℚ) / 255, -1] := by decide +kernel

/-! ### The least and the greatest component -/

section Extremes
variable {α : Type*} [LinearOrder α]

theorem foldl_min_isLeast (first : α) (rest : List α) :
    IsLeast {x | x ∈ first :: rest} (rest.foldl Min.min first) := by
  induction rest generalizing first with
  | nil => exact ⟨List.mem_cons_self, fun y listed => (List.mem_singleton.mp listed).ge⟩
  | cons x rest ih =>
    obtain ⟨member, below⟩ := ih (Min.min first x)
    refine ⟨?_, ?_⟩
    · rcases List.mem_cons.mp member with same | later
      · show rest.foldl Min.min (Min.min first x) ∈ first :: x :: rest
        rw [same]
        rcases min_choice first x with left | right
        · rw [left]
          exact List.mem_cons_self
        · rw [right]
          exact List.mem_cons_of_mem _ List.mem_cons_self
      · exact List.mem_cons_of_mem _ (List.mem_cons_of_mem _ later)
    · intro y listed
      have least := below (List.mem_cons_self : Min.min first x ∈ Min.min first x :: rest)
      rcases List.mem_cons.mp listed with rfl | later
      · exact least.trans (min_le_left _ _)
      rcases List.mem_cons.mp later with rfl | later
      · exact least.trans (min_le_right _ _)
      · exact below (List.mem_cons_of_mem _ later)

theorem foldl_max_isGreatest (first : α) (rest : List α) :
    IsGreatest {x | x ∈ first :: rest} (rest.foldl Max.max first) :=
  foldl_min_isLeast (α := αᵒᵈ) first rest

end Extremes

theorem exactEpsilon_pos [IsStrictOrderedRing K] : 0 < exactEpsilon K :=
  Rat.cast_pos.mpr (by decide +kernel)

section Through
variable [FloorRing K]

theorem min_isLeast {v : List K} (some_ : v ≠ []) : IsLeast {x | x ∈ v} (exactQuantiseInt8 v).min := by
  cases v with
  | nil => exact absurd rfl some_
  | cons first rest =>
    unfold exactQuantiseInt8
    dsimp only
    split <;> exact foldl_min_isLeast first rest

theorem max_isGreatest {v : List K} (some_ : v ≠ []) :
    IsGreatest {x | x ∈ v} (exactQuantiseInt8 v).max := by
  cases v with
  | nil => exact absurd rfl some_
  | cons first rest =>
    unfold exactQuantiseInt8
    dsimp only
    split <;> exact foldl_max_isGreatest first rest

/-- What becomes of a component, from the least and the greatest. -/
def throughComponent (min max x : K) : K :=
  if ExactInt8.isConstant min max then min
  else point 255 min max (exactByte (position 255 min max x)).toNat

theorem throughInt8_eq (v : List K) : throughInt8 v =
    v.map (throughComponent (exactQuantiseInt8 v).min (exactQuantiseInt8 v).max) := by
  cases v with
  | nil => rfl
  | cons first rest =>
    unfold throughInt8 exactQuantiseInt8 exactDequantiseInt8
    dsimp only
    split
    · rename_i constant
      rw [if_neg (by simp), List.length_replicate]
      refine (List.eq_replicate_iff.mpr ⟨by simp, fun y listed => ?_⟩).symm
      obtain ⟨x, -, rfl⟩ := List.mem_map.mp listed
      exact if_pos constant
    · rename_i varies
      rw [if_neg (by simp), List.map_map]
      refine List.map_congr_left fun x _ => ?_
      unfold throughComponent
      rw [if_neg varies]
      rfl

variable [IsStrictOrderedRing K]

theorem exactByte_toNat {x : K} (least : 0 ≤ x) (most : x ≤ (255 : ℕ)) :
    ((exactByte x).toNat : ℤ) = roundAway x := by
  obtain ⟨nonneg, bounded⟩ := roundAway_range least most
  unfold exactByte
  rw [UInt8.toNat_ofNat_of_lt' (by have : UInt8.size = 256 := rfl; omega)]
  omega

omit [FloorRing K] in
theorem isConstant_self (x : K) : ExactInt8.isConstant x x := by
  unfold ExactInt8.isConstant
  rw [sub_self, abs_zero]
  exact exactEpsilon_pos

omit [FloorRing K] in
theorem min_lt_max {min max x : K} (least : min ≤ x) (most : x ≤ max)
    (varies : ¬ ExactInt8.isConstant min max) : min < max := by
  refine lt_of_le_of_ne (least.trans most) fun same => varies ?_
  rw [same]
  exact isConstant_self max

section Component
variable {min max x : K} (least : min ≤ x) (most : x ≤ max)
include least most

theorem abs_throughComponent_constant (constant : ExactInt8.isConstant min max) :
    |throughComponent min max x - x| < exactEpsilon K := by
  unfold throughComponent
  rw [if_pos constant, abs_sub_comm, abs_of_nonneg (sub_nonneg.mpr least)]
  exact lt_of_le_of_lt (sub_le_sub_right most min) (lt_of_abs_lt constant)

variable (varies : ¬ ExactInt8.isConstant min max)
include varies

theorem abs_throughComponent : |throughComponent min max x - x| ≤ (max - min) / 510 := by
  have apart := min_lt_max least most varies
  obtain ⟨nonneg, bounded⟩ := position_range (n := 255) apart least most
  have near := abs_roundAway_sub (position 255 min max x)
  rw [← exactByte_toNat nonneg bounded, Int.cast_natCast] at near
  have moved := abs_point_sub (by norm_num) apart near
  unfold throughComponent
  rw [if_neg varies]
  refine moved.trans_eq ?_
  norm_num

end Component

theorem throughComponent_point {min max : K} (apart : min < max) (varies : ¬ ExactInt8.isConstant min max)
    {k : ℕ} (byte : k ≤ 255) : throughComponent min max (point 255 min max k) = point 255 min max k := by
  have there := position_point (n := 255) (by norm_num) apart.ne k
  have level : (exactByte (k : K)).toNat = k := by
    have rounds := exactByte_toNat (x := (k : K)) (Nat.cast_nonneg k) (Nat.cast_le.mpr byte)
    rw [roundAway_natCast] at rounds
    exact_mod_cast rounds
  unfold throughComponent
  rw [if_neg varies, there, level]

theorem throughComponent_twice {min max x : K} (least : min ≤ x) (most : x ≤ max) :
    throughComponent min max (throughComponent min max x) = throughComponent min max x := by
  by_cases constant : ExactInt8.isConstant min max
  · unfold throughComponent
    rw [if_pos constant, if_pos constant]
  · have level : throughComponent min max x =
        point 255 min max (exactByte (position 255 min max x)).toNat := if_neg constant
    have byte := (exactByte (position 255 min max x)).toNat_lt
    rw [level]
    exact throughComponent_point (min_lt_max least most constant) constant (by omega)

theorem throughComponent_ends {min max : K} (apart : min < max)
    (varies : ¬ ExactInt8.isConstant min max) :
    throughComponent min max min = min ∧ throughComponent min max max = max := by
  have low := throughComponent_point apart varies (Nat.zero_le 255)
  have high := throughComponent_point apart varies (le_refl 255)
  rw [point_zero] at low
  rw [point_last (by norm_num)] at high
  exact ⟨low, high⟩

/-- What comes through lies between the same extremes, and has them. -/
theorem extremes_throughInt8 {v : List K} (some_ : v ≠ [])
    (varies : ¬ ExactInt8.isConstant (exactQuantiseInt8 v).min (exactQuantiseInt8 v).max) :
    (exactQuantiseInt8 (throughInt8 v)).min = (exactQuantiseInt8 v).min ∧
      (exactQuantiseInt8 (throughInt8 v)).max = (exactQuantiseInt8 v).max := by
  have least := min_isLeast some_
  have greatest := max_isGreatest some_
  have apart := min_lt_max (least.2 least.1) (greatest.2 least.1) varies
  obtain ⟨low, high⟩ := throughComponent_ends apart varies
  have through (x : K) (listed : x ∈ v) : throughComponent (exactQuantiseInt8 v).min
      (exactQuantiseInt8 v).max x ∈ throughInt8 v := by
    rw [throughInt8_eq]
    exact List.mem_map_of_mem listed
  have between (y : K) (listed : y ∈ throughInt8 v) :
      (exactQuantiseInt8 v).min ≤ y ∧ y ≤ (exactQuantiseInt8 v).max := by
    rw [throughInt8_eq] at listed
    obtain ⟨x, -, rfl⟩ := List.mem_map.mp listed
    have byte := (exactByte (position 255 (exactQuantiseInt8 v).min (exactQuantiseInt8 v).max x)).toNat_lt
    unfold throughComponent
    rw [if_neg varies]
    exact point_range (by norm_num) apart (by omega)
  have some' : throughInt8 v ≠ [] := List.ne_nil_of_mem (through _ least.1)
  constructor
  · refine (min_isLeast some').unique ⟨?_, fun y listed => (between y listed).1⟩
    exact low ▸ through _ least.1
  · refine (max_isGreatest some').unique ⟨?_, fun y listed => (between y listed).2⟩
    exact high ▸ through _ greatest.1

omit [IsStrictOrderedRing K] in
theorem throughInt8_constant {v : List K}
    (constant : ExactInt8.isConstant (exactQuantiseInt8 v).min (exactQuantiseInt8 v).max) :
    throughInt8 v = List.replicate v.length (exactQuantiseInt8 v).min := by
  rw [throughInt8_eq, List.eq_replicate_iff, List.length_map]
  refine ⟨rfl, fun y listed => ?_⟩
  obtain ⟨x, -, rfl⟩ := List.mem_map.mp listed
  exact if_pos constant

/-- A vector that came through comes through unchanged. -/
theorem throughInt8_twice (v : List K) : throughInt8 (throughInt8 v) = throughInt8 v := by
  by_cases some_ : v = []
  · subst some_
    rfl
  by_cases constant : ExactInt8.isConstant (exactQuantiseInt8 v).min (exactQuantiseInt8 v).max
  · have all := throughInt8_constant constant
    have some' : throughInt8 v ≠ [] := by
      rw [all, ne_eq, List.replicate_eq_nil_iff, List.length_eq_zero_iff]
      exact some_
    have member (y : K) (listed : y ∈ throughInt8 v) : y = (exactQuantiseInt8 v).min :=
      List.eq_of_mem_replicate (all ▸ listed)
    have least := member _ (min_isLeast some').1
    have greatest := member _ (max_isGreatest some').1
    have again : ExactInt8.isConstant (exactQuantiseInt8 (throughInt8 v)).min
        (exactQuantiseInt8 (throughInt8 v)).max := by
      rw [least, greatest]
      exact isConstant_self _
    rw [throughInt8_constant again, least]
    conv_rhs => rw [all]
    rw [all, List.length_replicate]
  · obtain ⟨low, high⟩ := extremes_throughInt8 some_ constant
    rw [throughInt8_eq (throughInt8 v), low, high]
    conv_lhs => rw [throughInt8_eq v]
    rw [List.map_map]
    conv_rhs => rw [throughInt8_eq v]
    exact List.map_congr_left fun x listed => throughComponent_twice
      ((min_isLeast some_).2 listed) ((max_isGreatest some_).2 listed)

theorem iterate_throughInt8 (v : List K) (n : ℕ) : throughInt8^[n + 1] v = throughInt8 v := by
  induction n with
  | zero => rfl
  | succ n ih => rw [Function.iterate_succ_apply', ih, throughInt8_twice]

/-- One byte a component: a component moves by half a level at most, or by less than EPSILON in the
constant branch, the extremes not at all outside it, and no component a second time. -/
theorem int8_bounded_stable {v : List K} (some_ : v ≠ []) : ∃ min max,
    IsLeast {x | x ∈ v} min ∧ IsGreatest {x | x ∈ v} max ∧
      List.Forall₂ (fun x y =>
          if |max - min| < exactEpsilon K then |y - x| < exactEpsilon K
          else |y - x| ≤ (max - min) / 510 ∧ (x = min → y = min) ∧ (x = max → y = max))
        v (throughInt8 v) ∧
      ∀ n, throughInt8^[n + 1] v = throughInt8 v := by
  have least := min_isLeast some_
  have greatest := max_isGreatest some_
  refine ⟨_, _, least, greatest, ?_, iterate_throughInt8 v⟩
  rw [throughInt8_eq, List.forall₂_map_right_iff, List.forall₂_same]
  intro x listed
  have above := least.2 listed
  have below := greatest.2 listed
  split
  · rename_i constant
    exact abs_throughComponent_constant above below constant
  · rename_i varies
    obtain ⟨first, last⟩ := throughComponent_ends (min_lt_max above below varies) varies
    refine ⟨abs_throughComponent above below varies, ?_, ?_⟩
    · rintro rfl
      exact first
    · rintro rfl
      exact last

end Through

theorem int8_bounded_stable_three : ∃ min max,
    IsLeast {x | x ∈ [(1 : ℚ), 0, -1]} min ∧ IsGreatest {x | x ∈ [(1 : ℚ), 0, -1]} max ∧
      List.Forall₂ (fun x y =>
          if |max - min| < exactEpsilon ℚ then |y - x| < exactEpsilon ℚ
          else |y - x| ≤ (max - min) / 510 ∧ (x = min → y = min) ∧ (x = max → y = max))
        [1, 0, -1] (throughInt8 [1, 0, -1]) ∧
      ∀ n, throughInt8^[n + 1] [(1 : ℚ), 0, -1] = throughInt8 [1, 0, -1] :=
  int8_bounded_stable (by decide)

end TronDB.Core
