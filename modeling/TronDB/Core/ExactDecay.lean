import Mathlib.Algebra.Order.Archimedean.Basic
import Mathlib.Algebra.Order.Field.Basic
import Mathlib.Analysis.SpecialFunctions.Log.Basic
import Mathlib.Tactic.Linarith
import TronDB.Core.Types
import TronDB.Lib.Arithmetic

/-! Decay over an ordered field, where nothing is rounded: when it only lowers a confidence, and
what is left of it in the end. -/
namespace Binary

def F64.value (x : F64) : ℚ := x.signedUnits / 2 ^ 1074

def F32.value (x : F32) : ℚ := x.toF64.value

end Binary

namespace TronDB.Core
open Binary

variable {K : Type*} [Field K] [LinearOrder K]

/-- What the decay of an edge type is computed from. -/
structure ExactConfig (K : Type*) where
  decayFn : Option DecayFn
  decayRate : Option K
  floor : Option K

def DecayConfig.exact (K : Type*) [Field K] (config : DecayConfig) : ExactConfig K where
  decayFn := config.decayFn
  decayRate := config.decayRate.map fun rate => (rate.value : K)
  floor := config.floor.map fun floor => (floor.value : K)

section Formulas
variable (exp : K → K)

def exactDecay (decayFn : DecayFn) (base : K) (elapsedMillis : Nat) (config : ExactConfig K) : K :=
  let elapsedSecs : K := elapsedMillis / 1000
  let rate := config.decayRate.getD 0
  let floor := config.floor.getD 0
  match decayFn with
  | .exponential => base * exp (-rate * elapsedSecs)
  | .linear => base * (1 - rate * elapsedSecs)
  | .step => if rate < elapsedSecs then floor else base

def exactConfidence (base : K) (elapsedMillis : Nat) (config : ExactConfig K) : K :=
  match config.decayFn with
  | none => base
  | some decayFn =>
    if elapsedMillis = 0 then base
    else min (max (exactDecay exp decayFn base elapsedMillis config) (config.floor.getD 0)) 1

/-- The confidence never exceeds the base and never rises. -/
def DecayOnlyLowers (base : K) (config : ExactConfig K) : Prop :=
  ∀ t₁ t₂, t₁ ≤ t₂ →
    exactConfidence exp base t₂ config ≤ exactConfidence exp base t₁ config ∧
      exactConfidence exp base t₁ config ≤ base

end Formulas

variable {exp : K → K} {base : K} {config : ExactConfig K}

theorem exactConfidence_still (still : config.decayFn = none) (t : Nat) :
    exactConfidence exp base t config = base := by
  unfold exactConfidence
  rw [still]

theorem exactConfidence_fresh : exactConfidence exp base 0 config = base := by
  unfold exactConfidence
  cases config.decayFn with
  | none => rfl
  | some decayFn => exact if_pos rfl

theorem exactConfidence_later {decayFn : DecayFn} (decays : config.decayFn = some decayFn) {t : Nat}
    (later : t ≠ 0) : exactConfidence exp base t config =
      min (max (exactDecay exp decayFn base t config) (config.floor.getD 0)) 1 := by
  unfold exactConfidence
  rw [decays]
  exact if_neg later

theorem floor_le_exactConfidence {decayFn : DecayFn} (decays : config.decayFn = some decayFn) {t : Nat}
    (later : t ≠ 0) : min (config.floor.getD 0) 1 ≤ exactConfidence exp base t config := by
  rw [exactConfidence_later decays later]
  exact min_le_min_right 1 (le_max_right _ _)

/-! ### Monotonicity -/

variable [IsStrictOrderedRing K]

theorem secs_mono {t₁ t₂ : Nat} (earlier : t₁ ≤ t₂) : (t₁ : K) / 1000 ≤ (t₂ : K) / 1000 :=
  div_le_div_of_nonneg_right (Nat.cast_le.mpr earlier) (by norm_num)

theorem secs_nonneg (t : Nat) : (0 : K) ≤ (t : K) / 1000 := div_nonneg (Nat.cast_nonneg t) (by norm_num)

section Lowers
variable (mono : Monotone exp) (one : exp 0 = 1) (rate : 0 ≤ config.decayRate.getD 0) (nonneg : 0 ≤ base)
  (covered : config.floor.getD 0 ≤ base) (decayFn : DecayFn)
include mono rate nonneg covered

theorem exactDecay_anti {t₁ t₂ : Nat} (earlier : t₁ ≤ t₂) :
    exactDecay exp decayFn base t₂ config ≤ exactDecay exp decayFn base t₁ config := by
  have secs := secs_mono (K := K) earlier
  have scaled := mul_le_mul_of_nonneg_left secs rate
  cases decayFn with
  | exponential =>
    refine mul_le_mul_of_nonneg_left (mono ?_) nonneg
    rw [neg_mul, neg_mul]
    exact neg_le_neg scaled
  | linear => exact mul_le_mul_of_nonneg_left (sub_le_sub_left scaled 1) nonneg
  | step =>
    unfold exactDecay
    dsimp only
    split
    · split
      · exact le_rfl
      · exact covered
    · rename_i notLater
      rw [if_neg fun earlier => notLater (earlier.trans_le secs)]

include one

theorem exactDecay_le_base (t : Nat) : exactDecay exp decayFn base t config ≤ base := by
  have scaled : 0 ≤ config.decayRate.getD 0 * ((t : K) / 1000) := mul_nonneg rate (secs_nonneg t)
  cases decayFn with
  | exponential =>
    refine mul_le_of_le_one_right nonneg ?_
    rw [← one]
    refine mono ?_
    rw [neg_mul]
    exact neg_nonpos.mpr scaled
  | linear => exact mul_le_of_le_one_right nonneg (sub_le_self 1 scaled)
  | step =>
    unfold exactDecay
    dsimp only
    split
    · exact covered
    · exact le_rfl

theorem exactConfidence_le_base (t : Nat) : exactConfidence exp base t config ≤ base := by
  by_cases fresh : t = 0
  · rw [fresh, exactConfidence_fresh]
  · cases decays : config.decayFn with
    | none => rw [exactConfidence_still decays]
    | some decayFn =>
      rw [exactConfidence_later decays fresh]
      exact (min_le_left _ _).trans
        (max_le (exactDecay_le_base mono one rate nonneg covered decayFn t) covered)

end Lowers

/-- Decay lowers a confidence that the floor does not exceed, and raises any other one. -/
theorem decay_lowers_iff (mono : Monotone exp) (one : exp 0 = 1)
    (rate : 0 ≤ config.decayRate.getD 0)
    (floor : 0 ≤ config.floor.getD 0 ∧ config.floor.getD 0 ≤ 1) (bounds : 0 ≤ base ∧ base ≤ 1) :
    DecayOnlyLowers exp base config ↔ config.decayFn = none ∨ config.floor.getD 0 ≤ base := by
  constructor
  · intro lowers
    cases decays : config.decayFn with
    | none => exact .inl rfl
    | some decayFn =>
      have kept : min (config.floor.getD 0) 1 ≤ exactConfidence exp base 1 config :=
        floor_le_exactConfidence decays one_ne_zero
      rw [min_eq_left floor.2] at kept
      exact .inr (kept.trans (lowers 1 1 le_rfl).2)
  · rintro (still | covered) t₁ t₂ earlier
    · rw [exactConfidence_still still, exactConfidence_still still]
      exact ⟨le_rfl, le_rfl⟩
    · refine ⟨?_, exactConfidence_le_base mono one rate bounds.1 covered t₁⟩
      by_cases fresh : t₁ = 0
      · rw [fresh, exactConfidence_fresh]
        exact exactConfidence_le_base mono one rate bounds.1 covered t₂
      · have later : t₂ ≠ 0 := by omega
        cases decays : config.decayFn with
        | none => rw [exactConfidence_still decays, exactConfidence_still decays]
        | some decayFn =>
          rw [exactConfidence_later decays fresh, exactConfidence_later decays later]
          exact min_le_min_right 1
            (max_le_max_right _ (exactDecay_anti mono rate bounds.1 covered decayFn earlier))

/-- An exponential decay from 1.0 to a floor of 0.1. -/
theorem full_decay_lowers :
    DecayOnlyLowers Real.exp 1 ⟨some .exponential, some (1 / 20), some (1 / 10)⟩ :=
  (decay_lowers_iff Real.exp_monotone Real.exp_zero (by norm_num) (by norm_num) (by norm_num)).mpr
    (.inr (by norm_num))

/-- Under the same floor, 0.05 rises. -/
theorem low_confidence_rises :
    ¬ DecayOnlyLowers Real.exp (1 / 20) ⟨some .exponential, some (1 / 20), some (1 / 10)⟩ := by
  intro lowers
  have base := (lowers 1 1 le_rfl).2
  rw [exactConfidence_later rfl one_ne_zero, min_le_iff, max_le_iff] at base
  norm_num at base

/-! ### In the end -/

section End
variable [Archimedean K] {decayFn : DecayFn} {p : K}

theorem scaled_reaches {rate : K} (positive : 0 < rate) (bound : K) :
    ∃ t₀ : Nat, ∀ t, t₀ ≤ t → bound ≤ rate * ((t : K) / 1000) := by
  obtain ⟨t₀, reached⟩ := exists_nat_ge (bound / rate * 1000)
  refine ⟨t₀, fun t later => ?_⟩
  have secs : bound / rate ≤ (t : K) / 1000 := by
    rw [le_div_iff₀ (by norm_num)]
    exact reached.trans (Nat.cast_le.mpr later)
  calc bound = rate * (bound / rate) := (mul_div_cancel₀ bound positive.ne').symm
    _ ≤ rate * ((t : K) / 1000) := mul_le_mul_of_nonneg_left secs positive.le

omit [IsStrictOrderedRing K] [Archimedean K] in
theorem capped_below {x floor : K} (limit : min floor 1 < p) (left : x < p ∨ 1 < p) :
    min (max x floor) 1 < p := by
  rcases min_lt_iff.mp limit with low | cap
  · rcases left with left | cap
    · exact (min_le_left _ _).trans_lt (max_lt left low)
    · exact (min_le_right _ _).trans_lt cap
  · exact (min_le_right _ _).trans_lt cap

/-- A decayed confidence stays below a positive threshold from some time on, if the floor is below
it and a negative base does not decay upwards, past the cap. -/
theorem ends_below_iff (vanishes : ∀ ε, 0 < ε → ∃ x, ∀ y, y ≤ x → |exp y| < ε)
    (decays : config.decayFn = some decayFn) (rate : 0 < config.decayRate.getD 0) (positive : 0 < p) :
    (∃ t₀, ∀ t, t₀ ≤ t → exactConfidence exp base t config < p) ↔
      min (config.floor.getD 0) 1 < p ∧ (decayFn = .linear → base < 0 → 1 < p) := by
  constructor
  · rintro ⟨t₀, below⟩
    constructor
    · have later : t₀ + 1 ≠ 0 := by omega
      exact (floor_le_exactConfidence decays later).trans_lt (below _ (by omega))
    · rintro rfl negative
      obtain ⟨t₁, reached⟩ := scaled_reaches rate (1 - 1 / base)
      have last := below (max t₀ t₁ + 1) (by omega)
      have high : 1 ≤ exactDecay exp .linear base (max t₀ t₁ + 1) config := by
        have factor : 1 - config.decayRate.getD 0 * (((max t₀ t₁ + 1 : Nat) : K) / 1000) ≤ 1 / base := by
          have := reached (max t₀ t₁ + 1) (by omega)
          linarith
        calc 1 = base * (1 / base) := (mul_one_div_cancel negative.ne).symm
          _ ≤ base * (1 - config.decayRate.getD 0 * (((max t₀ t₁ + 1 : Nat) : K) / 1000)) :=
            mul_le_mul_of_nonpos_left factor negative.le
      rw [exactConfidence_later decays (by omega),
        min_eq_right (high.trans (le_max_left _ _))] at last
      exact last
  · rintro ⟨limit, upwards⟩
    cases decayFn with
    | exponential =>
      obtain ⟨x, small⟩ := vanishes (p / (|base| + 1)) (div_pos positive (by positivity))
      obtain ⟨t₀, reached⟩ := scaled_reaches rate (-x)
      refine ⟨t₀ + 1, fun t later => ?_⟩
      rw [exactConfidence_later decays (by omega)]
      refine capped_below limit (.inl ?_)
      have tiny := small (-config.decayRate.getD 0 * ((t : K) / 1000)) (by
        have := reached t (by omega)
        linarith)
      rw [lt_div_iff₀ (by positivity)] at tiny
      calc base * exp (-config.decayRate.getD 0 * ((t : K) / 1000))
          ≤ |base * exp (-config.decayRate.getD 0 * ((t : K) / 1000))| := le_abs_self _
        _ = |exp (-config.decayRate.getD 0 * ((t : K) / 1000))| * |base| := by rw [abs_mul, mul_comm]
        _ ≤ |exp (-config.decayRate.getD 0 * ((t : K) / 1000))| * (|base| + 1) :=
          mul_le_mul_of_nonneg_left (by linarith) (abs_nonneg _)
        _ < p := tiny
    | linear =>
      obtain ⟨t₀, reached⟩ := scaled_reaches rate 1
      refine ⟨t₀ + 1, fun t later => ?_⟩
      rw [exactConfidence_later decays (by omega)]
      refine capped_below limit ?_
      by_cases negative : base < 0
      · exact .inr (upwards rfl negative)
      · have factor : 1 - config.decayRate.getD 0 * ((t : K) / 1000) ≤ 0 := by
          have := reached t (by omega)
          linarith
        have gone := mul_nonpos_of_nonneg_of_nonpos (not_lt.mp negative) factor
        exact .inl (gone.trans_lt positive)
    | step =>
      obtain ⟨t₀, reached⟩ := scaled_reaches (K := K) one_pos (config.decayRate.getD 0 + 1)
      refine ⟨t₀ + 1, fun t later => ?_⟩
      have passed : config.decayRate.getD 0 < (t : K) / 1000 := by
        have := reached t (by omega)
        linarith
      rw [exactConfidence_later decays (by omega)]
      have stepped : exactDecay exp .step base t config = config.floor.getD 0 := if_pos passed
      rw [stepped, max_self]
      exact limit

end End

theorem realExp_vanishes : ∀ ε : ℝ, 0 < ε → ∃ x, ∀ y, y ≤ x → |Real.exp y| < ε := by
  intro ε positive
  refine ⟨Real.log (ε / 2), fun y low => ?_⟩
  have half := Real.exp_monotone low
  rw [Real.exp_log (half_pos positive)] at half
  rw [abs_of_pos (Real.exp_pos y)]
  exact half.trans_lt (half_lt_self positive)

end TronDB.Core
