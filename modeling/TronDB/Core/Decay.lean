import TronDB.Core.Types
import TronDB.Lib.Arithmetic

/-! Decay of the confidence of an edge. -/
namespace TronDB.Core
open Binary

section Decay
variable (exp : F64 → F64)

/-- What the decay function makes of a base confidence. -/
def decay (decayFn : DecayFn) (base : F32) (elapsedMillis : Nat) (config : DecayConfig) : F64 :=
  let elapsedSecs := (F64.ofInt elapsedMillis).div .thousand
  let rate := config.decayRate.getD .zero
  let floor := config.floor.getD .zero
  match decayFn with
  | .exponential => base.toF64.mul (exp (rate.neg.mul elapsedSecs))
  | .linear => base.toF64.mul (F64.one.sub (rate.mul elapsedSecs))
  | .step => if elapsedSecs.gt rate then floor else base.toF64

def effectiveConfidence (base : F32) (elapsedMillis : Nat) (config : DecayConfig) : F32 :=
  match config.decayFn with
  | none => base
  | some decayFn =>
    if elapsedMillis = 0 then base
    else
      let decayed := decay exp decayFn base elapsedMillis config
      ((decayed.max (config.floor.getD .zero)).min .one).toF32

/-- The decay, with its floor, leaves what rounds to 1.0. -/
def Undecayed (elapsedMillis : Nat) (config : DecayConfig) : Prop :=
  ∀ decayFn, config.decayFn = some decayFn → elapsedMillis ≠ 0 →
    ¬ ((decay exp decayFn .one elapsedMillis config).max (config.floor.getD .zero)).lt nearlyOne

theorem effectiveConfidence_one (elapsedMillis : Nat) (config : DecayConfig) :
    effectiveConfidence exp .one elapsedMillis config = .one ↔ Undecayed exp elapsedMillis config := by
  unfold effectiveConfidence Undecayed
  cases config.decayFn with
  | none => exact iff_of_true rfl fun decayFn there => nomatch there
  | some decayFn =>
    by_cases fresh : elapsedMillis = 0
    · simp [fresh]
    · simp only [Option.some.injEq, forall_eq', fresh, ne_eq, not_false_eq_true, forall_const]
      exact toF32_capped _

end Decay

/-- A step of a floor of 0 after a second. -/
example : effectiveConfidence id .one 2000 ⟨some .step, some .one, none, none, none⟩ = ⟨0⟩ := by
  decide +kernel

end TronDB.Core
