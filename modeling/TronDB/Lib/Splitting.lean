import Mathlib.Data.List.Forall2
import Mathlib.Data.List.Infix
import Mathlib.Tactic.Ring

/-! Lists cut into parts: one for each element of a pattern, or at separators. -/
namespace Splitting

/-! ### Patterns -/

variable {P α : Type}

/-- The value is made of parts that stand for the elements of the pattern, in their order. -/
def Splits (stands : P → List α → Prop) (pattern : List P) (value : List α) : Prop :=
  ∃ parts, List.Forall₂ stands pattern parts ∧ parts.flatten = value

variable {stands : P → List α → Prop}

theorem splits_nil {value : List α} : Splits stands [] value ↔ value = [] := by
  constructor
  · rintro ⟨parts, none, rfl⟩
    cases none
    rfl
  · rintro rfl
    exact ⟨[], .nil, rfl⟩

theorem splits_cons {p : P} {pattern : List P} {value : List α} :
    Splits stands (p :: pattern) value ↔
      ∃ part rest, part ++ rest = value ∧ stands p part ∧ Splits stands pattern rest := by
  constructor
  · rintro ⟨parts, all, rfl⟩
    cases all with
    | cons here others => exact ⟨_, _, rfl, here, _, others, rfl⟩
  · rintro ⟨part, rest, rfl, here, parts, others, rfl⟩
    exact ⟨part :: parts, .cons here others, rfl⟩

theorem splits_single {p : P} {pattern : List P} {value : List α} {only : α → Prop}
    (single : ∀ part, stands p part ↔ ∃ v, only v ∧ part = [v]) :
    Splits stands (p :: pattern) value ↔
      ∃ v rest, value = v :: rest ∧ only v ∧ Splits stands pattern rest := by
  rw [splits_cons]
  constructor
  · rintro ⟨part, rest, rfl, here, others⟩
    obtain ⟨v, holds, rfl⟩ := (single part).mp here
    exact ⟨v, rest, rfl, holds, others⟩
  · rintro ⟨v, rest, rfl, holds, others⟩
    exact ⟨[v], rest, rfl, (single [v]).mpr ⟨v, holds, rfl⟩, others⟩

theorem splits_any {p : P} {pattern : List P} {value : List α} (any : ∀ part, stands p part) :
    Splits stands (p :: pattern) value ↔ ∃ rest ∈ value.tails, Splits stands pattern rest := by
  rw [splits_cons]
  constructor
  · rintro ⟨part, rest, rfl, -, others⟩
    exact ⟨rest, (List.mem_tails _ _).mpr (List.suffix_append part rest), others⟩
  · rintro ⟨rest, tail, others⟩
    obtain ⟨part, rfl⟩ := (List.mem_tails _ _).mp tail
    exact ⟨part, rest, rfl, any part, others⟩

/-! ### Separators -/

theorem length_splitOnP (isSeparator : α → Bool) (s : List α) :
    ((s.splitOnP isSeparator).map List.length).sum + (s.splitOnP isSeparator).length =
      s.length + 1 := by
  induction s with
  | nil => rfl
  | cons c s ih =>
    rw [List.splitOnP_cons_eq_if_modifyHead]
    by_cases separates : isSeparator c = true
    · rw [if_pos separates]
      simp only [List.map_cons, List.sum_cons, List.length_cons, List.length_nil]
      omega
    · rw [if_neg separates]
      cases parts : s.splitOnP isSeparator with
      | nil => exact absurd parts (List.splitOnP_ne_nil isSeparator s)
      | cons part others =>
        rw [parts] at ih
        simp only [List.modifyHead_cons, List.map_cons, List.sum_cons, List.length_cons] at ih ⊢
        omega

theorem splitOnP_plain (isSeparator : α → Bool) (s : List α) :
    ∀ part ∈ s.splitOnP isSeparator, ∀ c ∈ part, isSeparator c = false := by
  induction s with
  | nil => simp
  | cons c s ih =>
    rw [List.splitOnP_cons_eq_if_modifyHead]
    by_cases separates : isSeparator c = true
    · rw [if_pos separates]
      exact List.forall_mem_cons.mpr ⟨by simp, ih⟩
    · rw [if_neg separates]
      cases parts : s.splitOnP isSeparator with
      | nil => exact absurd parts (List.splitOnP_ne_nil isSeparator s)
      | cons part others =>
        rw [parts] at ih
        obtain ⟨here, rest⟩ := List.forall_mem_cons.mp ih
        exact List.forall_mem_cons.mpr
          ⟨List.forall_mem_cons.mpr ⟨Bool.eq_false_iff.mpr separates, here⟩, rest⟩

end Splitting
