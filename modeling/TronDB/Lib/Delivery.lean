import Mathlib.Data.List.Pairwise

/-! A log whose entries carry ascending positions, and a follower that applies them: what it has
applied when every entry it takes is the last one again or the next one of the log. -/
namespace Delivery

variable {R : Type*} (position : R → Nat)

/-- The position of the last entry applied, 0 before the first one. -/
def last (applied : List R) : Nat := (applied.getLast?.map position).getD 0

/-- Everything the log has up to a position has been applied, in the order of the log. -/
structure HoldsUpTo (log applied : List R) (n : Nat) : Prop where
  all : ∀ q ∈ log, position q ≤ n → q ∈ applied
  ordered : (applied.filter fun q => position q ≤ n).Pairwise fun p q => position p ≤ position q

/-- The follower has no gap: in order, and everything up to its last entry. -/
structure Gapless (log applied : List R) : Prop where
  sorted : applied.Pairwise fun p q => position p ≤ position q
  covered : ∀ q ∈ log, position q ≤ last position applied → q ∈ applied

/-- The entry is not behind the follower, and none of the log lies in between. -/
structure Next (log applied : List R) (r : R) : Prop where
  forward : last position applied ≤ position r
  adjacent : ∀ q ∈ log, last position applied < position q → position r ≤ position q

instance [DecidableEq R] (log applied : List R) (n : Nat) : Decidable (HoldsUpTo position log applied n) :=
  decidable_of_iff ((∀ q ∈ log, position q ≤ n → q ∈ applied) ∧
    (applied.filter fun q => position q ≤ n).Pairwise fun p q => position p ≤ position q)
    ⟨fun h => ⟨h.1, h.2⟩, fun h => ⟨h.1, h.2⟩⟩

instance (log applied : List R) (r : R) : Decidable (Next position log applied r) :=
  decidable_of_iff (last position applied ≤ position r ∧
    ∀ q ∈ log, last position applied < position q → position r ≤ position q)
    ⟨fun h => ⟨h.1, h.2⟩, fun h => ⟨h.1, h.2⟩⟩

variable {position} {log applied : List R}

theorem last_snoc (applied : List R) (r : R) : last position (applied ++ [r]) = position r := by
  simp [last]

theorem last_cases (applied : List R) :
    last position applied = 0 ∨ ∃ r ∈ applied, last position applied = position r := by
  rcases List.eq_nil_or_concat applied with rfl | ⟨before, r, rfl⟩
  · exact .inl rfl
  · rw [List.concat_eq_append, last_snoc]
    exact .inr ⟨r, by simp, rfl⟩

theorem Gapless.le_last (gapless : Gapless position log applied) :
    ∀ q ∈ applied, position q ≤ last position applied := by
  intro q there
  have sorted := gapless.sorted
  obtain ⟨before, r, rfl⟩ := List.eq_nil_or_concat applied |>.resolve_left (List.ne_nil_of_mem there)
  rw [List.concat_eq_append] at there sorted ⊢
  rw [last_snoc]
  rcases List.mem_append.mp there with earlier | same
  · exact (List.pairwise_append.mp sorted).2.2 q earlier r List.mem_cons_self
  · exact List.mem_singleton.mp same ▸ Nat.le_refl _

theorem Gapless.nothing (positive : ∀ q ∈ log, 0 < position q) : Gapless position log [] where
  sorted := .nil
  covered q there below := by
    have above := positive q there
    simp only [last, List.getLast?_nil, Option.map_none, Option.getD_none] at below
    omega

theorem Gapless.apply (gapless : Gapless position log applied) {r : R}
    (distinct : ∀ q ∈ log, position q = position r → q = r) (next : Next position log applied r) :
    Gapless position log (applied ++ [r]) where
  sorted := by
    refine List.pairwise_append.mpr ⟨gapless.sorted, List.pairwise_singleton _ r, fun q there r' same => ?_⟩
    rw [List.mem_singleton.mp same]
    exact Nat.le_trans (gapless.le_last q there) next.forward
  covered q there below := by
    rw [last_snoc] at below
    rw [List.mem_append, List.mem_singleton]
    by_cases old : position q ≤ last position applied
    · exact .inl (gapless.covered q there old)
    · have above := next.adjacent q there (by omega)
      exact .inr (distinct q there (by omega))

theorem Gapless.grow (gapless : Gapless position log applied) {added : List R}
    (above : ∀ q ∈ added, last position applied < position q) : Gapless position (log ++ added) applied where
  sorted := gapless.sorted
  covered q there below := by
    rcases List.mem_append.mp there with old | new
    · exact gapless.covered q old below
    · have := above q new
      omega

theorem Gapless.holds (gapless : Gapless position log applied) {n : Nat}
    (reached : n ≤ last position applied) : HoldsUpTo position log applied n where
  all q there below := gapless.covered q there (Nat.le_trans below reached)
  ordered := gapless.sorted.filter _

theorem HoldsUpTo.mono {n m : Nat} (holds : HoldsUpTo position log applied n) (below : m ≤ n) :
    HoldsUpTo position log applied m where
  all q there here := holds.all q there (Nat.le_trans here below)
  ordered := by
    have within := holds.ordered.filter fun q => position q ≤ m
    have same : applied.filter (fun q => position q ≤ m) =
        (applied.filter fun q => position q ≤ n).filter fun q => position q ≤ m := by
      rw [List.filter_filter]
      refine List.filter_congr fun q _ => ?_
      by_cases here : position q ≤ m
      · have there : position q ≤ n := Nat.le_trans here below
        simp [here, there]
      · simp [here]
    exact same ▸ within

end Delivery
