import Mathlib.Data.List.Sort

/-! The k best of a pool, taken from a ranking: what is lost when a ranking is cut before it is
filtered, or not filtered at all. -/
namespace Ranked

variable {α : Type*} (better : α → α → Prop)

/-- As many as were asked for, or else all there are, and none left out is better. -/
structure Best (k : Nat) (pool chosen : List α) : Prop where
  among : chosen.Subperm pool
  count : chosen.length = min k pool.length
  best : ∀ a ∈ chosen, ∀ b ∈ pool, b ∉ chosen → ¬ better b a

def Ranking (ranked : List α) : Prop := ranked.Pairwise fun a b => ¬ better b a

variable {better} {ranked pool : List α}

theorem Ranking.filter (ordered : Ranking better ranked) (keep : α → Bool) :
    Ranking better (ranked.filter keep) :=
  List.Pairwise.filter keep ordered

theorem Ranking.best_take (ordered : Ranking better ranked) (k : Nat) :
    Best better k ranked (ranked.take k) where
  among := (List.take_sublist k ranked).subperm
  count := List.length_take
  best := by
    intro a chosen b there left
    rw [Ranking, ← List.take_append_drop k ranked, List.pairwise_append] at ordered
    obtain ⟨-, -, across⟩ := ordered
    rw [← List.take_append_drop k ranked] at there
    rcases List.mem_append.mp there with early | late
    · exact absurd early left
    · exact across a chosen b late

theorem Best.perm {k : Nat} {pool' chosen : List α} (answer : Best better k pool chosen)
    (same : pool.Perm pool') : Best better k pool' chosen where
  among := answer.among.trans same.subperm
  count := by rw [answer.count, same.length_eq]
  best a chosen_ b there := answer.best a chosen_ b (same.mem_iff.mpr there)

/-! ### Cut before the filter -/

/-- A filter behind a cut at m loses nothing iff enough of what it keeps stands before the cut. -/
theorem best_cut_iff (ordered : Ranking better ranked) (keep : α → Bool) (k m : Nat) :
    Best better k (ranked.filter keep) (((ranked.take m).filter keep).take k) ↔
      min k (ranked.filter keep).length ≤ ((ranked.take m).filter keep).length := by
  have parts : ranked.filter keep =
      (ranked.take m).filter keep ++ (ranked.drop m).filter keep := by
    rw [← List.filter_append, List.take_append_drop]
  constructor
  · intro answer
    have count := answer.count
    rw [List.length_take] at count
    omega
  · intro enough
    have first := (ordered.filter keep).best_take k
    have same : ((ranked.take m).filter keep).take k = (ranked.filter keep).take k := by
      rcases Nat.lt_or_ge ((ranked.take m).filter keep).length k with short | long
      · have none_ : (ranked.drop m).filter keep = [] := by
          have total := congrArg List.length parts
          rw [List.length_append] at total
          apply List.length_eq_zero_iff.mp
          omega
        rw [parts, none_, List.append_nil]
      · rw [parts, List.take_append_of_le_length long]
    rw [same]
    exact first

/-! ### No filter -/

def Upward (better : α → α → Prop) (keep : α → Bool) (pool : List α) : Prop :=
  ∀ a ∈ pool, ∀ b ∈ pool, keep b = true → ¬ better b a → keep a = true

/-- Of a ranking, a filter of the better ones keeps the first. -/
theorem filter_eq_take (ordered : Ranking better ranked) {keep : α → Bool}
    (upward : Upward better keep ranked) :
    ranked.filter keep = ranked.take (ranked.filter keep).length := by
  induction ranked with
  | nil => rfl
  | cons a rest ih =>
    obtain ⟨first, ordered⟩ := List.pairwise_cons.mp ordered
    have others : Upward better keep rest := fun a here b there =>
      upward a (List.mem_cons_of_mem _ here) b (List.mem_cons_of_mem _ there)
    cases kept : keep a with
    | true =>
      rw [List.filter_cons_of_pos kept, List.length_cons, List.take_succ_cons]
      exact congrArg (a :: ·) (ih ordered others)
    | false =>
      have none_ : rest.filter keep = [] := by
        refine List.filter_eq_nil_iff.mpr fun b there keeps => ?_
        have impossible := upward a (List.mem_cons_self ..) b (List.mem_cons_of_mem _ there) keeps
          (first b there)
        rw [kept] at impossible
        cases impossible
      have out : ¬ keep a = true := by simp [kept]
      rw [List.filter_cons_of_neg out, none_]
      rfl

/-- The best without a filter are the best with it iff enough pass the filter. -/
theorem best_unfiltered_iff (ordered : Ranking better ranked) {keep : α → Bool}
    (upward : Upward better keep ranked) (k : Nat) :
    Best better k (ranked.filter keep) (ranked.take k) ↔
      min k ranked.length ≤ (ranked.filter keep).length := by
  constructor
  · intro answer
    have count := answer.count
    rw [List.length_take] at count
    omega
  · intro enough
    have first := (ordered.filter keep).best_take k
    have same : ranked.take k = (ranked.filter keep).take k := by
      rw [filter_eq_take ordered upward, List.take_take]
      rcases Nat.lt_or_ge (ranked.filter keep).length k with short | long
      · have all : ranked.length ≤ (ranked.filter keep).length := by
          have fewer := List.length_filter_le keep ranked
          omega
        rw [Nat.min_eq_right (Nat.le_of_lt short), List.take_of_length_le all,
          List.take_of_length_le (Nat.le_trans all (Nat.le_of_lt short))]
      · rw [Nat.min_eq_left long]
    rw [same]
    exact first

end Ranked
