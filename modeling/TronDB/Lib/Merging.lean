import Mathlib.Data.Finset.Card
import TronDB.Lib.Ranked

/-! The best of several pools, of which each gives its own best: what a stable sort of all answers
puts before a cut, and when that is the best of the union. -/
namespace Ranked

variable {α κ : Type*} [LinearOrder κ] (score : α → κ)

def Higher (a b : α) : Prop := score b < score a

/-- The best of a pool, in order. -/
structure Top (k : Nat) (pool answer : List α) : Prop where
  best : Best (Higher score) k pool answer
  ordered : Ranking (Higher score) answer

/-- Sorted by descending score; those with equal scores stay in order. -/
def sorted (xs : List α) : List α := xs.insertionSort fun a b => score b ≤ score a

/-- How many stand before an element that has these before and these behind it. -/
def ahead (front : List α) (a : α) (back : List α) : Nat :=
  front.countP (score a ≤ score ·) + back.countP (score a < score ·)

/-! ### Places in the sorted list -/

theorem sorted_perm (xs : List α) : (sorted score xs).Perm xs := List.perm_insertionSort _ xs

theorem sorted_ranking (xs : List α) : Ranking (Higher score) (sorted score xs) := by
  have total : Std.Total fun a b : α => score b ≤ score a := ⟨fun a b => le_total _ _⟩
  have trans : IsTrans α fun a b => score b ≤ score a := ⟨fun _ _ _ h h' => le_trans h' h⟩
  exact (List.pairwise_insertionSort _ xs).imp fun below => not_lt.mpr below

variable {score}

theorem orderedInsert_split {xs : List α} (ranked : Ranking (Higher score) xs) (a : α) :
    ∃ before after, xs.orderedInsert (fun a b => score b ≤ score a) a = before ++ a :: after ∧
      before = xs.filter (score a < score ·) := by
  induction xs with
  | nil => exact ⟨[], [], rfl, rfl⟩
  | cons x rest ih =>
    obtain ⟨first, others⟩ := List.pairwise_cons.mp ranked
    by_cases here : score x ≤ score a
    · refine ⟨[], x :: rest, by simp [here], ?_⟩
      symm
      apply List.filter_eq_nil_iff.mpr
      intro y there
      rcases List.mem_cons.mp there with rfl | there
      · simpa using here
      · simpa using le_trans (not_lt.mp (first y there)) here
    · obtain ⟨before, after, split, same⟩ := ih others
      refine ⟨x :: before, after, ?_, ?_⟩
      · simp [here, split]
      · rw [List.filter_cons_of_pos (by simpa using here), same]

theorem orderedInsert_before {x a : α} (high : score a ≤ score x) (before after : List α) :
    (before ++ a :: after).orderedInsert (fun a b => score b ≤ score a) x =
      before.orderedInsert (fun a b => score b ≤ score a) x ++ a :: after := by
  induction before with
  | nil => simp [high]
  | cons b before ih =>
    by_cases there : score b ≤ score x
    · simp [there]
    · simpa [there] using ih

theorem orderedInsert_behind {x a : α} (low : ¬ score a ≤ score x) {before : List α}
    (lower : ∀ b ∈ before, ¬ score b ≤ score x) (after : List α) :
    (before ++ a :: after).orderedInsert (fun a b => score b ≤ score a) x =
      before ++ a :: after.orderedInsert (fun a b => score b ≤ score a) x := by
  induction before with
  | nil => simp [low]
  | cons b before ih =>
    obtain ⟨passed, others⟩ := List.forall_mem_cons.mp lower
    simpa [passed] using ih others

/-- Where an element goes in a stable sort. -/
theorem sorted_split (front : List α) (a : α) (back : List α) :
    ∃ before after, sorted score (front ++ a :: back) = before ++ a :: after ∧
      before.Perm (front.filter (score a ≤ score ·) ++ back.filter (score a < score ·)) := by
  induction front with
  | nil =>
    obtain ⟨before, after, split, same⟩ := orderedInsert_split (sorted_ranking score back) a
    exact ⟨before, after, split, same ▸ (sorted_perm score back).filter _⟩
  | cons x front ih =>
    obtain ⟨before, after, split, places⟩ := ih
    have ranked := sorted_ranking score (front ++ a :: back)
    rw [split] at ranked
    have inserted : sorted score (x :: front ++ a :: back) =
        (before ++ a :: after).orderedInsert (fun a b => score b ≤ score a) x := by
      rw [← split]
      rfl
    rw [inserted]
    by_cases here : score a ≤ score x
    · refine ⟨_, after, orderedInsert_before here before after, ?_⟩
      rw [List.filter_cons_of_pos (by simpa using here), List.cons_append]
      exact (List.perm_orderedInsert _ x before).trans (places.cons x)
    · have lower : ∀ b ∈ before, ¬ score b ≤ score x := by
        intro b there below
        have above := (List.pairwise_append.mp ranked).2.2 b there a List.mem_cons_self
        exact here (le_trans (not_lt.mp above) below)
      refine ⟨before, _, orderedInsert_behind here lower after, ?_⟩
      rwa [List.filter_cons_of_neg (by simpa using here)]

theorem sorted_place (front : List α) (a : α) (back : List α) :
    ∃ before after, sorted score (front ++ a :: back) = before ++ a :: after ∧
      before.length = ahead score front a back ∧ ∀ x ∈ front, score a ≤ score x → x ∈ before := by
  obtain ⟨before, after, split, places⟩ := @sorted_split _ _ _ score front a back
  refine ⟨before, after, split, ?_, fun x there high => ?_⟩
  · rw [places.length_eq, List.length_append, ahead, List.countP_eq_length_filter,
      List.countP_eq_length_filter]
  · apply places.mem_iff.mpr
    simp [there, high]

/-! ### Before the cut -/

section Cut
variable [DecidableEq α]

theorem second_occurrence {a : α} {xs : List α} (twice : 2 ≤ xs.count a) :
    ∃ front back, xs = front ++ a :: back ∧ front.count a = 1 := by
  have first : a ∈ xs := List.count_pos_iff.mp (by omega)
  obtain ⟨p, q, rfl, absent⟩ := List.eq_append_cons_of_mem first
  have again : a ∈ q := by
    apply List.count_pos_iff.mp
    rw [List.count_append, List.count_cons_self, List.count_eq_zero_of_not_mem absent] at twice
    omega
  obtain ⟨p', q', rfl, absent'⟩ := List.eq_append_cons_of_mem again
  exact ⟨p ++ a :: p', q', by simp, by simp [List.count_eq_zero_of_not_mem, absent, absent']⟩

/-- Every element that has been before has enough ahead of it. -/
def RepeatsBehind (score : α → κ) (limit : Nat) (xs : List α) : Prop :=
  ∀ front a back, xs = front ++ a :: back → a ∈ front → limit ≤ ahead score front a back

/-- What is cut off a stable sort has no element twice exactly if every repetition stands behind
the cut. -/
theorem nodup_take_sorted_iff (limit : Nat) (xs : List α) :
    ((sorted score xs).take limit).Nodup ↔ RepeatsBehind score limit xs := by
  constructor
  · intro distinct front a back parts earlier
    obtain ⟨before, after, split, place, there⟩ := @sorted_place _ _ _ score front a back
    by_contra short
    rw [parts, split] at distinct
    have inside : (before ++ [a]).Sublist ((before ++ a :: after).take limit) := by
      have cut : before ++ [a] = (before ++ a :: after).take (before.length + 1) := by
        rw [List.take_length_add_append]
        rfl
      rw [cut]
      exact (List.take_prefix_take_left (by omega)).sublist
    have apart := inside.nodup distinct
    rw [List.nodup_append] at apart
    exact apart.2.2 a (there a earlier le_rfl) a (List.mem_singleton.mpr rfl) rfl
  · intro behind
    rw [List.nodup_iff_count_le_one]
    intro a
    by_contra twice
    have total : 2 ≤ xs.count a := by
      rw [← (sorted_perm score xs).count_eq a]
      have part := (List.take_sublist limit (sorted score xs)).count_le a
      omega
    obtain ⟨front, back, parts, once⟩ := second_occurrence total
    obtain ⟨before, after, split, places⟩ := @sorted_split _ _ _ score front a back
    have earlier : a ∈ front := List.count_pos_iff.mp (by omega)
    have far := behind front a back parts earlier
    have length : before.length = ahead score front a back := by
      rw [places.length_eq, List.length_append, ahead, List.countP_eq_length_filter,
        List.countP_eq_length_filter]
    have cut : (sorted score xs).take limit = before.take limit := by
      rw [parts, split, List.take_append_of_le_length (by omega)]
    have few : before.count a = 1 := by
      have none_ : (back.filter (score a < score ·)).count a = 0 := by
        apply List.count_eq_zero_of_not_mem
        simp
      rw [places.count_eq, List.count_append, List.count_filter (by simp), once, none_]
    have part := (List.take_sublist limit before).count_le a
    rw [cut] at twice
    omega

omit [DecidableEq α] in
theorem mem_take_sorted_iff {front back : List α} {a : α} (distinct : (front ++ a :: back).Nodup)
    (limit : Nat) : a ∈ (sorted score (front ++ a :: back)).take limit ↔
      ahead score front a back < limit := by
  obtain ⟨before, after, split, place, -⟩ := @sorted_place _ _ _ score front a back
  have apart : (before ++ a :: after).Nodup := split ▸ (sorted_perm score _).nodup_iff.mpr distinct
  have absent : a ∉ before := fun there =>
    (List.nodup_append.mp apart).2.2 a there a List.mem_cons_self rfl
  rw [split, ← place]
  constructor
  · intro chosen
    by_contra far
    rw [List.take_append_of_le_length (by omega)] at chosen
    exact absent (List.mem_of_mem_take chosen)
  · intro near
    rw [List.take_append, show limit - before.length = limit - before.length - 1 + 1 by omega,
      List.take_succ_cons]
    simp

omit [DecidableEq α] in
/-- How many of a numbered list stand before one of them. -/
def place (score : α × ℕ → κ) (xs : List α) (a : α × ℕ) : ℕ :=
  xs.zipIdx.countP fun b => score a < score b ∨ score b = score a ∧ b.2 < a.2

omit [DecidableEq α] in
theorem pairwise_zipIdx (xs : List α) : xs.zipIdx.Pairwise fun a b => a.2 < b.2 := by
  have numbers : (xs.zipIdx.map Prod.snd).Pairwise (· < ·) := by
    rw [List.zipIdx_map_snd]
    exact List.pairwise_lt_range'
  exact List.pairwise_map.mp numbers

omit [DecidableEq α] in
theorem nodup_zipIdx (xs : List α) : xs.zipIdx.Nodup :=
  (pairwise_zipIdx xs).imp fun less same => by simp [same] at less

omit [DecidableEq α] in
theorem mem_take_numbered_iff {score : α × ℕ → κ} {xs : List α} {a : α × ℕ} (listed : a ∈ xs.zipIdx)
    (limit : ℕ) : a ∈ (sorted score xs.zipIdx).take limit ↔ place score xs a < limit := by
  obtain ⟨front, back, split⟩ := List.append_of_mem listed
  have increasing := pairwise_zipIdx xs
  rw [split, List.pairwise_append, List.pairwise_cons] at increasing
  obtain ⟨-, ⟨later, -⟩, earlier⟩ := increasing
  have first : front.countP (fun b => score a < score b ∨ score b = score a ∧ b.2 < a.2) =
      front.countP (score a ≤ score ·) := by
    apply List.countP_congr
    intro b there
    have before := earlier b there a List.mem_cons_self
    simp [before, le_iff_lt_or_eq, @eq_comm _ (score b)]
  have second : back.countP (fun b => score a < score b ∨ score b = score a ∧ b.2 < a.2) =
      back.countP (score a < score ·) := by
    apply List.countP_congr
    intro b there
    have behind := later b there
    simp [Nat.not_lt.mpr behind.le]
  have same : place score xs a = ahead score front a back := by
    rw [place, split, List.countP_append, List.countP_cons_of_neg (by simp), first, second, ahead]
  have distinct := nodup_zipIdx xs
  rw [split] at distinct
  rw [same, split]
  exact mem_take_sorted_iff distinct limit

/-- A cut has an element at most once exactly if of any two places of it one is behind the cut. -/
theorem count_take_numbered_le_one_iff (score : α × ℕ → κ) (xs : List α) (limit : ℕ) (a : α) :
    (((sorted score xs.zipIdx).take limit).map Prod.fst).count a ≤ 1 ↔
      ∀ i j, i < j → xs[i]? = some a → xs[j]? = some a →
        limit ≤ place score xs (a, i) ∨ limit ≤ place score xs (a, j) := by
  have taken : ((sorted score xs.zipIdx).take limit).Nodup :=
    (List.take_sublist limit _).nodup ((sorted_perm score _).nodup_iff.mpr (nodup_zipIdx xs))
  have occurrences : (((sorted score xs.zipIdx).take limit).map Prod.fst).count a =
      (((sorted score xs.zipIdx).take limit).filter (·.1 = a)).length := by
    rw [List.count, List.countP_map, ← List.countP_eq_length_filter]
    apply List.countP_congr
    simp
  rw [occurrences]
  constructor
  · intro once i j less first second
    by_contra near
    obtain ⟨near, near'⟩ := not_or.mp near
    have chosen := (mem_take_numbered_iff (List.mk_mem_zipIdx_iff_getElem?.mpr first) limit).mpr
      (Nat.not_le.mp near)
    have chosen' := (mem_take_numbered_iff (List.mk_mem_zipIdx_iff_getElem?.mpr second) limit).mpr
      (Nat.not_le.mp near')
    have both : [(a, i), (a, j)].Subperm (((sorted score xs.zipIdx).take limit).filter (·.1 = a)) := by
      apply List.subperm_of_subset
      · simp [less.ne]
      · simp [chosen, chosen']
    have two := both.length_le
    simp only [List.length_cons, List.length_nil] at two
    omega
  · intro apart
    by_contra twice
    obtain ⟨u, v, rest, parts⟩ : ∃ u v rest,
        ((sorted score xs.zipIdx).take limit).filter (·.1 = a) = u :: v :: rest := by
      generalize ((sorted score xs.zipIdx).take limit).filter (·.1 = a) = there at twice
      rcases there with _ | ⟨u, _ | ⟨v, rest⟩⟩
      · simp at twice
      · simp at twice
      · exact ⟨u, v, rest, rfl⟩
    have facts (w : α × ℕ) (there : w ∈ u :: v :: rest) : w = (a, w.2) ∧ xs[w.2]? = some a ∧
        place score xs w < limit := by
      rw [← parts, List.mem_filter, decide_eq_true_iff] at there
      obtain ⟨chosen, rfl⟩ := there
      have listed := (sorted_perm score _).mem_iff.mp (List.mem_of_mem_take chosen)
      exact ⟨rfl, List.mk_mem_zipIdx_iff_getElem?.mp listed, (mem_take_numbered_iff listed limit).mp chosen⟩
    have differ : u ≠ v := by
      have distinct := taken.filter (·.1 = a)
      rw [parts] at distinct
      exact fun same => (List.nodup_cons.mp distinct).1 (same ▸ List.mem_cons_self)
    obtain ⟨isU, first, near⟩ := facts u (by simp)
    obtain ⟨isV, second, near'⟩ := facts v (by simp)
    rw [isU] at near differ
    rw [isV] at near' differ
    rcases Nat.lt_trichotomy u.2 v.2 with less | same | less
    · rcases apart _ _ less first second with far | far
      · exact absurd near (Nat.not_lt.mpr far)
      · exact absurd near' (Nat.not_lt.mpr far)
    · exact differ (congrArg (Prod.mk a) same)
    · rcases apart _ _ less second first with far | far
      · exact absurd near' (Nat.not_lt.mpr far)
      · exact absurd near (Nat.not_lt.mpr far)

omit [DecidableEq α] in
theorem repeatsBehind_of_nodup {xs : List α} (distinct : xs.Nodup) (limit : Nat) :
    RepeatsBehind score limit xs := by
  rintro front a back rfl earlier
  exact absurd rfl ((List.nodup_append.mp distinct).2.2 a earlier a List.mem_cons_self)

end Cut

/-! ### The best of a union -/

theorem Top.fewer_iff {k limit : Nat} {pool answer : List α} (top : Top score k pool answer)
    (fits : limit ≤ k) : Top score limit pool answer ↔ limit = k ∨ pool.length ≤ limit := by
  have count := top.best.count
  constructor
  · intro fewer
    have cut := fewer.best.count
    omega
  · intro enough
    refine ⟨⟨top.best.among, ?_, top.best.best⟩, top.ordered⟩
    omega

theorem Top.of_count {k limit : Nat} {pool answer : List α} (top : Top score k pool answer)
    (same : min k pool.length = min limit pool.length) : Top score limit pool answer :=
  ⟨⟨top.best.among, top.best.count.trans same, top.best.best⟩, top.ordered⟩

theorem countP_higher_lt {limit : Nat} {xs : List α} {a : α}
    (chosen : a ∈ (sorted score xs).take limit) : xs.countP (score a < score ·) < limit := by
  obtain ⟨before, after, split⟩ := List.append_of_mem chosen
  have whole : sorted score xs = before ++ a :: (after ++ (sorted score xs).drop limit) := by
    rw [← List.cons_append, ← List.append_assoc, ← split, List.take_append_drop]
  have ranked := sorted_ranking score xs
  rw [whole, Ranking, List.pairwise_append] at ranked
  have lower : (a :: (after ++ (sorted score xs).drop limit)).countP (score a < score ·) = 0 := by
    apply List.countP_eq_zero.mpr
    intro b there
    rcases List.mem_cons.mp there with rfl | there
    · simp
    · simpa [Higher] using (List.pairwise_cons.mp ranked.2.1).1 b there
  have short : before.length < limit := by
    have length := congrArg List.length split
    simp only [List.length_take, List.length_append, List.length_cons] at length
    omega
  rw [← (sorted_perm score xs).countP_eq, whole, List.countP_append, lower]
  exact Nat.lt_of_le_of_lt List.countP_le_length short

/-- Of what was looked at of a pool, the cut of its stable sort is the best of the pool exactly if
every repetition stands behind the cut, and enough of it is as high as each that was not looked at. -/
theorem top_looked_iff [DecidableEq α] {pool xs : List α} (distinct : pool.Nodup)
    (looked : ∀ a ∈ xs, a ∈ pool) (limit : Nat) :
    Top score limit pool ((sorted score xs).take limit) ↔ RepeatsBehind score limit xs ∧
      ∀ b ∈ pool, b ∉ xs → limit ≤ xs.countP (score b ≤ score ·) := by
  have subset : ∀ a ∈ (sorted score xs).take limit, a ∈ pool := fun a there =>
    looked a ((sorted_perm score xs).mem_iff.mp (List.mem_of_mem_take there))
  have length : ((sorted score xs).take limit).length = min limit xs.length := by
    rw [List.length_take, (sorted_perm score xs).length_eq]
  rw [← nodup_take_sorted_iff]
  constructor
  · intro top
    obtain ⟨same, perm, sub⟩ := top.best.among
    refine ⟨perm.nodup_iff.mp (sub.nodup distinct), fun b inPool unseen => ?_⟩
    have left : b ∉ (sorted score xs).take limit := fun there =>
      unseen ((sorted_perm score xs).mem_iff.mp (List.mem_of_mem_take there))
    have all : ((sorted score xs).take limit).countP (score b ≤ score ·) =
        ((sorted score xs).take limit).length := by
      apply List.countP_eq_length.mpr
      intro a chosen
      exact decide_eq_true (not_lt.mp (top.best.best a chosen b inPool left))
    have part := (List.take_sublist limit (sorted score xs)).countP_le (p := (score b ≤ score ·))
    rw [(sorted_perm score xs).countP_eq, all] at part
    by_contra few
    -- all of the pool is chosen
    have short : pool.length ≤ ((sorted score xs).take limit).length := by
      have count := top.best.count
      omega
    exact left ((top.best.among.perm_of_length_le short).mem_iff.mpr inPool)
  · rintro ⟨apart, enough⟩
    have atMost := (List.subperm_of_subset apart subset).length_le
    refine ⟨⟨List.subperm_of_subset apart subset, ?_, fun a chosen b inPool left => ?_⟩, ?_⟩
    · by_cases all : ∀ b ∈ pool, b ∈ xs
      · have few := (List.subperm_of_subset distinct all).length_le
        omega
      · push Not at all
        obtain ⟨b, inPool, unseen⟩ := all
        have many := enough b inPool unseen
        have bound : xs.countP (score b ≤ score ·) ≤ xs.length := List.countP_le_length
        omega
    · by_cases seen : b ∈ xs
      · exact ((sorted_ranking score xs).best_take limit).best a chosen b
          ((sorted_perm score xs).mem_iff.mpr seen) left
      · intro higher
        have many := enough b inPool seen
        have few := countP_higher_lt chosen
        have fewer : xs.countP (score b ≤ score ·) ≤ xs.countP (score a < score ·) := by
          apply List.countP_mono_left
          intro c _ high
          exact decide_eq_true (lt_of_lt_of_le higher (of_decide_eq_true high))
        omega
    · exact (sorted_ranking score xs).sublist (List.take_sublist _ _)

/-- Pools with their answers, each the best of its pool. -/
def Answered (score : α → κ) (k : Nat) (parts : List (Finset α × List α)) : Prop :=
  ∀ part ∈ parts, Top score k part.1.toList part.2

def answers (parts : List (Finset α × List α)) : List α := parts.flatMap Prod.snd

section Union
variable [DecidableEq α] {k limit : Nat} {parts : List (Finset α × List α)}

def union (parts : List (Finset α × List α)) : Finset α :=
  parts.foldr (fun part all => part.1 ∪ all) ∅

theorem mem_union {a : α} : a ∈ union parts ↔ ∃ part ∈ parts, a ∈ part.1 := by
  induction parts with
  | nil => simp [union]
  | cons part rest ih => simpa [union] using or_congr_right ih

section Answers
variable (answered : Answered score k parts)
include answered

theorem mem_union_of_answers {a : α} (there : a ∈ answers parts) : a ∈ union parts := by
  obtain ⟨part, listed, there⟩ := List.mem_flatMap.mp there
  have among := (answered part listed).best.among.subset there
  exact mem_union.mpr ⟨part, listed, Finset.mem_toList.mp among⟩

omit [DecidableEq α] in
theorem length_answer {part : Finset α × List α} (listed : part ∈ parts) {b : α}
    (inPool : b ∈ part.1) (left : b ∉ part.2) : part.2.length = k := by
  have best := (answered part listed).best
  have distinct : part.2.Nodup := by
    obtain ⟨same, perm, sub⟩ := best.among
    exact perm.nodup_iff.mp (sub.nodup part.1.nodup_toList)
  have more : (b :: part.2).length ≤ part.1.toList.length := by
    apply (List.subperm_of_subset (List.nodup_cons.mpr ⟨left, distinct⟩) ?_).length_le
    intro c there
    rcases List.mem_cons.mp there with rfl | there
    · exact Finset.mem_toList.mpr inPool
    · exact best.among.subset there
  have count := best.count
  rw [List.length_cons] at more
  omega

theorem enough_answered (fits : limit ≤ k) {b : α} (inUnion : b ∈ union parts)
    (unanswered : b ∉ answers parts) : limit ≤ (answers parts).countP (score b ≤ score ·) := by
  obtain ⟨part, listed, inPool⟩ := mem_union.mp inUnion
  have left : b ∉ part.2 := fun there => unanswered (List.mem_flatMap.mpr ⟨part, listed, there⟩)
  have all : part.2.countP (score b ≤ score ·) = part.2.length := by
    apply List.countP_eq_length.mpr
    intro c there
    have above := (answered part listed).best.best c there b (Finset.mem_toList.mpr inPool) left
    exact decide_eq_true (not_lt.mp above)
  have full := length_answer answered listed inPool left
  obtain ⟨before, after, rfl⟩ := List.append_of_mem listed
  simp only [answers, List.flatMap_append, List.flatMap_cons, List.countP_append]
  omega

/-- The best of the union are what is cut off the sorted answers exactly if every repetition among
these stands behind the cut. -/
theorem top_sorted_iff (fits : limit ≤ k) :
    Top score limit (union parts).toList ((sorted score (answers parts)).take limit) ↔
      RepeatsBehind score limit (answers parts) := by
  have looked : ∀ a ∈ answers parts, a ∈ (union parts).toList := fun a there =>
    Finset.mem_toList.mpr (mem_union_of_answers answered there)
  rw [top_looked_iff (union parts).nodup_toList looked]
  refine and_iff_left fun b inUnion unanswered => ?_
  exact enough_answered answered fits (Finset.mem_toList.mp inUnion) unanswered

end Answers
end Union
end Ranked
