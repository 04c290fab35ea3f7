import Mathlib.Algebra.BigOperators.Group.List.Basic
import Mathlib.Algebra.Order.Field.Basic
import Mathlib.Algebra.Ring.Parity
import Mathlib.Tactic.LinearCombination
import Mathlib.Tactic.Ring

/-! The Walsh-Hadamard transform of a list whose length is a power of two: symmetric, and its own
inverse up to the length. -/
namespace Walsh

section Transform
variable {R : Type*} [Add R] [Sub R]

/-- A list of twice the length of its halves becomes their sum and their difference. -/
def combine (a b : List R) : List R := List.zipWith (· + ·) a b ++ List.zipWith (· - ·) a b

/-- Sylvester's matrix with `2 ^ m` rows, applied to a list of that length. -/
def transform : Nat → List R → List R
  | 0, x => x
  | m + 1, x => combine (transform m (x.take (2 ^ m))) (transform m (x.drop (2 ^ m)))

theorem length_combine {a b : List R} (same : a.length = b.length) :
    (combine a b).length = 2 * a.length := by
  rw [combine, List.length_append, List.length_zipWith, List.length_zipWith, same, Nat.min_self]
  omega

theorem transform_append {m : Nat} {a : List R} (half : a.length = 2 ^ m) (b : List R) :
    transform (m + 1) (a ++ b) = combine (transform m a) (transform m b) := by
  rw [transform, List.take_left' half, List.drop_left' half]

omit [Add R] [Sub R] in
theorem exists_halves {m : Nat} {x : List R} (whole : x.length = 2 ^ (m + 1)) :
    ∃ a b, x = a ++ b ∧ a.length = 2 ^ m ∧ b.length = 2 ^ m := by
  have double : 2 ^ (m + 1) = 2 ^ m + 2 ^ m := by omega
  refine ⟨x.take (2 ^ m), x.drop (2 ^ m), (List.take_append_drop _ _).symm, ?_, ?_⟩
  · rw [List.length_take]
    omega
  · rw [List.length_drop]
    omega

@[simp] theorem length_transform {m : Nat} {x : List R} (whole : x.length = 2 ^ m) :
    (transform m x).length = 2 ^ m := by
  induction m generalizing x with
  | zero => exact whole
  | succ m ih =>
    obtain ⟨a, b, rfl, left, right⟩ := exists_halves whole
    rw [transform_append left, length_combine ((ih left).trans (ih right).symm), ih left]
    omega

end Transform

section Algebra
variable {R : Type*} [CommRing R]

def dot (x y : List R) : R := (List.zipWith (· * ·) x y).sum

theorem dot_append {a b x y : List R} (same : a.length = x.length) :
    dot (a ++ b) (x ++ y) = dot a x + dot b y := by
  rw [dot, List.zipWith_append same, List.sum_append]
  rfl

theorem dot_comm (x y : List R) : dot x y = dot y x := by
  rw [dot, List.zipWith_comm_of_comm mul_comm]
  rfl

theorem dot_scale (c : R) (x y : List R) : dot x (y.map (c * ·)) = c * dot x y := by
  induction x generalizing y with
  | nil => simp [dot]
  | cons u x ih =>
    cases y with
    | nil => simp [dot]
    | cons v y =>
      have rest := ih y
      simp only [dot, List.map_cons, List.zipWith_cons_cons, List.sum_cons] at rest ⊢
      rw [rest]
      ring

theorem dot_replicate_zero (x : List R) (n : Nat) : dot x (List.replicate n 0) = 0 := by
  induction n generalizing x with
  | zero => simp [dot]
  | succ n ih =>
    cases x with
    | nil => rfl
    | cons u x =>
      show u * 0 + dot x (List.replicate n 0) = 0
      rw [ih, mul_zero, add_zero]

theorem dot_append_zeros (x y : List R) (n : Nat) : dot x (y ++ List.replicate n 0) = dot x y := by
  induction y generalizing x with
  | nil => rw [List.nil_append, dot_replicate_zero, dot_comm]; rfl
  | cons v y ih =>
    cases x with
    | nil => rfl
    | cons u x => exact congrArg (u * v + ·) (ih x)

theorem dot_zipWith_left (g : R → R → R) (zero : g 0 0 = 0)
    (each : ∀ u v w s t, g u v * w + g s t = g (u * w + s) (v * w + t)) {a b x : List R}
    (same : a.length = b.length) : dot (List.zipWith g a b) x = g (dot a x) (dot b x) := by
  induction a generalizing b x with
  | nil => cases List.eq_nil_of_length_eq_zero same.symm; exact zero.symm
  | cons u a ih =>
    cases b with
    | nil => cases same
    | cons v b =>
      cases x with
      | nil => exact zero.symm
      | cons w x =>
        have rest := ih (x := x) (Nat.succ.inj same)
        simp only [dot, List.zipWith_cons_cons, List.sum_cons] at rest ⊢
        rw [rest, each]

theorem dot_add_left {a b x : List R} (same : a.length = b.length) :
    dot (List.zipWith (· + ·) a b) x = dot a x + dot b x :=
  dot_zipWith_left _ (add_zero 0) (fun u v w s t => by ring) same

theorem dot_sub_left {a b x : List R} (same : a.length = b.length) :
    dot (List.zipWith (· - ·) a b) x = dot a x - dot b x :=
  dot_zipWith_left _ (sub_zero 0) (fun u v w s t => by ring) same

theorem dot_transform {m : Nat} {x y : List R} (left : x.length = 2 ^ m) (right : y.length = 2 ^ m) :
    dot (transform m x) y = dot x (transform m y) := by
  induction m generalizing x y with
  | zero => rfl
  | succ m ih =>
    obtain ⟨a, b, rfl, lengthA, lengthB⟩ := exists_halves left
    obtain ⟨c, d, rfl, lengthC, lengthD⟩ := exists_halves right
    have sizeA := length_transform lengthA
    have sizeB := length_transform lengthB
    have sizeC := length_transform lengthC
    have sizeD := length_transform lengthD
    rw [transform_append lengthA, transform_append lengthC, combine, combine,
      dot_append (by rw [List.length_zipWith, sizeA, sizeB, lengthC, Nat.min_self]),
      dot_append (by rw [List.length_zipWith, sizeC, sizeD, lengthA, Nat.min_self]),
      dot_add_left (sizeA.trans sizeB.symm), dot_sub_left (sizeA.trans sizeB.symm),
      dot_comm a, dot_comm b, dot_add_left (sizeC.trans sizeD.symm),
      dot_sub_left (sizeC.trans sizeD.symm), ih lengthA lengthC, ih lengthA lengthD,
      ih lengthB lengthC, ih lengthB lengthD, dot_comm a, dot_comm a, dot_comm b, dot_comm b]
    ring

/-! ### Linear, and its own inverse -/

omit [CommRing R] in
theorem zipWith_interchange (f g : R → R → R)
    (each : ∀ a b c d, f (g a b) (g c d) = g (f a c) (f b d)) (a b c d : List R) :
    List.zipWith f (List.zipWith g a b) (List.zipWith g c d) =
      List.zipWith g (List.zipWith f a c) (List.zipWith f b d) := by
  induction a generalizing b c d with
  | nil => simp
  | cons u a ih => cases b <;> cases c <;> cases d <;> simp [each, ih]

theorem transform_zipWith (g : R → R → R)
    (add : ∀ a b c d, g a b + g c d = g (a + c) (b + d))
    (sub : ∀ a b c d, g a b - g c d = g (a - c) (b - d)) {m : Nat} {x y : List R}
    (left : x.length = 2 ^ m) (right : y.length = 2 ^ m) :
    transform m (List.zipWith g x y) = List.zipWith g (transform m x) (transform m y) := by
  induction m generalizing x y with
  | zero => rfl
  | succ m ih =>
    obtain ⟨a, b, rfl, lengthA, lengthB⟩ := exists_halves left
    obtain ⟨c, d, rfl, lengthC, lengthD⟩ := exists_halves right
    have sizeA := length_transform lengthA
    have sizeB := length_transform lengthB
    have sizeC := length_transform lengthC
    have sizeD := length_transform lengthD
    rw [List.zipWith_append (lengthA.trans lengthC.symm), transform_append lengthA,
      transform_append lengthC,
      transform_append (by rw [List.length_zipWith, lengthA, lengthC, Nat.min_self]),
      ih lengthA lengthC, ih lengthB lengthD, combine, combine, combine,
      List.zipWith_append (by simp only [List.length_zipWith]; omega),
      zipWith_interchange _ _ add, zipWith_interchange _ _ sub]

theorem transform_add {m : Nat} {x y : List R} (left : x.length = 2 ^ m) (right : y.length = 2 ^ m) :
    transform m (List.zipWith (· + ·) x y) =
      List.zipWith (· + ·) (transform m x) (transform m y) :=
  transform_zipWith _ (fun a b c d => by ring) (fun a b c d => by ring) left right

theorem transform_sub {m : Nat} {x y : List R} (left : x.length = 2 ^ m) (right : y.length = 2 ^ m) :
    transform m (List.zipWith (· - ·) x y) =
      List.zipWith (· - ·) (transform m x) (transform m y) :=
  transform_zipWith _ (fun a b c d => by ring) (fun a b c d => by ring) left right

theorem transform_scale (c : R) {m : Nat} {x : List R} (whole : x.length = 2 ^ m) :
    transform m (x.map (c * ·)) = (transform m x).map (c * ·) := by
  have scaled (y : List R) : y.map (c * ·) = List.zipWith (fun a _ => c * a) y y := by
    rw [List.zipWith_self]
  rw [scaled, scaled,
    transform_zipWith _ (fun a b c d => by ring) (fun a b c d => by ring) whole whole]

theorem combine_twice {a b : List R} (same : a.length = b.length) :
    List.zipWith (· + ·) (List.zipWith (· + ·) a b) (List.zipWith (· - ·) a b) = a.map (2 * ·) ∧
      List.zipWith (· - ·) (List.zipWith (· + ·) a b) (List.zipWith (· - ·) a b) =
        b.map (2 * ·) := by
  induction a generalizing b with
  | nil => cases List.eq_nil_of_length_eq_zero same.symm; exact ⟨rfl, rfl⟩
  | cons u a ih =>
    cases b with
    | nil => cases same
    | cons v b =>
      obtain ⟨left, right⟩ := ih (Nat.succ.inj same)
      have sum : u + v + (u - v) = 2 * u := by ring
      have difference : u + v - (u - v) = 2 * v := by ring
      simp only [List.zipWith_cons_cons, List.map_cons, left, right, sum, difference, and_self]

theorem transform_transform {m : Nat} {x : List R} (whole : x.length = 2 ^ m) :
    transform m (transform m x) = x.map (2 ^ m * ·) := by
  induction m generalizing x with
  | zero => simp [transform]
  | succ m ih =>
    obtain ⟨a, b, rfl, lengthA, lengthB⟩ := exists_halves whole
    have sizeA := length_transform lengthA
    have sizeB := length_transform lengthB
    have double (y : List R) : (y.map (2 ^ m * ·)).map (2 * ·) = y.map (2 ^ (m + 1) * ·) := by
      rw [List.map_map]
      refine List.map_congr_left fun c _ => ?_
      show 2 * (2 ^ m * c) = 2 ^ (m + 1) * c
      ring
    rw [transform_append lengthA, combine,
      transform_append (by rw [List.length_zipWith, sizeA, sizeB, Nat.min_self]),
      transform_add sizeA sizeB, transform_sub sizeA sizeB, ih lengthA, ih lengthB, combine]
    have same : (a.map (2 ^ m * ·)).length = (b.map (2 ^ m * ·)).length := by
      rw [List.length_map, List.length_map, lengthA, lengthB]
    obtain ⟨left, right⟩ := combine_twice same
    rw [left, right, double, double, List.map_append]

/-! ### Its rows -/

/-- How many of the first `m` bits two numbers have in common. -/
def commonBits (m i k : Nat) : Nat := (List.range m).countP fun b => i.testBit b && k.testBit b

def row (R : Type*) [CommRing R] (m k : Nat) : List R :=
  (List.range (2 ^ m)).map fun i => (-1) ^ commonBits m i k

theorem commonBits_low {m i k i' k' : Nat} (left : i % 2 ^ m = i' % 2 ^ m)
    (right : k % 2 ^ m = k' % 2 ^ m) : commonBits m i k = commonBits m i' k' := by
  have bits {n n' : Nat} (same : n % 2 ^ m = n' % 2 ^ m) {b : Nat} (below : b < m) :
      n.testBit b = n'.testBit b := by
    have read := congrArg (Nat.testBit · b) same
    simpa [Nat.testBit_mod_two_pow, below] using read
  refine List.countP_congr fun b listed => ?_
  rw [bits left (List.mem_range.mp listed), bits right (List.mem_range.mp listed)]

theorem commonBits_succ (m i k : Nat) : commonBits (m + 1) i k =
    commonBits m i k + if i.testBit m && k.testBit m then 1 else 0 := by
  rw [commonBits, List.range_succ, List.countP_append, List.countP_singleton]
  rfl

theorem testBit_high {m i : Nat} (below : i < 2 ^ m) : (2 ^ m + i).testBit m = true := by
  rw [Nat.testBit_two_pow_add_eq, Nat.testBit_lt_two_pow below]
  rfl

theorem row_succ (m k : Nat) : row R (m + 1) k =
    row R m k ++ (row R m k).map fun c => if k.testBit m then -c else c := by
  have double : 2 ^ (m + 1) = 2 ^ m + 2 ^ m := by omega
  rw [row, double, List.range_add, List.map_append, List.map_map, row, List.map_map]
  congr 1
  · refine List.map_congr_left fun i listed => ?_
    have clear : i.testBit m = false := Nat.testBit_lt_two_pow (List.mem_range.mp listed)
    rw [commonBits_succ, clear]
    rfl
  · refine List.map_congr_left fun i listed => ?_
    have low : commonBits m (2 ^ m + i) k = commonBits m i k :=
      commonBits_low (Nat.add_mod_left _ _) rfl
    show (-1) ^ commonBits (m + 1) (2 ^ m + i) k = if k.testBit m then -_ else _
    rw [commonBits_succ, testBit_high (List.mem_range.mp listed), low, Bool.true_and]
    split
    · rw [pow_succ, mul_neg_one]
    · rfl

theorem length_row (m k : Nat) : (row R m k).length = 2 ^ m := by
  rw [row, List.length_map, List.length_range]

theorem dot_neg_left (a x : List R) : dot (a.map (-·)) x = -dot a x := by
  have negated : a.map (-·) = a.map (-1 * ·) := List.map_congr_left fun u _ => (neg_one_mul u).symm
  rw [negated, dot_comm, dot_scale, dot_comm, neg_one_mul]

/-- Every component of the transform is a row's product with the list. -/
theorem transform_eq_rows {m : Nat} {x : List R} (whole : x.length = 2 ^ m) :
    transform m x = (List.range (2 ^ m)).map fun k => dot (row R m k) x := by
  induction m generalizing x with
  | zero =>
    obtain ⟨c, rfl⟩ := List.length_eq_one_iff.mp whole
    simp [transform, row, dot, commonBits]
  | succ m ih =>
    obtain ⟨a, b, rfl, lengthA, lengthB⟩ := exists_halves whole
    have double : 2 ^ (m + 1) = 2 ^ m + 2 ^ m := by omega
    rw [transform_append lengthA, ih lengthA, ih lengthB, combine, double, List.range_add,
      List.map_append, List.map_map, List.zipWith_map, List.zipWith_map, List.zipWith_self,
      List.zipWith_self]
    have halves (k : Nat) : dot (row R (m + 1) k) (a ++ b) = dot (row R m k) a +
        if k.testBit m then -dot (row R m k) b else dot (row R m k) b := by
      rw [row_succ, dot_append ((length_row m k).trans lengthA.symm)]
      split
      · rw [dot_neg_left]
      · rw [List.map_id']
    congr 1
    · refine List.map_congr_left fun k listed => ?_
      rw [halves, Nat.testBit_lt_two_pow (List.mem_range.mp listed)]
      rfl
    · refine List.map_congr_left fun k listed => ?_
      have low : row R m (2 ^ m + k) = row R m k :=
        List.map_congr_left fun i _ => by rw [commonBits_low rfl (Nat.add_mod_left _ _)]
      show _ = dot (row R (m + 1) (2 ^ m + k)) (a ++ b)
      rw [halves, testBit_high (List.mem_range.mp listed), if_pos rfl, low]
      ring

end Algebra

section Truncation
variable {K : Type*} [Field K] [LinearOrder K] [IsStrictOrderedRing K]

theorem dot_self_nonneg (x : List K) : 0 ≤ dot x x := by
  induction x with
  | nil => exact le_refl 0
  | cons u x ih => exact add_nonneg (mul_self_nonneg u) ih

theorem dot_self_eq_zero (x : List K) : dot x x = 0 ↔ ∀ u ∈ x, u = 0 := by
  induction x with
  | nil => simp [dot]
  | cons u x ih =>
    have sum : dot (u :: x) (u :: x) = u * u + dot x x := rfl
    rw [sum, add_eq_zero_iff_of_nonneg (mul_self_nonneg u) (dot_self_nonneg x), ih,
      mul_self_eq_zero, List.forall_mem_cons]

/-- A list behind which zeros are padded is found again in the transform of its transform's first
components exactly when the others are zero. -/
theorem truncated_iff {m : Nat} {a : List K} (fits : a.length ≤ 2 ^ m) :
    (transform m ((transform m (a ++ List.replicate (2 ^ m - a.length) 0)).take a.length ++
        List.replicate (2 ^ m - a.length) 0)).take a.length = a.map (2 ^ m * ·) ↔
      ∀ u ∈ (transform m (a ++ List.replicate (2 ^ m - a.length) 0)).drop a.length, u = 0 := by
  generalize padded : a ++ List.replicate (2 ^ m - a.length) 0 = x
  have whole : x.length = 2 ^ m := by
    rw [← padded, List.length_append, List.length_replicate]
    omega
  have size := length_transform whole
  generalize turned : transform m x = y at size ⊢
  have kept : (y.take a.length).length = a.length := by
    rw [List.length_take]
    omega
  have back : transform m y = x.map (2 ^ m * ·) := by
    rw [← turned, transform_transform whole]
  constructor
  · intro found
    -- the transform is symmetric, so that what is cut off has length 0
    generalize cut : y.take a.length ++ List.replicate (2 ^ m - a.length) 0 = z at found
    have whole' : z.length = 2 ^ m := by
      rw [← cut, List.length_append, kept, List.length_replicate]
      omega
    have split (u : List K) (full : u.length = 2 ^ m) : dot x u = dot a (u.take a.length) := by
      have parts := List.take_append_drop a.length u
      have first : (u.take a.length).length = a.length := by
        rw [List.length_take]
        omega
      conv_lhs => rw [← padded, ← parts, dot_append first.symm, dot_comm (List.replicate _ _),
        dot_replicate_zero, add_zero]
    have energy : dot y y = 2 ^ m * dot a a := by
      calc dot y y = dot x (transform m y) := by rw [← dot_transform whole size, turned]
        _ = 2 ^ m * dot x x := by rw [back, dot_scale]
        _ = 2 ^ m * dot a a := by rw [split x whole, ← padded, List.take_left' rfl]
    have front : dot (y.take a.length) (y.take a.length) = 2 ^ m * dot a a := by
      calc _ = dot y z := by
            conv_rhs => rw [← List.take_append_drop a.length y, ← cut, dot_append rfl,
              dot_replicate_zero, add_zero]
        _ = dot x (transform m z) := by rw [← dot_transform whole whole', turned]
        _ = 2 ^ m * dot a a := by rw [split _ (length_transform whole'), found, dot_scale]
    have both : dot y y = dot (y.take a.length) (y.take a.length) +
        dot (y.drop a.length) (y.drop a.length) := by
      conv_lhs => rw [← List.take_append_drop a.length y, dot_append rfl]
    refine (dot_self_eq_zero _).mp ?_
    rw [energy, front] at both
    exact left_eq_add.mp both
  · intro vanish
    have zeros : y.drop a.length = List.replicate (2 ^ m - a.length) 0 := by
      rw [List.eq_replicate_iff, List.length_drop, size]
      exact ⟨rfl, vanish⟩
    rw [← zeros, List.take_append_drop, back, ← padded, List.map_append]
    exact List.take_left' (List.length_map _)

end Truncation
end Walsh
