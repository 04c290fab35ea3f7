import TronDB.Core.Polar

/-! The loops of the fast transform: on a power of two they come through with the Walsh-Hadamard
transform, on any other length but 0 they leave the array. -/
namespace TronDB.Core
open Packing Walsh

section Loops
variable {α : Type} [Add α] [Sub α]

theorem butterfly_at (front between back : List α) (x y : α) :
    butterfly (between.length + 1) (front ++ x :: (between ++ y :: back)) front.length =
      .ok (front ++ (x + y) :: (between ++ (x - y) :: back)) := by
  have left : readAt (front ++ x :: (between ++ y :: back)) front.length = .ok x :=
    readAt_ok.mpr (by simp)
  have right : readAt (front ++ x :: (between ++ y :: back))
      (front.length + (between.length + 1)) = .ok y := readAt_ok.mpr (by simp)
  have first : writeAt (front ++ x :: (between ++ y :: back)) front.length (x + y) =
      .ok (front ++ (x + y) :: (between ++ y :: back)) :=
    writeAt_ok.mpr ⟨by simp, by simp⟩
  have second : writeAt (front ++ (x + y) :: (between ++ y :: back))
      (front.length + (between.length + 1)) (x - y) =
      .ok (front ++ (x + y) :: (between ++ (x - y) :: back)) :=
    writeAt_ok.mpr ⟨by simp, by simp⟩
  unfold butterfly
  rw [left, right]
  show (do
    let data ← writeAt (front ++ x :: (between ++ y :: back)) front.length (x + y)
    writeAt data (front.length + (between.length + 1)) (x - y)) = _
  rw [first]
  exact second

/-- The rounds of a block work from the front of both halves. -/
theorem block_rounds (front back : List α) {a b : List α} {h : Nat} (left : a.length = h)
    (right : b.length = h) {rounds : Nat} (part : rounds ≤ h) :
    (List.range rounds).foldlM (fun data k => butterfly h data (front.length + k))
        (front ++ (a ++ (b ++ back))) =
      .ok (front ++ (List.zipWith (· + ·) (a.take rounds) (b.take rounds) ++ a.drop rounds ++
        (List.zipWith (· - ·) (a.take rounds) (b.take rounds) ++ b.drop rounds ++ back))) := by
  induction rounds with
  | zero => simp; rfl
  | succ r ih =>
    rw [foldlM_range_succ, ih (by omega)]
    have first := List.drop_eq_getElem_cons (l := a) (i := r) (by omega)
    have second := List.drop_eq_getElem_cons (l := b) (i := r) (by omega)
    have sums : (List.zipWith (· + ·) (a.take r) (b.take r)).length = r := by
      rw [List.length_zipWith, List.length_take, List.length_take]
      omega
    have differences : (List.zipWith (· - ·) (a.take r) (b.take r)).length = r := by
      rw [List.length_zipWith, List.length_take, List.length_take]
      omega
    have width : h = (a.drop (r + 1) ++ List.zipWith (· - ·) (a.take r) (b.take r)).length + 1 := by
      rw [List.length_append, differences, List.length_drop]
      omega
    have place : front.length + r =
        (front ++ List.zipWith (· + ·) (a.take r) (b.take r)).length := by
      rw [List.length_append, sums]
    have step := butterfly_at (front ++ List.zipWith (· + ·) (a.take r) (b.take r))
      (a.drop (r + 1) ++ List.zipWith (· - ·) (a.take r) (b.take r)) (b.drop (r + 1) ++ back)
      a[r] b[r]
    rw [← width, ← place] at step
    have takeA : a.take (r + 1) = a.take r ++ [a[r]] :=
      List.take_succ_eq_append_getElem (by omega)
    have takeB : b.take (r + 1) = b.take r ++ [b[r]] :=
      List.take_succ_eq_append_getElem (by omega)
    have same : (a.take r).length = (b.take r).length := by
      rw [List.length_take, List.length_take]
      omega
    rw [takeA, takeB, List.zipWith_append same, List.zipWith_append same, first, second]
    simp only [List.append_assoc, List.cons_append, List.zipWith_cons_cons, List.zipWith_nil_left,
      List.nil_append] at step ⊢
    exact step

theorem block_ok (front back : List α) {a b : List α} {h : Nat} (left : a.length = h)
    (right : b.length = h) :
    block h (front ++ (a ++ (b ++ back))) front.length = .ok (front ++ (combine a b ++ back)) := by
  have ran := block_rounds front back left right (Nat.le_refl h)
  rw [List.take_of_length_le left.le, List.take_of_length_le right.le, List.drop_of_length_le left.le,
    List.drop_of_length_le right.le] at ran
  unfold block
  rw [ran, combine]
  simp only [List.append_assoc, List.nil_append]

def combineBlocks (h : Nat) : Nat → List α → List α
  | 0, x => x
  | q + 1, x => combine (x.take h) ((x.drop h).take h) ++ combineBlocks h q ((x.drop h).drop h)

theorem blocks_ok (h q s : Nat) {front rest : List α} (before : front.length = s * (h * 2))
    (whole : rest.length = q * (h * 2)) :
    (List.range' s q).foldlM (fun data b => block h data (b * (h * 2))) (front ++ rest) =
      .ok (front ++ combineBlocks h q rest) := by
  induction q generalizing s front rest with
  | zero => rfl
  | succ q ih =>
    have size : (q + 1) * (h * 2) = q * (h * 2) + h * 2 := Nat.succ_mul q _
    have next : (s + 1) * (h * 2) = s * (h * 2) + h * 2 := Nat.succ_mul s _
    have left : (rest.take h).length = h := by
      rw [List.length_take]
      omega
    have right : ((rest.drop h).take h).length = h := by
      rw [List.length_take, List.length_drop]
      omega
    have split : rest = rest.take h ++ ((rest.drop h).take h ++ (rest.drop h).drop h) := by
      rw [List.take_append_drop, List.take_append_drop]
    have first := block_ok front ((rest.drop h).drop h) left right
    rw [← split, before, ← List.append_assoc] at first
    rw [List.range'_succ, List.foldlM_cons, first, combineBlocks, ← List.append_assoc]
    exact ih (s + 1)
      (by rw [List.length_append, length_combine (left.trans right.symm), left, before]; omega)
      (by rw [List.length_drop, List.length_drop]; omega)

theorem stage_ok {h q : Nat} (positive : 0 < h) {data : List α} (whole : data.length = q * (h * 2)) :
    stage h data = .ok (combineBlocks h q data) := by
  have count : (data.length + (h * 2 - 1)) / (h * 2) = q := by
    rw [whole, Nat.mul_comm, Nat.mul_add_div (by omega), Nat.div_eq_of_lt (by omega), Nat.add_zero]
  unfold stage
  rw [count, List.range_eq_range']
  exact blocks_ok h q 0 (show ([] : List α).length = 0 * (h * 2) by simp) whole

/-! ### The stages together -/

def transformPieces (m : Nat) : Nat → List α → List α
  | 0, _ => []
  | c + 1, x => transform m (x.take (2 ^ m)) ++ transformPieces m c (x.drop (2 ^ m))

theorem length_transformPieces {m c : Nat} {x : List α} (whole : x.length = c * 2 ^ m) :
    (transformPieces m c x).length = c * 2 ^ m := by
  induction c generalizing x with
  | zero => simp [transformPieces]
  | succ c ih =>
    have size : (c + 1) * 2 ^ m = c * 2 ^ m + 2 ^ m := Nat.succ_mul c _
    rw [transformPieces, List.length_append, length_transform (by rw [List.length_take]; omega),
      ih (by rw [List.length_drop]; omega), size]
    omega

theorem transformPieces_zero {c : Nat} {x : List α} (whole : x.length = c) :
    transformPieces 0 c x = x := by
  induction c generalizing x with
  | zero => exact (List.eq_nil_of_length_eq_zero whole).symm
  | succ c ih =>
    rw [transformPieces, ih (by rw [List.length_drop]; omega)]
    exact List.take_append_drop 1 x

theorem transformPieces_one {m : Nat} {x : List α} (whole : x.length = 2 ^ m) :
    transformPieces m 1 x = transform m x := by
  rw [transformPieces, transformPieces, List.append_nil, List.take_of_length_le whole.le]

theorem combineBlocks_pieces (m q : Nat) {x : List α} (whole : x.length = q * 2 ^ (m + 1)) :
    combineBlocks (2 ^ m) q (transformPieces m (q * 2) x) = transformPieces (m + 1) q x := by
  induction q generalizing x with
  | zero => rfl
  | succ q ih =>
    have double : 2 ^ (m + 1) = 2 ^ m + 2 ^ m := by omega
    have size : (q + 1) * 2 ^ (m + 1) = q * 2 ^ (m + 1) + 2 ^ (m + 1) := Nat.succ_mul q _
    have two : (q + 1) * 2 = q * 2 + 1 + 1 := by omega
    have first : (transform m (x.take (2 ^ m))).length = 2 ^ m :=
      length_transform (by rw [List.length_take]; omega)
    have second : (transform m ((x.drop (2 ^ m)).take (2 ^ m))).length = 2 ^ m :=
      length_transform (by rw [List.length_take, List.length_drop]; omega)
    have half : (x.take (2 ^ (m + 1))).take (2 ^ m) = x.take (2 ^ m) := by
      rw [List.take_take, Nat.min_eq_left (by omega)]
    have half' : (x.take (2 ^ (m + 1))).drop (2 ^ m) = (x.drop (2 ^ m)).take (2 ^ m) := by
      rw [List.drop_take, double, Nat.add_sub_cancel]
    have rest : (x.drop (2 ^ m)).drop (2 ^ m) = x.drop (2 ^ (m + 1)) := by
      rw [List.drop_drop, double]
    rw [two, transformPieces, transformPieces, combineBlocks, List.take_left' first,
      List.drop_left' first, List.take_left' second, List.drop_left' second, rest,
      ih (by rw [List.length_drop]; omega), transformPieces, transform, half, half']

theorem stages_from {m t rounds : Nat} (below : t ≤ m) (enough : m - t ≤ rounds) {x : List α}
    (whole : x.length = 2 ^ m) :
    stages rounds (2 ^ t) (transformPieces t (2 ^ (m - t)) x) = .ok (transform m x) := by
  have sizes (t : Nat) (below : t ≤ m) : 2 ^ (m - t) * 2 ^ t = 2 ^ m := by
    rw [← Nat.pow_add, Nat.sub_add_cancel below]
  have length : (transformPieces t (2 ^ (m - t)) x).length = 2 ^ m := by
    rw [length_transformPieces (by rw [whole, sizes t below]), sizes t below]
  induction rounds generalizing t with
  | zero =>
    obtain rfl : t = m := by omega
    rw [Nat.sub_self]
    exact congrArg Except.ok (transformPieces_one whole)
  | succ r ih =>
    rw [stages, length]
    by_cases last : t = m
    · subst last
      rw [if_neg (Nat.lt_irrefl _), Nat.sub_self]
      exact congrArg Except.ok (transformPieces_one whole)
    · have less : t < m := by omega
      have half : 2 ^ (m - t) = 2 ^ (m - (t + 1)) * 2 := by
        rw [← Nat.pow_succ]
        congr 1
        omega
      have blocks := sizes (t + 1) less
      rw [if_pos (Nat.pow_lt_pow_right (by omega) less), stage_ok (q := 2 ^ (m - (t + 1)))
        (Nat.two_pow_pos t) (by rw [length, ← Nat.pow_succ, blocks]), half,
        combineBlocks_pieces t _ (by rw [whole, blocks])]
      show stages r (2 ^ t * 2) _ = _
      rw [← Nat.pow_succ]
      refine ih (t := t + 1) less (by omega) ?_
      rw [length_transformPieces (by rw [whole, blocks]), blocks]

theorem stages_ok {m : Nat} {x : List α} (whole : x.length = 2 ^ m) :
    stages x.length 1 x = .ok (transform m x) := by
  have start := stages_from (Nat.zero_le m) (show m - 0 ≤ x.length by
    rw [whole]
    exact Nat.lt_two_pow_self.le) whole
  rwa [Nat.sub_zero, transformPieces_zero whole] at start

/-! ### What comes through at all -/

theorem butterfly_inside {h j : Nat} {data data' : List α} (ran : butterfly h data j = .ok data') :
    data'.length = data.length ∧ j + h < data.length := by
  obtain ⟨x, -, ran⟩ := bind_ok.mp ran
  obtain ⟨y, right, ran⟩ := bind_ok.mp ran
  obtain ⟨first, wrote, ran⟩ := bind_ok.mp ran
  obtain ⟨-, rfl⟩ := writeAt_ok.mp wrote
  obtain ⟨-, rfl⟩ := writeAt_ok.mp ran
  exact ⟨by rw [List.length_set, List.length_set], inside_of_readAt right⟩

theorem block_inside {h i : Nat} (positive : 0 < h) {data data' : List α}
    (ran : block h data i = .ok data') : data'.length = data.length ∧ i + h * 2 ≤ data.length := by
  have each := foldlM_each (fun s => s.length = data.length)
    (fun k => i + k + h < data.length) (fun s k s' same step => by
      obtain ⟨kept, inside⟩ := butterfly_inside step
      exact ⟨kept.trans same, same ▸ inside⟩) rfl ran
  have last := each.2 (h - 1) (List.mem_range.mpr (by omega))
  exact ⟨each.1, by omega⟩

theorem stage_inside {h : Nat} (positive : 0 < h) {data data' : List α}
    (ran : stage h data = .ok data') : data'.length = data.length ∧ h * 2 ∣ data.length := by
  have each := foldlM_each (fun s => s.length = data.length)
    (fun b => b * (h * 2) + h * 2 ≤ data.length) (fun s k s' same step => by
      obtain ⟨kept, inside⟩ := block_inside positive step
      exact ⟨kept.trans same, same ▸ inside⟩) rfl ran
  refine ⟨each.1, ?_⟩
  generalize count : (data.length + (h * 2 - 1)) / (h * 2) = blocks at each
  have enough : data.length ≤ blocks * (h * 2) := by
    have most := Nat.lt_mul_div_succ (data.length + (h * 2 - 1)) (b := h * 2) (by omega)
    rw [count, Nat.mul_add, Nat.mul_one, Nat.mul_comm _ blocks] at most
    omega
  cases blocks with
  | zero => exact ⟨0, by omega⟩
  | succ b =>
    have last := each.2 b (List.mem_range.mpr (Nat.lt_succ_self b))
    have next : (b + 1) * (h * 2) = b * (h * 2) + h * 2 := Nat.succ_mul b _
    exact ⟨b + 1, by rw [Nat.mul_comm]; omega⟩

theorem stages_power {t rounds : Nat} {data data' : List α} (some_ : data.length ≠ 0)
    (whole : 2 ^ t ∣ data.length) (enough : data.length ≤ 2 ^ (t + rounds))
    (ran : stages rounds (2 ^ t) data = .ok data') : ∃ m, data.length = 2 ^ m := by
  induction rounds generalizing t data with
  | zero => exact ⟨t, Nat.le_antisymm enough (Nat.le_of_dvd (Nat.pos_of_ne_zero some_) whole)⟩
  | succ r ih =>
    rw [stages] at ran
    split at ran
    · obtain ⟨next, step, ran⟩ := bind_ok.mp ran
      obtain ⟨same, double⟩ := stage_inside (Nat.two_pow_pos t) step
      rw [← Nat.pow_succ] at double ran
      rw [← same] at some_ double enough ⊢
      refine ih some_ double ?_ ran
      rwa [Nat.succ_add_eq_add_succ]
    · rename_i last
      exact ⟨t, Nat.le_antisymm (Nat.le_of_not_lt last)
        (Nat.le_of_dvd (Nat.pos_of_ne_zero some_) whole)⟩

end Loops

theorem isPowerOfTwo_iff {n : Nat} : isPowerOfTwo n = true ↔ ∃ m, n = 2 ^ m := by
  unfold isPowerOfTwo
  rw [decide_eq_true_eq]
  refine ⟨fun power => ⟨_, power⟩, ?_⟩
  rintro ⟨m, rfl⟩
  rw [Nat.log2_two_pow]

section Rotation
variable {α : Type} [One α] [Add α] [Sub α] [Mul α] [Div α] [NatCast α] [Scalar α]
  (debugAssertions : Bool)

theorem fastWalshHadamard_ok {m : Nat} {data : List α} (whole : data.length = 2 ^ m) :
    fastWalshHadamard debugAssertions data =
      .ok ((transform m data).map (· * (1 / Scalar.sqrt ((2 ^ m : Nat) : α)))) := by
  unfold fastWalshHadamard
  rw [isPowerOfTwo_iff.mpr ⟨m, whole⟩, Bool.not_true, Bool.and_false, stages_ok whole]
  show Except.ok ((transform m data).map (· * (1 / Scalar.sqrt ((transform m data).length : α)))) = _
  rw [length_transform whole]

/-- The fast transform comes through on a power of two, and on nothing at all where the assertion
is not compiled in. -/
theorem fastWalshHadamard_comes_through (data : List α) :
    (∃ data', fastWalshHadamard debugAssertions data = .ok data') ↔
      (∃ m, data.length = 2 ^ m) ∨ data.length = 0 ∧ debugAssertions = false := by
  constructor
  · rintro ⟨data', ran⟩
    unfold fastWalshHadamard at ran
    split at ran
    · cases ran
    · rename_i passes
      by_cases none_ : data.length = 0
      · cases List.eq_nil_of_length_eq_zero none_
        cases debugAssertions with
        | false => exact .inr ⟨rfl, rfl⟩
        | true => exact absurd rfl passes
      · obtain ⟨_, ran, -⟩ := bind_ok.mp ran
        refine .inl (stages_power (t := 0) none_ (one_dvd _) ?_ ran)
        rw [Nat.zero_add]
        exact Nat.lt_two_pow_self.le
  · rintro (⟨m, whole⟩ | ⟨none_, rfl⟩)
    · exact ⟨_, fastWalshHadamard_ok debugAssertions whole⟩
    · cases List.eq_nil_of_length_eq_zero none_
      exact ⟨[], rfl⟩

theorem length_fastWalshHadamard {data data' : List α}
    (ran : fastWalshHadamard debugAssertions data = .ok data') : data'.length = data.length := by
  rcases (fastWalshHadamard_comes_through debugAssertions data).mp ⟨_, ran⟩ with
    ⟨m, whole⟩ | ⟨none_, rfl⟩
  · rw [fastWalshHadamard_ok debugAssertions whole] at ran
    cases ran
    rw [List.length_map, length_transform whole, whole]
  · cases List.eq_nil_of_length_eq_zero none_
    cases ran
    rfl

end Rotation

theorem coordinates_placed {α : Type} [Zero α] [Mul α] (k : α) {coordinates : List α} {n : Nat}
    (room : coordinates.length ≤ n) :
    coordinates.zipIdx.foldlM (fun rotated c => writeAt rotated c.2 (c.1 * k)) (List.replicate n 0) =
      .ok (coordinates.map (· * k) ++ List.replicate (n - coordinates.length) 0) := by
  have placed := writeEach_ok (fun c _ => .ok (c * k)) (coordinates.map (· * k)) []
    (List.replicate n 0) (List.length_map _).symm (fun i x y left right => by
      rw [List.getElem?_map, left] at right
      cases right
      rfl) (by rwa [List.length_replicate])
  rw [List.drop_replicate] at placed
  exact placed

theorem fromPolarCoordinates_ok {α : Type} [Zero α] [One α] [Add α] [Sub α] [Mul α] [Div α] [Neg α]
    [NatCast α] [Scalar α] (debugAssertions : Bool) (norm : α) {dimensions : Nat}
    {coordinates rotated : List α} {config : PolarQuantConfig}
    (room : coordinates.length ≤ config.paddedDim)
    (turned : fastWalshHadamard debugAssertions
      (coordinates.map (· * (1 / Scalar.sqrt (config.dimensions : α))) ++
        List.replicate (config.paddedDim - coordinates.length) 0) = .ok rotated)
    (signs : dimensions ≤ config.signs.length) (length : dimensions ≤ rotated.length) :
    fromPolarCoordinates debugAssertions norm dimensions coordinates config =
      .ok (List.zipWith (fun sign r => (if sign then r else -r) * norm) (config.signs.take dimensions)
        (rotated.take dimensions)) := by
  unfold fromPolarCoordinates
  refine bind_ok.mpr ⟨_, coordinates_placed _ room, bind_ok.mpr ⟨rotated, turned, ?_⟩⟩
  exact if_neg (by omega)

end TronDB.Core
