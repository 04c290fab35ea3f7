import Mathlib.Data.List.Sort

/-! Comparators that are total preorders of a domain: by a view, reversed, one behind the other,
and what they sort. -/
namespace Comparator

variable {α β : Type*}

structure PreorderOn (D : α → Prop) (cmp : α → α → Ordering) : Prop where
  refl : ∀ x, D x → cmp x x = .eq
  swap : ∀ x y, D x → D y → cmp y x = (cmp x y).swap
  trans : ∀ x y z, D x → D y → D z → cmp x y ≠ .gt → cmp y z ≠ .gt → cmp x z ≠ .gt

/-- What any stable sorting algorithm leaves of a list. -/
structure StableSort (cmp : α → α → Ordering) (xs sorted : List α) : Prop where
  perm : sorted.Perm xs
  inOrder : sorted.Pairwise fun x y => cmp x y ≠ .gt
  stable : ∀ x y, cmp x y ≠ .gt → [x, y].Sublist xs → [x, y].Sublist sorted

namespace PreorderOn
variable {D : α → Prop} {cmp cmp' : α → α → Ordering} {x y z : α}

theorem of_trans (cmp : α → α → Ordering) [Std.TransCmp cmp] (D : α → Prop) : PreorderOn D cmp where
  refl _ _ := Std.ReflCmp.compare_self
  swap _ _ _ _ := Std.OrientedCmp.eq_swap
  trans x y z _ _ _ below below' := by
    have first := Ordering.isLE_iff_ne_gt.mpr below
    have second := Ordering.isLE_iff_ne_gt.mpr below'
    exact Ordering.isLE_iff_ne_gt.mp (Std.TransCmp.isLE_trans first second)

theorem mono {D' : α → Prop} (ordered : PreorderOn D cmp) (fewer : ∀ x, D' x → D x) :
    PreorderOn D' cmp where
  refl x there := ordered.refl x (fewer x there)
  swap x y there there' := ordered.swap x y (fewer x there) (fewer y there')
  trans x y z h h' h'' := ordered.trans x y z (fewer x h) (fewer y h') (fewer z h'')

theorem comap (ordered : PreorderOn D cmp) (f : β → α) :
    PreorderOn (fun b => D (f b)) fun a b => cmp (f a) (f b) where
  refl x := ordered.refl (f x)
  swap x y := ordered.swap (f x) (f y)
  trans x y z := ordered.trans (f x) (f y) (f z)

theorem congr (ordered : PreorderOn D cmp) (same : ∀ x y, D x → D y → cmp' x y = cmp x y) :
    PreorderOn D cmp' where
  refl x there := by rw [same x x there there, ordered.refl x there]
  swap x y h h' := by rw [same y x h' h, same x y h h', ordered.swap x y h h']
  trans x y z h h' h'' := by
    rw [same x y h h', same y z h' h'', same x z h h'']
    exact ordered.trans x y z h h' h''

section Facts
variable (ordered : PreorderOn D cmp) (hx : D x) (hy : D y) (hz : D z)
include ordered hx hy hz

theorem lt_of_lt_of_le (below : cmp x y = .lt) (below' : cmp y z ≠ .gt) : cmp x z = .lt := by
  by_contra notLess
  have back : cmp z x ≠ .gt := by
    intro above
    rw [ordered.swap x z hx hz, Ordering.swap_eq_gt] at above
    exact notLess above
  have around := ordered.trans y z x hy hz hx below' back
  rw [ordered.swap x y hx hy, below] at around
  exact around rfl

theorem lt_of_le_of_lt (below : cmp x y ≠ .gt) (below' : cmp y z = .lt) : cmp x z = .lt := by
  by_contra notLess
  have back : cmp z x ≠ .gt := by
    intro above
    rw [ordered.swap x z hx hz, Ordering.swap_eq_gt] at above
    exact notLess above
  have around := ordered.trans z x y hz hx hy back below
  rw [ordered.swap y z hy hz, below'] at around
  exact around rfl

theorem eq_trans (same : cmp x y = .eq) (same' : cmp y z = .eq) : cmp x z = .eq := by
  have forth := ordered.trans x y z hx hy hz (by simp [same]) (by simp [same'])
  have back := ordered.trans z y x hz hy hx (by simp [ordered.swap y z hy hz, same'])
    (by simp [ordered.swap x y hx hy, same])
  rw [ordered.swap x z hx hz] at back
  cases answer : cmp x z with
  | eq => rfl
  | lt => simp [answer] at back
  | gt => exact absurd answer forth

end Facts

theorem reverse (ordered : PreorderOn D cmp) : PreorderOn D fun x y => (cmp x y).swap where
  refl x there := by simp [ordered.refl x there]
  swap x y h h' := by rw [ordered.swap x y h h']
  trans x y z h h' h'' above above' := by
    rw [← ordered.swap x y h h'] at above
    rw [← ordered.swap y z h' h''] at above'
    rw [← ordered.swap x z h h'']
    exact ordered.trans z y x h'' h' h above' above

theorem behind (first : PreorderOn D cmp) (second : PreorderOn D cmp') :
    PreorderOn D fun x y => (cmp x y).then (cmp' x y) where
  refl x there := by simp [first.refl x there, second.refl x there]
  swap x y h h' := by rw [first.swap x y h h', second.swap x y h h', Ordering.swap_then]
  trans x y z h h' h'' below below' := by
    cases xy : cmp x y with
    | gt => simp [xy] at below
    | lt =>
      have next : cmp y z ≠ .gt := fun above => by simp [above] at below'
      simp [first.lt_of_lt_of_le h h' h'' xy next]
    | eq =>
      cases yz : cmp y z with
      | gt => simp [yz] at below'
      | lt => simp [first.lt_of_le_of_lt h h' h'' (by simp [xy]) yz]
      | eq =>
        rw [xy] at below
        rw [yz] at below'
        rw [first.eq_trans h h' h'' xy yz]
        exact second.trans x y z h h' h'' below below'

theorem pairwise_orderedInsert (ordered : PreorderOn D cmp) (x : α) (here : D x) (xs : List α)
    (all : ∀ y ∈ xs, D y) (sorted : xs.Pairwise fun x y => cmp x y ≠ .gt) :
    (xs.orderedInsert (fun x y => cmp x y ≠ .gt) x).Pairwise fun x y => cmp x y ≠ .gt := by
  induction xs with
  | nil => simp
  | cons y rest ih =>
    rw [List.forall_mem_cons] at all
    obtain ⟨first, others⟩ := List.pairwise_cons.mp sorted
    by_cases below : cmp x y ≠ .gt
    · rw [List.orderedInsert_cons, if_pos below]
      refine List.pairwise_cons.mpr ⟨?_, sorted⟩
      intro z listed
      rcases List.mem_cons.mp listed with rfl | later
      · exact below
      · exact ordered.trans x y z here all.1 (all.2 z later) below (first z later)
    · rw [List.orderedInsert_cons, if_neg below]
      refine List.pairwise_cons.mpr ⟨?_, ih all.2 others⟩
      intro z listed
      rcases (List.mem_orderedInsert _).mp listed with rfl | later
      · rw [ordered.swap z y here all.1, not_not.mp below]
        decide
      · exact first z later

theorem sorted (ordered : PreorderOn D cmp) (xs : List α) (all : ∀ x ∈ xs, D x) :
    (xs.insertionSort fun x y => cmp x y ≠ .gt).Pairwise fun x y => cmp x y ≠ .gt := by
  induction xs with
  | nil => exact List.Pairwise.nil
  | cons x rest ih =>
    rw [List.forall_mem_cons] at all
    refine ordered.pairwise_orderedInsert x all.1 _ (fun y listed => ?_) (ih all.2)
    exact all.2 y ((List.mem_insertionSort _).mp listed)

theorem stableSort (ordered : PreorderOn D cmp) (xs : List α) (all : ∀ x ∈ xs, D x) :
    StableSort cmp xs (xs.insertionSort fun x y => cmp x y ≠ .gt) where
  perm := List.perm_insertionSort _ xs
  inOrder := ordered.sorted xs all
  stable _ _ below listed := List.pair_sublist_insertionSort below listed

end PreorderOn
end Comparator
