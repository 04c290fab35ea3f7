import Mathlib.Data.List.Basic
import Mathlib.Data.List.Nodup

/-! Distances in a graph of labelled arcs, and the layers of a breadth-first search. -/
namespace Layers

section Distance
variable {V : Type} {step : V → V → Prop} {start : V}

/-- Walks from the start, by length. -/
inductive Walk (step : V → V → Prop) (start : V) : Nat → V → Prop
  | nil : Walk step start 0 start
  | snoc {n : Nat} {u v : V} : Walk step start n u → step u v → Walk step start (n + 1) v

def Distance (step : V → V → Prop) (start : V) (n : Nat) (v : V) : Prop :=
  Walk step start n v ∧ ∀ m < n, ¬ Walk step start m v

theorem distance_zero {v : V} : Distance step start 0 v ↔ v = start := by
  constructor
  · rintro ⟨walk, -⟩
    cases walk
    rfl
  · rintro rfl
    exact ⟨.nil, fun m below => absurd below (by omega)⟩

theorem Distance.unique {n m : Nat} {v : V} (first : Distance step start n v)
    (second : Distance step start m v) : n = m := by
  rcases Nat.lt_trichotomy n m with less | same | more
  · exact absurd first.1 (second.2 n less)
  · exact same
  · exact absurd second.1 (first.2 m more)

theorem Walk.distance {n : Nat} {v : V} (walk : Walk step start n v) :
    ∃ m ≤ n, Distance step start m v := by
  induction n using Nat.strongRecOn with
  | ind n ih =>
    by_cases shorter : ∃ m < n, Walk step start m v
    · obtain ⟨m, less, walk'⟩ := shorter
      obtain ⟨d, bound, distance⟩ := ih m less walk'
      exact ⟨d, by omega, distance⟩
    · exact ⟨n, Nat.le_refl n, walk, fun m less walk' => shorter ⟨m, less, walk'⟩⟩

theorem distance_succ {n : Nat} {v : V} : Distance step start (n + 1) v ↔
    (∃ u, Distance step start n u ∧ step u v) ∧ ∀ m ≤ n, ¬ Distance step start m v := by
  constructor
  · rintro ⟨walk, shortest⟩
    refine ⟨?_, fun m below distance => shortest m (by omega) distance.1⟩
    cases walk with
    | snoc walk last =>
      rename_i u
      exact ⟨u, ⟨walk, fun m less walk' => shortest (m + 1) (by omega) (.snoc walk' last)⟩, last⟩
  · rintro ⟨⟨u, distance, last⟩, later⟩
    refine ⟨.snoc distance.1 last, fun m less walk => ?_⟩
    obtain ⟨d, bound, nearer⟩ := walk.distance
    exact later d (by omega) nearer

end Distance

section Fresh
variable {V A : Type} [DecidableEq V]

/-- The first arc to each vertex that has not been seen. -/
def fresh : List V → List (V × A) → List (V × A)
  | _, [] => []
  | seen, arc :: rest =>
    if arc.1 ∈ seen then fresh seen rest else arc :: fresh (arc.1 :: seen) rest

/-- What has been seen after the arcs, the last first. -/
def see (seen : List V) (arcs : List (V × A)) : List V :=
  ((fresh seen arcs).map Prod.fst).reverse ++ seen

@[simp] theorem fresh_nil (seen : List V) : fresh seen ([] : List (V × A)) = [] := rfl

theorem see_cons (seen : List V) (arc : V × A) (rest : List (V × A)) :
    see seen (arc :: rest) = see (if arc.1 ∈ seen then seen else arc.1 :: seen) rest := by
  unfold see
  rw [fresh]
  split <;> simp

theorem fresh_append (seen : List V) (arcs more : List (V × A)) :
    fresh seen (arcs ++ more) = fresh seen arcs ++ fresh (see seen arcs) more := by
  induction arcs generalizing seen with
  | nil => rfl
  | cons arc rest ih =>
    rw [List.cons_append, fresh, fresh, see_cons]
    split
    · exact ih seen
    · rw [ih, List.cons_append]

theorem see_append (seen : List V) (arcs more : List (V × A)) :
    see seen (arcs ++ more) = see (see seen arcs) more := by
  induction arcs generalizing seen with
  | nil => rfl
  | cons arc rest ih => rw [List.cons_append, see_cons, see_cons, ih]

theorem mem_fresh {seen : List V} {arcs : List (V × A)} {arc : V × A} :
    arc ∈ fresh seen arcs ↔ arc.1 ∉ seen ∧ arcs.find? (fun a => a.1 = arc.1) = some arc := by
  induction arcs generalizing seen with
  | nil => simp
  | cons head rest ih =>
    rw [fresh, List.find?_cons]
    by_cases known : head.1 ∈ seen
    · rw [if_pos known, ih]
      refine and_congr_right fun new => ?_
      have other : ¬ head.1 = arc.1 := fun same => new (same ▸ known)
      simp only [other, decide_false]
    · rw [if_neg known, List.mem_cons, ih]
      by_cases same : head.1 = arc.1
      · simp only [same, decide_true, Option.some.injEq, List.mem_cons, true_or, not_true_eq_false,
          false_and, or_false]
        exact ⟨fun here => ⟨same ▸ known, here.symm⟩, fun both => both.2.symm⟩
      · have here : arc ≠ head := fun h => same (h ▸ rfl)
        simp only [same, decide_false, here, List.mem_cons, Ne.symm same, false_or]

theorem mem_fresh_fst {seen : List V} {arcs : List (V × A)} {v : V} :
    v ∈ (fresh seen arcs).map Prod.fst ↔ v ∉ seen ∧ ∃ a, (v, a) ∈ arcs := by
  simp only [List.mem_map, mem_fresh]
  constructor
  · rintro ⟨arc, ⟨new, first⟩, rfl⟩
    exact ⟨new, arc.2, List.mem_of_find?_eq_some first⟩
  · rintro ⟨new, a, there⟩
    cases first : arcs.find? (fun a => a.1 = v) with
    | none => exact absurd (List.find?_eq_none.mp first _ there) (by simp)
    | some arc =>
      have target : arc.1 = v := by simpa using List.find?_some first
      exact ⟨arc, ⟨target ▸ new, target ▸ first⟩, target⟩

theorem mem_see {seen : List V} {arcs : List (V × A)} {v : V} :
    v ∈ see seen arcs ↔ v ∈ seen ∨ ∃ a, (v, a) ∈ arcs := by
  rw [see, List.mem_append, List.mem_reverse, mem_fresh_fst]
  tauto

theorem nodup_fresh (seen : List V) (arcs : List (V × A)) :
    ((fresh seen arcs).map Prod.fst).Nodup := by
  induction arcs generalizing seen with
  | nil => exact List.nodup_nil
  | cons arc rest ih =>
    rw [fresh]
    split
    · exact ih seen
    · rw [List.map_cons, List.nodup_cons]
      exact ⟨fun again => (mem_fresh_fst.mp again).1 (List.mem_cons_self ..), ih _⟩

end Fresh

section Search
variable {V A : Type} [DecidableEq V] (next : V → List (V × A)) (start : V)

def Step (u v : V) : Prop := ∃ a, (v, a) ∈ next u

/-- What has been seen before a round, and the layer the round starts from. -/
def front : Nat → List V × List V
  | 0 => ([start], [start])
  | n + 1 =>
    let arcs := (front n).2.flatMap next
    (see (front n).1 arcs, (fresh (front n).1 arcs).map Prod.fst)

def layer (n : Nat) : List V := (front next start n).2

/-- The arcs by which a round finds the next layer. -/
def discovered (n : Nat) : List (V × A) :=
  fresh (front next start n).1 ((layer next start n).flatMap next)

theorem layer_succ (n : Nat) :
    layer next start (n + 1) = (discovered next start n).map Prod.fst := rfl

theorem mem_front (n : Nat) (v : V) :
    (v ∈ (front next start n).1 ↔ ∃ m ≤ n, Distance (Step next) start m v) ∧
      (v ∈ layer next start n ↔ Distance (Step next) start n v) := by
  induction n generalizing v with
  | zero =>
    have only : v ∈ [start] ↔ Distance (Step next) start 0 v := by
      rw [List.mem_singleton, distance_zero]
    refine ⟨only.trans ⟨fun here => ⟨0, Nat.le_refl 0, here⟩, ?_⟩, only⟩
    rintro ⟨m, bound, distance⟩
    cases Nat.le_zero.mp bound
    exact distance
  | succ n ih =>
    have reached : (∃ a, (v, a) ∈ (layer next start n).flatMap next) ↔
        ∃ u, Distance (Step next) start n u ∧ Step next u v := by
      simp only [List.mem_flatMap, (ih _).2, Step]
      constructor
      · rintro ⟨a, u, distance, arc⟩
        exact ⟨u, distance, a, arc⟩
      · rintro ⟨u, distance, a, arc⟩
        exact ⟨a, u, distance, arc⟩
    have new : v ∈ layer next start (n + 1) ↔ Distance (Step next) start (n + 1) v := by
      refine mem_fresh_fst.trans ?_
      rw [(ih v).1, distance_succ]
      constructor
      · rintro ⟨unseen, arc⟩
        exact ⟨reached.mp arc, fun m bound distance => unseen ⟨m, bound, distance⟩⟩
      · rintro ⟨before, later⟩
        exact ⟨fun ⟨m, bound, distance⟩ => later m bound distance, reached.mpr before⟩
    refine ⟨?_, new⟩
    refine mem_see.trans ?_
    rw [(ih v).1]
    constructor
    · rintro (⟨m, bound, distance⟩ | arc)
      · exact ⟨m, by omega, distance⟩
      · obtain ⟨u, distance, last⟩ := reached.mp arc
        exact (Walk.snoc distance.1 last).distance
    · rintro ⟨m, bound, distance⟩
      rcases Nat.lt_or_ge m (n + 1) with less | more
      · exact .inl ⟨m, by omega, distance⟩
      · cases Nat.le_antisymm bound more
        exact .inr (reached.mpr (distance_succ.mp distance).1)

theorem mem_layer {n : Nat} {v : V} :
    v ∈ layer next start n ↔ Distance (Step next) start n v := (mem_front next start n v).2

theorem mem_discovered {n : Nat} {arc : V × A} :
    arc ∈ discovered next start n ↔ Distance (Step next) start (n + 1) arc.1 ∧
      ((layer next start n).flatMap next).find? (fun a => a.1 = arc.1) = some arc := by
  rw [← mem_layer, layer_succ, discovered, mem_fresh, mem_fresh_fst]
  constructor
  · rintro ⟨new, first⟩
    exact ⟨⟨new, arc.2, List.mem_of_find?_eq_some first⟩, first⟩
  · rintro ⟨⟨new, -⟩, first⟩
    exact ⟨new, first⟩

theorem nodup_discovered (n : Nat) : ((discovered next start n).map Prod.fst).Nodup :=
  nodup_fresh _ _

theorem discovered_nil {n : Nat} (none_ : layer next start n = []) (k : Nat) :
    layer next start (n + k) = [] ∧ discovered next start (n + k) = [] := by
  have nothing (m : Nat) (empty : layer next start m = []) : discovered next start m = [] := by
    rw [discovered, empty]
    rfl
  induction k with
  | zero => exact ⟨none_, nothing n none_⟩
  | succ k ih =>
    have empty : layer next start (n + (k + 1)) = [] := by
      rw [← Nat.add_assoc, layer_succ, ih.2]
      rfl
    exact ⟨empty, nothing _ empty⟩

end Search
end Layers
