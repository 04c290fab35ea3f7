import Mathlib.Data.List.Induction

/-! Writes to named places: what the last one leaves, and what becomes of them where several
names may share a place. -/

inductive Write (P V : Type*) where
  | set (p : P) (v : V)
  | unset (p : P)

namespace Write
variable {P K V : Type*} [DecidableEq P] [DecidableEq K]

def step (held : Option V) (p : P) : Write P V → Option V
  | set p' v => if p' = p then some v else held
  | unset p' => if p' = p then none else held

/-- The value of the last write to a name, if it was not unset since. -/
def held (writes : List (Write P V)) (p : P) : Option V :=
  writes.foldl (fun held w => w.step held p) none

def rekey (key : P → K) : Write P V → Write K V
  | set p v => set (key p) v
  | unset p => unset (key p)

theorem held_snoc (writes : List (Write P V)) (w : Write P V) (p : P) :
    held (writes ++ [w]) p = w.step (held writes p) p := by
  rw [held, List.foldl_append]
  rfl

theorem held_set (writes : List (Write P V)) (p : P) (v : V) :
    held (writes ++ [set p v]) p = some v := by
  rw [held_snoc]
  exact if_pos rfl

theorem set_of_held {writes : List (Write P V)} {p : P} {v : V} (there : held writes p = some v) :
    set p v ∈ writes := by
  induction writes using List.reverseRecOn with
  | nil => cases there
  | append_singleton writes w ih =>
    rw [held_snoc] at there
    cases w with
    | set p' v' =>
      by_cases here : p' = p
      · subst here
        obtain rfl : v' = v := by simpa [step] using there
        exact List.mem_append_right _ (List.mem_singleton.mpr rfl)
      · rw [step, if_neg here] at there
        exact List.mem_append_left _ (ih there)
    | unset p' =>
      by_cases here : p' = p
      · simp [step, here] at there
      · rw [step, if_neg here] at there
        exact List.mem_append_left _ (ih there)

/-- Where no other name has the place of one that is set, the places hold what the names do. -/
theorem held_rekey (key : P → K) (writes : List (Write P V))
    (alone : ∀ p v, set p v ∈ writes → ∀ q, key q = key p → q = p) (p : P) :
    held (writes.map (rekey key)) (key p) = held writes p := by
  induction writes using List.reverseRecOn with
  | nil => rfl
  | append_singleton writes w ih =>
    have before : ∀ p v, set p v ∈ writes → ∀ q, key q = key p → q = p := fun p v earlier =>
      alone p v (List.mem_append_left _ earlier)
    rw [List.map_append, List.map_singleton, held_snoc, held_snoc, ih before]
    cases w with
    | set p' v =>
      have same : key p' = key p ↔ p' = p := by
        constructor
        · intro shared
          exact (alone p' v (List.mem_append_right _ (List.mem_singleton.mpr rfl)) p shared.symm).symm
        · rintro rfl
          rfl
      simp only [rekey, step, same]
    | unset p' =>
      by_cases here : p' = p
      · simp [rekey, step, here]
      · simp only [rekey, step, if_neg here]
        by_cases shared : key p' = key p
        · rw [if_pos shared]
          -- nothing is held under a name whose place is shared
          cases there : held writes p with
          | none => rfl
          | some v => exact absurd (before p v (set_of_held there) p' shared) here
        · exact if_neg shared

end Write
