import TronDB.Lib.FinMap

/-! Secondary indexes: a map from keys to ids beside a function that gives each id its key. -/
namespace SecondaryIndex

variable {K I : Type} [Ord K] [Std.TransOrd K]

/-- Every id with a key is listed under it, and nothing else is listed. -/
def Exact (m : FinMap K I) (keyOf : I → Option K) : Prop :=
  ∀ (key : K) (id : I), m[key]? = some id ↔ keyOf id = some key

def take (m : FinMap K I) : Option K → FinMap K I
  | some key => m.erase key
  | none => m

def put (m : FinMap K I) (id : I) : Option K → FinMap K I
  | some key => m.insert key id
  | none => m

variable {m : FinMap K I} {keyOf : I → Option K}

namespace Exact

theorem congr (exact : Exact m keyOf) {keyOf' : I → Option K} (same : ∀ id, keyOf' id = keyOf id) :
    Exact m keyOf' := by
  intro key id
  rw [same]
  exact exact key id

theorem injective (exact : Exact m keyOf) {a b : I} {key : K} (first : keyOf a = some key)
    (second : keyOf b = some key) : a = b := by
  have listed := (exact key a).mpr first
  have other := (exact key b).mpr second
  exact Option.some.inj (listed.symm.trans other)

end Exact

variable [Std.LawfulEqOrd K] [DecidableEq K]

theorem get_take (m : FinMap K I) (key : Option K) (k : K) :
    (take m key)[k]? = if key = some k then none else m[k]? := by
  cases key with
  | none => rfl
  | some key =>
    unfold take
    dsimp only
    rw [FinMap.get_erase]
    simp

theorem get_put (m : FinMap K I) (id : I) (key : Option K) (k : K) :
    (put m id key)[k]? = if key = some k then some id else m[k]? := by
  cases key with
  | none => rfl
  | some key =>
    unfold put
    dsimp only
    rw [FinMap.get_insert]
    simp

namespace Exact

variable [DecidableEq I]

theorem take (exact : Exact m keyOf) (id : I) :
    Exact (take m (keyOf id)) fun i => if i = id then none else keyOf i := by
  intro key i
  rw [get_take]
  dsimp only
  by_cases own : i = id
  · subst own
    rw [if_pos rfl]
    refine iff_of_false (fun listed => ?_) nofun
    split at listed
    · cases listed
    · rename_i other
      exact other ((exact key i).mp listed)
  · rw [if_neg own]
    split
    · rename_i here
      refine iff_of_false nofun fun there => own ?_
      exact exact.injective there here
    · exact exact key i

theorem put (exact : Exact m keyOf) {id : I} (free : keyOf id = none) {key : Option K}
    (apart : ∀ i k, key = some k → keyOf i ≠ some k) :
    Exact (put m id key) fun i => if i = id then key else keyOf i := by
  intro k i
  rw [get_put]
  dsimp only
  by_cases here : key = some k
  · rw [if_pos here]
    by_cases own : i = id
    · subst own
      simp [here]
    · rw [if_neg own]
      refine iff_of_false (fun same => own (Option.some.inj same).symm) (apart i k here)
  · rw [if_neg here]
    by_cases own : i = id
    · subst own
      rw [if_pos rfl]
      refine iff_of_false (fun listed => ?_) here
      cases free.symm.trans ((exact k i).mp listed)
    · rw [if_neg own]
      exact exact k i

theorem replace (exact : Exact m keyOf) (id : I) {key : Option K}
    (apart : ∀ i k, i ≠ id → key = some k → keyOf i ≠ some k) :
    Exact (SecondaryIndex.put (SecondaryIndex.take m (keyOf id)) id key)
      fun i => if i = id then key else keyOf i := by
  have taken := exact.take id
  refine (taken.put (if_pos rfl) fun i k here there => ?_).congr fun i => ?_
  · split at there
    · cases there
    · rename_i other
      exact apart i k other here there
  · split <;> rfl

end Exact

/-- An index that lists only current entries is exact when all ids have been put once more. -/
theorem exact_rebuilt (listed : ∀ (key : K) (id : I), m[key]? = some id → keyOf id = some key)
    (apart : ∀ a b key, keyOf a = some key → keyOf b = some key → a = b) (ids : List I)
    (all : ∀ id, keyOf id ≠ none → id ∈ ids) :
    Exact (ids.foldl (fun m id => put m id (keyOf id)) m) keyOf := by
  have grown (ids : List I) (m : FinMap K I)
      (listed : ∀ (key : K) (id : I), m[key]? = some id → keyOf id = some key) (key : K) (id : I) :
      (ids.foldl (fun m id => put m id (keyOf id)) m)[key]? = some id ↔
        m[key]? = some id ∨ id ∈ ids ∧ keyOf id = some key := by
    induction ids generalizing m with
    | nil => simp
    | cons first rest ih =>
      have step (key : K) (id : I) : (put m first (keyOf first))[key]? = some id ↔
          m[key]? = some id ∨ id = first ∧ keyOf id = some key := by
        rw [get_put]
        split
        · rename_i here
          constructor
          · intro same
            cases same
            exact .inr ⟨rfl, here⟩
          · rintro (before | ⟨rfl, -⟩)
            · rw [apart first id key here (listed key id before)]
            · rfl
        · rename_i other
          constructor
          · exact .inl
          · rintro (before | ⟨rfl, here⟩)
            · exact before
            · exact absurd here other
      rw [List.foldl_cons, ih _ fun key id there => ?_, step, List.mem_cons]
      · tauto
      · rcases (step key id).mp there with before | ⟨-, here⟩
        · exact listed key id before
        · exact here
  intro key id
  rw [grown ids m listed]
  constructor
  · rintro (before | ⟨-, here⟩)
    · exact listed key id before
    · exact here
  · intro here
    exact .inr ⟨all id (here ▸ Option.some_ne_none key), here⟩

end SecondaryIndex
