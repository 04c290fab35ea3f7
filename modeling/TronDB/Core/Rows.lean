import TronDB.Core.Fetch

/-! The cells of a row. -/
namespace TronDB.Core

/-- A row shows the times the engine keeps of its entity, whatever it selects. -/
def Entity.stamped (e : Entity) (field : String) (otherwise : Option Value) : Option Value :=
  if field = "tx_time" ∧ 0 < e.txTime then some (.int (Int64.ofNat e.txTime))
  else if field = "valid_to" ∧ e.validTo.isSome then e.validTo.map .int
  else if field = "valid_from" ∧ e.validFrom.isSome then e.validFrom.map .int
  else otherwise

theorem get_named (e : Entity) (names : List String) (values : FinMap String Value) (f : String) :
    (names.foldl (fun values name =>
        if name = "id" then values
        else values.insert name (e.metadata[name]?.getD .null)) values)[f]? =
      if f ∈ names ∧ f ≠ "id" then some (e.metadata[f]?.getD .null) else values[f]? := by
  induction names generalizing values with
  | nil => simp
  | cons name rest ih =>
    rw [List.foldl_cons, ih]
    by_cases own : name = "id"
    · by_cases here : f = "id" <;> simp [own, here]
    · by_cases here : name = f
      · subst here
        simp [own]
      · have other : ¬ f = name := fun same => here same.symm
        simp [own, here, other, FinMap.get_insert]

theorem get_namedRow (e : Entity) (names : List String) (f : String) :
    (entityToRow e (.named names)).values[f]? =
      e.stamped f (if f = "id" then some (.string e.id)
        else if f ∈ names then some (e.metadata[f]?.getD .null) else none) := by
  have base := get_named e names ((∅ : FinMap String Value).insert "id" (.string e.id)) f
  unfold entityToRow Entity.stamped
  dsimp only
  generalize names.foldl _ _ = values at base ⊢
  have columns : values[f]? = if f = "id" then some (.string e.id)
      else if f ∈ names then some (e.metadata[f]?.getD .null) else none := by
    rw [base, FinMap.get_insert]
    by_cases own : f = "id"
    · simp [own]
    · have other : ¬ "id" = f := fun same => own same.symm
      simp [own, other]
  rw [← columns]
  cases e.validFrom <;> cases e.validTo <;> by_cases known : 0 < e.txTime <;>
    simp [known, FinMap.get_insert, eq_comm]

theorem get_entityToRow (e : Entity) (f : String) : (entityToRow e .all).values[f]? =
    e.stamped f (e.metadata[f]?.or (if f = "id" then some (.string e.id) else none)) := by
  unfold entityToRow Entity.stamped
  dsimp only
  have base : (e.metadata.toList.foldl (fun values kv => values.insert kv.1 kv.2)
      ((∅ : FinMap String Value).insert "id" (.string e.id)))[f]? =
        e.metadata[f]?.or (if f = "id" then some (.string e.id) else none) := by
    refine (FinMap.get_insertAll_toList e.metadata _ f).trans ?_
    rw [FinMap.get_insert]
    simp [eq_comm]
  generalize e.metadata.toList.foldl (fun values kv => values.insert kv.1 kv.2)
    ((∅ : FinMap String Value).insert "id" (.string e.id)) = values at base ⊢
  rw [← base]
  cases e.validFrom <;> cases e.validTo <;> by_cases known : 0 < e.txTime <;>
    simp [known, FinMap.get_insert, eq_comm]

end TronDB.Core
