import TronDB.Engine.JoinStandard

/-! The two evaluators of WHERE: on an entity, and on its combined row in a join. -/
namespace TronDB.Core

/-- How a clause looks at a field. -/
inductive Test where
  | order | equality | null
  deriving DecidableEq, Repr

def WhereClause.tests : WhereClause → List (String × Test)
  | .eq field _ | .neq field _ | .isIn field _ | .like field _ => [(field, .equality)]
  | .gt field _ | .lt field _ | .gte field _ | .lte field _ => [(field, .order)]
  | .isNull field | .isNotNull field => [(field, .null)]
  | .and l r | .or l r => l.tests ++ r.tests
  | .not inner => inner.tests

end TronDB.Core

namespace TronDB.Engine
open TronDB.Core

def qualifyFields (aliasName : String) : WhereClause → WhereClause
  | .eq field lit => .eq (qualified aliasName field) lit
  | .neq field lit => .neq (qualified aliasName field) lit
  | .gt field lit => .gt (qualified aliasName field) lit
  | .lt field lit => .lt (qualified aliasName field) lit
  | .gte field lit => .gte (qualified aliasName field) lit
  | .lte field lit => .lte (qualified aliasName field) lit
  | .and l r => .and (qualifyFields aliasName l) (qualifyFields aliasName r)
  | .or l r => .or (qualifyFields aliasName l) (qualifyFields aliasName r)
  | .not inner => .not (qualifyFields aliasName inner)
  | .isNull field => .isNull (qualified aliasName field)
  | .isNotNull field => .isNotNull (qualified aliasName field)
  | .isIn field values => .isIn (qualified aliasName field) values
  | .like field pattern => .like (qualified aliasName field) pattern

def Agree (e : Entity) (aliasName : String) (clause : WhereClause) : Prop :=
  entityMatches e clause = joinRowMatches (addEntity ∅ aliasName e) (qualifyFields aliasName clause)

/-! ### The combined row -/

/-- The metadata is written over the id. -/
theorem addEntity_get (e : Entity) (aliasName field : String) :
    (addEntity ∅ aliasName e)[qualified aliasName field]? =
      e.metadata[field]?.or (if field = "id" then some (.string e.id) else none) := by
  have start : ((∅ : Combined).insert (qualified aliasName "id") (.string e.id))[qualified
      aliasName field]? = if field = "id" then some (.string e.id) else none := by
    rw [FinMap.get_insert]
    by_cases isId : field = "id"
    · rw [if_pos isId, if_pos (congrArg _ isId.symm)]
    · rw [if_neg isId, if_neg fun same => isId (qualified_field same).symm]
      simp
  have listed : addEntity ∅ aliasName e =
      FinMap.insertAll ((∅ : Combined).insert (qualified aliasName "id") (.string e.id))
        (e.metadata.toList.map fun kv => (qualified aliasName kv.1, kv.2)) := by
    unfold addEntity FinMap.insertAll
    rw [List.foldl_map]
  rw [listed, ← start]
  cases found : e.metadata[field]? with
  | none =>
    refine FinMap.get_insertAll_absent _ _ fun there => ?_
    simp only [List.map_map, List.mem_map, Function.comp_apply] at there
    obtain ⟨⟨k, v⟩, there, same⟩ := there
    cases qualified_field same
    cases found.symm.trans ((FinMap.mem_toList _ _ _).mp there)
  | some v =>
    have distinct : ((e.metadata.toList.map fun kv => (qualified aliasName kv.1, kv.2)).map
        Prod.fst).Nodup := by
      have keys := FinMap.nodup_toList e.metadata
      have renamed := keys.map (f := qualified aliasName) fun _ _ same => qualified_field same
      rw [List.map_map] at renamed ⊢
      exact renamed
    exact FinMap.get_insertAll _ _ distinct (qualified aliasName field, v)
      (List.mem_map.mpr ⟨(field, v), (FinMap.mem_toList _ _ _).mpr found, rfl⟩)

theorem row_metadata {e : Entity} {field : String}
    (held : field = "id" → e.metadata["id"]? ≠ none) (aliasName : String) :
    (addEntity ∅ aliasName e)[qualified aliasName field]? = e.metadata[field]? := by
  rw [addEntity_get]
  cases found : e.metadata[field]? with
  | some v => rfl
  | none =>
    have other : field ≠ "id" := fun same => held same (same ▸ found)
    rw [if_neg other]
    rfl

theorem combined_id {e : Entity} (own : ∀ v, e.metadata["id"]? = some v → v = .string e.id)
    (aliasName : String) :
    (addEntity ∅ aliasName e)[qualified aliasName "id"]? = some (.string e.id) := by
  rw [addEntity_get, if_pos rfl]
  cases found : e.metadata["id"]? with
  | none => rfl
  | some v =>
    rw [own v found]
    rfl

theorem combined_id_known {e : Entity} (known : e.metadata["id"]? ≠ some .null) (aliasName : String) :
    ∃ v, v ≠ .null ∧ (addEntity ∅ aliasName e)[qualified aliasName "id"]? = some v := by
  rw [addEntity_get, if_pos rfl]
  cases found : e.metadata["id"]? with
  | none => exact ⟨.string e.id, by simp, rfl⟩
  | some v => exact ⟨v, fun null => known (null ▸ found), rfl⟩

/-! ### Comparisons -/

/-- What an entity has to hold under the key `id` for tests of this kind on its id to agree. -/
def IdAgrees (e : Entity) : Test → Prop
  | .order => e.metadata["id"]? ≠ none
  | .equality => ∀ v, e.metadata["id"]? = some v → v = .string e.id
  | .null => e.metadata["id"]? ≠ some .null

section Leaves
variable {e : Entity} {field : String} (aliasName : String)

theorem order_agree (held : field = "id" → IdAgrees e .order) (test : Value → Bool) :
    e.fieldIs field test =
      (((addEntity ∅ aliasName e)[qualified aliasName field]?.map test).getD false) := by
  rw [row_metadata held]
  unfold Entity.fieldIs
  cases e.metadata[field]? <;> rfl

theorem equality_agree (own : field = "id" → IdAgrees e .equality) :
    (addEntity ∅ aliasName e)[qualified aliasName field]? =
      if field = "id" then some (.string e.id) else e.metadata[field]? := by
  by_cases isId : field = "id"
  · subst isId
    rw [if_pos rfl, combined_id (own rfl)]
  · rw [if_neg isId, row_metadata fun same => absurd same isId]

theorem null_agree (known : field = "id" → IdAgrees e .null) :
    Agree e aliasName (.isNull field) ∧ Agree e aliasName (.isNotNull field) := by
  unfold Agree qualifyFields entityMatches joinRowMatches
  by_cases isId : field = "id"
  · subst isId
    obtain ⟨v, value, found⟩ := combined_id_known (known rfl) aliasName
    have notNull : v.eq .null = false := by
      rw [Value.eq_null, decide_eq_false value]
    simp [found, notNull]
  · rw [row_metadata fun same => absurd same isId, if_neg isId, if_neg isId]
    unfold Entity.fieldIs
    cases e.metadata[field]? <;> simp

end Leaves

/-- Both evaluators go through the clause in the same way. -/
theorem agree_of_id {e : Entity} {aliasName : String} {tests : Set (String × Test)}
    (agrees : ∀ test, ("id", test) ∈ tests → IdAgrees e test) (clause : WhereClause)
    (uses : ∀ test ∈ clause.tests, test ∈ tests) : Agree e aliasName clause := by
  have own {field : String} {test : Test} (used : (field, test) ∈ tests) (isId : field = "id") :
      IdAgrees e test := agrees test (isId ▸ used)
  induction clause with
  | and l r here there =>
    have left := here fun test used => uses test (List.mem_append_left _ used)
    have right := there fun test used => uses test (List.mem_append_right _ used)
    simp only [Agree, qualifyFields, entityMatches, joinRowMatches] at left right ⊢
    rw [left, right]
  | or l r here there =>
    have left := here fun test used => uses test (List.mem_append_left _ used)
    have right := there fun test used => uses test (List.mem_append_right _ used)
    simp only [Agree, qualifyFields, entityMatches, joinRowMatches] at left right ⊢
    rw [left, right]
  | not inner ih =>
    have same := ih uses
    simp only [Agree, qualifyFields, entityMatches, joinRowMatches] at same ⊢
    rw [same]
  | gt field lit | lt field lit | gte field lit | lte field lit =>
    exact order_agree aliasName (own (uses _ (List.mem_singleton_self _))) _
  | isNull field => exact (null_agree aliasName (own (uses _ (List.mem_singleton_self _)))).1
  | isNotNull field => exact (null_agree aliasName (own (uses _ (List.mem_singleton_self _)))).2
  | like field pattern =>
    unfold Agree qualifyFields entityMatches joinRowMatches
    rw [equality_agree aliasName (own (uses _ (List.mem_singleton_self _)))]
    by_cases isId : field = "id"
    · rw [if_pos isId, if_pos isId]
    · rcases e.metadata[field]? with _ | v
      · simp [isId]
      · cases v <;> simp [isId]
  | eq field lit | neq field lit | isIn field values =>
    unfold Agree qualifyFields entityMatches joinRowMatches
    rw [equality_agree aliasName (own (uses _ (List.mem_singleton_self _)))]
    by_cases isId : field = "id"
    · simp [isId, Value.eq_symm _ (.string e.id)]
    · rw [if_neg isId, if_neg isId]
      cases found : e.metadata[field]? with
      | none => simp [Entity.fieldIs, found]
      | some v => simp [Entity.fieldIs, found, Value.eq_symm _ v]

/-! ### Where they differ -/

theorem order_differs {e : Entity} {aliasName : String} (free : e.metadata["id"]? = none) :
    ¬ Agree e aliasName (.gte "id" (.string e.id)) := by
  intro agree
  have agree : e.fieldIs "id" _ =
    ((addEntity ∅ aliasName e)[qualified aliasName "id"]?.map _).getD false := agree
  rw [Entity.fieldIs, addEntity_get, free] at agree
  simp [literalToValue, Value.eq_string] at agree

theorem equality_differs {e : Entity} {aliasName : String} {v : Value}
    (found : e.metadata["id"]? = some v) (other : v ≠ .string e.id) :
    ¬ Agree e aliasName (.eq "id" (.string e.id)) := by
  intro agree
  have agree : (if "id" = "id" then _ else _) =
    ((addEntity ∅ aliasName e)[qualified aliasName "id"]?.map _).getD false := agree
  rw [addEntity_get, found] at agree
  simp [literalToValue, Value.eq_string, other] at agree

theorem null_differs {e : Entity} {aliasName : String} (found : e.metadata["id"]? = some .null) :
    ¬ Agree e aliasName (.isNull "id") := by
  intro agree
  have agree : (if "id" = "id" then false else _) =
    ((addEntity ∅ aliasName e)[qualified aliasName "id"]?.map _).getD true := agree
  rw [addEntity_get, found] at agree
  simp [Value.eq_null] at agree

/-- The evaluators agree on all clauses with tests out of a set exactly if what the entity holds
under the key `id` allows for each test on the id there. -/
theorem agree_iff (e : Entity) (aliasName : String) (tests : Set (String × Test)) :
    (∀ clause : WhereClause, (∀ test ∈ clause.tests, test ∈ tests) → Agree e aliasName clause) ↔
      ∀ test, ("id", test) ∈ tests → IdAgrees e test := by
  constructor
  · intro all test used
    have only {clause : WhereClause} (same : clause.tests = [("id", test)]) :
        Agree e aliasName clause :=
      all clause fun other listed => by
        rw [same, List.mem_singleton] at listed
        exact listed ▸ used
    cases test with
    | order => exact fun free => order_differs free (only rfl)
    | equality =>
      intro v found
      by_contra other
      exact equality_differs found other (only rfl)
    | null => exact fun found => null_differs found (only rfl)
  · exact fun agrees clause uses => agree_of_id agrees clause uses

/-- An id that is above the literal, in the row only. -/
theorem greater_id_only_in_row :
    entityMatches (Entity.new "b") (.gt "id" (.string "a")) = false ∧
      joinRowMatches (addEntity ∅ "e" (Entity.new "b")) (.gt "e.id" (.string "a")) = true := by
  decide

end TronDB.Engine
