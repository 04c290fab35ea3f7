import TronDB.Engine.Partitions
import TronDB.Engine.Shape
import TronDB.Engine.VectorsFollow

/-! The field indexes of a running engine, and the write statements that keep them exact. -/
namespace TronDB.Engine
open TronDB.Core Binary Wal

/-- The fields of an index with their declared types; none if some field is not declared. -/
def declaredTypes (schema : CollectionSchema) (idx : StoredIndex) : Option (List (String × FieldType)) :=
  if ∀ f ∈ idx.fields, f ∈ fieldNames schema then some (schema.fieldTypes idx) else none

/-- The key of an entity that has a value of the declared type for each field of the index. -/
def listedKey (schema : CollectionSchema) (idx : StoredIndex) (e : Entity) : Option (List UInt8) :=
  (declaredTypes schema idx).bind fun types => entryKey types e

def State.keyOf (s : State) (collection : String) (schema : CollectionSchema) (idx : StoredIndex)
    (id : LogicalId) : Option (List UInt8) :=
  s.store.entities[(collection, id)]?.bind (listedKey schema idx)

/-- Every declared index has one entry for each stored entity with a key, under its key, and no
other. -/
def FieldIndexesExact (s : State) : Prop :=
  ∀ (collection : String) (schema : CollectionSchema), s.schemas[collection]? = some schema →
    ∀ idx ∈ schema.indexes,
      SecondaryIndex.Exact (s.store.indexPartition collection idx.name) (s.keyOf collection schema idx)

/-! ### Write statements that keep them -/

/-- No other entity of the collection has a key of this one. -/
def State.KeysApart (s : State) (collection : String) (schema : CollectionSchema) (e : Entity) : Prop :=
  ∀ idx ∈ schema.indexes, ∀ other ∈ s.store.partition collection, other.id ≠ e.id →
    listedKey schema idx other = listedKey schema idx e → listedKey schema idx e = none

def importedEntities (env : Env) : List ImportLine → Nat → List Entity
  | .object fields :: rest, imported =>
    importEntity (env.freshId imported) fields :: importedEntities env rest (imported + 1)
  | .blank :: rest, imported => importedEntities env rest imported
  | _, _ => []

theorem mem_importedEntities {env : Env} {imported : Nat} {lines : List ImportLine} {e : Entity}
    (there : e ∈ importedEntities env lines imported) : ∃ freshId fields, e = importEntity freshId fields := by
  induction lines generalizing imported with
  | nil => cases there
  | cons line rest ih =>
    cases line with
    | blank => exact ih there
    | unreadable m => cases there
    | unparsable m => cases there
    | notObject => cases there
    | object fields =>
      rcases List.mem_cons.mp there with rfl | there
      · exact ⟨_, fields, rfl⟩
      · exact ih there

theorem importLoop_rows (env : Env) {collection : String} (txId : Nat)
    (lines : List ImportLine) (imported : Nat) {s : State}
    (present : s.store.hasCollection collection = true) :
    (importLoop env collection txId lines imported s).2 =
      (importedEntities env lines imported).foldl (fun s e => s.importRow env collection txId e) s := by
  induction lines generalizing imported s with
  | nil => rfl
  | cons line rest ih =>
    cases line with
    | blank => exact ih imported present
    | unreadable m => rfl
    | unparsable m => rfl
    | notObject => rfl
    | object fields =>
      unfold importLoop Store.insert
      dsimp only
      rw [if_pos present]
      exact ih (imported + 1) present

/-- An INSERT leaves the old entries alone if it fails, and gets to every index the entity has a
key in; an UPDATE gets to every index that changes; an IMPORT changes no key; an ALTER renames or
drops no indexed field, and a new collection indexes declared fields. Keys of two entities differ. -/
def KeepsIndexes (env : Env) (s : State) : Write → Prop
  | .createCollection p => ∀ idx ∈ p.indexes, ∀ f ∈ idx.fields, f ∈ p.fields.map StoredField.name
  | .insert p => ∀ schema ∈ s.schemas[p.collection]?, checkVectors schema p.collection p.vectors = .ok () →
    match buildEntity env schema p (p.target env) with
    | .error _ => ∀ idx ∈ schema.indexes, s.keyOf p.collection schema idx (p.target env) = none
    | .ok e =>
      (∀ idx ∈ schema.indexes, idx.name ∈
          (behindFailure (entryFails e) (s.fieldIndexesOf env p.collection)).map Prod.fst →
        listedKey schema idx e = none) ∧ s.KeysApart p.collection schema e
  | .updateEntity p => ∀ schema ∈ s.schemas[p.collection]?,
    ∀ old ∈ s.store.entities[(p.collection, p.entityId)]?,
      (∀ idx ∈ behindFailure (fun idx => (listedKey schema idx (assign old p.assignments)).isNone)
          schema.indexes,
        listedKey schema idx (assign old p.assignments) = listedKey schema idx old) ∧
        s.KeysApart p.collection schema (assign old p.assignments)
  | .importCollection p => ∀ schema ∈ s.schemas[p.collection]?,
    match env.importLines p.path with
    | .error _ => True
    | .ok lines => ∀ e ∈ importedEntities env lines 0, ∀ idx ∈ schema.indexes,
      listedKey schema idx e = s.keyOf p.collection schema idx e.id
  | .alterCollection p => ∀ schema ∈ s.schemas[p.collection]?,
    match p.operation with
    | .renameField oldName newName => oldName ∈ fieldNames schema →
      oldName = newName ∨ ∀ idx ∈ schema.indexes, oldName ∉ idx.fields ∧ newName ∉ idx.fields
    | .dropField fieldName => ∀ idx ∈ schema.indexes, fieldName ∉ idx.fields
    | _ => True
  | _ => True

/-! ### The invariant -/

/-- Exact indexes, with what keeps them so: they are open with the declared types, under
distinct names, and entities and entries are in collections that are there. -/
structure Upkept (s : State) : Prop where
  synced : Synced s
  housed : Housed s.store
  placed : ∀ (c index : String) (key : List UInt8) (id : LogicalId),
    (s.store.indexPartition c index)[key]? = some id →
      ∃ schema, s.store.collections[c]? = some schema ∧ index ∈ schema.indexes.map StoredIndex.name
  opened : ∀ (c index : String) (types : List (String × FieldType)),
    s.fieldIndexes[(c, index)]? = some types →
      ∃ schema, s.schemas[c]? = some schema ∧ index ∈ schema.indexes.map StoredIndex.name
  distinct : ∀ (c : String) (schema : CollectionSchema), s.schemas[c]? = some schema →
    (schema.indexes.map StoredIndex.name).Nodup
  current : ∀ (c : String) (schema : CollectionSchema), s.schemas[c]? = some schema →
    ∀ idx ∈ schema.indexes, ∃ types, declaredTypes schema idx = some types ∧
      s.fieldIndexes[(c, idx.name)]? = some types
  exact : FieldIndexesExact s

theorem declaredTypes_some {schema : CollectionSchema} {idx : StoredIndex}
    {types : List (String × FieldType)} (declared : declaredTypes schema idx = some types) :
    schema.fieldTypes idx = types ∧ types.map Prod.fst = idx.fields := by
  unfold declaredTypes at declared
  split at declared
  · rename_i all
    cases declared
    refine ⟨rfl, ?_⟩
    unfold CollectionSchema.fieldTypes
    generalize idx.fields = fields at all
    induction fields with
    | nil => rfl
    | cons f rest ih =>
      rw [List.forall_mem_cons] at all
      obtain ⟨sf, listed, rfl⟩ := List.mem_map.mp all.1
      cases found : schema.fields.find? fun sf' => sf'.name = sf.name with
      | none =>
        have missing := List.find?_eq_none.mp found sf listed
        exact absurd (decide_eq_true rfl) missing
      | some sf' =>
        have passed := @List.find?_some _ (fun sf' : StoredField => sf'.name = sf.name) _ _ found
        have own : sf'.name = sf.name := of_decide_eq_true passed
        rw [List.filterMap_cons, found]
        dsimp only [Option.map_some]
        rw [List.map_cons, ih all.2, own]
  · cases declared

section Upkeep
variable {s s' : State} {c : String} {schema : CollectionSchema}

namespace Upkept

theorem present (up : Upkept s) (known : s.schemas[c]? = some schema) :
    s.store.hasCollection c = true := by
  rw [up.synced.schemas] at known
  exact Store.hasCollection_of_stored known

theorem known_of_present (up : Upkept s) (present : s.store.hasCollection c = true) :
    ∃ schema, s.schemas[c]? = some schema := by
  rw [Store.hasCollection_eq, ← up.synced.schemas] at present
  exact Option.isSome_iff_exists.mp present

theorem openKey_listed (up : Upkept s) (known : s.schemas[c]? = some schema) {idx : StoredIndex}
    (there : idx ∈ schema.indexes) (e : Entity) :
    openKey s.fieldIndexes c idx e = listedKey schema idx e := by
  obtain ⟨types, declared, open_⟩ := up.current c schema known idx there
  rw [openKey, listedKey, declared, open_]

theorem openFor (up : Upkept s) (known : s.schemas[c]? = some schema) :
    OpenFor s.fieldIndexes c schema.indexes := by
  intro idx there
  obtain ⟨types, declared, open_⟩ := up.current c schema known idx there
  exact ⟨types, open_, (declaredTypes_some declared).2⟩

theorem within (up : Upkept s) (synced : Synced s') (known : s.schemas[c]? = some schema)
    (schemas : s'.schemas = s.schemas) (open_ : s'.fieldIndexes = s.fieldIndexes)
    (elsewhere : ∀ (c' : String) (id : LogicalId), c' ≠ c → s'.store.entities[(c', id)]? = s.store.entities[(c', id)]?)
    (exact : ∀ idx ∈ schema.indexes,
      SecondaryIndex.Exact (s'.store.indexPartition c idx.name) (s'.keyOf c schema idx))
    (others : ∀ c' index, (c' = c → index ∉ schema.indexes.map StoredIndex.name) →
      s'.store.indexPartition c' index = s.store.indexPartition c' index) : Upkept s' := by
  have collections : s'.store.collections = s.store.collections := by
    rw [← synced.schemas, ← up.synced.schemas, schemas]
  refine ⟨synced, ?_, ?_, ?_, ?_, ?_, ?_⟩
  · intro c' id e there
    rw [Store.hasCollection, collections]
    by_cases own : c' = c
    · rw [own]
      exact up.present known
    · rw [elsewhere c' id own] at there
      exact up.housed c' id e there
  · intro c' index key id there
    rw [collections]
    by_cases declared : c' = c ∧ index ∈ schema.indexes.map StoredIndex.name
    · obtain ⟨rfl, listed⟩ := declared
      exact ⟨schema, up.synced.schemas ▸ known, listed⟩
    · rw [others c' index fun own listed => declared ⟨own, listed⟩] at there
      exact up.placed c' index key id there
  · rw [open_, schemas]
    exact up.opened
  · rw [schemas]
    exact up.distinct
  · rw [open_, schemas]
    exact up.current
  · intro c' schema' known' idx there
    rw [schemas] at known'
    by_cases own : c' = c
    · subst own
      cases known.symm.trans known'
      exact exact idx there
    · rw [others c' idx.name fun same => absurd same own]
      refine (up.exact c' schema' known' idx there).congr fun id => ?_
      rw [State.keyOf, elsewhere c' id own]
      rfl

theorem untouched (up : Upkept s) (synced : Synced s') (schemas : s'.schemas = s.schemas)
    (open_ : s'.fieldIndexes = s.fieldIndexes) (entities : s'.store.entities = s.store.entities)
    (partitions : s'.store.fieldIndexes = s.store.fieldIndexes) : Upkept s' := by
  have collections : s'.store.collections = s.store.collections := by
    rw [← synced.schemas, ← up.synced.schemas, schemas]
  have partition (c index : String) : s'.store.indexPartition c index = s.store.indexPartition c index := by
    rw [Store.indexPartition, partitions]
    rfl
  refine ⟨synced, up.housed.same entities collections, ?_, ?_, ?_, ?_, ?_⟩
  · intro c index key id there
    rw [partition] at there
    rw [collections]
    exact up.placed c index key id there
  · rw [open_, schemas]
    exact up.opened
  · rw [schemas]
    exact up.distinct
  · rw [open_, schemas]
    exact up.current
  · intro c schema known idx there
    rw [schemas] at known
    rw [partition]
    refine (up.exact c schema known idx there).congr fun id => ?_
    rw [State.keyOf, entities]
    rfl

end Upkept

theorem keyOf_put {e : Entity} {idx : StoredIndex}
    (entities : s'.store.entities = s.store.entities.insert (c, e.id) e) (id : LogicalId) :
    s'.keyOf c schema idx id = if id = e.id then listedKey schema idx e else s.keyOf c schema idx id := by
  rw [State.keyOf, entities, FinMap.get_insert]
  by_cases own : id = e.id
  · rw [own, if_pos rfl, if_pos rfl]
    rfl
  · have other : ¬ (c, e.id) = (c, id) := fun same => own (Prod.mk.inj same).2.symm
    rw [if_neg other, if_neg own]
    rfl

theorem State.KeysApart.keyOf {e : Entity} (apart : s.KeysApart c schema e) {idx : StoredIndex}
    (there : idx ∈ schema.indexes) (i : LogicalId) (k : List UInt8) (other : i ≠ e.id)
    (key : listedKey schema idx e = some k) : s.keyOf c schema idx i ≠ some k := by
  intro same
  obtain ⟨e', stored, key'⟩ := Option.bind_eq_some_iff.mp same
  have own := s.store.keyed c i e' stored
  have listed : e' ∈ s.store.partition c := (s.store.mem_partition c e').mpr (own.symm ▸ stored)
  have none_ := apart idx there e' listed (own.symm ▸ other) (key'.trans key.symm)
  exact Option.some_ne_none k (key.symm.trans none_)

end Upkeep
end TronDB.Engine
