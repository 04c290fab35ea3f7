import TronDB.Engine.IndexKeys

/-! The write statements keep the field indexes exact under their conditions. -/
namespace TronDB.Engine
open TronDB.Core Binary Wal

variable [WalPayload Payload] {s : State}

/-! ### INSERT -/

omit [WalPayload Payload] in
theorem partition_removeOldEntries (env : Env) (up : Upkept s) {c : String} {schema : CollectionSchema}
    (known : s.schemas[c]? = some schema) (id : LogicalId) :
    (∀ idx ∈ schema.indexes, (s.removeOldEntries env c id).store.indexPartition c idx.name =
        SecondaryIndex.take (s.store.indexPartition c idx.name) (s.keyOf c schema idx id)) ∧
      ∀ c' index, (c' = c → index ∉ schema.indexes.map StoredIndex.name) →
        (s.removeOldEntries env c id).store.indexPartition c' index = s.store.indexPartition c' index := by
  have there := up.present known
  unfold State.removeOldEntries Store.get
  rw [if_pos there]
  cases stored : s.store.entities[(c, id)]? with
  | none =>
    refine ⟨fun idx _ => ?_, fun _ _ _ => rfl⟩
    rw [State.keyOf, stored]
    rfl
  | some old =>
    obtain ⟨changed, others⟩ := partition_removeFieldEntries c old (s.fieldIndexesOf env c)
      (distinct_fieldIndexesOf s env c) s.store
    constructor
    · intro idx listed
      obtain ⟨types, declared, open_⟩ := up.current c schema known idx listed
      rw [State.keyOf, stored, Option.bind_some, listedKey, declared]
      exact changed (idx.name, types) ((mem_fieldIndexesOf s env c (idx.name, types)).mpr open_)
    · intro c' index other
      refine others c' index fun own listed => ?_
      obtain ⟨⟨i, types⟩, open_, rfl⟩ := List.mem_map.mp listed
      obtain ⟨schema', known', named⟩ := up.opened c i types ((mem_fieldIndexesOf s env c _).mp open_)
      cases known.symm.trans known'
      exact other own named

theorem upkept_insert (env : Env) (up : Upkept s) (p : InsertPlan) (keeps : KeepsIndexes env s (.insert p)) :
    Upkept (insert env s p).2 := by
  have synced := (sameSchemas_insert env s p).synced up.synced
  cases insert_ends env s p with
  | refused error rejected result =>
    rw [result]
    exact up
  | unbuilt schema error known checked built result =>
    rw [result] at synced ⊢
    have none_ := keeps schema known checked
    rw [built] at none_
    obtain ⟨removed, others⟩ := partition_removeOldEntries env up known (p.target env)
    refine up.within synced known (by simp) (by simp) (fun _ _ _ => by simp) (fun idx there => ?_) others
    dsimp only
    rw [removed idx there, none_ idx there]
    refine (up.exact p.collection schema known idx there).congr fun id => ?_
    rw [State.keyOf, removeOldEntries_entities]
    rfl
  | unstored schema e known checked built absent result =>
    cases absent.symm.trans (up.present known)
  | stored schema e known checked built present wal left =>
    have apart := keeps schema known checked
    rw [built] at apart
    obtain ⟨reached, apart⟩ := apart
    have own : e.id = p.target env := id_of_built built
    obtain ⟨removed, others⟩ := partition_removeOldEntries env up known (p.target env)
    have entities := left.entities
    rw [removeOldEntries_entities] at entities
    obtain ⟨put, elsewhere⟩ := partition_insertFieldEntries p.collection { e with txTime := s.wal.nextTx }
      (s.fieldIndexesOf env p.collection) (distinct_fieldIndexesOf s env p.collection)
      ((s.removeOldEntries env p.collection (p.target env)).store.putEntity p.collection
        { e with txTime := s.wal.nextTx })
    have same : (s.removeOldEntries env p.collection (p.target env)).fieldIndexesOf env p.collection =
        s.fieldIndexesOf env p.collection := by
      unfold State.fieldIndexesOf
      rw [removeOldEntries_fieldIndexes]
    have store := left.store
    rw [same] at store
    refine up.within synced known ?_ ?_ ?_ ?_ ?_
    · rw [left.schemas, removeOldEntries_schemas]
    · rw [left.fieldIndexes, removeOldEntries_fieldIndexes]
    · intro c' id other
      rw [entities, FinMap.get_insert, if_neg fun same => other (Prod.mk.inj same).1.symm]
    · intro idx there
      obtain ⟨types, declared, open_⟩ := up.current _ schema known idx there
      have key : entryKey types { e with txTime := s.wal.nextTx } = listedKey schema idx e := by
        rw [listedKey, declared]
        rfl
      have listed := (mem_fieldIndexesOf s env p.collection (idx.name, types)).mpr open_
      have written := put (idx.name, types) listed
      dsimp only at written
      have replaced : (insert env s p).2.store.indexPartition p.collection idx.name =
          SecondaryIndex.put (SecondaryIndex.take (s.store.indexPartition p.collection idx.name)
            (s.keyOf p.collection schema idx e.id)) e.id (listedKey schema idx e) := by
        have before : ((s.removeOldEntries env p.collection (p.target env)).store.putEntity p.collection
            { e with txTime := s.wal.nextTx }).indexPartition p.collection idx.name =
            SecondaryIndex.take (s.store.indexPartition p.collection idx.name)
              (s.keyOf p.collection schema idx e.id) := by
          rw [own]
          exact removed idx there
        rw [store, written, before, key]
        split
        · rename_i behind
          rw [reached idx there (List.mem_map_of_mem behind)]
          rfl
        · rfl
      rw [replaced]
      refine ((up.exact _ schema known idx there).replace e.id fun i k other here => ?_).congr fun id => ?_
      · exact apart.keyOf there i k other here
      · rw [keyOf_put entities]
        rfl
    · intro c' index other
      rw [store, elsewhere c' index, ← others c' index other]
      · rfl
      · intro same listed
        obtain ⟨⟨i, types⟩, open_, rfl⟩ := List.mem_map.mp listed
        obtain ⟨schema', known', named⟩ := up.opened _ i types ((mem_fieldIndexesOf s env _ _).mp open_)
        cases known.symm.trans known'
        exact other same named

/-! ### UPDATE and DELETE -/

theorem updateEntity_found (env : Env) {p : UpdateEntityPlan} {schema : CollectionSchema} {old : Entity}
    (known : s.schemas[p.collection]? = some schema)
    (found : s.store.get p.collection p.entityId = .ok old) :
    (updateEntity env s p).2.store =
        (updateFieldEntries (s.store.putEntity p.collection (assign old p.assignments)) s.fieldIndexes
          p.collection old (assign old p.assignments) schema.indexes).2 ∧
      (updateEntity env s p).2.fieldIndexes = s.fieldIndexes := by
  have present := ((s.store.get_eq_ok ..).mp found).1
  have stored : s.store.insert p.collection (assign old p.assignments) =
      .ok (s.store.putEntity p.collection (assign old p.assignments)) := by
    rw [Store.insert, if_pos present]
  unfold updateEntity
  rw [found, known]
  dsimp only [State.logTx]
  rw [stored]
  dsimp only [Option.map_some, Option.getD_some]
  split
  · exact ⟨rfl, rfl⟩
  · unfold State.enqueue
    split <;> exact ⟨rfl, rfl⟩

theorem upkept_updateEntity (env : Env) (up : Upkept s) (p : UpdateEntityPlan)
    (keeps : KeepsIndexes env s (.updateEntity p)) : Upkept (updateEntity env s p).2 := by
  have synced := (sameSchemas_updateEntity env s p).synced up.synced
  have schemas := (sameSchemas_updateEntity env s p).schemas
  cases found : s.store.get p.collection p.entityId with
  | error e =>
    have same : (updateEntity env s p).2 = s := by
      unfold updateEntity
      rw [found]
    rw [same]
    exact up
  | ok old =>
    obtain ⟨present, stored⟩ := (s.store.get_eq_ok ..).mp found
    obtain ⟨schema, known⟩ := up.known_of_present present
    have own : old.id = p.entityId := s.store.keyed _ _ _ stored
    obtain ⟨reached, apart⟩ := keeps schema known old stored
    obtain ⟨store, open_⟩ := updateEntity_found env known found
    have id_ : (assign old p.assignments).id = old.id := rfl
    obtain ⟨changed, others⟩ := partition_updateFieldEntries (up.openFor known) id_
      (up.distinct _ schema known) (s.store.putEntity p.collection (assign old p.assignments))
    rw [← store] at changed others
    have entities : (updateEntity env s p).2.store.entities =
        s.store.entities.insert (p.collection, (assign old p.assignments).id) (assign old p.assignments) := by
      rw [store]
      exact congrArg Data.entities (data_updateFieldEntries _ _ _ _ _)
    have same_ : behindFailure (fun idx =>
          (openKey s.fieldIndexes p.collection idx (assign old p.assignments)).isNone) schema.indexes =
        behindFailure (fun idx => (listedKey schema idx (assign old p.assignments)).isNone) schema.indexes :=
      behindFailure_congr fun idx there => by rw [up.openKey_listed known there]
    rw [same_] at changed
    refine up.within synced known schemas open_ ?_ ?_ others
    · intro c' id other
      rw [entities, FinMap.get_insert, if_neg fun same => other (Prod.mk.inj same).1.symm]
    · intro idx there
      have before : s.keyOf p.collection schema idx (assign old p.assignments).id =
          listedKey schema idx old := by
        rw [id_, own, State.keyOf, stored]
        rfl
      have written := changed idx there
      rw [up.openKey_listed known there, up.openKey_listed known there, ← before] at written
      have exact := up.exact _ schema known idx there
      split at written
      · rename_i late
        have same := reached idx late
        rw [written]
        refine exact.congr fun id => ?_
        rw [keyOf_put entities]
        split
        · rename_i here
          rw [here, before, same]
        · rfl
      · rw [written]
        refine (exact.replace _ fun i k other here => ?_).congr fun id => ?_
        · exact apart.keyOf there i k other here
        · rw [keyOf_put entities]

theorem deleteEntity_store (env : Env) {p : DeleteEntityPlan} {schema : CollectionSchema} {e : Entity}
    (known : s.schemas[p.collection]? = some schema)
    (found : s.store.get p.collection p.entityId = .ok e) :
    (deleteEntity env s p).2.store.entities = s.store.entities.erase (p.collection, p.entityId) ∧
      (∀ c index, (deleteEntity env s p).2.store.indexPartition c index =
        (removeDeclaredEntries s.store s.fieldIndexes p.collection e schema.indexes).indexPartition c index) ∧
      (deleteEntity env s p).2.fieldIndexes = s.fieldIndexes := by
  have present := ((s.store.get_eq_ok ..).mp found).1
  have kept : (removeDeclaredEntries s.store s.fieldIndexes p.collection e schema.indexes).hasCollection
      p.collection = true := by
    have data := @data_removeDeclaredEntries p.collection s.fieldIndexes e schema.indexes s.store
    exact (congrArg (fun d => d.collections.contains p.collection) data).trans present
  have rest (edges : List (String × LogicalId × LogicalId)) (store : Store) :
      (edges.foldl (fun store e => store.deleteEdge e.1 e.2.1 e.2.2) store).fieldIndexes =
          store.fieldIndexes ∧
        (edges.foldl (fun store e => store.deleteEdge e.1 e.2.1 e.2.2) store).entities =
          store.entities := by
    induction edges generalizing store with
    | nil => exact ⟨rfl, rfl⟩
    | cons e rest ih => exact ih _
  unfold deleteEntity Store.deleteEntity
  rw [found]
  dsimp only [State.logTx]
  rw [known]
  dsimp only [Option.map_some, Option.getD_some]
  rw [if_pos kept]
  dsimp only
  refine ⟨?_, fun c index => ?_, rfl⟩
  · refine (rest _ _).2.trans ?_
    exact congrArg (fun d => d.entities.erase (p.collection, p.entityId))
      (@data_removeDeclaredEntries p.collection s.fieldIndexes e schema.indexes s.store)
  · have same := (rest (s.adjacency.edgesInvolving p.entityId)
      { removeDeclaredEntries s.store s.fieldIndexes p.collection e schema.indexes with
        entities := (removeDeclaredEntries s.store s.fieldIndexes p.collection e
          schema.indexes).entities.erase (p.collection, p.entityId)
        keyed := Store.keyed_erase _ p.collection p.entityId }).1
    exact congrArg (fun partitions => partitions[(c, index)]?.getD ∅) same

theorem upkept_deleteEntity (env : Env) (up : Upkept s) (p : DeleteEntityPlan) :
    Upkept (deleteEntity env s p).2 := by
  have synced := (sameSchemas_deleteEntity env s p).synced up.synced
  have schemas := (sameSchemas_deleteEntity env s p).schemas
  cases found : s.store.get p.collection p.entityId with
  | error e =>
    have same : (deleteEntity env s p).2 = s := by
      unfold deleteEntity
      rw [found]
    rw [same]
    exact up
  | ok e =>
    obtain ⟨present, stored⟩ := (s.store.get_eq_ok ..).mp found
    obtain ⟨schema, known⟩ := up.known_of_present present
    obtain ⟨entities, partition, open_⟩ := deleteEntity_store env known found
    obtain ⟨changed, others⟩ := partition_removeDeclaredEntries (up.openFor known) e
      (up.distinct _ schema known) s.store
    refine up.within synced known schemas open_ ?_ ?_ fun c' index other =>
      (partition c' index).trans (others c' index other)
    · intro c' id other
      rw [entities, FinMap.get_erase, if_neg fun same => other (Prod.mk.inj same).1.symm]
    · intro idx there
      have key : listedKey schema idx e = s.keyOf p.collection schema idx p.entityId := by
        rw [State.keyOf, stored]
        rfl
      rw [partition, changed idx there, up.openKey_listed known there, key]
      refine ((up.exact _ schema known idx there).take p.entityId).congr fun id => ?_
      rw [State.keyOf, entities, FinMap.get_erase]
      by_cases own : id = p.entityId
      · rw [own, if_pos rfl, if_pos rfl]
        rfl
      · rw [if_neg fun same => own (Prod.mk.inj same).2.symm, if_neg own]
        rfl

/-! ### IMPORT -/

omit [WalPayload Payload] in
theorem importRows_keys (env : Env) {c : String} {schema : CollectionSchema} (txId : Nat)
    (entities : List Entity) (t : State)
    (keys : ∀ idx ∈ schema.indexes, ∀ id, t.keyOf c schema idx id = s.keyOf c schema idx id)
    (keeps : ∀ e ∈ entities, ∀ idx ∈ schema.indexes, listedKey schema idx e = s.keyOf c schema idx e.id)
    {t' : State} (rows : t' = entities.foldl (fun t e => t.importRow env c txId e) t) :
    (∀ idx ∈ schema.indexes, ∀ id, t'.keyOf c schema idx id = s.keyOf c schema idx id) ∧
      (∀ (c' : String) (id : LogicalId), c' ≠ c →
        t'.store.entities[(c', id)]? = t.store.entities[(c', id)]?) ∧
      t'.store.fieldIndexes = t.store.fieldIndexes ∧ t'.fieldIndexes = t.fieldIndexes := by
  induction entities generalizing t with
  | nil =>
    subst rows
    exact ⟨keys, fun _ _ _ => rfl, rfl, rfl⟩
  | cons e rest ih =>
    rw [List.forall_mem_cons] at keeps
    have put (idx : StoredIndex) (id : LogicalId) : (t.importRow env c txId e).keyOf c schema idx id =
        if id = e.id then listedKey schema idx e else t.keyOf c schema idx id := keyOf_put rfl id
    have row (idx : StoredIndex) (there : idx ∈ schema.indexes) (id : LogicalId) :
        (t.importRow env c txId e).keyOf c schema idx id = s.keyOf c schema idx id := by
      rw [put]
      split
      · rename_i own
        rw [own]
        exact keeps.1 idx there
      · exact keys idx there id
    obtain ⟨kept, elsewhere, partitions, open_⟩ := ih (t.importRow env c txId e) row keeps.2 rows
    refine ⟨kept, fun c' id other => ?_, partitions, open_⟩
    rw [elsewhere c' id other]
    exact (Store.get_putEntity ..).trans (if_neg fun same => other (Prod.mk.inj same).1.symm)

theorem upkept_importCollection (env : Env) (up : Upkept s) (p : ImportPlan)
    (keeps : KeepsIndexes env s (.importCollection p)) : Upkept (importCollection env s p).2 := by
  have synced := (sameSchemas_importCollection env s p).synced up.synced
  have schemas := (sameSchemas_importCollection env s p).schemas
  cases known : s.schemas[p.collection]? with
  | none =>
    have same : (importCollection env s p).2 = s := by
      unfold importCollection
      rw [known]
    rw [same]
    exact up
  | some schema =>
    have keeps := keeps schema known
    cases read : env.importLines p.path with
    | error e =>
      have same : (importCollection env s p).2 = s := by
        unfold importCollection
        rw [known, read]
      rw [same]
      exact up
    | ok lines =>
      rw [read] at keeps
      have present : s.store.hasCollection p.collection = true := by
        rw [up.synced.schemas] at known
        exact Store.hasCollection_of_stored known
      obtain ⟨keys, elsewhere, partitions, open_⟩ := importRows_keys env s.wal.nextTx _
        { s with wal := s.wal.beginTx p.collection env.ts } (fun _ _ _ => rfl) keeps
        (importLoop_rows env s.wal.nextTx lines 0 present)
      have left : (importCollection env s p).2.store = (importLoop env p.collection s.wal.nextTx lines 0
            { s with wal := s.wal.beginTx p.collection env.ts }).2.store ∧
          (importCollection env s p).2.fieldIndexes = (importLoop env p.collection s.wal.nextTx lines 0
            { s with wal := s.wal.beginTx p.collection env.ts }).2.fieldIndexes := by
        unfold importCollection
        rw [known, read]
        dsimp only
        split
        · rename_i ran
          rw [ran]
          exact ⟨rfl, rfl⟩
        · rename_i ran
          rw [ran]
          exact ⟨rfl, rfl⟩
      have partition (c index : String) : (importCollection env s p).2.store.indexPartition c index =
          s.store.indexPartition c index := by
        rw [left.1, Store.indexPartition, partitions]
        rfl
      refine up.within synced known schemas (left.2.trans open_) ?_ ?_ fun c' index _ => partition c' index
      · rw [left.1]
        exact elsewhere
      · intro idx there
        rw [partition]
        refine (up.exact _ schema known idx there).congr fun id => ?_
        refine Eq.trans ?_ (keys idx there id)
        rw [State.keyOf, left.1]
        rfl

/-! ### ALTER COLLECTION -/

omit [WalPayload Payload] in
theorem insertAll_rest {collection : String} (entities : List Entity) {store : Store}
    (present : store.hasCollection collection = true) :
    (insertAll store collection entities).1 = .ok () ∧
      (insertAll store collection entities).2.fieldIndexes = store.fieldIndexes := by
  induction entities generalizing store with
  | nil => exact ⟨rfl, rfl⟩
  | cons e rest ih =>
    unfold insertAll Store.insert
    rw [if_pos present]
    exact ih present

/-- What an ALTER leaves, unless it is refused before it changes anything. -/
structure Altered (s s' : State) (p : AlterCollectionPlan) (schema : CollectionSchema) : Prop where
  checked : checkAlter schema p.collection p.operation = .ok ()
  schemas : s'.schemas = s.schemas.insert p.collection (alterSchema schema p.operation)
  fieldIndexes : s'.fieldIndexes = s.fieldIndexes
  partitions : s'.store.fieldIndexes = s.store.fieldIndexes
  entities : ∀ id : LogicalId, s'.store.entities[(p.collection, id)]? =
    s.store.entities[(p.collection, id)]?.map fun e => (alterEntity e p.operation).getD e
  elsewhere : ∀ (c : String) (id : LogicalId), c ≠ p.collection →
    s'.store.entities[(c, id)]? = s.store.entities[(c, id)]?

omit [WalPayload Payload] in
theorem fieldIndexes_alterMemory (s : State) (collection : String) (schema : CollectionSchema)
    (entities : List Entity) (op : SchemaAlterOp) :
    (s.alterMemory collection schema entities op).fieldIndexes = s.fieldIndexes := by
  unfold State.alterMemory
  repeat' split
  all_goals rfl

theorem alterCollection_ends (env : Env) (synced : Synced s) (p : AlterCollectionPlan) :
    (alterCollection env s p).2 = s ∨ ∃ schema, s.store.collections[p.collection]? = some schema ∧
      Altered s (alterCollection env s p).2 p schema := by
  unfold alterCollection Store.getCollectionSchema
  cases found : s.store.collections[p.collection]? with
  | none => exact .inl rfl
  | some schema =>
    have own := synced.named _ _ found
    have present : s.store.hasCollection p.collection = true := Store.hasCollection_of_stored found
    dsimp only
    rw [Store.scan, if_pos present]
    dsimp only
    cases checked : checkAlter schema p.collection p.operation with
    | error e => exact .inl rfl
    | ok =>
      refine .inr ⟨schema, rfl, ?_⟩
      dsimp only
      rw [alterMemory_store, store_logTx]
      generalize mutated : (s.store.partition p.collection).filterMap
        (fun e => alterEntity e p.operation) = es
      have altered : (s.store.updateCollectionSchema (alterSchema schema p.operation)).hasCollection
          p.collection = true := by
        unfold Store.updateCollectionSchema Store.hasCollection
        rw [Std.ExtTreeMap.contains_eq_isSome_getElem?, FinMap.get_insert, name_alterSchema, own, if_pos rfl]
        rfl
      obtain ⟨written, partitions⟩ := insertAll_rest es altered
      rw [written]
      dsimp only
      obtain ⟨-, rows⟩ := insertAll_entities (Prod.ext written rfl)
      refine ⟨checked, ?_, ?_, partitions, fun id => ?_, fun c id other => ?_⟩
      · rw [(sameSchemas_alterMemory _ _ _ _ _).schemas]
        rfl
      · exact fieldIndexes_alterMemory _ _ _ _ _
      · rw [rows, ← mutated]
        exact get_altered s.store p.collection p.operation id
      · rw [rows]
        refine FinMap.get_insertAll_absent _ _ fun there => ?_
        rw [List.map_map] at there
        obtain ⟨e, -, same⟩ := List.mem_map.mp there
        exact other (Prod.mk.inj same).1.symm

section AlteredKeys
omit [WalPayload Payload]
variable {schema : CollectionSchema} {idx : StoredIndex}

theorem declaredTypes_congr {schema' : CollectionSchema}
    (names : ∀ f ∈ idx.fields, f ∈ fieldNames schema' ↔ f ∈ fieldNames schema)
    (fields : ∀ f ∈ idx.fields, (schema'.fields.find? fun sf => sf.name = f) =
      schema.fields.find? fun sf => sf.name = f) :
    declaredTypes schema' idx = declaredTypes schema idx := by
  have types : schema'.fieldTypes idx = schema.fieldTypes idx := by
    unfold CollectionSchema.fieldTypes
    exact List.filterMap_congr fun f there => by rw [fields f there]
  unfold declaredTypes
  rw [types]
  simp only [forall₂_congr names]

theorem entryKey_congr {types : List (String × FieldType)} {e e' : Entity} (id_ : e'.id = e.id)
    (values : ∀ t ∈ types, e'.metadata[t.1]? = e.metadata[t.1]?) : entryKey types e' = entryKey types e := by
  have same : indexedValues types e' = indexedValues types e :=
    List.filterMap_congr fun t there => values t there
  unfold entryKey
  rw [same, id_]

theorem find_modifyFirst {fields : List StoredField} {oldName newName f : String} (other : f ≠ oldName)
    (new : f ≠ newName) :
    ((modifyFirst (fun sf => sf.name = oldName) (fun sf : StoredField => { sf with name := newName })
      fields).find? fun sf => sf.name = f) = fields.find? fun sf => sf.name = f := by
  induction fields with
  | nil => rfl
  | cons sf rest ih =>
    unfold modifyFirst
    by_cases here : sf.name = oldName
    · have missed : ¬ sf.name = f := fun same => other (same.symm.trans here)
      rw [if_pos (decide_eq_true here)]
      simp only [List.find?_cons, missed, Ne.symm new, decide_false]
    · rw [if_neg (by simpa using here), List.find?_cons, List.find?_cons, ih]

theorem mem_modifyFirst {fields : List StoredField} {oldName newName f : String} (other : f ≠ oldName)
    (new : f ≠ newName) :
    f ∈ (modifyFirst (fun sf => sf.name = oldName) (fun sf : StoredField => { sf with name := newName })
      fields).map StoredField.name ↔ f ∈ fields.map StoredField.name := by
  have both (fields : List StoredField) : f ∈ fields.map StoredField.name ↔
      (fields.find? fun sf => sf.name = f).isSome = true := by
    rw [List.find?_isSome, List.mem_map]
    simp
  rw [both, both, find_modifyFirst other new]

/-- The operation renames to the same name, or neither renames nor drops a field of the index. -/
def SparesIndex (idx : StoredIndex) : SchemaAlterOp → Prop
  | .renameField oldName newName => oldName = newName ∨ oldName ∉ idx.fields ∧ newName ∉ idx.fields
  | .dropField fieldName => fieldName ∉ idx.fields
  | _ => True

theorem modifyFirst_same (fields : List StoredField) (name : String) :
    modifyFirst (fun sf => sf.name = name) (fun sf : StoredField => { sf with name }) fields = fields := by
  induction fields with
  | nil => rfl
  | cons sf rest ih =>
    unfold modifyFirst
    split
    · rename_i here
      rw [← of_decide_eq_true here]
    · rw [ih]

theorem declaredTypes_altered {op : SchemaAlterOp} (spares : SparesIndex idx op) :
    declaredTypes (alterSchema schema op) idx = declaredTypes schema idx := by
  cases op with
  | renameField oldName newName =>
    rcases spares with rfl | ⟨old, new⟩
    · have same : alterSchema schema (.renameField oldName oldName) = schema := by
        rw [alterSchema, modifyFirst_same]
      rw [same]
    · refine declaredTypes_congr (fun f there => ?_) fun f there => ?_
      · exact mem_modifyFirst (fun same => old (same ▸ there)) fun same => new (same ▸ there)
      · exact find_modifyFirst (fun same => old (same ▸ there)) fun same => new (same ▸ there)
  | dropField fieldName =>
    have kept (sf : StoredField) (f : String) (there : f ∈ idx.fields) (named : sf.name = f) :
        sf.name ≠ fieldName := fun same => spares (same ▸ named ▸ there)
    refine declaredTypes_congr (fun f there => ?_) fun f there => ?_
    · unfold fieldNames alterSchema
      rw [List.mem_map, List.mem_map]
      constructor
      · rintro ⟨sf, listed, named⟩
        exact ⟨sf, (List.mem_filter.mp listed).1, named⟩
      · rintro ⟨sf, listed, named⟩
        exact ⟨sf, List.mem_filter.mpr ⟨listed, decide_eq_true (kept sf f there named)⟩, named⟩
    · unfold alterSchema
      dsimp only
      rw [List.find?_filter]
      refine congrArg (List.find? · schema.fields) (funext fun sf => ?_)
      by_cases named : sf.name = f
      · have other : sf.name ≠ fieldName := kept sf f there named
        simp [named ▸ other, named]
      · simp [named]
  | _ => rfl

theorem entryKey_altered {op : SchemaAlterOp} (spares : SparesIndex idx op)
    {types : List (String × FieldType)} (fields : types.map Prod.fst = idx.fields) (e : Entity) :
    entryKey types ((alterEntity e op).getD e) = entryKey types e := by
  cases altered : alterEntity e op with
  | none => rfl
  | some e' =>
    refine entryKey_congr (id_alterEntity altered) fun t there => ?_
    have listed : t.1 ∈ idx.fields := fields ▸ List.mem_map_of_mem there
    cases op with
    | renameField oldName newName =>
      obtain ⟨value, old, rfl⟩ := Option.map_eq_some_iff.mp altered
      dsimp only [Option.getD_some]
      rw [FinMap.get_insert, FinMap.get_erase]
      rcases spares with rfl | ⟨gone, new⟩
      · split
        · rename_i here
          rw [← here, old]
        · rfl
      · rw [if_neg fun same : newName = t.1 => new (same ▸ listed),
          if_neg fun same : oldName = t.1 => gone (same ▸ listed)]
    | dropField fieldName =>
      obtain ⟨value, -, rfl⟩ := Option.map_eq_some_iff.mp altered
      dsimp only [Option.getD_some]
      rw [FinMap.get_erase, if_neg fun same : fieldName = t.1 => spares (same ▸ listed)]
    | _ => cases altered

theorem indexes_alterSchema (schema : CollectionSchema) (op : SchemaAlterOp) :
    (alterSchema schema op).indexes = schema.indexes := by
  cases op <;> rfl

end AlteredKeys

omit [WalPayload Payload] in
theorem spares_altered {s' : State} {p : AlterCollectionPlan} {schema : CollectionSchema} {env : Env}
    (altered : Altered s s' p schema) (known : s.schemas[p.collection]? = some schema)
    (keeps : KeepsIndexes env s (.alterCollection p)) :
    ∀ idx ∈ schema.indexes, SparesIndex idx p.operation := by
  have kept := keeps schema known
  have checked := altered.checked
  intro idx there
  cases op : p.operation with
  | renameField oldName newName =>
    rw [op] at kept checked
    have declared : oldName ∈ fieldNames schema := by
      by_contra missing
      have absent : ¬ schema.fields.any (fun f => f.name = oldName) = true := by
        intro some_
        obtain ⟨f, listed, named⟩ := List.any_eq_true.mp some_
        exact missing (List.mem_map.mpr ⟨f, listed, of_decide_eq_true named⟩)
      rw [checkAlter, if_neg absent] at checked
      cases checked
    exact (kept declared).imp_right fun all => all idx there
  | dropField fieldName =>
    rw [op] at kept
    exact kept idx there
  | _ => trivial

section Altered
variable {s' : State} {p : AlterCollectionPlan} {schema : CollectionSchema}
  (altered : Altered s s' p schema)

include altered

omit [WalPayload Payload]

theorem Altered.schemaOf (c : String) : s'.schemas[c]? =
    if p.collection = c then some (alterSchema schema p.operation) else s.schemas[c]? := by
  rw [altered.schemas, FinMap.get_insert]

theorem Altered.partition (c index : String) :
    s'.store.indexPartition c index = s.store.indexPartition c index := by
  rw [Store.indexPartition, altered.partitions]
  rfl

theorem Altered.names (known : s.schemas[p.collection]? = some schema) {c index : String}
    (before : ∃ schema, s.schemas[c]? = some schema ∧ index ∈ schema.indexes.map StoredIndex.name) :
    ∃ schema', s'.schemas[c]? = some schema' ∧ index ∈ schema'.indexes.map StoredIndex.name := by
  obtain ⟨old, known', listed⟩ := before
  rw [altered.schemaOf]
  by_cases own : p.collection = c
  · subst own
    cases known.symm.trans known'
    rw [if_pos rfl]
    exact ⟨_, rfl, (indexes_alterSchema schema p.operation).symm ▸ listed⟩
  · rw [if_neg own]
    exact ⟨old, known', listed⟩

theorem Altered.stored {c : String} {id : LogicalId} {e : Entity}
    (there : s'.store.entities[(c, id)]? = some e) : ∃ e', s.store.entities[(c, id)]? = some e' := by
  by_cases own : c = p.collection
  · subst own
    rw [altered.entities] at there
    obtain ⟨e', stored, -⟩ := Option.map_eq_some_iff.mp there
    exact ⟨e', stored⟩
  · rw [altered.elsewhere c id own] at there
    exact ⟨e, there⟩

end Altered

theorem upkept_alterCollection (env : Env) (up : Upkept s) (p : AlterCollectionPlan)
    (keeps : KeepsIndexes env s (.alterCollection p)) : Upkept (alterCollection env s p).2 := by
  have synced := @synced_alterCollection _ env _ up.synced p
  rcases alterCollection_ends env up.synced p with same | ⟨schema, found, altered⟩
  · rw [same]
    exact up
  · have known : s.schemas[p.collection]? = some schema := up.synced.schemas ▸ found
    have spares := spares_altered altered known keeps
    refine ⟨synced, ?_, ?_, ?_, ?_, ?_, ?_⟩
    · intro c id e there
      obtain ⟨e', stored⟩ := altered.stored there
      obtain ⟨old, known'⟩ := up.known_of_present (up.housed c id e' stored)
      rw [Store.hasCollection, ← synced.schemas, Std.ExtTreeMap.contains_eq_isSome_getElem?,
        altered.schemaOf]
      split
      · rfl
      · rw [known']
        rfl
    · intro c index key id there
      rw [altered.partition] at there
      rw [← synced.schemas]
      exact altered.names known (up.synced.schemas ▸ up.placed c index key id there)
    · intro c index types there
      rw [altered.fieldIndexes] at there
      exact altered.names known (up.opened c index types there)
    · intro c other there
      rw [altered.schemaOf] at there
      split at there
      · cases there
        rw [indexes_alterSchema]
        exact up.distinct _ schema known
      · exact up.distinct c other there
    · intro c other there idx listed
      rw [altered.fieldIndexes]
      rw [altered.schemaOf] at there
      split at there
      · rename_i own
        cases there
        rw [indexes_alterSchema] at listed
        rw [declaredTypes_altered (spares idx listed), ← own]
        exact up.current _ schema known idx listed
      · exact up.current c other there idx listed
    · intro c other there idx listed
      rw [altered.partition]
      rw [altered.schemaOf] at there
      split at there
      · rename_i own
        cases there
        subst own
        rw [indexes_alterSchema] at listed
        refine (up.exact _ schema known idx listed).congr fun id => ?_
        obtain ⟨types, declared, -⟩ := up.current _ schema known idx listed
        rw [State.keyOf, altered.entities]
        unfold State.keyOf
        cases s.store.entities[(p.collection, id)]? with
        | none => rfl
        | some e =>
          unfold listedKey
          rw [declaredTypes_altered (spares idx listed), declared]
          exact entryKey_altered (spares idx listed) (declaredTypes_some declared).2 e
      · rename_i own
        refine (up.exact c other there idx listed).congr fun id => ?_
        rw [State.keyOf, altered.elsewhere c id (Ne.symm own)]
        rfl

end TronDB.Engine
