import TronDB.Engine.IndexSchemas

/-! What replay leaves of the field indexes: entries only go, and no index is open behind it. -/
namespace TronDB.Engine
open TronDB.Core Binary Wal

/-- Entities and entries are in collections that are there. -/
structure Tidy (store : Store) : Prop where
  housed : Housed store
  placed : ∀ (c index : String) (key : List UInt8) (id : LogicalId),
    (store.indexPartition c index)[key]? = some id →
      ∃ schema, store.collections[c]? = some schema ∧ index ∈ schema.indexes.map StoredIndex.name

/-- A state in the middle of a replay that began with this store. -/
structure Unindexed (before : Store) (s : State) : Prop where
  replaying : Replaying s
  tidy : Tidy s.store
  listed : ∀ (c index : String) (key : List UInt8) (id : LogicalId),
    (s.store.indexPartition c index)[key]? = some id → (before.indexPartition c index)[key]? = some id
  closed : s.fieldIndexes = ∅

section Replay
variable {before : Store} {s : State}

/-- A record that takes no collection away and leaves the entries alone. -/
theorem Unindexed.grown {s' : State} (unindexed : Unindexed before s) (replaying : Replaying s')
    (memory : s'.fieldIndexes = s.fieldIndexes)
    (entities : ∀ (c : String) (id : LogicalId) (e : Entity), s'.store.entities[(c, id)]? = some e →
      s.store.hasCollection c = true)
    (collections : ∀ (c : String) (schema : CollectionSchema), s.store.collections[c]? = some schema →
      ∃ schema', s'.store.collections[c]? = some schema' ∧ schema'.indexes = schema.indexes)
    (partitions : s'.store.fieldIndexes = s.store.fieldIndexes) : Unindexed before s' := by
  have partition (c index : String) : s'.store.indexPartition c index = s.store.indexPartition c index := by
    rw [Store.indexPartition, partitions]
    rfl
  refine ⟨replaying, ⟨fun c id e there => ?_, fun c index key id there => ?_⟩,
    fun c index key id there => ?_, memory.trans unindexed.closed⟩
  · have present := entities c id e there
    rw [Store.hasCollection_eq] at present ⊢
    obtain ⟨schema, known⟩ := Option.isSome_iff_exists.mp present
    obtain ⟨schema', known', -⟩ := collections c schema known
    rw [known']
    rfl
  · rw [partition] at there
    obtain ⟨schema, known, listed⟩ := unindexed.tidy.placed c index key id there
    obtain ⟨schema', known', same⟩ := collections c schema known
    exact ⟨schema', known', same ▸ listed⟩
  · rw [partition] at there
    exact unindexed.listed c index key id there

theorem Unindexed.rows {s' : State} (unindexed : Unindexed before s) (replaying : Replaying s')
    (memory : s'.fieldIndexes = s.fieldIndexes)
    (entities : ∀ (c : String) (id : LogicalId) (e : Entity), s'.store.entities[(c, id)]? = some e →
      s.store.hasCollection c = true)
    (collections : s'.store.collections = s.store.collections)
    (partitions : s'.store.fieldIndexes = s.store.fieldIndexes) : Unindexed before s' :=
  unindexed.grown replaying memory entities (fun _ schema known => ⟨schema, collections ▸ known, rfl⟩)
    partitions

theorem Unindexed.dropped {s' : State} {name : String} (unindexed : Unindexed before s)
    (replaying : Replaying s') (memory : s'.fieldIndexes = s.fieldIndexes.filter fun k _ => k.1 ≠ name)
    (store : s'.store = replayDrop s.store name) : Unindexed before s' := by
  have closed : s'.fieldIndexes = ∅ := by
    rw [memory, unindexed.closed]
    refine FinMap.ext fun k => ?_
    rw [FinMap.get_filter]
    simp
  unfold replayDrop Store.dropCollection Store.getCollectionSchema at store
  cases known : s.store.collections[name]? with
  | none =>
    rw [known] at store
    exact ⟨replaying, store ▸ unindexed.tidy, store ▸ unindexed.listed, closed⟩
  | some dropped =>
    rw [known] at store
    dsimp only at store
    have kept (c : String) (id : LogicalId) (e : Entity) (there : s'.store.entities[(c, id)]? = some e) :
        c ≠ name ∧ s.store.entities[(c, id)]? = some e := by
      rw [store, FinMap.get_filterKeys s.store.entities (fun k => k.1 ≠ name) (c, id)] at there
      split at there
      · rename_i other
        exact ⟨other, there⟩
      · cases there
    have collections (c : String) : s'.store.collections[c]? =
        if name = c then none else s.store.collections[c]? := by
      rw [store, FinMap.get_erase]
    have partition (c index : String) (key : List UInt8) (id : LogicalId)
        (there : (s'.store.indexPartition c index)[key]? = some id) :
        ¬ (c = name ∧ index ∈ dropped.indexes.map StoredIndex.name) ∧
          (s.store.indexPartition c index)[key]? = some id := by
      rw [store] at there
      unfold Store.indexPartition at there
      dsimp only at there
      rw [FinMap.get_filterKeys s.store.fieldIndexes
        (fun k => ¬ (k.1 = name ∧ k.2 ∈ dropped.indexes.map StoredIndex.name)) (c, index)] at there
      split at there
      · rename_i other
        exact ⟨other, there⟩
      · simp at there
    refine ⟨replaying, ⟨fun c id e there => ?_, fun c index key id there => ?_⟩,
      fun c index key id there => unindexed.listed c index key id (partition c index key id there).2, closed⟩
    · obtain ⟨other, stored⟩ := kept c id e there
      rw [Store.hasCollection_eq, collections,
        if_neg (Ne.symm other), ← Std.ExtTreeMap.contains_eq_isSome_getElem?]
      exact unindexed.tidy.housed c id e stored
    · obtain ⟨other, there⟩ := partition c index key id there
      obtain ⟨schema, known', listed⟩ := unindexed.tidy.placed c index key id there
      refine ⟨schema, ?_, listed⟩
      rw [collections, if_neg, known']
      rintro rfl
      cases known.symm.trans known'
      exact other ⟨rfl, listed⟩

theorem entities_replayEntity (store : Store) (housed : Housed store) (collection : String) (e : Entity)
    (c : String) (id : LogicalId) (e' : Entity)
    (there : (replayEntity store collection e).entities[(c, id)]? = some e') :
    store.hasCollection c = true := by
  unfold replayEntity at there
  split at there
  · rename_i present
    rw [Store.get_putEntity] at there
    split at there
    · rename_i same
      exact (Prod.mk.inj same).1 ▸ present
    · exact housed c id e' there
  · exact housed c id e' there

theorem entities_replayDelete (store : Store) (collection : String) (erased : LogicalId) (c : String)
    (id : LogicalId) (e : Entity)
    (there : (replayDelete store erased collection).entities[(c, id)]? = some e) :
    store.entities[(c, id)]? = some e := by
  unfold replayDelete Store.deleteEntity Store.deleteFromTier at there
  cases present : store.hasCollection collection with
  | false =>
    rw [present, if_neg Bool.false_ne_true] at there
    exact there
  | true =>
    rw [present, if_pos rfl] at there
    dsimp only at there
    rw [FinMap.get_erase] at there
    split at there
    · cases there
    · exact there

theorem partitions_replayDelete (store : Store) (collection : String) (erased : LogicalId) :
    (replayDelete store erased collection).fieldIndexes = store.fieldIndexes := by
  unfold replayDelete Store.deleteEntity Store.deleteFromTier
  cases store.hasCollection collection <;> rfl

theorem unindexed_alter (unindexed : Unindexed before s) (r : WalRecord Payload) {collection : String}
    {op : SchemaAlterOp} (type : r.recordType = .schemaAlter)
    (payload : r.payload = .schemaAlter collection op) : Unindexed before (replayRecord s r) := by
  have replaying := replaying_record unindexed.replaying r
  have left : (replayRecord s r).store = replayAlter s.store collection op := by
    unfold replayRecord replayStore
    rw [type, payload]
    rfl
  have memory : (replayRecord s r).fieldIndexes = s.fieldIndexes := by
    unfold replayRecord State.replayMemory State.replayIndexes
    rw [type, payload]
    dsimp only
    repeat' split
    all_goals rfl
  refine unindexed.grown replaying memory ?_ ?_ ?_
  · intro c id e there
    refine unindexed.tidy.housed c id e ?_
    rw [left] at there
    unfold replayAlter at there
    split at there
    · split at there <;> exact there
    · exact there
  · intro c schema known
    rw [left]
    unfold replayAlter
    split
    · rename_i altered found
      have own := unindexed.replaying.schemas.named collection altered found
      split
      · rw [Store.updateCollectionSchema, name_alterSchema, own]
        dsimp only
        rw [FinMap.get_insert]
        split
        · rename_i same
          subst same
          cases found.symm.trans known
          exact ⟨_, rfl, indexes_alterSchema schema op⟩
        · exact ⟨schema, known, rfl⟩
      · exact ⟨schema, known, rfl⟩
    · exact ⟨schema, known, rfl⟩
  · rw [left]
    unfold replayAlter
    split
    · split <;> rfl
    · rfl

theorem unindexed_record (unindexed : Unindexed before s) (r : WalRecord Payload) :
    Unindexed before (replayRecord s r) := by
  have replaying := replaying_record unindexed.replaying r
  have housed := unindexed.tidy.housed
  obtain ⟨lsn, ts, txId, recordType, schemaVer, collection, payload⟩ := r
  cases recordType <;> try exact unindexed.rows replaying rfl housed rfl rfl
  all_goals cases payload <;> try exact unindexed.rows replaying rfl housed rfl rfl
  case entityWrite.entity e | reprWrite.entity e =>
    have entities := entities_replayEntity s.store housed collection e
    refine unindexed.rows replaying rfl entities ?_ ?_
    all_goals
      unfold replayRecord replayStore replayEntry replayEntity
      dsimp only
      split <;> rfl
  case entityDelete.entityDelete id c =>
    have entities := entities_replayDelete s.store c id
    refine unindexed.rows replaying rfl (fun c' id' e there => housed c' id' e (entities c' id' e there)) ?_
      (partitions_replayDelete s.store c id)
    exact (rows_replayDelete s.store id c).1
  case edgeWrite.edge e | edgeConfirm.edge e | edgeConfidenceUpdate.edge e | edgeInferred.edge e =>
    have same : (replayEdge s.store e).entities = s.store.entities ∧
        (replayEdge s.store e).fieldIndexes = s.store.fieldIndexes := by
      unfold replayEdge
      split <;> exact ⟨rfl, rfl⟩
    refine unindexed.rows replaying rfl (fun c id e' there => housed c id e' ?_)
      (rows_replayEdge s.store e).1 same.2
    exact same.1 ▸ there
  case schemaCreateColl.schema schema =>
    unfold replayRecord replayStore replayEntry at replaying ⊢
    dsimp only at replaying ⊢
    split at replaying
    · rename_i present
      rw [if_pos present]
      exact unindexed.rows replaying rfl housed rfl rfl
    · rename_i absent
      rw [if_neg absent]
      refine unindexed.grown replaying rfl housed (fun c other known => ⟨other, ?_, rfl⟩) rfl
      rw [Store.updateCollectionSchema, FinMap.get_insert, if_neg, known]
      rintro rfl
      rw [Store.hasCollection_eq, known] at absent
      exact absent rfl
  case schemaCreateEdgeType.edgeType | schemaDropEdgeType.name =>
    unfold replayRecord replayStore replayEntry at replaying ⊢
    dsimp only at replaying ⊢
    split at replaying <;> rename_i present
    · rw [if_pos present]
      exact unindexed.rows replaying rfl housed rfl rfl
    · rw [if_neg present]
      exact unindexed.rows replaying rfl housed rfl rfl
  case schemaDropColl.name name => exact unindexed.dropped replaying rfl rfl
  case schemaAlter.schemaAlter c op => exact unindexed_alter unindexed _ rfl rfl

end Replay

/-! ### The indexes opened again -/

section Reopening

theorem reopenFieldIndexes_insertAll {schema : CollectionSchema} {collection : String}
    (distinct : (schema.indexes.map StoredIndex.name).Nodup) {fieldIndexes : FieldIndexes}
    (closed : ∀ index : String, fieldIndexes[(collection, index)]? = none) :
    reopenFieldIndexes fieldIndexes schema collection = FinMap.insertAll fieldIndexes
      (schema.indexes.map fun idx => ((collection, idx.name), schema.fieldTypes idx)) := by
  replace closed : ∀ index ∈ schema.indexes.map StoredIndex.name,
      fieldIndexes[(collection, index)]? = none := fun index _ => closed index
  rw [FinMap.insertAll, List.foldl_map]
  unfold reopenFieldIndexes
  generalize schema.indexes = indexes at distinct closed
  induction indexes generalizing fieldIndexes with
  | nil => rfl
  | cons idx rest ih =>
    rw [List.map_cons, List.nodup_cons] at distinct
    rw [List.map_cons, List.forall_mem_cons] at closed
    have absent : ¬ fieldIndexes.contains (collection, idx.name) = true := by
      rw [Std.ExtTreeMap.contains_eq_isSome_getElem?, closed.1]
      exact Bool.false_ne_true
    rw [List.foldl_cons, List.foldl_cons, if_neg absent]
    refine ih distinct.2 fun index there => ?_
    have other : ¬ (collection, idx.name) = (collection, index) :=
      fun same => distinct.1 ((Prod.mk.inj same).2 ▸ there)
    rw [FinMap.get_insert, if_neg other]
    exact closed.2 index there

namespace Opening

variable (snapshots : HnswSnapshots)

theorem fieldIndexes_rebuildEntities (collection : String) (entities : List Entity) (o : Opening) :
    (entities.foldl (rebuildEntity collection) o).state.fieldIndexes = o.state.fieldIndexes := by
  induction entities generalizing o with
  | nil => rfl
  | cons e rest ih => exact ih (o.rebuildEntity collection e)

theorem partition_rebuildEntities (collection : String) (entities : List Entity) (o : Opening) :
    (∀ index types, o.state.fieldIndexes[(collection, index)]? = some types →
      (entities.foldl (rebuildEntity collection) o).state.store.indexPartition collection index =
        entities.foldl (fun m e => SecondaryIndex.put m e.id (entryKey types e))
          (o.state.store.indexPartition collection index)) ∧
      ∀ c index, (c = collection → o.state.fieldIndexes[(collection, index)]? = none) →
        (entities.foldl (rebuildEntity collection) o).state.store.indexPartition c index =
          o.state.store.indexPartition c index := by
  induction entities generalizing o with
  | nil => exact ⟨fun _ _ _ => rfl, fun _ _ _ => rfl⟩
  | cons e rest ih =>
    obtain ⟨put, others⟩ := partition_rebuildFieldEntries o.state.fieldIndexes collection e o.state.store
    obtain ⟨later, elsewhere⟩ := ih (o.rebuildEntity collection e)
    constructor
    · intro index types open_
      have first : (o.rebuildEntity collection e).state.store.indexPartition collection index =
          SecondaryIndex.put (o.state.store.indexPartition collection index) e.id (entryKey types e) :=
        put index types open_
      rw [List.foldl_cons, List.foldl_cons, later index types open_, first]
    · intro c index closed
      rw [List.foldl_cons, elsewhere c index closed]
      exact others c index closed

theorem fields_openCollection (o : Opening) {collection : String} {schema : CollectionSchema}
    (known : o.state.schemas[collection]? = some schema)
    (present : o.state.store.hasCollection collection = true)
    (distinct : (schema.indexes.map StoredIndex.name).Nodup)
    (closed : ∀ index : String, o.state.fieldIndexes[(collection, index)]? = none) :
    (∀ idx ∈ schema.indexes,
      (openCollection snapshots o collection).state.fieldIndexes[(collection, idx.name)]? =
          some (schema.fieldTypes idx) ∧
        (openCollection snapshots o collection).state.store.indexPartition collection idx.name =
          (o.state.store.partition collection).foldl
            (fun m e => SecondaryIndex.put m e.id (entryKey (schema.fieldTypes idx) e))
            (o.state.store.indexPartition collection idx.name)) ∧
      ∀ c index, (c = collection → index ∉ schema.indexes.map StoredIndex.name) →
        (openCollection snapshots o collection).state.fieldIndexes[(c, index)]? =
            o.state.fieldIndexes[(c, index)]? ∧
          (openCollection snapshots o collection).state.store.indexPartition c index =
            o.state.store.indexPartition c index := by
  have store := store_openIndexes snapshots o collection
  have scanned : (o.openIndexes snapshots collection).state.store.scan collection =
      .ok (o.state.store.partition collection) := by
    rw [store, Store.scan, if_pos present]
  have opened : (o.openIndexes snapshots collection).state.fieldIndexes = FinMap.insertAll
      o.state.fieldIndexes (schema.indexes.map fun idx => ((collection, idx.name), schema.fieldTypes idx)) := by
    rw [← reopenFieldIndexes_insertAll distinct closed]
    unfold openIndexes
    rw [known]
  have pairs : ((schema.indexes.map fun idx =>
      ((collection, idx.name), schema.fieldTypes idx)).map Prod.fst).Nodup := by
    have pairs := distinct.map (f := fun name => (collection, name)) fun a b same => (Prod.mk.inj same).2
    rw [List.map_map] at pairs ⊢
    exact pairs
  have absent (c index : String) (other : c = collection → index ∉ schema.indexes.map StoredIndex.name) :
      (o.openIndexes snapshots collection).state.fieldIndexes[(c, index)]? =
        o.state.fieldIndexes[(c, index)]? := by
    rw [opened]
    refine FinMap.get_insertAll_absent _ _ fun there => ?_
    rw [List.map_map] at there
    obtain ⟨idx, listed, same⟩ := List.mem_map.mp there
    obtain ⟨own, name⟩ := Prod.mk.inj same
    exact other own.symm (name ▸ List.mem_map_of_mem listed)
  obtain ⟨filled, others⟩ := partition_rebuildEntities collection (o.state.store.partition collection)
    (o.openIndexes snapshots collection)
  have memory := fieldIndexes_rebuildEntities collection (o.state.store.partition collection)
    (o.openIndexes snapshots collection)
  rw [store] at filled others
  unfold openCollection
  dsimp only
  rw [scanned]
  dsimp only
  rw [memory]
  constructor
  · intro idx listed
    have open_ : (o.openIndexes snapshots collection).state.fieldIndexes[(collection, idx.name)]? =
        some (schema.fieldTypes idx) := by
      rw [opened]
      exact FinMap.get_insertAll _ _ pairs ((collection, idx.name), schema.fieldTypes idx)
        (List.mem_map_of_mem listed)
    exact ⟨open_, filled idx.name _ open_⟩
  · intro c index other
    refine ⟨absent c index other, others c index fun own => ?_⟩
    rw [absent collection index fun _ => other own]
    exact closed index

/-- The collections opened one after the other: each index has been filled once. -/
theorem fields_openCollections (names : List String) (o : Opening) (once : names.Nodup)
    (known : ∀ name ∈ names, ∃ schema, o.state.schemas[name]? = some schema ∧
      (schema.indexes.map StoredIndex.name).Nodup)
    (present : ∀ name ∈ names, o.state.store.hasCollection name = true)
    (closed : ∀ c index : String, c ∈ names → o.state.fieldIndexes[(c, index)]? = none) :
    (∀ c ∈ names, ∀ schema, o.state.schemas[c]? = some schema → ∀ idx ∈ schema.indexes,
      (names.foldl (openCollection snapshots) o).state.fieldIndexes[(c, idx.name)]? =
          some (schema.fieldTypes idx) ∧
        (names.foldl (openCollection snapshots) o).state.store.indexPartition c idx.name =
          (o.state.store.partition c).foldl
            (fun m e => SecondaryIndex.put m e.id (entryKey (schema.fieldTypes idx) e))
            (o.state.store.indexPartition c idx.name)) ∧
      ∀ c index, (∀ schema, c ∈ names → o.state.schemas[c]? = some schema →
          index ∉ schema.indexes.map StoredIndex.name) →
        (names.foldl (openCollection snapshots) o).state.fieldIndexes[(c, index)]? =
            o.state.fieldIndexes[(c, index)]? ∧
          (names.foldl (openCollection snapshots) o).state.store.indexPartition c index =
            o.state.store.indexPartition c index := by
  induction names generalizing o with
  | nil => exact ⟨fun c listed => (nomatch listed), fun _ _ _ => ⟨rfl, rfl⟩⟩
  | cons name rest ih =>
    rw [List.nodup_cons] at once
    obtain ⟨⟨schema, first, distinct⟩, known⟩ := List.forall_mem_cons.mp known
    rw [List.forall_mem_cons] at present
    have same := same_openCollection snapshots o name
    obtain ⟨filled, others⟩ := fields_openCollection snapshots o first present.1 distinct
      fun index => closed name index List.mem_cons_self
    have later : ∀ name' ∈ rest,
        (openCollection snapshots o name).state.store.hasCollection name' = true :=
      fun name' there => (congrArg (fun d : Data => d.collections.contains name') same.data).trans
        (present.2 name' there)
    have closed' (c index : String) (there : c ∈ rest) :
        (openCollection snapshots o name).state.fieldIndexes[(c, index)]? = none := by
      rw [(others c index fun own => absurd (own ▸ there) once.1).1]
      exact closed c index (List.mem_cons_of_mem _ there)
    have entities : (openCollection snapshots o name).state.store.entities =
        o.state.store.entities := congrArg Data.entities same.data
    obtain ⟨rebuilt, elsewhere⟩ := ih (openCollection snapshots o name) once.2
      (same.schemas ▸ known) later closed'
    rw [same.schemas] at rebuilt elsewhere
    rw [List.foldl_cons]
    constructor
    · intro c listed schema' known' idx there
      by_cases own : c = name
      · subst own
        cases first.symm.trans known'
        have kept := elsewhere c idx.name fun _ listed => absurd listed once.1
        rw [kept.1, kept.2]
        exact filled idx there
      · have later := rebuilt c ((List.mem_cons.mp listed).resolve_left own) schema' known' idx there
        rw [later.1, later.2, (others c idx.name fun same => absurd same own).2]
        unfold Store.partition
        rw [entities]
        exact ⟨rfl, rfl⟩
    · intro c index other
      have kept := elsewhere c index fun schema' there => other schema' (List.mem_cons_of_mem _ there)
      have unopened := others c index fun own => by
        subst own
        exact other schema List.mem_cons_self first
      rw [kept.1, kept.2]
      exact unopened

end Opening

theorem rebuildEdgeTypes_fieldIndexes (types : List EdgeType) (s : State) :
    (types.foldl State.rebuildEdgeType s).fieldIndexes = s.fieldIndexes := by
  induction types generalizing s with
  | nil => rfl
  | cons et rest ih => exact ih (s.rebuildEdgeType et)

end Reopening
end TronDB.Engine
