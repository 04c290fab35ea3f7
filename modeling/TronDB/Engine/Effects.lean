import TronDB.Engine.PerformedRows

/-! What the row statements leave of every part of the state. -/
namespace TronDB.Engine
open TronDB.Core Binary Wal

/-- The entity has been put, indexed, located and assigned to the collection; the entries of
the field indexes go as far as they could be encoded. -/
structure Inserted (env : Env) (s : State) (collection : String) (e : Entity) (s' : State) : Prop where
  store : s'.store = (insertFieldEntries (s.store.putEntity collection e) collection e
    (s.fieldIndexesOf env collection)).2
  location : s'.location = (locationEntries e).foldl (fun t kd => t.register kd.1 kd.2) s.location
  indexes : s'.indexes = insertDense s.indexes collection e
  sparseIndexes : s'.sparseIndexes = insertSparse s.sparseIndexes collection e
  fieldIndexes : s'.fieldIndexes = s.fieldIndexes
  schemas : s'.schemas = s.schemas
  adjacency : s'.adjacency = s.adjacency
  edgeTypes : s'.edgeTypes = s.edgeTypes
  entityCollections : s'.entityCollections = s.entityCollections.insert e.id collection

theorem Inserted.enqueue {env : Env} {s : State} {collection : String} {e : Entity} {s' : State}
    (inserted : Inserted env s collection e s') (c : String) (id : LogicalId) :
    Inserted env s collection e (s'.enqueue c id) := by
  unfold State.enqueue
  split
  · exact ⟨inserted.store, inserted.location, inserted.indexes, inserted.sparseIndexes,
      inserted.fieldIndexes, inserted.schemas, inserted.adjacency, inserted.edgeTypes,
      inserted.entityCollections⟩
  · exact inserted

theorem Inserted.data {env : Env} {s : State} {collection : String} {e : Entity} {s' : State}
    (inserted : Inserted env s collection e s') :
    dataOf s'.store = dataOf (s.store.putEntity collection e) :=
  (congrArg dataOf inserted.store).trans (data_insertFieldEntries _ _ _)

theorem Inserted.entities {env : Env} {s : State} {collection : String} {e : Entity} {s' : State}
    (inserted : Inserted env s collection e s') :
    s'.store.entities = s.store.entities.insert (collection, e.id) e :=
  congrArg Data.entities inserted.data

theorem Inserted.edges {env : Env} {s : State} {collection : String} {e : Entity} {s' : State}
    (inserted : Inserted env s collection e s') : s'.store.edges = s.store.edges :=
  congrArg Data.edges inserted.data

section Old
variable (env : Env) (s : State) (collection : String) (id : LogicalId)

@[simp] theorem removeOldEntries_location :
    (s.removeOldEntries env collection id).location = s.location := by
  unfold State.removeOldEntries
  split <;> rfl

@[simp] theorem removeOldEntries_indexes :
    (s.removeOldEntries env collection id).indexes = s.indexes := by
  unfold State.removeOldEntries
  split <;> rfl

@[simp] theorem removeOldEntries_fieldIndexes :
    (s.removeOldEntries env collection id).fieldIndexes = s.fieldIndexes := by
  unfold State.removeOldEntries
  split <;> rfl

@[simp] theorem removeOldEntries_schemas :
    (s.removeOldEntries env collection id).schemas = s.schemas := by
  unfold State.removeOldEntries
  split <;> rfl

@[simp] theorem removeOldEntries_adjacency :
    (s.removeOldEntries env collection id).adjacency = s.adjacency := by
  unfold State.removeOldEntries
  split <;> rfl

@[simp] theorem removeOldEntries_entityCollections :
    (s.removeOldEntries env collection id).entityCollections = s.entityCollections := by
  unfold State.removeOldEntries
  split <;> rfl

@[simp] theorem removeOldEntries_edgeTypes :
    (s.removeOldEntries env collection id).edgeTypes = s.edgeTypes := by
  unfold State.removeOldEntries
  split <;> rfl

@[simp] theorem removeOldEntries_data :
    dataOf (s.removeOldEntries env collection id).store = dataOf s.store := by
  unfold State.removeOldEntries
  split
  · rfl
  · exact data_removeFieldEntries _ _ _

@[simp] theorem removeOldEntries_entities :
    (s.removeOldEntries env collection id).store.entities = s.store.entities :=
  congrArg Data.entities (removeOldEntries_data env s collection id)

@[simp] theorem removeOldEntries_edges :
    (s.removeOldEntries env collection id).store.edges = s.store.edges :=
  congrArg Data.edges (removeOldEntries_data env s collection id)

end Old

def InsertPlan.target (p : InsertPlan) (env : Env) : LogicalId :=
  (findIdInFields p.fields p.values).getD (env.freshId 0)

section Effects
variable [WalPayload Payload]

omit [WalPayload Payload] in
theorem of_built {env : Env} {schema : CollectionSchema} {p : InsertPlan} {id : LogicalId} {e : Entity}
    (built : buildEntity env schema p id = .ok e) :
    e.id = id ∧ e.metadata = insertMetadata p.fields p.values := by
  unfold buildEntity at built
  dsimp only at built
  split at built
  · cases built
  · split at built
    · cases built
    · split at built
      · cases built
      · cases built
        exact ⟨rfl, rfl⟩

omit [WalPayload Payload] in
theorem id_of_built {env : Env} {schema : CollectionSchema} {p : InsertPlan} {id : LogicalId}
    {e : Entity} (built : buildEntity env schema p id = .ok e) : e.id = id := (of_built built).1

/-- How an INSERT can end: refused before anything is changed, with the overwritten entity's
index entries gone, with a transaction the store does not take, or with the entity put. -/
inductive InsertEnds (env : Env) (s : State) (p : InsertPlan) (o : Outcome) : Prop
  | refused (error : EngineError)
      (rejected : ∀ schema, s.schemas[p.collection]? = some schema →
        checkVectors schema p.collection p.vectors ≠ .ok ())
      (result : o = (.error error, s))
  | unbuilt (schema : CollectionSchema) (error : EngineError)
      (known : s.schemas[p.collection]? = some schema)
      (checked : checkVectors schema p.collection p.vectors = .ok ())
      (built : buildEntity env schema p (p.target env) = .error error)
      (result : o = (.error error, s.removeOldEntries env p.collection (p.target env)))
  | unstored (schema : CollectionSchema) (e : Entity)
      (known : s.schemas[p.collection]? = some schema)
      (checked : checkVectors schema p.collection p.vectors = .ok ())
      (built : buildEntity env schema p (p.target env) = .ok e)
      (absent : s.store.hasCollection p.collection = false)
      (result : ∃ error entries, o = (.error error,
        (s.removeOldEntries env p.collection (p.target env)).logTx env.ts p.collection entries))
  | stored (schema : CollectionSchema) (e : Entity)
      (known : s.schemas[p.collection]? = some schema)
      (checked : checkVectors schema p.collection p.vectors = .ok ())
      (built : buildEntity env schema p (p.target env) = .ok e)
      (present : s.store.hasCollection p.collection = true)
      (wal : o.2.wal = s.wal.transaction p.collection env.ts
        (entityWrite { e with txTime := s.wal.nextTx } ::
          (locationEntries { e with txTime := s.wal.nextTx }).map fun kd =>
            (.locationUpdate, .location kd.1 kd.2)))
      (left : Inserted env (s.removeOldEntries env p.collection (p.target env)) p.collection
        { e with txTime := s.wal.nextTx } o.2)

omit [WalPayload Payload] in
theorem applyInsert_absent (env : Env) {s : State} {collection : String} (e : Entity)
    (absent : s.store.hasCollection collection = false) :
    s.applyInsert env collection e = (.error (.collectionNotFound collection), s) := by
  unfold State.applyInsert Store.insert
  rw [if_neg (Bool.eq_false_iff.mp absent)]

omit [WalPayload Payload] in
theorem applyInsert_inserted (env : Env) {s : State} {collection : String} (e : Entity)
    (present : s.store.hasCollection collection = true) :
    Inserted env s collection e (s.applyInsert env collection e).2 ∧
      (s.applyInsert env collection e).2.wal = s.wal := by
  unfold State.applyInsert Store.insert
  rw [if_pos present]
  dsimp only
  generalize reached : ({ s with
      store := (insertFieldEntries (s.store.putEntity collection e) collection e
        (s.fieldIndexesOf env collection)).2
      entityCollections := s.entityCollections.insert e.id collection
      location := (locationEntries e).foldl (fun t kd => t.register kd.1 kd.2) s.location
      indexes := insertDense s.indexes collection e
      sparseIndexes := insertSparse s.sparseIndexes collection e } : State) = t
  have inserted : Inserted env s collection e t := by
    subst reached
    exact ⟨rfl, rfl, rfl, rfl, rfl, rfl, rfl, rfl, rfl⟩
  have log : t.wal = s.wal := by
    subst reached
    rfl
  split
  · exact ⟨inserted, log⟩
  · exact ⟨inserted.enqueue _ _, (enqueue_rest _ _ _).2.trans log⟩

theorem insert_ends (env : Env) (s : State) (p : InsertPlan) :
    InsertEnds env s p (insert env s p) := by
  unfold insert
  split
  · rename_i unknown
    refine .refused _ (fun schema known => ?_) rfl
    cases unknown.symm.trans known
  · rename_i schema known
    split
    · rename_i failed
      refine .refused _ (fun schema' known' checked => ?_) rfl
      cases known.symm.trans known'
      cases failed.symm.trans checked
    · rename_i checked
      dsimp only
      split
      · rename_i error built
        exact .unbuilt schema error known checked built rfl
      · rename_i e built
        obtain ⟨data, log⟩ := removeOldEntries_rest env s p.collection (p.target env)
        have same : (s.removeOldEntries env p.collection (p.target env)).store.hasCollection
            p.collection = s.store.hasCollection p.collection :=
          congrArg (·.collections.contains p.collection) data
        cases present : s.store.hasCollection p.collection with
        | false =>
          exact .unstored schema e known checked built present
            ⟨_, _, applyInsert_absent env _ (same.trans present)⟩
        | true =>
          rw [← InsertPlan.target, log]
          obtain ⟨inserted, wal⟩ := applyInsert_inserted env
            (s := (s.removeOldEntries env p.collection (p.target env)).logTx env.ts p.collection
              (entityWrite { e with txTime := s.wal.nextTx } ::
                (locationEntries { e with txTime := s.wal.nextTx }).map fun kd =>
                  (.locationUpdate, .location kd.1 kd.2)))
            { e with txTime := s.wal.nextTx } (same.trans present)
          refine .stored schema e known checked built present ?_ ?_
          · exact wal.trans (congrArg (WalWriter.transaction · p.collection env.ts _) log)
          · exact ⟨inserted.store, inserted.location, inserted.indexes, inserted.sparseIndexes,
              inserted.fieldIndexes, inserted.schemas, inserted.adjacency, inserted.edgeTypes,
              inserted.entityCollections⟩

end Effects
end TronDB.Engine
