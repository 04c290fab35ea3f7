import TronDB.Engine.Run

/-! The memory maps of schemas and edge types agree with the stored metadata after every
write, failed or not. -/
namespace TronDB.Engine
open TronDB.Core Binary Wal

structure Synced (s : State) : Prop where
  schemas : s.schemas = s.store.collections
  edgeTypes : s.edgeTypes = s.store.edgeTypes
  named : ∀ (name : String) (schema : CollectionSchema),
    s.store.collections[name]? = some schema → schema.name = name
  edgeTypeNamed : ∀ (name : String) (et : EdgeType),
    s.store.edgeTypes[name]? = some et → et.name = name

/-- Neither the stored metadata nor the maps of it differ. -/
structure SameSchemas (s s' : State) : Prop where
  schemas : s'.schemas = s.schemas
  edgeTypes : s'.edgeTypes = s.edgeTypes
  collections : s'.store.collections = s.store.collections
  storedTypes : s'.store.edgeTypes = s.store.edgeTypes

namespace SameSchemas

variable {s s' s'' : State}

theorem refl (s : State) : SameSchemas s s := ⟨rfl, rfl, rfl, rfl⟩

theorem trans (first : SameSchemas s s') (second : SameSchemas s' s'') : SameSchemas s s'' :=
  ⟨second.schemas.trans first.schemas, second.edgeTypes.trans first.edgeTypes,
    second.collections.trans first.collections, second.storedTypes.trans first.storedTypes⟩

theorem synced (same : SameSchemas s s') (synced : Synced s) : Synced s' where
  schemas := by rw [same.schemas, same.collections, synced.schemas]
  edgeTypes := by rw [same.edgeTypes, same.storedTypes, synced.edgeTypes]
  named := by rw [same.collections]; exact synced.named
  edgeTypeNamed := by rw [same.storedTypes]; exact synced.edgeTypeNamed

theorem of_data (schemas : s'.schemas = s.schemas) (edgeTypes : s'.edgeTypes = s.edgeTypes)
    (collections : (dataOf s'.store).collections = (dataOf s.store).collections)
    (storedTypes : (dataOf s'.store).edgeTypes = (dataOf s.store).edgeTypes) : SameSchemas s s' :=
  ⟨schemas, edgeTypes, collections, storedTypes⟩

theorem foldl {A : Type} (f : State → A → State) (each : ∀ s a, SameSchemas s (f s a))
    (as : List A) (s : State) : SameSchemas s (as.foldl f s) := by
  induction as generalizing s with
  | nil => exact .refl s
  | cons a rest ih => exact (each s a).trans (ih (f s a))

end SameSchemas

variable [WalPayload Payload]

theorem synced_init (config : WalConfig) : Synced (State.init config) where
  schemas := rfl
  edgeTypes := rfl
  named := by simp [State.init, Store.empty]
  edgeTypeNamed := by simp [State.init, Store.empty]

/-! ### Row writes -/

omit [WalPayload Payload] in
theorem sameSchemas_enqueue (s : State) (collection : String) (id : LogicalId) :
    SameSchemas s (s.enqueue collection id) := by
  unfold State.enqueue
  split
  · exact ⟨rfl, rfl, rfl, rfl⟩
  · exact .refl s

omit [WalPayload Payload] in
theorem sameSchemas_removeOldEntries (env : Env) (s : State) (collection : String)
    (id : LogicalId) : SameSchemas s (s.removeOldEntries env collection id) := by
  unfold State.removeOldEntries
  split
  · exact .refl s
  · exact .of_data rfl rfl (by simp) (by simp)

theorem sameSchemas_insert (env : Env) (s : State) (p : InsertPlan) :
    SameSchemas s (insert env s p).2 := by
  unfold insert
  split
  · exact .refl s
  · split
    · exact .refl s
    · dsimp only
      have removed := sameSchemas_removeOldEntries env s p.collection
        ((findIdInFields p.fields p.values).getD (env.freshId 0))
      split
      · exact removed
      · refine removed.trans ?_
        unfold State.applyInsert Store.insert
        split
        · exact .of_data rfl rfl rfl rfl
        · rename_i stored
          split at stored
          · cases stored
            dsimp only
            split
            · exact .of_data rfl rfl (by simp; rfl) (by simp; rfl)
            · refine .trans ?_ (sameSchemas_enqueue _ _ _)
              exact .of_data rfl rfl (by simp; rfl) (by simp; rfl)
          · cases stored

theorem sameSchemas_updateEntity (env : Env) (s : State) (p : UpdateEntityPlan) :
    SameSchemas s (updateEntity env s p).2 := by
  unfold updateEntity Store.insert
  split
  · exact .refl s
  · dsimp only
    split
    · exact .of_data rfl rfl rfl rfl
    · rename_i stored
      split at stored
      · cases stored
        split
        · exact .of_data rfl rfl (by simp; rfl) (by simp; rfl)
        · refine .trans ?_ (sameSchemas_enqueue _ _ _)
          exact .of_data rfl rfl (by simp; rfl) (by simp; rfl)
      · cases stored

omit [WalPayload Payload] in
theorem collections_deleteEdges (edges : List (String × LogicalId × LogicalId)) (store : Store) :
    (edges.foldl (fun store e => store.deleteEdge e.1 e.2.1 e.2.2) store).collections =
      store.collections ∧
    (edges.foldl (fun store e => store.deleteEdge e.1 e.2.1 e.2.2) store).edgeTypes =
      store.edgeTypes := by
  induction edges generalizing store with
  | nil => exact ⟨rfl, rfl⟩
  | cons e rest ih => exact ih (store.deleteEdge e.1 e.2.1 e.2.2)

theorem sameSchemas_deleteEntity (env : Env) (s : State) (p : DeleteEntityPlan) :
    SameSchemas s (deleteEntity env s p).2 := by
  unfold deleteEntity Store.deleteEntity
  split
  · exact .refl s
  · dsimp only
    split
    · exact .of_data rfl rfl (by simp) (by simp)
    · rename_i stored
      split at stored
      · cases stored
        refine .of_data rfl rfl ?_ ?_
        · refine (collections_deleteEdges _ _).1.trans (?_ : (dataOf _).collections = _)
          simp
        · refine (collections_deleteEdges _ _).2.trans (?_ : (dataOf _).edgeTypes = _)
          simp
      · cases stored

omit [WalPayload Payload] in
theorem sameSchemas_importLoop (env : Env) (collection : String) (txId : Nat)
    (lines : List ImportLine) (imported : Nat) (s : State) :
    SameSchemas s (importLoop env collection txId lines imported s).2 :=
  importLoop_invariant env collection txId
    (fun _ _ same => ⟨same.schemas, same.edgeTypes, same.collections, same.storedTypes⟩)
    (fun _ _ _ same => ⟨same.schemas, same.edgeTypes, same.collections, same.storedTypes⟩)
    lines imported (.refl s)

theorem sameSchemas_importCollection (env : Env) (s : State) (p : ImportPlan) :
    SameSchemas s (importCollection env s p).2 := by
  unfold importCollection
  split
  · exact .refl s
  · split
    · exact .refl s
    · rename_i lines _
      dsimp only
      have begun : SameSchemas s { s with wal := s.wal.beginTx p.collection env.ts } :=
        ⟨rfl, rfl, rfl, rfl⟩
      have loop := begun.trans (sameSchemas_importLoop env p.collection s.wal.nextTx lines 0 _)
      split <;> rename_i run <;> rw [run] at loop
      · exact loop
      · exact loop.trans ⟨rfl, rfl, rfl, rfl⟩

/-! ### Edge writes -/

theorem sameSchemas_writeEdge (s : State) (ts : Int) (recordType : RecordType) (edge : Edge) :
    SameSchemas s (s.writeEdge ts recordType edge) := ⟨rfl, rfl, rfl, rfl⟩

theorem sameSchemas_removeEdge (s : State) (ts : Int) (edgeType : String)
    (fromId toId : LogicalId) : SameSchemas s (s.removeEdge ts edgeType fromId toId) :=
  ⟨rfl, rfl, rfl, rfl⟩

theorem sameSchemas_insertEdge (env : Env) (s : State) (p : InsertEdgePlan) :
    SameSchemas s (insertEdge env s p).2 := by
  unfold insertEdge
  repeat' split
  all_goals first | exact .refl s | exact sameSchemas_writeEdge _ _ _ _

theorem sameSchemas_confirmEdge (env : Env) (s : State) (p : ConfirmEdgePlan) :
    SameSchemas s (confirmEdge env s p).2 := by
  unfold confirmEdge
  dsimp only
  repeat' split
  all_goals first | exact .refl s | exact ⟨rfl, rfl, rfl, rfl⟩

theorem sameSchemas_sweep (env : Env) (s : State) : SameSchemas s (sweepDecayedEdges env s) := by
  unfold sweepDecayedEdges
  refine .foldl _ (fun s et => ?_) _ s
  unfold sweepEdgeType
  split
  · exact .refl s
  · exact .foldl _ (fun s edge => sameSchemas_removeEdge _ _ _ _ _) _ s

theorem sameSchemas_inferLoop (env : Env) (et : EdgeType) (id : LogicalId)
    (existing : List LogicalId) (results : List (LogicalId × F32)) (created : Nat) (s : State) :
    SameSchemas s (inferLoop env et id existing results created s) := by
  induction results generalizing created s with
  | nil => exact .refl s
  | cons r rest ih =>
    unfold inferLoop
    split
    · exact .refl s
    · split
      · exact ih created s
      · exact (sameSchemas_writeEdge _ _ _ _).trans (ih _ _)

theorem sameSchemas_inferEdgeType (env : Env) (collection : String) (id : LogicalId) (s : State)
    (et : EdgeType) : SameSchemas s (inferEdgeType env collection id s et) := by
  unfold inferEdgeType
  repeat' split
  all_goals first | exact .refl s | exact sameSchemas_inferLoop _ _ _ _ _ _ _

theorem sameSchemas_drainEntity (env : Env) (s : State) (id : LogicalId) :
    SameSchemas s (drainEntity env s id) := by
  unfold drainEntity
  dsimp only
  split
  · exact ⟨rfl, rfl, rfl, rfl⟩
  · refine .trans ?_ (.foldl _ (fun s et => sameSchemas_inferEdgeType _ _ _ s et) _ _)
    exact ⟨rfl, rfl, rfl, rfl⟩

/-! ### Schema writes -/

theorem synced_createCollection {env : Env} {s : State} (synced : Synced s)
    (p : CreateCollectionPlan) : Synced (createCollection env s p).2 := by
  unfold createCollection Store.createCollectionSchema
  split
  · exact synced
  · dsimp only
    split
    · exact ⟨synced.schemas, synced.edgeTypes, synced.named, synced.edgeTypeNamed⟩
    · rename_i stored
      split at stored
      · cases stored
      · cases stored
        refine ⟨?_, synced.edgeTypes, fun name schema found => ?_, synced.edgeTypeNamed⟩
        · exact congrArg (·.insert p.name (buildCollectionSchema p)) synced.schemas
        rw [FinMap.get_insert] at found
        split at found
        · rename_i same
          rw [← Option.some.inj found, same]
        · exact synced.named name schema found

theorem synced_dropCollection {env : Env} {s : State} (synced : Synced s) (name : String) :
    Synced (dropCollection env s name).2 := by
  unfold dropCollection Store.dropCollection
  split
  · dsimp only
    split
    · exact ⟨synced.schemas, synced.edgeTypes, synced.named, synced.edgeTypeNamed⟩
    · rename_i stored
      split at stored
      · cases stored
        refine ⟨congrArg (·.erase name) synced.schemas, synced.edgeTypes,
          fun other schema found => ?_, synced.edgeTypeNamed⟩
        rw [FinMap.get_erase] at found
        split at found
        · cases found
        · exact synced.named other schema found
      · cases stored
  · exact synced

theorem synced_createEdgeType {env : Env} {s : State} (synced : Synced s) (p : CreateEdgeTypePlan) :
    Synced (createEdgeType env s p).2 := by
  unfold createEdgeType Store.createEdgeType
  repeat' split
  all_goals dsimp only
  · split
    · exact ⟨synced.schemas, synced.edgeTypes, synced.named, synced.edgeTypeNamed⟩
    · rename_i stored
      split at stored
      · cases stored
      · cases stored
        refine ⟨synced.schemas, ?_, synced.named, fun name et found => ?_⟩
        · exact congrArg (·.insert p.name (buildEdgeType p)) synced.edgeTypes
        rw [FinMap.get_insert] at found
        split at found
        · rename_i same
          rw [← Option.some.inj found, same]
        · exact synced.edgeTypeNamed name et found
  · exact synced
  · exact synced

theorem synced_dropEdgeType {env : Env} {s : State} (synced : Synced s) (name : String) :
    Synced (dropEdgeType env s name).2 := by
  unfold dropEdgeType
  split
  · refine ⟨synced.schemas, congrArg (·.erase name) synced.edgeTypes, synced.named,
      fun other et found => ?_⟩
    simp only [State.logTx, Store.dropEdgeType, FinMap.get_erase] at found
    split at found
    · cases found
    · exact synced.edgeTypeNamed other et found
  · exact synced

omit [WalPayload Payload] in
theorem sameSchemas_alterMemory (s : State) (collection : String) (schema : CollectionSchema)
    (entities : List Entity) (op : SchemaAlterOp) :
    SameSchemas s (s.alterMemory collection schema entities op) := by
  unfold State.alterMemory
  repeat' split
  all_goals exact ⟨rfl, rfl, rfl, rfl⟩

omit [WalPayload Payload] in
theorem metadata_insertAll (collection : String) (entities : List Entity) (store : Store) :
    (insertAll store collection entities).2.collections = store.collections ∧
      (insertAll store collection entities).2.edgeTypes = store.edgeTypes := by
  induction entities generalizing store with
  | nil => exact ⟨rfl, rfl⟩
  | cons e rest ih =>
    unfold insertAll Store.insert
    split
    · rename_i stored
      split at stored
      · cases stored
        exact ih _
      · cases stored
    · exact ⟨rfl, rfl⟩

theorem synced_alterCollection {env : Env} {s : State} (synced : Synced s)
    (p : AlterCollectionPlan) : Synced (alterCollection env s p).2 := by
  unfold alterCollection Store.getCollectionSchema
  cases found : s.store.collections[p.collection]? with
  | none => exact synced
  | some schema =>
    have own := synced.named _ _ found
    dsimp only
    split
    · exact synced
    · split
      · exact synced
      · rename_i entities _ _ _
        generalize entities.filterMap (fun e => alterEntity e p.operation) = mutated
        generalize logged : s.logTx env.ts p.collection _ = t
        have same : SameSchemas s (t.alterMemory p.collection schema entities p.operation) :=
          .trans (logged ▸ ⟨rfl, rfl, rfl, rfl⟩) (sameSchemas_alterMemory _ _ _ _ _)
        have written := metadata_insertAll p.collection mutated
          ((t.alterMemory p.collection schema entities p.operation).store.updateCollectionSchema
            (alterSchema schema p.operation))
        have kept : Synced { (t.alterMemory p.collection schema entities p.operation) with
            store := (insertAll ((t.alterMemory p.collection schema entities
              p.operation).store.updateCollectionSchema (alterSchema schema p.operation))
              p.collection mutated).2
            schemas := (t.alterMemory p.collection schema entities p.operation).schemas.insert
              p.collection (alterSchema schema p.operation) } := by
          refine ⟨?_, ?_, ?_, ?_⟩
          · rw [written.1, same.schemas, Store.updateCollectionSchema, same.collections,
              synced.schemas, name_alterSchema, own]
          · rw [written.2, same.edgeTypes, Store.updateCollectionSchema, same.storedTypes,
              synced.edgeTypes]
          · intro name other there
            rw [written.1, Store.updateCollectionSchema, same.collections,
              FinMap.get_insert] at there
            split at there
            · rename_i here
              rw [← Option.some.inj there, here]
            · exact synced.named name other there
          · rw [written.2, Store.updateCollectionSchema, same.storedTypes]
            exact synced.edgeTypeNamed
        split <;> exact kept

theorem synced_perform (env : Env) (s : State) (w : Write) (synced : Synced s) :
    Synced (perform env s w).2 := by
  cases w with
  | createCollection p => exact synced_createCollection synced p
  | dropCollection name => exact synced_dropCollection synced name
  | createEdgeType p => exact synced_createEdgeType synced p
  | dropEdgeType name => exact synced_dropEdgeType synced name
  | alterCollection p => exact synced_alterCollection synced p
  | insert p => exact (sameSchemas_insert env s p).synced synced
  | updateEntity p => exact (sameSchemas_updateEntity env s p).synced synced
  | deleteEntity p => exact (sameSchemas_deleteEntity env s p).synced synced
  | importCollection p => exact (sameSchemas_importCollection env s p).synced synced
  | insertEdge p => exact (sameSchemas_insertEdge env s p).synced synced
  | deleteEdge p => exact (sameSchemas_removeEdge _ _ _ _ _).synced synced
  | confirmEdge p => exact (sameSchemas_confirmEdge env s p).synced synced
  | sweepDecayedEdges => exact (sameSchemas_sweep env s).synced synced
  | drainInferenceQueue =>
    exact (SameSchemas.foldl _ (sameSchemas_drainEntity env) _ s).synced synced

end TronDB.Engine
