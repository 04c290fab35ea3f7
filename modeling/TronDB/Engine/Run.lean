import TronDB.Engine.Data
import TronDB.Engine.Edges

/-! Write statements and background tasks as one kind of step, and what each of them
appends to the log and does to the stored data. -/
namespace TronDB.Engine
open TronDB.Core Binary Wal

inductive Write where
  | createCollection (p : CreateCollectionPlan)
  | dropCollection (name : String)
  | createEdgeType (p : CreateEdgeTypePlan)
  | dropEdgeType (name : String)
  | alterCollection (p : AlterCollectionPlan)
  | insert (p : InsertPlan)
  | updateEntity (p : UpdateEntityPlan)
  | deleteEntity (p : DeleteEntityPlan)
  | importCollection (p : ImportPlan)
  | insertEdge (p : InsertEdgePlan)
  | deleteEdge (p : DeleteEdgePlan)
  | confirmEdge (p : ConfirmEdgePlan)
  | sweepDecayedEdges
  | drainInferenceQueue

section Perform
variable [WalPayload Payload]

def perform (env : Env) (s : State) (w : Write) : Except EngineError Unit × State :=
  let answer (o : Outcome) : Except EngineError Unit × State := (o.1.map fun _ => (), o.2)
  match w with
  | .createCollection p => answer (createCollection env s p)
  | .dropCollection name => answer (dropCollection env s name)
  | .createEdgeType p => answer (createEdgeType env s p)
  | .dropEdgeType name => answer (dropEdgeType env s name)
  | .alterCollection p => answer (alterCollection env s p)
  | .insert p => answer (insert env s p)
  | .updateEntity p => answer (updateEntity env s p)
  | .deleteEntity p => answer (deleteEntity env s p)
  | .importCollection p => answer (importCollection env s p)
  | .insertEdge p => answer (insertEdge env s p)
  | .deleteEdge p => answer (deleteEdge env s p)
  | .confirmEdge p => answer (confirmEdge env s p)
  | .sweepDecayedEdges => (.ok (), sweepDecayedEdges env s)
  | .drainInferenceQueue => (.ok (), drainInferenceQueue env s)

def succeeds (env : Env) (s : State) (w : Write) : Prop := (perform env s w).1 = .ok ()

end Perform

/-! ### The stored data under index maintenance -/

section Data
variable {store store' : Store} {collection : String}

@[simp] theorem store_logTx [WalPayload Payload] (s : State) (ts : Int) (collection : String)
    (entries : List (Entry Payload)) : (s.logTx ts collection entries).store = s.store := rfl

@[simp] theorem data_setIndexPartition (store : Store) (collection index : String)
    (partition : FinMap (List UInt8) LogicalId) :
    dataOf (store.setIndexPartition collection index partition) = dataOf store := rfl

@[simp] theorem data_removeEntry (store : Store) (collection index : String)
    (types : List (String × FieldType)) (id : LogicalId) (values : List Value) :
    dataOf (removeEntry store collection index types id values) = dataOf store := by
  unfold removeEntry
  split <;> rfl

theorem data_insertEntry {index : String} {types : List (String × FieldType)} {id : LogicalId}
    {values : List Value} (ok : insertEntry store collection index types id values = .ok store') :
    dataOf store' = dataOf store := by
  unfold insertEntry at ok
  split at ok
  · cases ok
    rfl
  · contradiction

@[simp] theorem data_removeFieldEntries (e : Entity)
    (indexes : List (String × List (String × FieldType))) (store : Store) :
    dataOf (removeFieldEntries store collection e indexes) = dataOf store := by
  unfold removeFieldEntries
  induction indexes generalizing store with
  | nil => rfl
  | cons idx rest ih =>
    rw [List.foldl_cons, ih]
    dsimp only
    split
    · exact data_removeEntry _ _ _ _ _ _
    · rfl

@[simp] theorem data_removeDeclaredEntries (fieldIndexes : FieldIndexes) (e : Entity)
    (indexes : List StoredIndex) (store : Store) :
    dataOf (removeDeclaredEntries store fieldIndexes collection e indexes) = dataOf store := by
  unfold removeDeclaredEntries
  induction indexes generalizing store with
  | nil => rfl
  | cons idx rest ih =>
    rw [List.foldl_cons, ih]
    split
    · exact data_removeEntry _ _ _ _ _ _
    · rfl

@[simp] theorem data_insertFieldEntries (e : Entity)
    (indexes : List (String × List (String × FieldType))) (store : Store) :
    dataOf (insertFieldEntries store collection e indexes).2 = dataOf store := by
  induction indexes generalizing store with
  | nil => rfl
  | cons idx rest ih =>
    unfold insertFieldEntries
    dsimp only
    split
    · split
      · rename_i inserted
        exact (ih _).trans (data_insertEntry inserted)
      · rfl
    · exact ih store

@[simp] theorem data_updateFieldEntries (fieldIndexes : FieldIndexes) (old new : Entity)
    (indexes : List StoredIndex) (store : Store) :
    dataOf (updateFieldEntries store fieldIndexes collection old new indexes).2 = dataOf store := by
  induction indexes generalizing store with
  | nil => rfl
  | cons idx rest ih =>
    unfold updateFieldEntries
    split
    · exact ih store
    · dsimp only
      split
      · split
        · rename_i inserted
          exact (ih _).trans ((data_insertEntry inserted).trans (data_removeEntry _ _ _ _ _ _))
        · exact data_removeEntry _ _ _ _ _ _
      · exact (ih _).trans (data_removeEntry _ _ _ _ _ _)

@[simp] theorem data_deleteFromTier (store : Store) (id : LogicalId) :
    dataOf (store.deleteFromTier collection id .nvme) = dataOf store ∧
      dataOf (store.deleteFromTier collection id .archive) = dataOf store := ⟨rfl, rfl⟩

end Data
end TronDB.Engine
