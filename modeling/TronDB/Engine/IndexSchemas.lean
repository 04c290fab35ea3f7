import TronDB.Engine.IndexWrites
import TronDB.Engine.SnapshotRuns

/-! Collections made and dropped, and the statements that do not touch a field index. -/
namespace TronDB.Engine
open TronDB.Core Binary Wal

/-! ### CREATE COLLECTION -/

theorem nodup_of_findDuplicate {seen names : List String} (none_ : findDuplicate seen names = none) :
    names.Nodup ∧ ∀ name ∈ names, name ∉ seen := by
  induction names generalizing seen with
  | nil => exact ⟨List.nodup_nil, fun _ listed => nomatch listed⟩
  | cons name rest ih =>
    unfold findDuplicate at none_
    split at none_
    · cases none_
    · rename_i new
      obtain ⟨distinct, others⟩ := ih none_
      refine ⟨List.nodup_cons.mpr ⟨fun again => ?_, distinct⟩, fun other listed => ?_⟩
      · exact others name again List.mem_cons_self
      · rcases List.mem_cons.mp listed with rfl | later
        · exact new
        · exact fun before => others other later (List.mem_cons_of_mem _ before)

theorem nodup_of_checked {p : CreateCollectionPlan} (checked : checkDuplicates p = .ok ()) :
    (p.indexes.map StoredIndex.name).Nodup := by
  unfold checkDuplicates at checked
  split at checked
  · cases checked
  · split at checked
    · cases checked
    · split at checked
      · cases checked
      · rename_i none_
        exact (nodup_of_findDuplicate none_).1

theorem openFieldIndexes_insertAll (fieldIndexes : FieldIndexes) (schema : CollectionSchema) :
    openFieldIndexes fieldIndexes schema = FinMap.insertAll fieldIndexes
      (schema.indexes.map fun idx => ((schema.name, idx.name), schema.fieldTypes idx)) := by
  rw [openFieldIndexes, FinMap.insertAll, List.foldl_map]

theorem get_openFieldIndexes_other (fieldIndexes : FieldIndexes) {schema : CollectionSchema}
    {c index : String} (other : c = schema.name → index ∉ schema.indexes.map StoredIndex.name) :
    (openFieldIndexes fieldIndexes schema)[(c, index)]? = fieldIndexes[(c, index)]? := by
  rw [openFieldIndexes_insertAll]
  refine FinMap.get_insertAll_absent _ _ fun there => ?_
  rw [List.map_map] at there
  obtain ⟨idx, listed, same⟩ := List.mem_map.mp there
  obtain ⟨own, name⟩ := Prod.mk.inj same
  exact other own.symm (name ▸ List.mem_map_of_mem listed)

theorem get_openFieldIndexes (fieldIndexes : FieldIndexes) {schema : CollectionSchema}
    (distinct : (schema.indexes.map StoredIndex.name).Nodup) {idx : StoredIndex}
    (there : idx ∈ schema.indexes) :
    (openFieldIndexes fieldIndexes schema)[(schema.name, idx.name)]? = some (schema.fieldTypes idx) := by
  rw [openFieldIndexes_insertAll]
  refine FinMap.get_insertAll _ _ ?_ ((schema.name, idx.name), schema.fieldTypes idx)
    (List.mem_map_of_mem there)
  rw [List.map_map]
  have pairs := distinct.map (f := fun name => (schema.name, name)) fun a b same => (Prod.mk.inj same).2
  rw [List.map_map] at pairs
  exact pairs

variable [WalPayload Payload] {s : State}

/-- What a CREATE COLLECTION that goes through leaves. -/
structure Created (s s' : State) (p : CreateCollectionPlan) : Prop where
  checked : checkDuplicates p = .ok ()
  absent : s.store.hasCollection p.name = false
  schemas : s'.schemas = s.schemas.insert p.name (buildCollectionSchema p)
  fieldIndexes : s'.fieldIndexes = openFieldIndexes s.fieldIndexes (buildCollectionSchema p)
  entities : s'.store.entities = s.store.entities
  partitions : s'.store.fieldIndexes = s.store.fieldIndexes

/-- The statement leaves schemas, open indexes, entities and entries as they are. -/
structure LeavesIndexes (s s' : State) : Prop where
  schemas : s'.schemas = s.schemas
  fieldIndexes : s'.fieldIndexes = s.fieldIndexes
  entities : s'.store.entities = s.store.entities
  partitions : s'.store.fieldIndexes = s.store.fieldIndexes

theorem createCollection_ends (env : Env) (s : State) (p : CreateCollectionPlan) :
    LeavesIndexes s (createCollection env s p).2 ∨ Created s (createCollection env s p).2 p := by
  unfold createCollection Store.createCollectionSchema
  cases checked : checkDuplicates p with
  | error e => exact .inl ⟨rfl, rfl, rfl, rfl⟩
  | ok =>
    dsimp only [State.logTx]
    cases there : s.store.hasCollection p.name with
    | true =>
      rw [if_pos (by exact there)]
      exact .inl ⟨rfl, rfl, rfl, rfl⟩
    | false =>
      rw [if_neg (by exact there ▸ Bool.false_ne_true)]
      exact .inr ⟨checked, there, rfl, rfl, rfl, rfl⟩

namespace Upkept

omit [WalPayload Payload]

theorem left {s' : State} (up : Upkept s) (synced : Synced s') (leaves : LeavesIndexes s s') : Upkept s' :=
  up.untouched synced leaves.schemas leaves.fieldIndexes leaves.entities leaves.partitions

theorem no_entries (up : Upkept s) {c : String} (absent : s.store.hasCollection c = false) (index : String)
    (key : List UInt8) : (s.store.indexPartition c index)[key]? = none := by
  cases found : (s.store.indexPartition c index)[key]? with
  | none => rfl
  | some id =>
    obtain ⟨schema, known, -⟩ := up.placed c index key id found
    rw [Store.hasCollection_eq, known] at absent
    cases absent

theorem no_entities (up : Upkept s) {c : String} (absent : s.store.hasCollection c = false) (id : LogicalId) :
    s.store.entities[(c, id)]? = none := by
  cases found : s.store.entities[(c, id)]? with
  | none => rfl
  | some e => cases absent.symm.trans (up.housed c id e found)

end Upkept

theorem upkept_createCollection (env : Env) (up : Upkept s) (p : CreateCollectionPlan)
    (keeps : KeepsIndexes env s (.createCollection p)) : Upkept (createCollection env s p).2 := by
  have synced := @synced_createCollection _ env _ up.synced p
  rcases createCollection_ends env s p with leaves | created
  · exact up.left synced leaves
  · have distinct := nodup_of_checked created.checked
    have schemas (c : String) : (createCollection env s p).2.schemas[c]? =
        if p.name = c then some (buildCollectionSchema p) else s.schemas[c]? := by
      rw [created.schemas, FinMap.get_insert]
    have older {c : String} (there : s.store.hasCollection c = true) : ¬ p.name = c := by
      rintro rfl
      cases created.absent.symm.trans there
    have known {c : String} {schema : CollectionSchema} (before : s.schemas[c]? = some schema) :
        (createCollection env s p).2.schemas[c]? = some schema := by
      rw [schemas, if_neg (older (up.present before)), before]
    have partition (c index : String) : (createCollection env s p).2.store.indexPartition c index =
        s.store.indexPartition c index := by
      rw [Store.indexPartition, created.partitions]
      rfl
    refine ⟨synced, ?_, ?_, ?_, ?_, ?_, ?_⟩
    · intro c id e there
      rw [created.entities] at there
      obtain ⟨schema, before⟩ := up.known_of_present (up.housed c id e there)
      rw [Store.hasCollection_eq, ← synced.schemas, known before]
      rfl
    · intro c index key id there
      rw [partition] at there
      obtain ⟨schema, before, listed⟩ := up.placed c index key id there
      rw [← up.synced.schemas] at before
      exact ⟨schema, synced.schemas ▸ known before, listed⟩
    · intro c index types there
      by_cases own : c = p.name ∧ index ∈ p.indexes.map StoredIndex.name
      · obtain ⟨rfl, listed⟩ := own
        exact ⟨_, (schemas _).trans (if_pos rfl), listed⟩
      · rw [created.fieldIndexes,
          get_openFieldIndexes_other _ fun same : c = p.name => fun listed => own ⟨same, listed⟩] at there
        obtain ⟨schema, before, listed⟩ := up.opened c index types there
        exact ⟨schema, known before, listed⟩
    · intro c schema there
      rw [schemas] at there
      split at there
      · cases there
        exact distinct
      · exact up.distinct c schema there
    · intro c schema there idx listed
      rw [schemas] at there
      rw [created.fieldIndexes]
      split at there
      · rename_i own
        cases there
        subst own
        refine ⟨_, if_pos (keeps idx listed), ?_⟩
        exact get_openFieldIndexes s.fieldIndexes (show (_ : List String).Nodup from distinct) listed
      · rename_i other
        rw [get_openFieldIndexes_other _ fun same : c = p.name => absurd same.symm other]
        exact up.current c schema there idx listed
    · intro c schema there idx listed
      rw [partition]
      rw [schemas] at there
      split at there
      · rename_i own
        subst own
        have none_ : ∀ id, (createCollection env s p).2.keyOf p.name schema idx id = none := by
          intro id
          rw [State.keyOf, created.entities, up.no_entities created.absent id]
          rfl
        intro key id
        rw [up.no_entries created.absent idx.name key, none_]
        constructor
        · intro there
          cases there
        · intro same
          cases same
      · refine (up.exact c schema there idx listed).congr fun id => ?_
        rw [State.keyOf, created.entities]
        rfl

/-! ### DROP COLLECTION -/

theorem upkept_dropCollection (env : Env) (up : Upkept s) (name : String) :
    Upkept (dropCollection env s name).2 := by
  have synced := @synced_dropCollection _ env _ up.synced name
  unfold dropCollection at synced ⊢
  cases known : s.schemas.contains name with
  | false =>
    rw [if_neg Bool.false_ne_true]
    exact up
  | true =>
    rw [known, if_pos rfl] at synced
    rw [if_pos rfl]
    rw [Std.ExtTreeMap.contains_eq_isSome_getElem?] at known
    obtain ⟨dropped, known⟩ := Option.isSome_iff_exists.mp known
    have stored : s.store.collections[name]? = some dropped := up.synced.schemas ▸ known
    unfold State.logTx State.forgetCollection Store.dropCollection Store.getCollectionSchema at synced ⊢
    dsimp only at synced ⊢
    rw [stored] at synced ⊢
    dsimp only at synced ⊢
    have open_ (c index : String) : (s.fieldIndexes.filter fun k _ => k.1 ≠ name)[(c, index)]? =
        if c ≠ name then s.fieldIndexes[(c, index)]? else none :=
      FinMap.get_filterKeys s.fieldIndexes (fun k => k.1 ≠ name) (c, index)
    have entities (c : String) (id : LogicalId) :
        (s.store.entities.filter fun k _ => k.1 ≠ name)[(c, id)]? =
          if c ≠ name then s.store.entities[(c, id)]? else none :=
      FinMap.get_filterKeys s.store.entities (fun k => k.1 ≠ name) (c, id)
    have schemas (c : String) (schema : CollectionSchema) :
        (s.schemas.erase name)[c]? = some schema ↔ c ≠ name ∧ s.schemas[c]? = some schema := by
      rw [FinMap.get_erase]
      by_cases same : name = c
      · simp [same]
      · simp [same, Ne.symm same]
    have partition (c index : String) : ((s.store.fieldIndexes.filter fun k _ =>
          ¬ (k.1 = name ∧ k.2 ∈ dropped.indexes.map StoredIndex.name))[(c, index)]?).getD ∅ =
        if c = name ∧ index ∈ dropped.indexes.map StoredIndex.name then ∅
        else s.store.indexPartition c index := by
      rw [FinMap.get_filterKeys s.store.fieldIndexes
        (fun k => ¬ (k.1 = name ∧ k.2 ∈ dropped.indexes.map StoredIndex.name)) (c, index)]
      by_cases gone : c = name ∧ index ∈ dropped.indexes.map StoredIndex.name
      · rw [if_neg (not_not.mpr gone), if_pos gone]
        rfl
      · rw [if_pos gone, if_neg gone]
        rfl
    refine ⟨synced, ?_, ?_, ?_, ?_, ?_, ?_⟩
    · intro c id e there
      rw [entities] at there
      split at there
      · rename_i other
        rw [Store.hasCollection_eq]
        dsimp only
        rw [FinMap.get_erase, if_neg (Ne.symm other), ← Std.ExtTreeMap.contains_eq_isSome_getElem?]
        exact up.housed c id e there
      · cases there
    · intro c index key id there
      unfold Store.indexPartition at there
      dsimp only at there
      rw [partition] at there
      dsimp only
      split at there
      · simp at there
      · rename_i kept
        obtain ⟨schema, before, listed⟩ := up.placed c index key id there
        refine ⟨schema, ?_, listed⟩
        rw [FinMap.get_erase, if_neg, before]
        rintro rfl
        cases stored.symm.trans before
        exact kept ⟨rfl, listed⟩
    · intro c index types there
      rw [open_] at there
      split at there
      · rename_i other
        obtain ⟨schema, before, listed⟩ := up.opened c index types there
        exact ⟨schema, (schemas c schema).mpr ⟨other, before⟩, listed⟩
      · cases there
    · intro c schema there
      exact up.distinct c schema ((schemas c schema).mp there).2
    · intro c schema there idx listed
      obtain ⟨other, before⟩ := (schemas c schema).mp there
      obtain ⟨types, declared, opened⟩ := up.current c schema before idx listed
      refine ⟨types, declared, ?_⟩
      rw [open_, if_pos other, opened]
    · intro c schema there idx listed
      obtain ⟨other, before⟩ := (schemas c schema).mp there
      unfold Store.indexPartition
      dsimp only
      rw [partition, if_neg fun gone => other gone.1]
      refine (up.exact c schema before idx listed).congr fun id => ?_
      unfold State.keyOf
      dsimp only
      rw [entities, if_pos other]

/-! ### The other statements -/

namespace LeavesIndexes

omit [WalPayload Payload]
variable {s' s'' : State}

theorem refl (s : State) : LeavesIndexes s s := ⟨rfl, rfl, rfl, rfl⟩

theorem trans (first : LeavesIndexes s s') (second : LeavesIndexes s' s'') : LeavesIndexes s s'' :=
  ⟨second.schemas.trans first.schemas, second.fieldIndexes.trans first.fieldIndexes,
    second.entities.trans first.entities, second.partitions.trans first.partitions⟩

theorem foldl {A : Type} {f : State → A → State} (each : ∀ s a, LeavesIndexes s (f s a)) (as : List A)
    (s : State) : LeavesIndexes s (as.foldl f s) := by
  induction as generalizing s with
  | nil => exact .refl s
  | cons a rest ih => exact (each s a).trans (ih (f s a))

end LeavesIndexes

theorem leavesIndexes_createEdgeType (env : Env) (s : State) (p : CreateEdgeTypePlan) :
    LeavesIndexes s (createEdgeType env s p).2 := by
  unfold createEdgeType Store.createEdgeType
  split
  · split
    · dsimp only [State.logTx]
      split
      · exact ⟨rfl, rfl, rfl, rfl⟩
      · rename_i created
        split at created
        · cases created
        · cases created
          exact ⟨rfl, rfl, rfl, rfl⟩
    · exact .refl s
  · exact .refl s

theorem leavesIndexes_dropEdgeType (env : Env) (s : State) (name : String) :
    LeavesIndexes s (dropEdgeType env s name).2 := by
  unfold dropEdgeType
  split
  · exact ⟨rfl, rfl, rfl, rfl⟩
  · exact .refl s

theorem leavesIndexes_insertEdge (env : Env) (s : State) (p : InsertEdgePlan) :
    LeavesIndexes s (insertEdge env s p).2 := by
  unfold insertEdge
  repeat' split
  all_goals exact ⟨rfl, rfl, rfl, rfl⟩

theorem leavesIndexes_confirmEdge (env : Env) (s : State) (p : ConfirmEdgePlan) :
    LeavesIndexes s (confirmEdge env s p).2 := by
  unfold confirmEdge
  dsimp only
  repeat' split
  all_goals exact ⟨rfl, rfl, rfl, rfl⟩

theorem leavesIndexes_sweep (env : Env) (s : State) : LeavesIndexes s (sweepDecayedEdges env s) := by
  refine .foldl (fun s et => ?_) _ s
  unfold sweepEdgeType
  split
  · exact .refl s
  · exact .foldl (fun s edge => (⟨rfl, rfl, rfl, rfl⟩ : LeavesIndexes s (s.removeEdge _ _ _ _))) _ s

theorem leavesIndexes_inferLoop (env : Env) (et : EdgeType) (id : LogicalId) (existing : List LogicalId)
    (results : List (LogicalId × F32)) (created : Nat) (s : State) :
    LeavesIndexes s (inferLoop env et id existing results created s) := by
  induction results generalizing created s with
  | nil => exact .refl s
  | cons r rest ih =>
    unfold inferLoop
    split
    · exact .refl s
    · split
      · exact ih created s
      · have written : LeavesIndexes s (s.writeEdge env.ts .edgeInferred
            ⟨id, r.1, et.name, r.2, ∅, env.nowMillis s.wal.nextTx, .inferred, none, none⟩) :=
          ⟨rfl, rfl, rfl, rfl⟩
        exact written.trans (ih _ _)

theorem leavesIndexes_drain (env : Env) (s : State) : LeavesIndexes s (drainInferenceQueue env s) := by
  refine .foldl (fun s id => ?_) _ s
  unfold drainEntity
  dsimp only
  split
  · exact ⟨rfl, rfl, rfl, rfl⟩
  · have popped : LeavesIndexes s { s with inferenceQueue := s.inferenceQueue.erase id } :=
      ⟨rfl, rfl, rfl, rfl⟩
    refine popped.trans (.foldl (fun s et => ?_) _ _)
    unfold inferEdgeType
    repeat' split
    all_goals first | exact .refl s | exact leavesIndexes_inferLoop _ _ _ _ _ _ _

theorem upkept_perform (env : Env) (w : Write) (up : Upkept s) (keeps : KeepsIndexes env s w) :
    Upkept (perform env s w).2 := by
  have synced := synced_perform env s w up.synced
  cases w with
  | createCollection p => exact upkept_createCollection env up p keeps
  | dropCollection name => exact upkept_dropCollection env up name
  | alterCollection p => exact upkept_alterCollection env up p keeps
  | insert p => exact upkept_insert env up p keeps
  | updateEntity p => exact upkept_updateEntity env up p keeps
  | deleteEntity p => exact upkept_deleteEntity env up p
  | importCollection p => exact upkept_importCollection env up p keeps
  | createEdgeType p => exact up.left synced (leavesIndexes_createEdgeType env s p)
  | dropEdgeType name => exact up.left synced (leavesIndexes_dropEdgeType env s name)
  | insertEdge p => exact up.left synced (leavesIndexes_insertEdge env s p)
  | deleteEdge p => exact up.left synced ⟨rfl, rfl, rfl, rfl⟩
  | confirmEdge p => exact up.left synced (leavesIndexes_confirmEdge env s p)
  | sweepDecayedEdges => exact up.left synced (leavesIndexes_sweep env s)
  | drainInferenceQueue => exact up.left synced (leavesIndexes_drain env s)

end TronDB.Engine
