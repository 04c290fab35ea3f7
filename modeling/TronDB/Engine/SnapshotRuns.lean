import TronDB.Engine.Reopened
import TronDB.Engine.VectorsFollow

/-! Whether the dense indexes hold what the store has whenever an engine has opened again. -/
namespace TronDB.Engine
open TronDB.Core Binary Wal

/-! ### Indexes stay in order -/

def InOrder (s s' : State) : Prop := IndexesOk s.indexes → IndexesOk s'.indexes

namespace InOrder

variable {s s' s'' : State}

theorem same (indexes : s'.indexes = s.indexes) : InOrder s s' := by
  intro ok
  rw [indexes]
  exact ok

theorem trans (first : InOrder s s') (second : InOrder s' s'') : InOrder s s'' :=
  fun ok => second (first ok)

theorem foldl {A : Type} {f : State → A → State} (each : ∀ s a, InOrder s (f s a)) (as : List A)
    (s : State) : InOrder s (as.foldl f s) := by
  induction as generalizing s with
  | nil => exact .same rfl
  | cons a rest ih => exact (each s a).trans (ih (f s a))

theorem filtered {p : String × String → HnswIndex → Bool} (indexes : s'.indexes = s.indexes.filter p) :
    InOrder s s' := by
  intro ok key h found
  rw [indexes, FinMap.get_filter] at found
  exact ok key h (Option.filter_eq_some_iff.mp found).1

end InOrder

section Writes
variable [WalPayload Payload]

theorem inOrder_createCollection (env : Env) (s : State) (p : CreateCollectionPlan) :
    InOrder s (createCollection env s p).2 := by
  rcases create_vectors env s p with ⟨same, -, -, -⟩ | ⟨-, -, -, -, indexes, -⟩
  · exact .same same.indexes
  · intro ok key h found
    rw [indexes] at found
    rcases openDense_cases (buildCollectionSchema p) s.indexes key with ⟨-, dims, opened⟩ | ⟨same, -⟩
    · cases found.symm.trans opened
      exact HnswIndex.wellFormed_new dims
    · exact ok key h (same.symm.trans found)

theorem inOrder_dropCollection (env : Env) (s : State) (name : String) :
    InOrder s (dropCollection env s name).2 := by
  unfold dropCollection
  split
  · dsimp only
    split <;> exact .filtered rfl
  · exact .same rfl

omit [WalPayload Payload] in
theorem inOrder_alterMemory (s : State) (collection : String) (schema : CollectionSchema)
    (entities : List Entity) (op : SchemaAlterOp) :
    InOrder s (s.alterMemory collection schema entities op) := by
  intro ok key h found
  unfold State.alterMemory at found
  split at found
  · exact ok key h found
  · rename_i name dimensions metric sparse fields
    have opened : ∀ dims, ((s.indexes.insert (collection, name) (.new dims))[key]? = some h) →
        h.WellFormed := by
      intro dims there
      rw [FinMap.get_insert] at there
      split at there
      · cases there
        exact HnswIndex.wellFormed_new dims
      · exact ok key h there
    cases sparse with
    | true =>
      dsimp only at found
      split at found <;> exact ok key h found
    | false =>
      cases dimensions with
      | none =>
        dsimp only at found
        split at found <;> exact ok key h found
      | some dims =>
        dsimp only at found
        split at found <;> exact opened dims found
  · exact ok key h found

theorem inOrder_alterCollection (env : Env) (s : State) (p : AlterCollectionPlan) :
    InOrder s (alterCollection env s p).2 := by
  unfold alterCollection
  split
  · exact .same rfl
  · split
    · exact .same rfl
    · split
      · exact .same rfl
      · rename_i schema _ _ entities _ _ _
        dsimp only
        have altered := inOrder_alterMemory (s.logTx env.ts p.collection
          ((.schemaAlter, .schemaAlter p.collection p.operation) ::
            (entities.filterMap fun e => alterEntity e p.operation).map fun e =>
              (.entityWrite, .entity e))) p.collection schema entities p.operation
        split <;> exact altered

theorem inOrder_insert (env : Env) (s : State) (p : InsertPlan) : InOrder s (insert env s p).2 := by
  rcases insert_vectors env s p with ⟨same, -, -⟩ | ⟨schema, e, -, -, -, -, -, put⟩
  · exact .same same.indexes
  · exact put.indexesOk

theorem inOrder_updateEntity (env : Env) (s : State) (p : UpdateEntityPlan) :
    InOrder s (updateEntity env s p).2 := by
  unfold updateEntity
  split
  · exact .same rfl
  · dsimp only
    split
    · exact .same rfl
    · split
      · exact .same rfl
      · refine .same ?_
        unfold State.enqueue
        split <;> rfl

theorem inOrder_deleteEntity (env : Env) (s : State) (p : DeleteEntityPlan) :
    InOrder s (deleteEntity env s p).2 := by
  rcases delete_vectors env s p with same | ⟨-, -, indexes, -, -⟩
  · exact .same (by rw [same])
  · intro ok key h found
    rw [indexes, get_tombstone] at found
    obtain ⟨old, there, rfl⟩ := Option.map_eq_some_iff.mp found
    split
    · exact HnswIndex.wellFormed_remove (ok key old there) p.entityId
    · exact ok key old there

omit [WalPayload Payload] in
theorem indexes_importLoop (env : Env) (collection : String) (txId : Nat) (lines : List ImportLine)
    (imported : Nat) (s : State) :
    (importLoop env collection txId lines imported s).2.indexes = s.indexes :=
  importLoop_invariant (P := fun t => t.indexes = s.indexes) env collection txId
    (fun _ _ same => same) (fun _ _ _ same => same) lines imported rfl

theorem inOrder_importCollection (env : Env) (s : State) (p : ImportPlan) :
    InOrder s (importCollection env s p).2 := by
  unfold importCollection
  split
  · exact .same rfl
  · split
    · exact .same rfl
    · rename_i lines _
      dsimp only
      have loop := indexes_importLoop env p.collection s.wal.nextTx lines 0
        { s with wal := s.wal.beginTx p.collection env.ts }
      split
      · rename_i run
        rw [run] at loop
        exact .same loop
      · rename_i run
        rw [run] at loop
        exact .same loop

theorem inOrder_sweep (env : Env) (s : State) : InOrder s (sweepDecayedEdges env s) := by
  unfold sweepDecayedEdges
  refine .foldl (fun s et => ?_) _ s
  unfold sweepEdgeType
  split
  · exact .same rfl
  · exact .foldl (fun s edge => (.same rfl : InOrder s (s.removeEdge _ _ _ _))) _ s

theorem indexes_inferLoop (env : Env) (et : EdgeType) (id : LogicalId) (existing : List LogicalId)
    (results : List (LogicalId × F32)) (created : Nat) (s : State) :
    (inferLoop env et id existing results created s).indexes = s.indexes := by
  induction results generalizing created s with
  | nil => rfl
  | cons r rest ih =>
    unfold inferLoop
    split
    · rfl
    · split
      · exact ih created s
      · exact ih _ _

theorem inOrder_drain (env : Env) (s : State) : InOrder s (drainInferenceQueue env s) := by
  refine .foldl (fun s id => ?_) _ s
  unfold drainEntity
  dsimp only
  split
  · exact .same rfl
  · have popped : InOrder s { s with inferenceQueue := s.inferenceQueue.erase id } := .same rfl
    refine popped.trans (.foldl (fun s et => ?_) _ _)
    unfold inferEdgeType
    repeat' split
    all_goals first | exact .same rfl | exact .same (indexes_inferLoop _ _ _ _ _ _ _)

theorem inOrder_perform (env : Env) (s : State) (w : Write) : InOrder s (perform env s w).2 := by
  cases w with
  | createCollection p => exact inOrder_createCollection env s p
  | dropCollection name => exact inOrder_dropCollection env s name
  | alterCollection p => exact inOrder_alterCollection env s p
  | insert p => exact inOrder_insert env s p
  | updateEntity p => exact inOrder_updateEntity env s p
  | deleteEntity p => exact inOrder_deleteEntity env s p
  | importCollection p => exact inOrder_importCollection env s p
  | sweepDecayedEdges => exact inOrder_sweep env s
  | drainInferenceQueue => exact inOrder_drain env s
  | createEdgeType p =>
    refine .same ?_
    unfold perform createEdgeType
    dsimp only
    repeat' split
    all_goals rfl
  | dropEdgeType name =>
    refine .same ?_
    unfold perform dropEdgeType
    dsimp only
    split <;> rfl
  | insertEdge p =>
    refine .same ?_
    unfold perform insertEdge
    dsimp only
    repeat' split
    all_goals rfl
  | deleteEdge p => exact .same rfl
  | confirmEdge p =>
    refine .same ?_
    unfold perform confirmEdge
    dsimp only
    repeat' split
    all_goals rfl

theorem inOrder_writeBack (job : Job) (env : Env) (s : State) (y : Encoded) :
    InOrder s (job.writeBack env s y).2 := by
  have inserted (v : List F32) (key : String × String) (h : HnswIndex) (ok : IndexesOk s.indexes)
      (found : (FinMap.adjust s.indexes (job.collection, job.stored.name) fun idx =>
        idx.insert y.key.1 v)[key]? = some h) : h.WellFormed := by
    rw [FinMap.get_adjust] at found
    split at found
    · obtain ⟨old, there, rfl⟩ := Option.map_eq_some_iff.mp found
      exact HnswIndex.wellFormed_insert (ok key old there) y.key.1 v
    · exact ok key h found
  unfold Job.writeBack
  dsimp only
  split
  · exact .same rfl
  · cases y.vector with
    | dense v =>
      dsimp only
      split <;> exact fun ok key h found => inserted v key h ok found
    | sparse sv =>
      dsimp only
      split <;> exact .same rfl

theorem inOrder_advance (env : RecomputeEnv) (s : State) (task : Task) :
    InOrder s (advance env s task).1 := by
  by_cases writes : ∃ job y encoded later rest, task = .writing job (y :: encoded) later rest
  · obtain ⟨job, y, encoded, later, rest, rfl⟩ := writes
    rw [advance_write]
    exact inOrder_writeBack job env.toEnv s y
  · refine .same (advance_indexes env s task fun job y encoded later rest same => writes ?_).1
    exact ⟨job, y, encoded, later, rest, same⟩

theorem beginInsert_indexes (env : Env) (s : State) (p : InsertPlan) :
    (beginInsert env s p).2.indexes = s.indexes := by
  unfold beginInsert
  split
  · rfl
  · split
    · rfl
    · dsimp only
      split
      · exact removeOldEntries_indexes _ _ _ _
      · exact removeOldEntries_indexes _ _ _ _

omit [WalPayload Payload] in
theorem inOrder_finishInsert (env : Env) (s : State) (pending : PendingInsert) :
    InOrder s (finishInsert env s pending).2 := by
  unfold finishInsert
  cases present : s.store.hasCollection pending.collection with
  | false =>
    rw [applyInsert_absent env _ present]
    exact .same rfl
  | true =>
    intro ok key h found
    rw [(applyInsert_inserted env _ present).1.indexes, get_insertDense] at found
    split at found
    · obtain ⟨old, there, rfl⟩ := Option.map_eq_some_iff.mp found
      exact HnswIndex.wellFormed_offer (ok key old there) _ _
    · exact ok key h found

/-! ### Metadata over sessions -/

theorem sameSchemas_beginInsert (env : Env) (s : State) (p : InsertPlan) :
    SameSchemas s (beginInsert env s p).2 := by
  unfold beginInsert
  split
  · exact .refl s
  · split
    · exact .refl s
    · dsimp only
      have removed := sameSchemas_removeOldEntries env s p.collection
        ((findIdInFields p.fields p.values).getD (env.freshId 0))
      split
      · exact removed
      · exact removed.trans ⟨rfl, rfl, rfl, rfl⟩

omit [WalPayload Payload] in
theorem sameSchemas_finishInsert (env : Env) (s : State) (pending : PendingInsert) :
    SameSchemas s (finishInsert env s pending).2 := by
  unfold finishInsert State.applyInsert Store.insert
  split
  · exact .refl s
  · rename_i stored
    split at stored
    · cases stored
      dsimp only
      split
      · exact .of_data rfl rfl (by simp; rfl) (by simp; rfl)
      · refine .trans ?_ (sameSchemas_enqueue _ _ _)
        exact .of_data rfl rfl (by simp; rfl) (by simp; rfl)
    · cases stored

theorem sameSchemas_advance (env : RecomputeEnv) (s : State) (task : Task) :
    SameSchemas s (advance env s task).1 := by
  have schemas := advance_schemas env s task
  have edgeTypes := advance_edgeTypes env s task
  by_cases writes : ∃ job y encoded later rest, task = .writing job (y :: encoded) later rest
  · obtain ⟨job, y, encoded, later, rest, rfl⟩ := writes
    rw [advance_write] at schemas edgeTypes ⊢
    cases present : s.store.hasCollection job.collection with
    | false =>
      obtain ⟨e, failed⟩ := writeBack_absent job env.toEnv y present
      rw [failed]
      exact ⟨rfl, rfl, rfl, rfl⟩
    | true =>
      have store := (writeBack_put job env.toEnv y present).1
      exact ⟨schemas, edgeTypes, by rw [store]; rfl, by rw [store]; rfl⟩
  · have store := (advance_quiet env s task fun job y encoded later rest same =>
      writes ⟨job, y, encoded, later, rest, same⟩).1
    exact ⟨schemas, edgeTypes, by rw [store], by rw [store]⟩

/-! ### Opening -/

def Disk.replayed (disk : Disk) (config : WalConfig)
    (order : HashOrder (Nat × List (WalRecord Payload))) :
    Except EngineError (State × List (WalRecord Payload)) :=
  replayWalRecords (.booting disk.store (WalWriter.open config disk.wal) disk.location)
    (disk.recordsToReplay order)

theorem openEngine_replayed {config : WalConfig} {order : HashOrder (Nat × List (WalRecord Payload))}
    {disk : Disk} {engine : OpenEngine} {unhandled : List (WalRecord Payload)}
    (opened : openEngine config order disk = .ok (engine, unhandled)) :
    ∃ s, disk.replayed config order = .ok (s, unhandled) ∧
      engine.state = s.loadSchemas.rebuild disk.hnswSnapshots (disk.recordsToReplay order) ∧
      engine.hnswSnapshots = disk.hnswSnapshots := by
  unfold openEngine at opened
  unfold Disk.replayed
  dsimp only at opened
  cases replayed : replayWalRecords (.booting disk.store (WalWriter.open config disk.wal) disk.location)
      (disk.recordsToReplay order) with
  | error e =>
    rw [replayed] at opened
    cases opened
  | ok done =>
    obtain ⟨s, rest⟩ := done
    rw [replayed] at opened
    cases opened
    exact ⟨s, rfl, rfl, rfl⟩

/-- The metadata on the disk is kept by name. -/
structure Disk.Named (disk : Disk) : Prop where
  collections : ∀ (name : String) (schema : CollectionSchema),
    disk.store.collections[name]? = some schema → schema.name = name
  edgeTypes : ∀ (name : String) (et : EdgeType),
    disk.store.edgeTypes[name]? = some et → et.name = name

theorem replaying_replayed {disk : Disk} (named : disk.Named) {config : WalConfig}
    {order : HashOrder (Nat × List (WalRecord Payload))} {s : State}
    {unhandled : List (WalRecord Payload)} (replayed : disk.replayed config order = .ok (s, unhandled)) :
    Replaying s := by
  refine replaying_records _ ⟨.empty named.collections, .empty named.edgeTypes, ?_⟩ replayed
  simp [State.booting]

omit [WalPayload Payload] in
theorem replaying_loadSchemas {s : State} (replaying : Replaying s) :
    Replaying s.loadSchemas ∧ s.loadSchemas.schemas = s.store.collections := by
  have loaded : s.loadSchemas.schemas = s.store.collections := replaying.schemas.load
  refine ⟨⟨?_, replaying.edgeTypes, replaying.empty⟩, loaded⟩
  rw [loaded]
  exact ⟨fun _ there => there, replaying.schemas.named⟩

omit [WalPayload Payload] in
theorem synced_rebuilt {s s' : State} {snapshots : HnswSnapshots}
    {records : List (WalRecord Payload)} (replaying : Replaying s)
    (schemas : s.schemas = s.store.collections) (rebuilt : Rebuilt s s' snapshots records) :
    Synced s' := by
  have collections : s'.store.collections = s.store.collections :=
    congrArg Data.collections rebuilt.data
  have edgeTypes : s'.store.edgeTypes = s.store.edgeTypes := congrArg Data.edgeTypes rebuilt.data
  refine ⟨?_, ?_, ?_, ?_⟩
  · rw [rebuilt.schemas, schemas, collections]
  · rw [rebuilt.edgeTypes, edgeTypes]
    exact replaying.edgeTypes.load
  · rw [collections]
    exact replaying.schemas.named
  · rw [edgeTypes]
    exact replaying.edgeTypes.named

omit [WalPayload Payload] in
theorem indexesOk_rebuilt {s s' : State} {snapshots : HnswSnapshots}
    {records : List (WalRecord Payload)} (replaying : Replaying s)
    (wf : ∀ (base : String) (snapshot : HnswSnapshot), snapshots[base]? = some snapshot →
      snapshot.index.WellFormed) (rebuilt : Rebuilt s s' snapshots records) : IndexesOk s'.indexes := by
  intro key h found
  by_cases present : s.store.hasCollection key.1 = true
  · obtain ⟨lsns, -, opened⟩ := rebuilt.opened
    rw [(opened key present).2] at found
    obtain ⟨start, there, rfl⟩ := Option.map_eq_some_iff.mp found
    refine wellFormed_catchUp ?_ lsns records key
    unfold openedEntry at there
    cases loadable : s.loadable snapshots key with
    | some snapshot =>
      rw [loadable] at there
      cases there
      obtain ⟨dims, -, file⟩ := dense_of_loadable loadable
      exact wellFormed_fromSnapshot (wf _ snapshot file)
    | none =>
      rw [loadable] at there
      obtain ⟨empty, made, rfl⟩ := Option.map_eq_some_iff.mp there
      refine HnswIndex.wellFormed_fill ?_ _ _
      unfold State.emptyIndex at made
      split at made
      · rename_i old before
        cases made
        obtain ⟨dims, rfl⟩ := replaying.empty key _ before
        exact HnswIndex.wellFormed_new dims
      · obtain ⟨dims, -, rfl⟩ := Option.map_eq_some_iff.mp made
        exact HnswIndex.wellFormed_new dims
  · rw [rebuilt.others key present] at found
    obtain ⟨dims, rfl⟩ := replaying.empty key h found
    exact HnswIndex.wellFormed_new dims

/-! ### Sessions -/

/-- What every session keeps, exact or not. -/
structure Session.Sound (x : Session) : Prop where
  synced : Synced x.engine.state
  indexes : IndexesOk x.engine.state.indexes
  snapshots : ∀ (base : String) (snapshot : HnswSnapshot),
    x.engine.hnswSnapshots[base]? = some snapshot → snapshot.index.WellFormed

namespace Session.Sound

omit [WalPayload Payload] in
theorem named {x : Session} (sound : x.Sound) : x.engine.disk.Named :=
  ⟨sound.synced.named, sound.synced.edgeTypeNamed⟩

theorem reopened {x : Session} (sound : x.Sound) {config : WalConfig}
    {order : HashOrder (Nat × List (WalRecord Payload))} {engine : OpenEngine}
    {unhandled : List (WalRecord Payload)}
    (opened : openEngine config order x.engine.disk = .ok (engine, unhandled)) :
    ∃ s, x.engine.disk.replayed config order = .ok (s, unhandled) ∧
      Replaying s.loadSchemas ∧ s.loadSchemas.schemas = s.loadSchemas.store.collections ∧
      Rebuilt s.loadSchemas engine.state x.engine.hnswSnapshots
        (x.engine.disk.recordsToReplay order) ∧
      engine.hnswSnapshots = x.engine.hnswSnapshots := by
  obtain ⟨s, replayed, state, snapshots⟩ := openEngine_replayed opened
  obtain ⟨replaying, schemas⟩ := replaying_loadSchemas (replaying_replayed sound.named replayed)
  refine ⟨s, replayed, replaying, schemas, ?_, snapshots⟩
  rw [state]
  exact rebuilt_spec schemas _ _

omit [WalPayload Payload] in
theorem kept {x : Session} (sound : x.Sound) {s : State} {inserts : List PendingInsert}
    {tasks : List Task} (synced : Synced s) (inOrder : InOrder x.engine.state s) :
    Session.Sound ⟨{ x.engine with state := s }, inserts, tasks⟩ :=
  ⟨synced, inOrder sound.indexes, sound.snapshots⟩

theorem start (config : WalConfig) : (Session.start (.init config)).Sound where
  synced := synced_init config
  indexes := by simp [IndexesOk, Session.start, OpenEngine.init, State.init]
  snapshots := by simp [Session.start, OpenEngine.init]

omit [WalPayload Payload] in
theorem savedAll (indexes : List ((String × String) × HnswIndex)) (lsn : Nat)
    (ok : ∀ kh ∈ indexes, kh.2.WellFormed) (snapshots : HnswSnapshots)
    (wf : ∀ (base : String) (snapshot : HnswSnapshot), snapshots[base]? = some snapshot →
      snapshot.index.WellFormed) :
    ∀ (base : String) (snapshot : HnswSnapshot),
      (indexes.foldl (fun snapshots kh => saveSnapshot snapshots kh.1 kh.2 lsn) snapshots)[base]? =
        some snapshot → snapshot.index.WellFormed := by
  induction indexes generalizing snapshots with
  | nil => exact wf
  | cons kh rest ih =>
    rw [List.forall_mem_cons] at ok
    refine ih ok.2 _ fun base snapshot found => ?_
    unfold saveSnapshot at found
    dsimp only at found
    split at found
    · exact wf base snapshot found
    · rw [FinMap.get_insert] at found
      split at found
      · cases found
        exact ok.1
      · exact wf base snapshot found

theorem step {x x' : Session} (sound : x.Sound) (a : Event) (stepped : x.step a = some x') :
    x'.Sound := by
  cases a with
  | write env w =>
    cases stepped
    exact sound.kept (synced_perform env _ w sound.synced) (inOrder_perform env _ w)
  | beginInsert env p =>
    have synced := (sameSchemas_beginInsert env x.engine.state p).synced sound.synced
    have indexes := beginInsert_indexes env x.engine.state p
    unfold Session.step at stepped
    dsimp only at stepped
    split at stepped
    · rename_i begun
      rw [begun] at synced indexes
      cases stepped
      exact sound.kept synced (.same indexes)
    · rename_i failed
      rw [failed] at synced indexes
      cases stepped
      exact sound.kept synced (.same indexes)
  | finishInsert env i =>
    unfold Session.step at stepped
    dsimp only at stepped
    split at stepped
    · cases stepped
      exact sound
    · rename_i pending _
      cases stepped
      exact sound.kept ((sameSchemas_finishInsert env _ pending).synced sound.synced)
        (inOrder_finishInsert env _ pending)
  | startRecompute env =>
    cases stepped
    exact ⟨sound.synced, sound.indexes, sound.snapshots⟩
  | advance env i =>
    unfold Session.step at stepped
    dsimp only at stepped
    split at stepped
    · cases stepped
      exact sound
    · rename_i task _
      cases stepped
      exact sound.kept ((sameSchemas_advance env _ task).synced sound.synced)
        (inOrder_advance env _ task)
  | checkpoint ts =>
    have same : SameSchemas x.engine.state (Engine.checkpoint ts x.engine.state).2 :=
      ⟨rfl, rfl, rfl, rfl⟩
    cases stepped
    exact sound.kept (same.synced sound.synced) (.same rfl)
  | saveLocation =>
    cases stepped
    exact ⟨sound.synced, sound.indexes, sound.snapshots⟩
  | saveHnsw order =>
    cases stepped
    refine ⟨sound.synced, sound.indexes, savedAll _ _ (fun kh listed => ?_) _ sound.snapshots⟩
    rw [(order.perm _).mem_iff] at listed
    exact sound.indexes kh.1 kh.2 ((FinMap.mem_toList _ _ _).mp listed)
  | reopen config order =>
    unfold Session.step at stepped
    dsimp only at stepped
    split at stepped
    · rename_i opened
      cases stepped
      obtain ⟨s, -, replaying, schemas, rebuilt, snapshots⟩ := sound.reopened opened
      refine ⟨synced_rebuilt replaying schemas rebuilt,
        indexesOk_rebuilt replaying sound.snapshots rebuilt, ?_⟩
      unfold Session.start
      dsimp only
      rw [snapshots]
      exact sound.snapshots
    · cases stepped

end Session.Sound

/-! ### Runs -/

/-- After an opening the indexes have the stored vectors. -/
def ReopensExactly (x : Option Session) (a : Event) : Prop :=
  ∀ config order x', a = .reopen config order → Session.next x a = some x' →
    VectorsRebuilt x'.engine.state

/-- At an opening every snapshot that is loaded comes to the stored vectors. -/
def SnapshotsReach (x : Option Session) (a : Event) : Prop :=
  ∀ config order session s unhandled, a = .reopen config order → x = some session →
    session.engine.disk.replayed config order = .ok (s, unhandled) →
      SnapshotsSettle s.loadSchemas session.engine.hnswSnapshots
        (session.engine.disk.recordsToReplay order)

theorem reopen_exact_iff {x : Session} (sound : x.Sound) (config : WalConfig)
    (order : HashOrder (Nat × List (WalRecord Payload))) :
    (∀ x', x.step (.reopen config order) = some x' → VectorsRebuilt x'.engine.state) ↔
      ∀ s unhandled, x.engine.disk.replayed config order = .ok (s, unhandled) →
        SnapshotsSettle s.loadSchemas x.engine.hnswSnapshots (x.engine.disk.recordsToReplay order) := by
  cases opened : openEngine config order x.engine.disk with
  | error e =>
    refine iff_of_true (fun x' stepped => ?_) fun s unhandled replayed => ?_
    · simp only [Session.step, opened] at stepped
      cases stepped
    · unfold openEngine at opened
      unfold Disk.replayed at replayed
      dsimp only at opened
      rw [replayed] at opened
      cases opened
  | ok done =>
    obtain ⟨engine, unhandled⟩ := done
    obtain ⟨s, replayed, replaying, schemas, rebuilt, -⟩ := sound.reopened opened
    have exact_ := rebuild_iff replaying schemas sound.snapshots rebuilt
    constructor
    · intro all s' unhandled' replayed'
      cases replayed.symm.trans replayed'
      exact exact_.mp (all (.start engine) (by simp only [Session.step, opened]))
    · intro settle x' stepped
      simp only [Session.step, opened] at stepped
      cases stepped
      exact exact_.mpr (settle s unhandled replayed)

theorem reopens_exactly_iff {x : Option Session} (sound : ∀ session, x = some session → session.Sound)
    (a : Event) : ReopensExactly x a ↔ SnapshotsReach x a := by
  cases x with
  | none => exact iff_of_true (fun config order x' _ stepped => nomatch stepped) (by simp [SnapshotsReach])
  | some session =>
    have step := reopen_exact_iff (sound session rfl)
    constructor
    · intro exact_ config order session' s unhandled reopens this replayed
      cases this
      exact (step config order).mp (fun x' stepped => exact_ config order x' reopens (reopens ▸ stepped))
        s unhandled replayed
    · intro reach config order x' reopens stepped
      subst reopens
      exact (step config order).mpr (fun s unhandled => reach config order session s unhandled rfl rfl)
        x' stepped

/-- In a run over any number of sessions, the dense indexes hold the stored vectors after every
opening iff at every opening the snapshots that are loaded come to them. -/
theorem reopening_rebuilds_iff (config : WalConfig) (as : List Event) :
    (∀ p ∈ Run.taken Session.next (some (.start (.init config))) as, ReopensExactly p.1 p.2) ↔
      ∀ p ∈ Run.taken Session.next (some (.start (.init config))) as, SnapshotsReach p.1 p.2 := by
  refine Run.each_iff_guarded Session.next (fun x => ∀ session, x = some session → session.Sound)
    ReopensExactly SnapshotsReach as (fun session this => ?_) (fun x a sound _ session' stepped => ?_)
    fun x a sound => reopens_exactly_iff sound a
  · cases this
    exact .start config
  · obtain ⟨session, this, stepped⟩ := Option.bind_eq_some_iff.mp stepped
    exact (sound session this).step a stepped

end Writes

section Examples
attribute [local instance] headerOnly

def createVectors : CreateCollectionPlan :=
  ⟨"docs", [⟨"at", none, some 1, .cosine, false, []⟩], [], [], none⟩

/-- A collection is dropped and created again while the snapshot of its index stays. -/
def recreated : List Event :=
  [.write .idle (.createCollection createVectors),
    .write .idle (.insert ⟨"docs", ["id"], [.string "d"], [("at", .dense [⟨0x3FF0000000000000⟩])], none, none⟩),
    .saveHnsw (.insertionOrder _), .write .idle (.dropCollection "docs"),
    .write .idle (.createCollection createVectors)]

/-- The point of the dropped collection is in the index of the new one. -/
theorem dropped_point_returns :
    ¬ ReopensExactly (recreated.foldl Session.next (some (.start (.init default))))
      (.reopen default (.insertionOrder _)) := by
  intro exact_
  generalize opened : Session.next (recreated.foldl Session.next (some (.start (.init default))))
    (.reopen default (.insertionOrder _)) = x at *
  have schema : (x.bind fun x => x.engine.state.store.collections["docs"]?) =
      some (buildCollectionSchema createVectors) := by
    rw [← opened]
    decide +kernel
  have stored : (x.bind fun x => storedVector x.engine.state.store "docs" "d" "at") = none := by
    rw [← opened]
    decide +kernel
  have index : (x.bind fun x => x.engine.state.indexes[("docs", "at")]?.map fun h =>
      (h.inner, h.idxToId[0]?, h.tombstones.contains "d")) =
        some ([([⟨0x3F800000⟩], 0)], some "d", false) := by
    rw [← opened]
    decide +kernel
  obtain ⟨x, rfl, schema⟩ := Option.bind_eq_some_iff.mp schema
  rw [Option.bind_some] at stored index
  obtain ⟨h, found, facts⟩ := Option.map_eq_some_iff.mp index
  obtain ⟨points, facts⟩ := Prod.mk.inj facts
  obtain ⟨owner, unburied⟩ := Prod.mk.inj facts
  obtain ⟨h', found', scores⟩ := exact_ default _ x rfl opened "docs" _ schema
    (storedRepresentation "at" none (some 1) .cosine false []) (List.mem_singleton.mpr rfl) rfl rfl
  cases found.symm.trans found'
  have point : h.Scores "d" [⟨0x3F800000⟩] :=
    ⟨0, by rw [points]; exact List.mem_singleton.mpr rfl, owner, unburied⟩
  cases stored.symm.trans ((scores "d" _).mp point)

end Examples
end TronDB.Engine
