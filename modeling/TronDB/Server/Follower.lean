import TronDB.Engine.Reopened
import TronDB.Engine.Restart
import TronDB.Engine.Traverse
import TronDB.Lib.Codec
import TronDB.Server.Replication
import TronDB.Wal.Record

/-! Log records in the messages of the replication stream, and a replica's loop over it: what an
engine that starts empty stores behind it, and what it answers. -/
namespace TronDB.Proto
open Wal

namespace Message

/-- The enumeration is sent as a number. -/
structure WalRecordMessage (P : Type) where
  lsn : Nat
  timestamp : Int
  txId : Nat
  recordType : Int32
  schemaVer : Nat
  collection : String
  payload : P
  deriving DecidableEq

end Message

open Message (WalRecordMessage)

def recordTypeToProto : RecordType → Int32
  | .txBegin => 0
  | .txCommit => 1
  | .txAbort => 2
  | .entityWrite => 3
  | .entityDelete => 4
  | .reprWrite => 5
  | .reprDirty => 6
  | .edgeWrite => 7
  | .edgeInferred => 8
  | .edgeConfidenceUpdate => 9
  | .edgeConfirm => 10
  | .edgeDelete => 11
  | .locationUpdate => 12
  | .schemaCreateColl => 13
  | .schemaCreateEdgeType => 14
  | .affinityGroupCreate => 15
  | .affinityGroupMember => 16
  | .affinityGroupRemove => 17
  | .tierMigration => 18
  | .checkpoint => 19
  | .schemaDropColl => 20
  | .schemaDropEdgeType => 21
  | .schemaAlter => 22

def protoToRecordType (n : Int32) : Except String RecordType :=
  match n.toInt with
  | 0 => .ok .txBegin
  | 1 => .ok .txCommit
  | 2 => .ok .txAbort
  | 3 => .ok .entityWrite
  | 4 => .ok .entityDelete
  | 5 => .ok .reprWrite
  | 6 => .ok .reprDirty
  | 7 => .ok .edgeWrite
  | 8 => .ok .edgeInferred
  | 9 => .ok .edgeConfidenceUpdate
  | 10 => .ok .edgeConfirm
  | 11 => .ok .edgeDelete
  | 12 => .ok .locationUpdate
  | 13 => .ok .schemaCreateColl
  | 14 => .ok .schemaCreateEdgeType
  | 15 => .ok .affinityGroupCreate
  | 16 => .ok .affinityGroupMember
  | 17 => .ok .affinityGroupRemove
  | 18 => .ok .tierMigration
  | 19 => .ok .checkpoint
  | 20 => .ok .schemaDropColl
  | 21 => .ok .schemaDropEdgeType
  | 22 => .ok .schemaAlter
  | _ => .error s!"unknown RecordTypeProto value: {n}"

section Records
variable {P : Type}

def recordToProto (r : WalRecord P) : WalRecordMessage P :=
  ⟨r.lsn, r.ts, r.txId, recordTypeToProto r.recordType, r.schemaVer, r.collection, r.payload⟩

def protoToRecord (m : WalRecordMessage P) : Except String (WalRecord P) := do
  .ok ⟨m.lsn, m.timestamp, m.txId, ← protoToRecordType m.recordType, m.schemaVer, m.collection,
    m.payload⟩

end Records

theorem recordType_back (t : RecordType) : protoToRecordType (recordTypeToProto t) = .ok t := by
  cases t <;> rfl

theorem recordType_iff {n : Int32} {t : RecordType} :
    protoToRecordType n = .ok t ↔ n = recordTypeToProto t := by
  constructor
  · intro read
    unfold protoToRecordType at read
    split at read
    all_goals
      rename_i number
      cases read
      try exact Int32.toInt_inj.mp number
  · rintro rfl
    exact recordType_back t

theorem record_iff {P : Type} {m : WalRecordMessage P} {r : WalRecord P} :
    protoToRecord m = .ok r ↔ m = recordToProto r := by
  obtain ⟨lsn, ts, txId, recordType, schemaVer, collection, payload⟩ := m
  obtain ⟨lsn', ts', txId', t, schemaVer', collection', payload'⟩ := r
  unfold protoToRecord recordToProto
  dsimp only
  cases read : protoToRecordType recordType with
  | error e =>
    refine iff_of_false (fun same => nomatch same) fun same => ?_
    rw [WalRecordMessage.mk.injEq] at same
    rw [recordType_iff.mpr same.2.2.2.1] at read
    cases read
  | ok t' =>
    change Except.ok _ = _ ↔ _
    rw [Except.ok.injEq, WalRecord.mk.injEq, WalRecordMessage.mk.injEq, recordType_iff.mp read]
    have types : t' = t ↔ recordTypeToProto t' = recordTypeToProto t := by
      rw [← recordType_iff, recordType_back, Except.ok.injEq]
    rw [types]

end TronDB.Proto

namespace TronDB.Server
open TronDB.Core TronDB.Engine Wal
open Proto (recordToProto protoToRecord record_iff)
open Proto.Message (WalRecordMessage)

/-- A replica under way. -/
structure Follower where
  engine : State
  /-- The LSNs it has sent to the primary. -/
  acks : List Nat

namespace Follower

def start (engine : State) : Follower := ⟨engine, [headLsn engine.wal]⟩

/-- A message that cannot be read is passed over. A record is applied if that works, and
acknowledged. -/
def take (x : Follower) (m : WalRecordMessage Payload) : Follower :=
  match protoToRecord m with
  | .error _ => x
  | .ok r => ⟨x.engine.replicate r, x.acks ++ [r.lsn]⟩

def follow (engine : State) (messages : List (WalRecordMessage Payload)) : Follower :=
  messages.foldl take (start engine)

end Follower

def catchUp [WalPayload Payload] (primary : State) (confirmedLsn : Nat) :
    List (WalRecordMessage Payload) :=
  (recordsSince primary.wal confirmedLsn).map recordToProto

/-! ### One record -/

theorem replicate_cases (s : State) (r : WalRecord Payload) :
    s.replicate r = s ∨ s.replicate r = replayRecord s r := by
  have skipped : s.replicate r = s ∨
      s.replicate r = (replayWalRecords s [r]).toOption.elim s Prod.fst := by
    unfold State.replicate applyWalRecord
    cases r.recordType <;> first | exact .inl rfl | skip
    all_goals
      right
      dsimp only
      cases replayWalRecords s [r] <;> rfl
  rcases skipped with same | replayed
  · exact .inl same
  · rw [replayed]
    unfold replayWalRecords replayWalRecords
    split_ifs
    · exact .inr rfl
    · exact .inl rfl
    · exact .inl rfl

theorem data_replicate (s : State) {r : WalRecord Payload}
    (decoded : decodable (r.recordType, r.payload) = true) :
    dataOf (s.replicate r).store =
      if r.isMutation then (dataOf s.store).replay (toLogged r) else dataOf s.store := by
  obtain ⟨s', rest, replayed, data⟩ := replayWalRecords_ok [r] (by simpa using decoded) s
  unfold State.replicate applyWalRecord WalRecord.isMutation
  rw [replayed]
  cases type : r.recordType
  all_goals simp only [RecordType.isControl, Bool.not_true, Bool.not_false, if_true, if_false,
    Bool.false_eq_true]
  all_goals exact data

/-- What every record keeps, the stream keeps. -/
theorem follow_invariant {P : State → Prop} (each : ∀ s r, P s → P (replayRecord s r))
    (messages : List (WalRecordMessage Payload)) {engine : State} (start : P engine) :
    P (Follower.follow engine messages).engine := by
  unfold Follower.follow
  have begun : P (Follower.start engine).engine := start
  generalize Follower.start engine = x at begun
  induction messages generalizing x with
  | nil => exact begun
  | cons m rest ih =>
    refine ih _ ?_
    unfold Follower.take
    split
    · exact begun
    · rename_i r _
      change P (x.engine.replicate r)
      obtain same | replayed := replicate_cases x.engine r
      · rw [same]
        exact begun
      · rw [replayed]
        exact each _ r begun

/-! ### Schemas and edge types -/

def MapsStored (s : State) : Prop :=
  s.schemas = s.store.collections ∧ s.edgeTypes = s.store.edgeTypes

theorem mapsStored_rows {s s' : State} (stored : MapsStored s) (schemas : s'.schemas = s.schemas)
    (edgeTypes : s'.edgeTypes = s.edgeTypes)
    (rows : (dataOf s'.store).collections = s.store.collections ∧
      (dataOf s'.store).edgeTypes = s.store.edgeTypes) : MapsStored s' :=
  ⟨(schemas.trans stored.1).trans rows.1.symm, (edgeTypes.trans stored.2).trans rows.2.symm⟩

theorem mapsStored_alter {s : State} (stored : MapsStored s) (replaying : Replaying s)
    (r : WalRecord Payload) {collection : String} {op : SchemaAlterOp}
    (type : r.recordType = .schemaAlter) (payload : r.payload = .schemaAlter collection op) :
    MapsStored (replayRecord s r) := by
  unfold replayRecord State.replayMemory replayStore
  rw [type, payload]
  simp only [replayEntry, replayAlter]
  cases found : s.store.collections[collection]? with
  | none => exact stored
  | some schema =>
    have own := replaying.schemas.named collection schema found
    have edgeTypes : (s.replayIndexes collection op).edgeTypes = s.edgeTypes := by
      unfold State.replayIndexes
      repeat' split
      all_goals rfl
    dsimp only
    split
    · refine ⟨?_, edgeTypes.trans stored.2⟩
      unfold Store.updateCollectionSchema
      rw [name_alterSchema, own]
      exact congrArg (·.insert collection (alterSchema schema op)) stored.1
    · exact stored

theorem mapsStored_record {s : State} (stored : MapsStored s) (replaying : Replaying s)
    {r : WalRecord Payload} (legal : Legal (dataOf s.store) (toLogged r)) :
    MapsStored (replayRecord s r) := by
  obtain ⟨lsn, ts, txId, recordType, schemaVer, collection, payload⟩ := r
  cases recordType <;> try exact stored
  all_goals cases payload <;> try exact stored
  case entityWrite.entity e | reprWrite.entity e =>
    exact mapsStored_rows stored rfl rfl (rows_replayEntity s.store collection e)
  case entityDelete.entityDelete id c =>
    exact mapsStored_rows stored rfl rfl (rows_replayDelete s.store id c)
  case edgeWrite.edge e | edgeConfirm.edge e | edgeConfidenceUpdate.edge e | edgeInferred.edge e =>
    exact mapsStored_rows stored rfl rfl (rows_replayEdge s.store e)
  case schemaCreateColl.schema schema =>
    have absent : s.store.hasCollection schema.name = false := legal
    simp only [MapsStored, replayRecord, State.replayMemory, replayStore, replayEntry, absent]
    exact ⟨congrArg (·.insert schema.name schema) stored.1, stored.2⟩
  case schemaCreateEdgeType.edgeType et =>
    have absent : s.store.hasEdgeType et.name = false := legal
    simp only [MapsStored, replayRecord, State.replayMemory, replayStore, replayEntry, absent]
    exact ⟨stored.1, congrArg (·.insert et.name et) stored.2⟩
  case schemaDropColl.name name =>
    obtain ⟨schema, found⟩ := (contains_iff _ _).mp legal
    have found : s.store.collections[name]? = some schema := found
    simp only [MapsStored, replayRecord, State.replayMemory, replayStore, replayEntry, replayDrop,
      Store.dropCollection, Store.getCollectionSchema, found]
    exact ⟨congrArg (·.erase name) stored.1, stored.2⟩
  case schemaDropEdgeType.name name =>
    simp only [MapsStored, replayRecord, State.replayMemory, replayStore, replayEntry]
    split
    · exact ⟨stored.1, congrArg (·.erase name) stored.2⟩
    · rename_i absent
      refine ⟨stored.1, ?_⟩
      have missing : s.store.edgeTypes.erase name = s.store.edgeTypes := by
        refine FinMap.ext fun k => ?_
        rw [FinMap.get_erase]
        split
        · rename_i own
          subst own
          cases found : s.store.edgeTypes[name]? with
          | none => rfl
          | some et => exact absurd ((contains_iff _ _).mpr ⟨et, found⟩) absent
        · rfl
      exact (congrArg (·.erase name) stored.2).trans missing
  case schemaAlter.schemaAlter c op => exact mapsStored_alter stored replaying _ rfl rfl

/-! ### The stream of a log -/

theorem follow_records (records : List LogRecord) (engine : State) :
    Follower.follow engine (records.map recordToProto) =
      ⟨records.foldl State.replicate engine, headLsn engine.wal :: records.map WalRecord.lsn⟩ := by
  have from_ (x : Follower) : (records.map recordToProto).foldl Follower.take x =
      ⟨records.foldl State.replicate x.engine, x.acks ++ records.map WalRecord.lsn⟩ := by
    induction records generalizing x with
    | nil => simp
    | cons r rest ih =>
      have taken : x.take (recordToProto r) = ⟨x.engine.replicate r, x.acks ++ [r.lsn]⟩ := by
        unfold Follower.take
        rw [record_iff.mpr rfl]
      rw [List.map_cons, List.foldl_cons, taken, ih]
      simp
  exact from_ (Follower.start engine)

theorem data_replicated (records : List LogRecord)
    (decoded : ∀ r ∈ records, decodable (r.recordType, r.payload) = true) (s : State) :
    dataOf (records.foldl State.replicate s).store =
      ((records.filter WalRecord.isMutation).map toLogged).foldl Data.replay (dataOf s.store) := by
  induction records generalizing s with
  | nil => rfl
  | cons r rest ih =>
    rw [List.forall_mem_cons] at decoded
    rw [List.foldl_cons, ih decoded.2, data_replicate s decoded.1, List.filter_cons]
    split <;> rfl

theorem mapsStored_records (records : List LogRecord)
    (decoded : ∀ r ∈ records, decodable (r.recordType, r.payload) = true) {s : State}
    (stored : MapsStored s) (replaying : Replaying s)
    (legal : LegalAll (dataOf s.store) ((records.filter WalRecord.isMutation).map toLogged)) :
    MapsStored (records.foldl State.replicate s) := by
  induction records generalizing s with
  | nil => exact stored
  | cons r rest ih =>
    rw [List.forall_mem_cons] at decoded
    have data := data_replicate s decoded.1
    have replaying' : Replaying (s.replicate r) := by
      obtain same | replayed := replicate_cases s r
      · rw [same]
        exact replaying
      · rw [replayed]
        exact replaying_record replaying r
    rw [List.filter_cons] at legal
    split at legal
    · rename_i mutation
      rw [if_pos mutation] at data
      refine ih decoded.2 ?_ replaying' (data ▸ legal.2)
      obtain same | replayed := replicate_cases s r
      · rw [same]
        exact stored
      · rw [replayed]
        exact mapsStored_record stored replaying legal.1
    · rename_i control
      rw [if_neg control] at data
      refine ih decoded.2 ?_ replaying' (data ▸ legal)
      have skipped : s.replicate r = s := by
        unfold State.replicate applyWalRecord
        unfold WalRecord.isMutation at control
        cases type : r.recordType <;> simp [type, RecordType.isControl] at control ⊢
      rw [skipped]
      exact stored

section Log
variable [WalPayload Payload]

theorem recordsSince_all {s : State} (sequential : Sequential s.wal) (config : WalConfig) :
    recordsSince s.wal (headLsn (State.init config).wal) = s.wal.disk := by
  have head : headLsn (State.init config).wal = 0 := rfl
  have all : (s.wal.disk.filter fun r => 0 < r.lsn) = s.wal.disk := by
    refine List.filter_eq_self.mpr fun r listed => ?_
    simpa using (sequential.below r listed).1
  rw [recordsSince, head, all]
  exact List.Pairwise.insertionSort_eq (sequential.ascending.imp Nat.le_of_lt)

theorem decodable_disk {s : State} (tracked : Tracked s) :
    ∀ r ∈ s.wal.disk, decodable (r.recordType, r.payload) = true := by
  intro r listed
  by_cases mutation : r.isMutation = true
  · exact tracked.decoded _ (List.mem_map.mpr ⟨r, List.mem_filter.mpr ⟨listed, mutation⟩, rfl⟩)
  · unfold WalRecord.isMutation at mutation
    cases type : r.recordType <;>
      simp [type, RecordType.isControl, decodable, replayHandles] at mutation ⊢

end Log

/-! ### What is indexed -/

/-- Nothing is indexed. -/
structure Unindexed (s : State) : Prop where
  adjacency : s.adjacency = .new
  dense : ∀ (key : String × String) (h : HnswIndex), s.indexes[key]? = some h →
    ∃ dims, h = .new dims
  sparse : ∀ (key : String × String) (idx : SparseIndex), s.sparseIndexes[key]? = some idx →
    idx = .new
  fields : s.fieldIndexes = ∅
  queue : s.inferenceQueue = ∅

theorem unindexed_init [WalPayload Payload] (config : WalConfig) : Unindexed (State.init config) :=
  ⟨rfl, by simp [State.init], by simp [State.init], rfl, rfl⟩

theorem filter_nothing {K V : Type} [Ord K] [Std.LawfulEqOrd K] [Std.TransOrd K]
    (p : K → V → Bool) : (∅ : FinMap K V).filter p = ∅ := by
  refine FinMap.ext fun k => ?_
  rw [FinMap.get_filter]
  simp

theorem unindexed_replayIndexes {s : State} (unindexed : Unindexed s) (collection : String)
    (op : SchemaAlterOp) : Unindexed (s.replayIndexes collection op) := by
  obtain ⟨adjacency, dense, sparse, fields, queue⟩ := unindexed
  unfold State.replayIndexes
  repeat' split
  all_goals try exact ⟨adjacency, dense, sparse, fields, queue⟩
  · refine ⟨adjacency, dense, fun key idx there => ?_, fields, queue⟩
    rw [FinMap.get_insert] at there
    split at there
    · exact (Option.some.inj there).symm
    · exact sparse key idx there
  · refine ⟨adjacency, fun key h there => ?_, sparse, fields, queue⟩
    rw [FinMap.get_insert] at there
    split at there
    · exact ⟨_, (Option.some.inj there).symm⟩
    · exact dense key h there

theorem unindexed_record {s : State} (unindexed : Unindexed s) (r : WalRecord Payload) :
    Unindexed (replayRecord s r) := by
  obtain ⟨lsn, ts, txId, recordType, schemaVer, collection, payload⟩ := r
  obtain ⟨adjacency, dense, sparse, fields, queue⟩ := unindexed
  cases recordType <;> try exact ⟨adjacency, dense, sparse, fields, queue⟩
  all_goals cases payload <;> try exact ⟨adjacency, dense, sparse, fields, queue⟩
  case schemaDropColl.name name =>
    refine ⟨adjacency, fun key h there => ?_, fun key idx there => ?_, ?_, queue⟩
    · have there : (s.forgetCollection name).indexes[key]? = some h := there
      rw [State.forgetCollection, FinMap.get_filter] at there
      exact dense key h (Option.filter_eq_some_iff.mp there).1
    · have there : (s.forgetCollection name).sparseIndexes[key]? = some idx := there
      rw [State.forgetCollection, FinMap.get_filter] at there
      exact sparse key idx (Option.filter_eq_some_iff.mp there).1
    · change s.fieldIndexes.filter _ = ∅
      rw [fields]
      exact filter_nothing _
  case schemaDropEdgeType.name name =>
    refine ⟨?_, dense, sparse, fields, queue⟩
    change s.adjacency.removeEdgeType name = .new
    rw [adjacency]
    exact congrArg₂ AdjacencyIndex.mk (filter_nothing _) (filter_nothing _)
  case schemaAlter.schemaAlter c op =>
    unfold replayRecord State.replayMemory
    dsimp only
    split
    · split
      · have opened := unindexed_replayIndexes ⟨adjacency, dense, sparse, fields, queue⟩ c op
        exact ⟨opened.adjacency, opened.dense, opened.sparse, opened.fields, opened.queue⟩
      · exact ⟨adjacency, dense, sparse, fields, queue⟩
    · exact ⟨adjacency, dense, sparse, fields, queue⟩

/-! ### What it answers -/

def fetchUnindexed (store : Store) (size : Nat) (p : FetchPlan) :
    Except EngineError QueryResult := do
  checkAcuBudget p size
  match p.strategy with
  | .fullScan => p.scan store
  | .fieldIndexLookup index | .fieldIndexRange index =>
    .error (.invalidQuery s!"field index '{index}' not found")

theorem fetch_unindexed {s : State} (unindexed : Unindexed s) (size : Nat) (p : FetchPlan) :
    executeFetch s.store s.fieldIndexes size p = fetchUnindexed s.store size p := by
  have missing (index : String) : FieldIndexes.find s.fieldIndexes s.store p.collection index =
      .error (.invalidQuery s!"field index '{index}' not found") := by
    unfold FieldIndexes.find
    rw [unindexed.fields]
    simp
  unfold executeFetch fetchUnindexed
  cases p.strategy with
  | fullScan => rfl
  | fieldIndexLookup index | fieldIndexRange index =>
    dsimp only
    rw [missing index]
    rfl

theorem scan_data {store store' : Store} (same : dataOf store' = dataOf store) (p : FetchPlan) :
    p.scan store' = p.scan store := by
  have collections : store'.collections = store.collections := congrArg Data.collections same
  have entities : store'.entities = store.entities := congrArg Data.entities same
  unfold FetchPlan.scan Store.scan Store.scanWithLimit Store.hasCollection Store.partition
  rw [collections, entities]

theorem neighbors_unindexed {s : State} (unindexed : Unindexed s) (env : ReadEnv)
    (p : TraverseMatchPlan) (node : LogicalId) : s.matchNeighbors env p node = [] := by
  have forward (node : LogicalId) (t : String) : s.adjacency.get node t = [] := by
    rw [unindexed.adjacency]
    simp [AdjacencyIndex.get, AdjacencyIndex.new]
  have backward (t : String) : s.adjacency.getBackward node t = [] := by
    rw [unindexed.adjacency]
    simp [AdjacencyIndex.getBackward, AdjacencyIndex.new]
  unfold State.matchNeighbors
  refine List.flatMap_eq_nil_iff.mpr fun et _ => ?_
  cases p.pattern.edge.direction <;>
    simp [State.forwardNeighbors, State.backwardNeighbors, forward, backward]

theorem run_alone {search : Search} (alone : ∀ node, search.neighbors node = []) (store : Store)
    (fromId : LogicalId) (maxDepth : Nat) : search.run store fromId maxDepth = [] := by
  have frontier (hop : Nat) (nodes : List LogicalId) (r : Round) :
      search.visitFrontier store hop nodes r = r := by
    induction nodes with
    | nil => rfl
    | cons node rest ih =>
      unfold Search.visitFrontier
      rw [alone node]
      simp [Search.visitNeighbors, ih]
  have rounds (left hop : Nat) (visited nodes : List LogicalId) :
      search.hops store left hop visited nodes [] = [] := by
    induction left generalizing hop visited nodes with
    | zero => rfl
    | succ left ih =>
      unfold Search.hops
      split
      · rfl
      · rw [frontier]
        exact ih _ _ _
  exact rounds _ 0 [fromId] [fromId]

/-- Whatever a replica that starts empty is sent: no row comes of a traversal, and none of a FETCH
through an index, which fails. -/
theorem follower_unindexed [WalPayload Payload] (config : WalConfig)
    (messages : List (WalRecordMessage Payload)) :
    let s := (Follower.follow (.init config) messages).engine
    Unindexed s ∧
      (∀ size p, executeFetch s.store s.fieldIndexes size p = fetchUnindexed s.store size p) ∧
      (∀ env p, (executeTraverseMatchPlan s env p).rows = []) ∧
      ∀ env p r, executeTraverse env s p = .ok r → r.rows = [] := by
  have unindexed : Unindexed (Follower.follow (.init config) messages).engine :=
    follow_invariant (P := Unindexed) (fun _ r kept => unindexed_record kept r) messages
      (unindexed_init config)
  refine ⟨unindexed, fetch_unindexed unindexed, fun env p => ?_, fun env p r done => ?_⟩
  · have found : State.matchFound (Follower.follow (.init config) messages).engine env p = [] :=
      run_alone (neighbors_unindexed unindexed env p) _ _ _
    simp [executeTraverseMatchPlan, found]
  · unfold executeTraverse at done
    split at done
    · cases done
    · rename_i et _
      cases done
      refine List.map_eq_nil_iff.mpr (run_alone (fun node => ?_) _ _ _)
      change State.traverseNeighbors _ env et p.edgeType node = []
      unfold State.traverseNeighbors
      rw [unindexed.adjacency]
      simp [AdjacencyIndex.get, AdjacencyIndex.new]

/-! ### The replica of a run -/

/-- What a replica has of its primary: the stored data and the schemas, and for a FETCH the
answer of a primary without field indexes. -/
structure Mirrors (primary replica : State) : Prop where
  data : dataOf replica.store = dataOf primary.store
  schemas : replica.schemas = primary.schemas
  edgeTypes : replica.edgeTypes = primary.edgeTypes
  fetch : ∀ size statement,
    executeFetch replica.store replica.fieldIndexes size (planFetch replica.schemas statement) =
      fetchUnindexed primary.store size (planFetch primary.schemas statement)

section Runs
variable [WalPayload Payload]

/-- A new replica behind the catch-up of its primary. -/
def caughtUp (config : WalConfig) (primary : State) : Follower :=
  .follow (.init config) (catchUp primary (headLsn (State.init config).wal))

theorem caughtUp_data {s : State} (tracked : Tracked s) (config : WalConfig) :
    caughtUp config s = ⟨s.wal.disk.foldl State.replicate (.init config),
        0 :: s.wal.disk.map WalRecord.lsn⟩ ∧
      dataOf (caughtUp config s).engine.store = s.logged.foldl Data.replay .empty := by
  have followed : caughtUp config s = ⟨s.wal.disk.foldl State.replicate (.init config),
      0 :: s.wal.disk.map WalRecord.lsn⟩ := by
    rw [caughtUp, catchUp, recordsSince_all tracked.sequential]
    exact follow_records s.wal.disk (.init config)
  refine ⟨followed, ?_⟩
  rw [followed]
  exact data_replicated s.wal.disk (decodable_disk tracked) (.init config)

theorem replaying_init (config : WalConfig) : Replaying (State.init config) :=
  ⟨.empty (by simp [State.init, Store.empty]), .empty (by simp [State.init, Store.empty]),
    by simp [State.init]⟩

theorem mirrors {s : State} (historic : Historic s) (config : WalConfig) :
    Mirrors s (caughtUp config s).engine := by
  obtain ⟨followed, said⟩ := caughtUp_data historic.tracked config
  have data : dataOf (caughtUp config s).engine.store = dataOf s.store :=
    said.trans historic.faithful.symm
  have stored : MapsStored (caughtUp config s).engine := by
    rw [followed]
    exact mapsStored_records s.wal.disk (decodable_disk historic.tracked) ⟨rfl, rfl⟩
      (replaying_init config) historic.legal
  have schemas : (caughtUp config s).engine.schemas = s.schemas := by
    rw [stored.1, historic.tracked.synced.schemas]
    exact congrArg Data.collections data
  have edgeTypes : (caughtUp config s).engine.edgeTypes = s.edgeTypes := by
    rw [stored.2, historic.tracked.synced.edgeTypes]
    exact congrArg Data.edgeTypes data
  refine ⟨data, schemas, edgeTypes, fun size statement => ?_⟩
  have unindexed : Unindexed (caughtUp config s).engine :=
    follow_invariant (P := Unindexed) (fun _ r kept => unindexed_record kept r) _
      (unindexed_init config)
  rw [fetch_unindexed unindexed, schemas]
  unfold fetchUnindexed
  rw [scan_data data]

/-- A new replica that has caught up mirrors the primary at every point of a run of writes that
succeed iff no DELETE of it takes a stored edge along. -/
theorem follower_mirrors_iff (config : WalConfig) (as : List Step)
    (succeed : AllSucceed (State.init config) as) :
    (∀ s ∈ Run.visited State.step (State.init config) as, ∀ config',
      Mirrors s (caughtUp config' s).engine) ↔ NeverCascades config as := by
  refine Run.good_iff_guarded_on State.step Historic
    (fun s => ∀ config', Mirrors s (caughtUp config' s).engine) (fun s a => succeeds a.1 s a.2)
    (fun s a => CascadesNothing s a.2) as (historic_init config) (mirrors (historic_init config))
    succeed (fun s a historic _ ok nothing => historic_step historic ok nothing)
    (fun s a historic _ ok => ?_)
  constructor
  · intro good
    have tracked := tracked_step historic.tracked ok
    have faithful : Faithful (s.step a) :=
      ((good config).data.symm.trans (caughtUp_data tracked config).2)
    exact (faithful_step historic.tracked historic.faithful ok).mp faithful
  · exact fun nothing => mirrors (historic_step historic ok nothing)

end Runs

section Examples
attribute [local instance] headerOnly

theorem acquaintances_mirrored :
    NeverCascades default acquaintances ∧
      ∀ s ∈ Run.visited State.step (State.init default) acquaintances, ∀ config',
        Mirrors s (caughtUp config' s).engine := by
  have succeed : AllSucceed (State.init default) acquaintances := by
    unfold AllSucceed Engine.succeeds
    decide
  have never : NeverCascades default acquaintances := by
    simp [NeverCascades, acquaintances, insertPerson, Run.taken, CascadesNothing]
  exact ⟨never, (follower_mirrors_iff default acquaintances succeed).mpr never⟩

end Examples
end TronDB.Server
