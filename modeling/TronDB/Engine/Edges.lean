import TronDB.Engine.State

/-! INSERT, DELETE and CONFIRM EDGE, and the two background tasks that write edges. -/
namespace TronDB.Engine
open TronDB.Core Binary Wal

variable [WalPayload Payload]

structure InsertEdgePlan where
  edgeType : String
  fromId : LogicalId
  toId : LogicalId
  metadata : List (String × Literal)
  validFrom : Option String
  validTo : Option String
  deriving DecidableEq, Repr

def fullConfidence : F32 := ⟨0x3F800000⟩

def edgeMetadata (entries : List (String × Literal)) : FinMap String Value :=
  entries.foldl (fun metadata kv => metadata.insert kv.1 (literalToValue kv.2)) ∅

def adjEntry (edge : Edge) : AdjEntry :=
  ⟨edge.toId, edge.confidence, edge.createdAt, edge.source, edge.validFrom, edge.validTo⟩

/-- An edge logged under a record type, then stored and indexed. -/
def State.writeEdge (s : State) (ts : Int) (recordType : RecordType) (edge : Edge) : State :=
  let s := s.logTx ts edge.edgeType [(recordType, .edge edge)]
  { s with
    store := s.store.insertEdge edge
    adjacency := s.adjacency.insert edge.fromId edge.edgeType (adjEntry edge) }

/-- An edge deletion logged, then applied to the store and the index. -/
def State.removeEdge (s : State) (ts : Int) (edgeType : String) (fromId toId : LogicalId) : State :=
  let s := s.logTx ts edgeType [(.edgeDelete, .edgeDelete edgeType fromId toId)]
  { s with
    store := s.store.deleteEdge edgeType fromId toId
    adjacency := s.adjacency.remove fromId edgeType toId }

def insertEdge (env : Env) (s : State) (p : InsertEdgePlan) : Outcome :=
  match s.store.getEdgeType p.edgeType with
  | .error e => (.error e, s)
  | .ok edgeType =>
    match s.store.get edgeType.fromCollection p.fromId with
    | .error e => (.error e, s)
    | .ok _ =>
      match s.store.get edgeType.toCollection p.toId with
      | .error e => (.error e, s)
      | .ok _ =>
        match parseOptional p.validFrom with
        | .error e => (.error e, s)
        | .ok validFrom =>
          match parseOptional p.validTo with
          | .error e => (.error e, s)
          | .ok validTo =>
            let edge : Edge := ⟨p.fromId, p.toId, p.edgeType, fullConfidence,
              edgeMetadata p.metadata, env.nowMillis s.wal.nextTx, .structural, validFrom, validTo⟩
            (.ok (reply "result" s!"Edge '{p.edgeType}' created: {p.fromId} -> {p.toId}" 0),
              s.writeEdge env.ts .edgeWrite edge)

structure DeleteEdgePlan where
  edgeType : String
  fromId : LogicalId
  toId : LogicalId
  deriving DecidableEq, Repr

def deleteEdge (env : Env) (s : State) (p : DeleteEdgePlan) : Outcome :=
  (.ok (reply "result" s!"Edge '{p.edgeType}' deleted: {p.fromId} -> {p.toId}" 0),
    s.removeEdge env.ts p.edgeType p.fromId p.toId)

structure ConfirmEdgePlan where
  edgeType : String
  fromId : LogicalId
  toId : LogicalId
  confidence : F32
  deriving DecidableEq, Repr

/-- The adjacency entry of a confirmed edge is removed before the new one is inserted. -/
def State.forgetEdge (s : State) (p : ConfirmEdgePlan) : State :=
  { s with adjacency := s.adjacency.remove p.fromId p.edgeType p.toId }

def confirmEdge (env : Env) (s : State) (p : ConfirmEdgePlan) : Outcome :=
  match s.store.getEdgeType p.edgeType with
  | .error e => (.error e, s)
  | .ok _ =>
    let now := env.nowMillis s.wal.nextTx
    let confirmed (metadata : FinMap String Value) (createdAt : Nat) : Edge :=
      ⟨p.fromId, p.toId, p.edgeType, p.confidence, metadata, createdAt, .confirmed, none, none⟩
    let shown := env.formatConfidence p.confidence
    match s.store.getEdge p.edgeType p.fromId p.toId with
    | some edge =>
      match edge.source with
      | .structural => (.error (.invalidQuery
          s!"cannot CONFIRM structural edge '{p.edgeType}' {p.fromId} -> {p.toId} (already permanent at confidence 1.0)"),
          s)
      | .inferred => (.ok (reply "result"
          s!"Edge '{p.edgeType}' confirmed: {p.fromId} -> {p.toId} (was Inferred, now Confirmed at {shown})" 0),
          (s.forgetEdge p).writeEdge env.ts .edgeConfirm (confirmed edge.metadata now))
      | .confirmed => (.ok (reply "result"
          s!"Edge '{p.edgeType}' re-confirmed: {p.fromId} -> {p.toId} (confidence updated to {shown})" 0),
          (s.forgetEdge p).writeEdge env.ts .edgeConfidenceUpdate
            (confirmed edge.metadata edge.createdAt))
    | none => (.ok (reply "result"
        s!"Edge '{p.edgeType}' confirmed: {p.fromId} -> {p.toId} (new Confirmed edge at {shown})" 0),
        s.writeEdge env.ts .edgeConfirm (confirmed ∅ now))

/-! ### The decay sweep -/

def decayed (env : Env) (now : Nat) (et : EdgeType) (threshold : F64) (edge : Edge) : Bool :=
  edge.source = .inferred &&
    (env.effectiveConfidence edge.confidence (now - edge.createdAt) et.decayConfig).lt
      threshold.toF32

/-- The edges of one type whose confidence has decayed below its threshold go. -/
def sweepEdgeType (env : Env) (now : Nat) (s : State) (et : EdgeType) : State :=
  match et.decayConfig.pruneThreshold with
  | none => s
  | some threshold =>
    ((s.store.scanEdges et.name).filter (decayed env now et threshold)).foldl
      (fun s edge => s.removeEdge env.ts et.name edge.fromId edge.toId) s

def sweepDecayedEdges (env : Env) (s : State) : State :=
  ((env.edgeTypeOrder.order s.edgeTypes.toList).map Prod.snd).foldl
    (sweepEdgeType env (env.nowMillis s.wal.nextTx)) s

/-! ### The inference queue -/

def denseVector (e : Entity) : Option (List F32) :=
  e.representations.findSome? fun repr =>
    match repr.vector with
    | .dense v => some v
    | .sparse _ => none

/-- The loop over the search results: edges are created up to the limit. -/
def inferLoop (env : Env) (et : EdgeType) (id : LogicalId) (existing : List LogicalId) :
    List (LogicalId × F32) → Nat → State → State
  | [], _, s => s
  | (target, score) :: rest, created, s =>
    if et.inferenceConfig.limit ≤ created then s
    else if score.lt et.inferenceConfig.confidenceFloor || target = id || target ∈ existing then
      inferLoop env et id existing rest created s
    else
      let edge : Edge := ⟨id, target, et.name, score, ∅, env.nowMillis s.wal.nextTx, .inferred,
        none, none⟩
      inferLoop env et id existing rest (created + 1) (s.writeEdge env.ts .edgeInferred edge)

def inferEdgeType (env : Env) (collection : String) (id : LogicalId) (s : State) (et : EdgeType) :
    State :=
  match s.store.get collection id with
  | .error _ => s
  | .ok source =>
    match denseVector source with
    | none => s
    | some vector =>
      match (env.denseOrder.order s.indexes.toList).find? fun e => e.1.1 = et.toCollection with
      | none => s
      | some (_, hnsw) =>
        inferLoop env et id ((s.adjacency.get id et.name).map AdjEntry.toId)
          (env.search hnsw vector (et.inferenceConfig.limit * 4)) 0 s

def drainEntity (env : Env) (s : State) (id : LogicalId) : State :=
  let s := { s with inferenceQueue := s.inferenceQueue.erase id }
  match s.entityCollections[id]? with
  | none => s
  | some collection =>
    (((env.edgeTypeOrder.order s.edgeTypes.toList).map Prod.snd).filter fun et =>
      et.fromCollection = collection && et.inferenceConfig.auto).foldl
        (inferEdgeType env collection id) s

def drainInferenceQueue (env : Env) (s : State) : State :=
  (env.queueOrder.order (s.inferenceQueue.toList.map Prod.fst)).foldl (drainEntity env) s

end TronDB.Engine
