import Mathlib.Logic.Relation
import TronDB.Engine.Run

/-! INSERT EDGE, CONFIRM EDGE and the two background tasks from one commit they await to the
next, and an engine with any number of them in flight. -/
namespace TronDB.Engine
open TronDB.Core Binary Wal

/-! ### Edges that wait for their commit -/

/-- CONFIRM of a stored edge takes the old entry out of the adjacency index first. -/
structure PendingEdge where
  edge : Edge
  replaces : Bool
  answer : QueryResult

def State.putEdge (s : State) (edge : Edge) : State :=
  { s with
    store := s.store.insertEdge edge
    adjacency := s.adjacency.insert edge.fromId edge.edgeType (adjEntry edge) }

def State.takeEdge (s : State) (edgeType : String) (fromId toId : LogicalId) : State :=
  { s with
    store := s.store.deleteEdge edgeType fromId toId
    adjacency := s.adjacency.remove fromId edgeType toId }

/-- The entry of an edge taken out of the adjacency index. -/
def State.unindexEdge (s : State) (edge : Edge) : State :=
  { s with adjacency := s.adjacency.remove edge.fromId edge.edgeType edge.toId }

def finishEdge (s : State) (pending : PendingEdge) : Outcome :=
  (.ok pending.answer,
    (if pending.replaces then s.unindexEdge pending.edge else s).putEdge pending.edge)

section Steps
variable [WalPayload Payload]

def beginInsertEdge (env : Env) (s : State) (p : InsertEdgePlan) :
    Except EngineError PendingEdge × State :=
  match s.store.getEdgeType p.edgeType with
  | .error e => (.error e, s)
  | .ok edgeType =>
    match s.store.get edgeType.fromCollection p.fromId with
    | .error e => (.error e, s)
    | .ok _ =>
      match s.store.get edgeType.toCollection p.toId with
      | .error e => (.error e, s)
      | .ok _ =>
        match parseOptional p.validFrom with
        | .error e => (.error e, s)
        | .ok validFrom =>
          match parseOptional p.validTo with
          | .error e => (.error e, s)
          | .ok validTo =>
            let edge : Edge := ⟨p.fromId, p.toId, p.edgeType, fullConfidence,
              edgeMetadata p.metadata, env.nowMillis s.wal.nextTx, .structural, validFrom, validTo⟩
            (.ok ⟨edge, false, reply "result"
              s!"Edge '{p.edgeType}' created: {p.fromId} -> {p.toId}" 0⟩,
              s.logTx env.ts p.edgeType [(.edgeWrite, .edge edge)])

def beginConfirmEdge (env : Env) (s : State) (p : ConfirmEdgePlan) :
    Except EngineError PendingEdge × State :=
  match s.store.getEdgeType p.edgeType with
  | .error e => (.error e, s)
  | .ok _ =>
    let now := env.nowMillis s.wal.nextTx
    let confirmed (metadata : FinMap String Value) (createdAt : Nat) : Edge :=
      ⟨p.fromId, p.toId, p.edgeType, p.confidence, metadata, createdAt, .confirmed, none, none⟩
    let shown := env.formatConfidence p.confidence
    match s.store.getEdge p.edgeType p.fromId p.toId with
    | some edge =>
      match edge.source with
      | .structural => (.error (.invalidQuery
          s!"cannot CONFIRM structural edge '{p.edgeType}' {p.fromId} -> {p.toId} (already permanent at confidence 1.0)"),
          s)
      | .inferred => (.ok ⟨confirmed edge.metadata now, true, reply "result"
          s!"Edge '{p.edgeType}' confirmed: {p.fromId} -> {p.toId} (was Inferred, now Confirmed at {shown})" 0⟩,
          s.logTx env.ts p.edgeType [(.edgeConfirm, .edge (confirmed edge.metadata now))])
      | .confirmed => (.ok ⟨confirmed edge.metadata edge.createdAt, true, reply "result"
          s!"Edge '{p.edgeType}' re-confirmed: {p.fromId} -> {p.toId} (confidence updated to {shown})" 0⟩,
          s.logTx env.ts p.edgeType
            [(.edgeConfidenceUpdate, .edge (confirmed edge.metadata edge.createdAt))])
    | none => (.ok ⟨confirmed ∅ now, false, reply "result"
        s!"Edge '{p.edgeType}' confirmed: {p.fromId} -> {p.toId} (new Confirmed edge at {shown})" 0⟩,
        s.logTx env.ts p.edgeType [(.edgeConfirm, .edge (confirmed ∅ now))])

/-- A statement in two steps that nothing comes in between of. -/
def undisturbed (begun : Except EngineError PendingEdge × State) : Outcome :=
  match begun with
  | (.error e, s) => (.error e, s)
  | (.ok pending, s) => finishEdge s pending

theorem insertEdge_steps (env : Env) (s : State) (p : InsertEdgePlan) :
    insertEdge env s p = undisturbed (beginInsertEdge env s p) := by
  unfold insertEdge beginInsertEdge
  cases s.store.getEdgeType p.edgeType with
  | error e => rfl
  | ok et =>
    dsimp only
    cases s.store.get et.fromCollection p.fromId with
    | error e => rfl
    | ok source =>
      dsimp only
      cases s.store.get et.toCollection p.toId with
      | error e => rfl
      | ok target =>
        dsimp only
        cases parseOptional p.validFrom with
        | error e => rfl
        | ok validFrom =>
          dsimp only
          cases parseOptional p.validTo with
          | error e => rfl
          | ok validTo => rfl

theorem confirmEdge_steps (env : Env) (s : State) (p : ConfirmEdgePlan) :
    confirmEdge env s p = undisturbed (beginConfirmEdge env s p) := by
  unfold confirmEdge beginConfirmEdge
  cases s.store.getEdgeType p.edgeType with
  | error e => rfl
  | ok et =>
    dsimp only
    cases s.store.getEdge p.edgeType p.fromId p.toId with
    | none => rfl
    | some edge =>
      dsimp only
      cases edge.source <;> rfl

/-- What a statement has looked up when it waits: its edge type, and for INSERT EDGE the
entities at both ends. -/
theorem beginInsertEdge_ends (env : Env) (s : State) (p : InsertEdgePlan) :
    (∃ error, beginInsertEdge env s p = (.error error, s)) ∨
      ∃ pending et source target, beginInsertEdge env s p =
          (.ok pending, s.logTx env.ts p.edgeType [(.edgeWrite, .edge pending.edge)]) ∧
        (pending.edge.edgeType, pending.edge.fromId, pending.edge.toId) =
          (p.edgeType, p.fromId, p.toId) ∧
        pending.edge.source = .structural ∧ pending.edge.confidence = fullConfidence ∧
        s.store.getEdgeType p.edgeType = .ok et ∧
        s.store.get et.fromCollection p.fromId = .ok source ∧
        s.store.get et.toCollection p.toId = .ok target := by
  unfold beginInsertEdge
  cases known : s.store.getEdgeType p.edgeType with
  | error e => exact .inl ⟨e, rfl⟩
  | ok et =>
    dsimp only
    cases source : s.store.get et.fromCollection p.fromId with
    | error e => exact .inl ⟨e, rfl⟩
    | ok source' =>
      dsimp only
      cases target : s.store.get et.toCollection p.toId with
      | error e => exact .inl ⟨e, rfl⟩
      | ok target' =>
        dsimp only
        cases parseOptional p.validFrom with
        | error e => exact .inl ⟨e, rfl⟩
        | ok validFrom =>
          dsimp only
          cases parseOptional p.validTo with
          | error e => exact .inl ⟨e, rfl⟩
          | ok validTo => exact .inr ⟨_, et, source', target', rfl, rfl, rfl, rfl, rfl, source, target⟩

theorem beginConfirmEdge_ends (env : Env) (s : State) (p : ConfirmEdgePlan) :
    (∃ error, beginConfirmEdge env s p = (.error error, s)) ∨
      ∃ pending recordType, beginConfirmEdge env s p =
          (.ok pending, s.logTx env.ts p.edgeType [(recordType, .edge pending.edge)]) ∧
        (pending.edge.edgeType, pending.edge.fromId, pending.edge.toId) =
          (p.edgeType, p.fromId, p.toId) ∧
        pending.edge.source = .confirmed ∧ pending.edge.confidence = p.confidence := by
  unfold beginConfirmEdge
  cases s.store.getEdgeType p.edgeType with
  | error e => exact .inl ⟨e, rfl⟩
  | ok et =>
    dsimp only
    cases s.store.getEdge p.edgeType p.fromId p.toId with
    | none => exact .inr ⟨_, _, rfl, rfl, rfl, rfl⟩
    | some edge =>
      dsimp only
      cases edge.source with
      | structural => exact .inl ⟨_, rfl⟩
      | inferred => exact .inr ⟨_, _, rfl, rfl, rfl, rfl⟩
      | confirmed => exact .inr ⟨_, _, rfl, rfl, rfl, rfl⟩

/-! ### The drain of the inference queue -/

/-- An entity the drain is at, with the edge types and the entities still to come. -/
structure EntityInference where
  collection : String
  id : LogicalId
  types : List EdgeType
  later : List LogicalId

/-- An edge type the drain is at: the targets it had when the search was made, and the
search results still to come. -/
structure TypeInference where
  et : EdgeType
  existing : List LogicalId
  results : List (LogicalId × F32)
  created : Nat
  entity : EntityInference

/-- Where a drain stands: between entities, between edge types, between search results, or
waiting for the commit of an edge. -/
inductive Drain where
  | entities (later : List LogicalId)
  | types (x : EntityInference)
  | results (x : TypeInference)
  | commit (edge : Edge) (x : TypeInference)

omit [WalPayload Payload] in
/-- The existing targets of an entity and the search results; none when the edge type is
passed over. -/
def searchFor (env : Env) (s : State) (collection : String) (id : LogicalId) (et : EdgeType) :
    Option (List LogicalId × List (LogicalId × F32)) :=
  match s.store.get collection id with
  | .error _ => none
  | .ok source =>
    match denseVector source with
    | none => none
    | some vector =>
      match (env.denseOrder.order s.indexes.toList).find? fun e => e.1.1 = et.toCollection with
      | none => none
      | some (_, hnsw) => some ((s.adjacency.get id et.name).map AdjEntry.toId,
          env.search hnsw vector (et.inferenceConfig.limit * 4))

namespace Drain

def waiting : Drain → Option Edge
  | .commit edge _ => some edge
  | _ => none

omit [WalPayload Payload] in
def start (env : Env) (s : State) : Drain :=
  .entities (env.queueOrder.order (s.inferenceQueue.toList.map Prod.fst))

def advance (env : Env) (s : State) : Drain → State × Drain
  | .entities [] => (s, .entities [])
  | .entities (id :: later) =>
    let s := { s with inferenceQueue := s.inferenceQueue.erase id }
    match s.entityCollections[id]? with
    | none => (s, .entities later)
    | some collection =>
      let auto := ((env.edgeTypeOrder.order s.edgeTypes.toList).map Prod.snd).filter fun et =>
        et.fromCollection = collection && et.inferenceConfig.auto
      (s, .types ⟨collection, id, auto, later⟩)
  | .types ⟨_, _, [], later⟩ => (s, .entities later)
  | .types ⟨collection, id, et :: others, later⟩ =>
    match searchFor env s collection id et with
    | none => (s, .types ⟨collection, id, others, later⟩)
    | some (existing, found) => (s, .results ⟨et, existing, found, 0, collection, id, others, later⟩)
  | .results ⟨_, _, [], _, entity⟩ => (s, .types entity)
  | .results ⟨et, existing, (target, score) :: rest, created, entity⟩ =>
    if et.inferenceConfig.limit ≤ created then (s, .types entity)
    else if score.lt et.inferenceConfig.confidenceFloor || target = entity.id || target ∈ existing then
      (s, .results ⟨et, existing, rest, created, entity⟩)
    else
      let edge : Edge := ⟨entity.id, target, et.name, score, ∅, env.nowMillis s.wal.nextTx, .inferred,
        none, none⟩
      (s.logTx env.ts et.name [(.edgeInferred, .edge edge)],
        .commit edge ⟨et, existing, rest, created + 1, entity⟩)
  | .commit edge x => (s.putEdge edge, .results x)

/-- A drain puts the edge whose commit it has awaited, logs the next one, or goes on. -/
theorem advance_ends (env : Env) (s : State) (d : Drain) :
    (∃ edge, d.waiting = some edge ∧ (d.advance env s).1 = s.putEdge edge ∧
        (d.advance env s).2.waiting = none) ∨
      d.waiting = none ∧ ((∃ edge, (d.advance env s).2.waiting = some edge ∧ edge.source = .inferred ∧
          (d.advance env s).1 = s.logTx env.ts edge.edgeType [(.edgeInferred, .edge edge)]) ∨
        (d.advance env s).2.waiting = none ∧
          ∃ queue, (d.advance env s).1 = { s with inferenceQueue := queue }) := by
  cases d with
  | entities later =>
    refine .inr ⟨rfl, .inr ?_⟩
    cases later with
    | nil => exact ⟨rfl, _, rfl⟩
    | cons id later =>
      simp only [advance]
      cases s.entityCollections[id]? with
      | none => exact ⟨rfl, _, rfl⟩
      | some collection => exact ⟨rfl, _, rfl⟩
  | types x =>
    refine .inr ⟨rfl, .inr ?_⟩
    obtain ⟨collection, id, others, later⟩ := x
    cases others with
    | nil => exact ⟨rfl, _, rfl⟩
    | cons et others =>
      simp only [advance]
      cases searchFor env s collection id et with
      | none => exact ⟨rfl, _, rfl⟩
      | some found => exact ⟨rfl, _, rfl⟩
  | results x =>
    refine .inr ⟨rfl, ?_⟩
    obtain ⟨et, existing, results, created, entity⟩ := x
    cases results with
    | nil => exact .inr ⟨rfl, _, rfl⟩
    | cons result rest =>
      simp only [advance]
      split
      · exact .inr ⟨rfl, _, rfl⟩
      · split
        · exact .inr ⟨rfl, _, rfl⟩
        · exact .inl ⟨_, rfl, rfl, rfl⟩
  | commit edge x => exact .inl ⟨edge, rfl, rfl, rfl⟩

/-- One step of a drain that nothing comes in between of. -/
def Follows (env : Env) (x y : State × Drain) : Prop := y = x.2.advance env x.1

theorem follows (env : Env) (s : State) (d : Drain) :
    Relation.ReflTransGen (Follows env) (s, d) (d.advance env s) := .single rfl

theorem follows_to (env : Env) {s t : State} {d e : Drain} (step : d.advance env s = (t, e)) :
    Relation.ReflTransGen (Follows env) (s, d) (t, e) := step ▸ follows env s d

theorem runs_results (env : Env) (et : EdgeType) (existing : List LogicalId)
    (entity : EntityInference) (results : List (LogicalId × F32)) (created : Nat) (s : State) :
    Relation.ReflTransGen (Follows env) (s, .results ⟨et, existing, results, created, entity⟩)
      (inferLoop env et entity.id existing results created s, .types entity) := by
  induction results generalizing created s with
  | nil => exact follows_to env rfl
  | cons result rest ih =>
    obtain ⟨target, score⟩ := result
    unfold inferLoop
    by_cases full : et.inferenceConfig.limit ≤ created
    · rw [if_pos full]
      exact follows_to env (by simp only [advance, if_pos full])
    · rw [if_neg full]
      split
      · rename_i passed
        exact .trans (follows_to env (by simp only [advance, if_neg full, if_pos passed])) (ih ..)
      · rename_i wanted
        have logged := follows_to env (s := s)
          (d := .results ⟨et, existing, (target, score) :: rest, created, entity⟩)
          (by simp only [advance, if_neg full, if_neg wanted]; exact rfl)
        exact logged.trans ((follows env _ _).trans (ih (created + 1) _))

theorem inferEdgeType_search (env : Env) (s : State) (collection : String) (id : LogicalId)
    (et : EdgeType) : inferEdgeType env collection id s et =
      match searchFor env s collection id et with
      | none => s
      | some found => inferLoop env et id found.1 found.2 0 s := by
  unfold inferEdgeType searchFor
  cases s.store.get collection id with
  | error e => rfl
  | ok source =>
    dsimp only
    cases denseVector source with
    | none => rfl
    | some vector =>
      dsimp only
      cases (env.denseOrder.order s.indexes.toList).find? fun e => e.1.1 = et.toCollection <;> rfl

theorem runs_types (env : Env) (collection : String) (id : LogicalId) (later : List LogicalId)
    (types : List EdgeType) (s : State) :
    Relation.ReflTransGen (Follows env) (s, .types ⟨collection, id, types, later⟩)
      (types.foldl (inferEdgeType env collection id) s, .entities later) := by
  induction types generalizing s with
  | nil => exact follows_to env rfl
  | cons et types ih =>
    rw [List.foldl_cons, inferEdgeType_search]
    cases found : searchFor env s collection id et with
    | none => exact .trans (follows_to env (by simp only [advance, found])) (ih s)
    | some found' =>
      have begun := follows_to env (s := s) (d := .types ⟨collection, id, et :: types, later⟩)
        (by simp only [advance, found]; exact rfl)
      exact begun.trans ((runs_results env et _ _ _ 0 s).trans (ih _))

/-- A drain that nothing comes in between of does what the drain in one step does. -/
theorem runs (env : Env) (s : State) :
    Relation.ReflTransGen (Follows env) (s, start env s) (drainInferenceQueue env s, .entities []) := by
  unfold start drainInferenceQueue
  generalize env.queueOrder.order (s.inferenceQueue.toList.map Prod.fst) = ids
  induction ids generalizing s with
  | nil => exact .refl
  | cons id later ih =>
    have entity : Relation.ReflTransGen (Follows env) (s, .entities (id :: later))
        (drainEntity env s id, .entities later) := by
      unfold drainEntity
      dsimp only
      cases owner : s.entityCollections[id]? with
      | none => exact follows_to env (by simp only [advance, owner])
      | some collection =>
        have begun := follows_to env (s := s) (d := .entities (id :: later))
          (by simp only [advance, owner]; exact rfl)
        exact begun.trans (runs_types env collection id later _ _)
    exact entity.trans (ih _)

end Drain

/-! ### The decay sweep -/

/-- Where a sweep stands: between edge types, between the edges it has scanned, or waiting for
the commit of a deletion. It has seen the edge types with these names. -/
inductive Sweep where
  | types (now : Nat) (seen : List String)
  | edges (now : Nat) (seen : List String) (et : EdgeType) (threshold : F64) (rest : List Edge)
  | commit (edge : Edge) (now : Nat) (seen : List String) (et : EdgeType) (threshold : F64)
      (rest : List Edge)

namespace Sweep

/-- Type, source and target of the edge whose deletion the sweep awaits. -/
def waiting : Sweep → Option (String × LogicalId × LogicalId)
  | .commit edge _ _ et _ _ => some (et.name, edge.fromId, edge.toId)
  | _ => none

omit [WalPayload Payload] in
def start (env : Env) (s : State) : Sweep := .types (env.nowMillis s.wal.nextTx) []

/-- From one point of the sweep to the next. The edge types are those there are now. -/
def advance (env : Env) (s : State) : Sweep → State × Sweep
  | .types now seen =>
    match (env.edgeTypeOrder.order s.edgeTypes.toList).find? fun e => e.1 ∉ seen with
    | none => (s, .types now seen)
    | some (name, et) =>
      match et.decayConfig.pruneThreshold with
      | none => (s, .types now (name :: seen))
      | some threshold => (s, .edges now (name :: seen) et threshold (s.store.scanEdges et.name))
  | .edges now seen _ _ [] => (s, .types now seen)
  | .edges now seen et threshold (edge :: rest) =>
    if decayed env now et threshold edge then
      (s.logTx env.ts et.name [(.edgeDelete, .edgeDelete et.name edge.fromId edge.toId)],
        .commit edge now seen et threshold rest)
    else (s, .edges now seen et threshold rest)
  | .commit edge now seen et threshold rest =>
    (s.takeEdge et.name edge.fromId edge.toId, .edges now seen et threshold rest)

/-- A sweep deletes the edge whose deletion it has committed, logs the next one, or goes on. -/
theorem advance_ends (env : Env) (s : State) (w : Sweep) :
    (∃ edgeType fromId toId, w.waiting = some (edgeType, fromId, toId) ∧
        (w.advance env s).1 = s.takeEdge edgeType fromId toId) ∨
      w.waiting = none ∧ ((∃ edgeType entries, (w.advance env s).1 = s.logTx env.ts edgeType entries) ∨
        (w.advance env s).1 = s) := by
  cases w with
  | types now seen =>
    refine .inr ⟨rfl, .inr ?_⟩
    simp only [advance]
    split
    · rfl
    · split <;> rfl
  | edges now seen et threshold edges =>
    refine .inr ⟨rfl, ?_⟩
    cases edges with
    | nil => exact .inr rfl
    | cons edge rest =>
      simp only [advance]
      split
      · exact .inl ⟨_, _, rfl⟩
      · exact .inr rfl
  | commit edge now seen et threshold rest => exact .inl ⟨et.name, edge.fromId, edge.toId, rfl, rfl⟩

/-- One step of a sweep that nothing comes in between of. -/
def Follows (env : Env) (x y : State × Sweep) : Prop := y = x.2.advance env x.1

theorem follows (env : Env) (s : State) (w : Sweep) :
    Relation.ReflTransGen (Follows env) (s, w) (w.advance env s) := .single rfl

theorem follows_to (env : Env) {s t : State} {w v : Sweep} (step : w.advance env s = (t, v)) :
    Relation.ReflTransGen (Follows env) (s, w) (t, v) := step ▸ follows env s w

theorem runs_edges (env : Env) (now : Nat) (seen : List String) (et : EdgeType) (threshold : F64)
    (edges : List Edge) (s : State) :
    Relation.ReflTransGen (Follows env) (s, .edges now seen et threshold edges)
      ((edges.filter (decayed env now et threshold)).foldl
        (fun s edge => s.removeEdge env.ts et.name edge.fromId edge.toId) s, .types now seen) := by
  induction edges generalizing s with
  | nil => exact follows_to env rfl
  | cons edge rest ih =>
    rw [List.filter_cons]
    split
    · rename_i gone
      have logged := follows_to env (s := s) (w := .edges now seen et threshold (edge :: rest))
        (by simp only [advance, if_pos gone]; exact rfl)
      exact logged.trans ((follows env _ _).trans (ih _))
    · rename_i stays
      exact .trans (follows_to env (by simp only [advance, if_neg stays])) (ih s)

theorem sweepEdgeType_edgeTypes (env : Env) (now : Nat) (s : State) (et : EdgeType) :
    (sweepEdgeType env now s et).edgeTypes = s.edgeTypes := by
  unfold sweepEdgeType
  split
  · rfl
  · generalize (s.store.scanEdges et.name).filter _ = edges
    induction edges generalizing s with
    | nil => rfl
    | cons edge rest ih => exact ih (s.removeEdge env.ts et.name edge.fromId edge.toId)

/-- The sweep goes through the edge types it has not seen in the order they are handed out. -/
theorem runs_types (env : Env) (now : Nat) (seen : List String) (s : State)
    (rest : List (String × EdgeType)) (distinct : (rest.map Prod.fst).Nodup)
    (todo : (env.edgeTypeOrder.order s.edgeTypes.toList).filter (fun e => e.1 ∉ seen) = rest) :
    ∃ seen', Relation.ReflTransGen (Follows env) (s, .types now seen)
      ((rest.map Prod.snd).foldl (sweepEdgeType env now) s, .types now seen') ∧
      ∀ e ∈ env.edgeTypeOrder.order s.edgeTypes.toList, e.1 ∈ seen' := by
  induction rest generalizing seen s with
  | nil =>
    refine ⟨seen, .refl, fun e listed => ?_⟩
    by_contra unseen
    have there : e ∈ (env.edgeTypeOrder.order s.edgeTypes.toList).filter (fun e => e.1 ∉ seen) :=
      List.mem_filter.mpr ⟨listed, decide_eq_true unseen⟩
    rw [todo] at there
    cases there
  | cons e rest ih =>
    obtain ⟨name, et⟩ := e
    rw [List.map_cons, List.nodup_cons] at distinct
    have next : (env.edgeTypeOrder.order s.edgeTypes.toList).find? (fun e => e.1 ∉ seen) =
        some (name, et) := by
      rw [← List.head?_filter, todo]
      rfl
    have left : (env.edgeTypeOrder.order s.edgeTypes.toList).filter
        (fun e => e.1 ∉ name :: seen) = rest := by
      have both : (fun e : String × EdgeType => decide (e.1 ∉ name :: seen)) =
          fun e => decide (e.1 ≠ name) && decide (e.1 ∉ seen) := by
        funext e
        simp
      rw [both, ← List.filter_filter, todo, List.filter_cons, if_neg (by simp)]
      refine List.filter_eq_self.mpr fun e there => decide_eq_true fun same => distinct.1 ?_
      exact List.mem_map.mpr ⟨e, there, same⟩
    have swept : Relation.ReflTransGen (Follows env) (s, .types now seen)
        (sweepEdgeType env now s et, .types now (name :: seen)) := by
      unfold sweepEdgeType
      cases threshold : et.decayConfig.pruneThreshold with
      | none => exact follows_to env (by simp only [advance, next, threshold])
      | some threshold' =>
        have begun := follows_to env (s := s) (w := .types now seen)
          (by simp only [advance, next, threshold]; exact rfl)
        exact begun.trans (runs_edges env now _ et threshold' _ s)
    have same := sweepEdgeType_edgeTypes env now s et
    obtain ⟨seen', onward, all⟩ := ih (name :: seen) (sweepEdgeType env now s et) distinct.2
      (by rw [same]; exact left)
    rw [same] at all
    exact ⟨seen', swept.trans onward, all⟩

theorem runs (env : Env) (s : State) :
    ∃ now seen, Relation.ReflTransGen (Follows env) (s, start env s)
      (sweepDecayedEdges env s, .types now seen) ∧
      ∀ e ∈ env.edgeTypeOrder.order s.edgeTypes.toList, e.1 ∈ seen := by
  have distinct : ((env.edgeTypeOrder.order s.edgeTypes.toList).map Prod.fst).Nodup :=
    ((env.edgeTypeOrder.perm _).map Prod.fst).nodup_iff.mpr (FinMap.nodup_toList s.edgeTypes)
  obtain ⟨seen, onward, all⟩ := runs_types env (env.nowMillis s.wal.nextTx) [] s _ distinct
    (by simp)
  exact ⟨_, seen, onward, all⟩

end Sweep

/-! ### Tasks in flight -/

omit [WalPayload Payload] in
/-- The writes that are split where they await a commit. -/
def Write.waits : Write → Bool
  | .insertEdge _ | .confirmEdge _ | .sweepDecayedEdges | .drainInferenceQueue => true
  | _ => false

abbrev Statement := { w : Write // w.waits = false }

/-- An engine with the edge writes and the background tasks in flight. -/
structure Busy where
  state : State
  writes : List PendingEdge
  drains : List Drain
  sweeps : List Sweep

inductive Turn where
  | statement (env : Env) (w : Statement)
  | beginInsertEdge (env : Env) (p : InsertEdgePlan)
  | beginConfirmEdge (env : Env) (p : ConfirmEdgePlan)
  | finishEdge (i : Nat)
  | startDrain (env : Env)
  | advanceDrain (env : Env) (i : Nat)
  | startSweep (env : Env)
  | advanceSweep (env : Env) (i : Nat)

namespace Busy

omit [WalPayload Payload] in
def start (s : State) : Busy := ⟨s, [], [], []⟩

/-- An edge write that gets past its checks goes on waiting. -/
def await (x : Busy) (begun : Except EngineError PendingEdge × State) : Busy :=
  match begun with
  | (.error _, s) => { x with state := s }
  | (.ok pending, s) => { x with state := s, writes := x.writes ++ [pending] }

def step (x : Busy) : Turn → Busy
  | .statement env w => { x with state := (perform env x.state w.1).2 }
  | .beginInsertEdge env p => x.await (Engine.beginInsertEdge env x.state p)
  | .beginConfirmEdge env p => x.await (Engine.beginConfirmEdge env x.state p)
  | .finishEdge i =>
    match x.writes[i]? with
    | none => x
    | some pending => { x with
        state := (Engine.finishEdge x.state pending).2
        writes := x.writes.eraseIdx i }
  | .startDrain env => { x with drains := x.drains ++ [.start env x.state] }
  | .advanceDrain env i =>
    match x.drains[i]? with
    | none => x
    | some d =>
      let (s, d) := d.advance env x.state
      { x with state := s, drains := x.drains.set i d }
  | .startSweep env => { x with sweeps := x.sweeps ++ [.start env x.state] }
  | .advanceSweep env i =>
    match x.sweeps[i]? with
    | none => x
    | some w =>
      let (s, w) := w.advance env x.state
      { x with state := s, sweeps := x.sweeps.set i w }

end Busy
end Steps
end TronDB.Engine
