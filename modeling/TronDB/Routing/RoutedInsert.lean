import TronDB.Engine.Failure
import TronDB.Engine.Replayed
import TronDB.Proto.Plan
import TronDB.Routing.Membership

/-! INSERT through the router: a node is chosen and executes it, then the router records the
affinity of the new entity under an id that it looks for itself. -/
namespace TronDB.Routing
open TronDB.Core TronDB.Engine Binary Wal

/-! ### Routing -/

abbrev NodeId := String

inductive NodeStatus where
  | healthy | degraded | overloaded | faulted
  deriving DecidableEq, Repr

structure HealthSignal where
  cpuUtilisation : F32
  queueDepth : UInt32
  queueCapacity : UInt32
  hnswP99Ms : F32
  loadScore : F32
  status : NodeStatus

/-- The signal of each node, with the time since it was received. -/
structure HealthCache where
  signals : FinMap NodeId (HealthSignal × Nat)
  staleAfter : Nat

inductive QueryVerb where
  | fetch | search | traverse | infer
  deriving DecidableEq, Repr

structure RouterConfig where
  loadShedThreshold : F32
  weightHealth : F32
  weightVerbFit : F32
  weightAffinity : F32
  maxGroupSize : Nat

structure ScoredCandidate where
  node : NodeId
  score : F32
  healthScore : F32
  verbScore : F32
  affinityScore : F32

structure RoutingDecision where
  node : NodeId
  score : F32
  allCandidates : List ScoredCandidate

/-- The errors of routing, and those of what is routed. -/
inductive RouteError where
  | noCandidates
  | clusterOverloaded
  | failed (e : RouterError)
  deriving DecidableEq, Repr

/-- Nodes that are not faulted and have been heard of lately, by ascending load. -/
def HealthCache.healthyNodes (health : HealthCache)
    (order : HashOrder (NodeId × HealthSignal × Nat)) : List (NodeId × F32) :=
  let fresh := (order.order health.signals.toList).filter fun entry =>
    entry.2.1.status ≠ .faulted && entry.2.2 ≤ health.staleAfter
  (fresh.map fun entry => (entry.1, entry.2.1.loadScore)).insertionSort fun a b => !b.2.lt a.2

def planVerb : Proto.Plan → QueryVerb
  | .fetch _ => .fetch
  | .search _ => .search
  | .traverse _ => .traverse
  | .explain inner => planVerb inner
  | _ => .fetch

def planTargets : Proto.Plan → List EntityId
  | .traverse t => [t.fromId]
  | .explain inner => planTargets inner
  | _ => []

def ofNat32 (n : Nat) : F32 := (F64.ofInt n).toF32

def half : F32 := ⟨0x3F000000⟩

def verbFitScore (verb : QueryVerb) (signal : HealthSignal) : F32 :=
  match verb with
  | .infer =>
    -- below 0.40: 1.0, below 0.65: 0.5, else 0.1
    if signal.cpuUtilisation.lt ⟨0x3ECCCCCD⟩ then .one
    else if signal.cpuUtilisation.lt ⟨0x3F266666⟩ then half
    else ⟨0x3DCCCCCD⟩
  | .search => F32.one.sub ((signal.hnswP99Ms.div (ofNat32 10)).min .one)
  | .traverse =>
    if 0 < signal.queueCapacity then
      F32.one.sub ((ofNat32 signal.queueDepth.toNat).div (ofNat32 signal.queueCapacity.toNat))
    else half
  | .fetch => half

/-- No group is ever given a target node, so that no target prefers a node. -/
def entityAffinityScore (targets : List EntityId) : F32 :=
  if targets = [] then half else (ofNat32 0).div (ofNat32 targets.length)

def routingScore (config : RouterConfig) (health : HealthCache) (verb : QueryVerb)
    (targets : List EntityId) (node : NodeId) : Option ScoredCandidate :=
  health.signals[node]?.map fun (signal, _) =>
    let hs := F32.one.sub signal.loadScore
    let vs := verbFitScore verb signal
    let af := entityAffinityScore targets
    ⟨node, ((hs.mul config.weightHealth).add (vs.mul config.weightVerbFit)).add
      (af.mul config.weightAffinity), hs, vs, af⟩

/-- The log of the router, with what makes its next commit fail. -/
structure RouterLog where
  records : List AffinityRecord
  failure : Option EngineError

structure Router where
  health : HealthCache
  affinity : LearningIndex
  nodes : FinMap NodeId State
  config : RouterConfig
  wal : Option RouterLog
  lastDecision : Option RoutingDecision

/-- What a routed INSERT reads from outside: the surroundings of the nodes, the order in which the
signals are handed out, and new ids. -/
structure Outside where
  env : NodeId → Env
  order : HashOrder (NodeId × HealthSignal × Nat)
  freshId : Nat → LogicalId

namespace Router

def route (o : Outside) (r : Router) (plan : Proto.Plan) : Except RouteError RoutingDecision :=
  let healthy := r.health.healthyNodes o.order
  let candidates := (healthy.filter fun node => node.2.lt r.config.loadShedThreshold).map Prod.fst
  if candidates = [] then
    if healthy = [] then .error .noCandidates else .error .clusterOverloaded
  else
    let scored := (candidates.filterMap
      (routingScore r.config r.health (planVerb plan) (planTargets plan))).insertionSort
        fun a b => !a.score.lt b.score
    match scored with
    | [] => .error .noCandidates
    | best :: _ => .ok ⟨best.node, best.score, scored⟩

end Router

/-! ### The affinity of a new entity -/

def eqIgnoreAsciiCase (s t : String) : Bool := s.map Char.toLower = t.map Char.toLower

/-- The first string under the name id, in upper or lower case. -/
def findIdLiteral (p : Proto.InsertPlan) : Option LogicalId :=
  (p.fields.zip p.values).findSome? fun
    | (field, .string s) => if eqIgnoreAsciiCase field "id" then some s else none
    | _ => none

def findEntityIdFromInsert (p : Proto.InsertPlan) (fresh : LogicalId) : EntityId :=
  (findIdLiteral p).getD fresh

def engineInsert (p : Proto.InsertPlan) : Engine.InsertPlan :=
  ⟨p.collection, p.fields, p.values, p.vectors, p.validFrom, p.validTo⟩

inductive RecordingCall where
  | addToGroup (entity : EntityId) (groupId : AffinityGroupId)
  | recordCooccurrence (results : List EntityId)
  deriving DecidableEq, Repr

/-- The calls a routed INSERT ends with; each looks for the id anew. -/
def recordingCalls (o : Outside) (p : Proto.InsertPlan) : List RecordingCall :=
  (p.affinityGroup.map fun group =>
    RecordingCall.addToGroup (findEntityIdFromInsert p (o.freshId 0)) group).toList ++
  (p.collocateWith.map fun ids =>
    RecordingCall.recordCooccurrence (findEntityIdFromInsert p (o.freshId 1) :: ids)).toList

namespace Router

/-- With a log, the member is checked, logged and then added. -/
def addToGroup (r : Router) (entity : EntityId) (groupId : AffinityGroupId) :
    Except RouterError Router :=
  let call := AffinityCall.addToGroupLogged entity groupId r.config.maxGroupSize
  match r.wal with
  | none =>
    match r.affinity.addToGroup entity groupId r.config.maxGroupSize with
    | .error e => .error e
    | .ok index => .ok { r with affinity := { r.affinity with toAffinityIndex := index } }
  | some wal =>
    match call.check r.affinity.toAffinityIndex with
    | .error e => .error e
    | .ok record =>
      match wal.failure with
      | some e => .error (.engine e)
      | none =>
        match call.apply r.affinity.toAffinityIndex with
        | .error e => .error e
        | .ok index => .ok { r with
            affinity := { r.affinity with toAffinityIndex := index }
            wal := some { wal with records := wal.records ++ record.toList } }

def record (r : Router) : RecordingCall → Except RouterError Router
  | .addToGroup entity groupId => r.addToGroup entity groupId
  | .recordCooccurrence results => .ok { r with affinity := r.affinity.recordCooccurrence results }

def recordAll (r : Router) : List RecordingCall → Except RouterError Unit × Router
  | [] => (.ok (), r)
  | call :: rest =>
    match r.record call with
    | .error e => (.error e, r)
    | .ok r => r.recordAll rest

variable [WalPayload Payload]

def routeAndExecuteInsert (o : Outside) (r : Router) (p : Proto.InsertPlan) :
    Except RouteError QueryResult × Router :=
  match r.route o (.insert p) with
  | .error e => (.error e, r)
  | .ok decision =>
    let r := { r with lastDecision := some decision }
    match r.nodes[decision.node]? with
    | none => (.error .noCandidates, r)
    | some s =>
      let (outcome, s) := Engine.insert (o.env decision.node) s (engineInsert p)
      let r := { r with nodes := r.nodes.insert decision.node s }
      match outcome with
      | .error e => (.error (.failed (.engine e)), r)
      | .ok result =>
        match r.recordAll (recordingCalls o p) with
        | (.error e, r) => (.error (.failed e), r)
        | (.ok (), r) => (.ok result, r)

end Router

/-! ### What the engine stores -/

section Engine
variable [WalPayload Payload] {env : Env} {s : State} {p : Engine.InsertPlan}

def Writes (env : Env) (s : State) (p : Engine.InsertPlan) (e : Entity) : Prop :=
  ∃ schema built, s.schemas[p.collection]? = some schema ∧
    checkVectors schema p.collection p.vectors = .ok () ∧
      buildEntity env schema p (p.target env) = .ok built ∧
        s.store.hasCollection p.collection = true ∧ e = { built with txTime := s.wal.nextTx }

omit [WalPayload Payload] in
theorem Writes.unique {e e' : Entity} (writes : Writes env s p e) (again : Writes env s p e') :
    e' = e := by
  obtain ⟨schema, built, known, -, made, -, rfl⟩ := writes
  obtain ⟨schema', built', known', -, made', -, rfl⟩ := again
  cases known.symm.trans known'
  cases made.symm.trans made'
  rfl

omit [WalPayload Payload] in
theorem Writes.id {e : Entity} (writes : Writes env s p e) : e.id = p.target env := by
  obtain ⟨schema, built, -, -, made, -, same⟩ := writes
  subst same
  exact (id_of_built made :)

omit [WalPayload Payload] in
theorem applyInsert_ok_iff {collection : String} (e : Entity)
    (present : s.store.hasCollection collection = true) :
    (∃ result, (s.applyInsert env collection e).1 = .ok result) ↔
      EntriesEncode (s.fieldIndexesOf env collection) e := by
  have encode := insertFieldEntries_ok_iff collection e (s.fieldIndexesOf env collection)
    (s.store.putEntity collection e)
  unfold State.applyInsert Store.insert
  rw [if_pos present, ← encode]
  dsimp only
  cases (insertFieldEntries (s.store.putEntity collection e) collection e
    (s.fieldIndexesOf env collection)).1 <;> simp

/-- An INSERT that comes to write its entity succeeds exactly if the entries of the field indexes
can be encoded. -/
theorem insert_ok_iff {e : Entity} (writes : Writes env s p e) :
    (∃ result, (Engine.insert env s p).1 = .ok result) ↔
      EntriesEncode (s.fieldIndexesOf env p.collection) e := by
  obtain ⟨schema, built, known, checked, made, present, rfl⟩ := writes
  obtain ⟨data, log⟩ := removeOldEntries_rest env s p.collection (p.target env)
  have stored : (s.removeOldEntries env p.collection (p.target env)).store.hasCollection
      p.collection = true := (congrArg (·.collections.contains p.collection) data).trans present
  have indexes : (s.removeOldEntries env p.collection (p.target env)).fieldIndexesOf env
      p.collection = s.fieldIndexesOf env p.collection := by
    simp [State.fieldIndexesOf]
  unfold Engine.insert
  rw [known]
  dsimp only
  rw [checked]
  dsimp only
  rw [← InsertPlan.target, made, log, ← indexes]
  exact applyInsert_ok_iff _ stored

theorem insert_stores (env : Env) (s : State) (p : Engine.InsertPlan) :
    (∃ e, Writes env s p e ∧
      (Engine.insert env s p).2.store.get p.collection e.id = .ok e ∧
        (Engine.insert env s p).2.store.entities =
          s.store.entities.insert (p.collection, e.id) e) ∨
    (∀ e, ¬ Writes env s p e) ∧ (∃ error, (Engine.insert env s p).1 = .error error) ∧
      (Engine.insert env s p).2.store.entities = s.store.entities := by
  cases insert_ends env s p with
  | refused error rejected result =>
    refine .inr ⟨?_, ⟨error, by rw [result]⟩, by rw [result]⟩
    rintro e ⟨schema, built, known, checked, -⟩
    exact rejected schema known checked
  | unbuilt schema error known checked built result =>
    refine .inr ⟨?_, ⟨error, by rw [result]⟩, by rw [result]; simp⟩
    rintro e ⟨schema', built', known', -, built'', -⟩
    cases known.symm.trans known'
    cases built.symm.trans built''
  | unstored schema e known checked built absent result =>
    obtain ⟨error, entries, result⟩ := result
    refine .inr ⟨?_, ⟨error, by rw [result]⟩, ?_⟩
    · rintro e ⟨-, -, -, -, -, present, -⟩
      cases absent.symm.trans present
    · rw [result]
      exact removeOldEntries_entities env s p.collection (p.target env)
  | stored schema e known checked built present wal left =>
    have entities := left.entities
    rw [removeOldEntries_entities] at entities
    refine .inl ⟨_, ⟨schema, e, known, checked, built, present, rfl⟩, ?_, entities⟩
    obtain ⟨data, -⟩ := removeOldEntries_rest env s p.collection (p.target env)
    have collections : (Engine.insert env s p).2.store.collections = s.store.collections :=
      (congrArg Data.collections left.data).trans (congrArg Data.collections data)
    rw [Store.get_eq_ok, entities, FinMap.get_insert, if_pos rfl, Store.hasCollection, collections]
    exact ⟨present, rfl⟩

end Engine

/-! ### What the router records -/

section Recording
variable {o : Outside} {r : Router} {p : Proto.InsertPlan}

/-- The id under which a call records the new entity, if it records anything. -/
def RecordingCall.recorded : RecordingCall → Option EntityId
  | .addToGroup entity _ => some entity
  | .recordCooccurrence (entity :: _ :: _) => some entity
  | .recordCooccurrence _ => none

def RecordingCall.effect (maxSize : Nat) (index : LearningIndex) : RecordingCall → LearningIndex
  | .addToGroup entity groupId => { index with
      toAffinityIndex := (index.addToGroup entity groupId maxSize).toOption.getD
        index.toAffinityIndex }
  | .recordCooccurrence results => index.recordCooccurrence results

def HasRoom (index : AffinityIndex) (groupId : AffinityGroupId) (maxSize : Nat) : Prop :=
  ∃ group, index.groups[groupId]? = some group ∧ group.members.size < maxSize

def Router.TakesMember (r : Router) (groupId : AffinityGroupId) : Prop :=
  HasRoom r.affinity.toAffinityIndex groupId r.config.maxGroupSize ∧
    ∀ wal, r.wal = some wal → wal.failure = none

theorem addToGroup_cases (index : AffinityIndex) (entity : EntityId) (groupId : AffinityGroupId)
    (maxSize : Nat) :
    (HasRoom index groupId maxSize ∧
      (∃ index', index.addToGroup entity groupId maxSize = .ok index') ∧
        ∃ record, (AffinityCall.addToGroupLogged entity groupId maxSize).check index =
          .ok record) ∨
    ¬ HasRoom index groupId maxSize ∧ ∃ e, index.addToGroup entity groupId maxSize = .error e ∧
      (AffinityCall.addToGroupLogged entity groupId maxSize).check index = .error e := by
  unfold HasRoom AffinityIndex.addToGroup
  simp only [AffinityCall.check]
  cases index.groups[groupId]? with
  | none => simp
  | some group =>
    by_cases full : maxSize ≤ group.members.size
    · simp [full]
    · simp [full, Nat.lt_of_not_le full]

theorem addMember_ends (r : Router) (entity : EntityId) (groupId : AffinityGroupId) :
    (r.TakesMember groupId ∧ ∃ r', r.addToGroup entity groupId = .ok r' ∧ r'.nodes = r.nodes ∧
      r'.config = r.config ∧ r'.affinity =
        (RecordingCall.addToGroup entity groupId).effect r.config.maxGroupSize r.affinity) ∨
    ¬ r.TakesMember groupId ∧ ∃ e, r.addToGroup entity groupId = .error e := by
  unfold Router.TakesMember Router.addToGroup
  rcases addToGroup_cases r.affinity.toAffinityIndex entity groupId r.config.maxGroupSize with
    ⟨room, ⟨index, added⟩, record, checked⟩ | ⟨full, e, added, checked⟩
  · cases log : r.wal with
    | none => simp [room, added, RecordingCall.effect, Except.toOption]
    | some wal =>
      cases failure : wal.failure with
      | none =>
        simp [room, added, checked, failure, AffinityCall.apply, RecordingCall.effect,
          Except.toOption]
      | some e => simp [checked, failure]
  · right
    refine ⟨fun takes => full takes.1, e, ?_⟩
    cases r.wal <;> simp [added, checked]

theorem recordAll_ends (o : Outside) (r : Router) (p : Proto.InsertPlan) :
    (r.recordAll (recordingCalls o p)).2.nodes = r.nodes ∧
    (((∀ groupId, p.affinityGroup = some groupId → r.TakesMember groupId) ∧
      (r.recordAll (recordingCalls o p)).1 = .ok () ∧
      (r.recordAll (recordingCalls o p)).2.affinity = (recordingCalls o p).foldl
        (RecordingCall.effect r.config.maxGroupSize) r.affinity) ∨
    (¬ ∀ groupId, p.affinityGroup = some groupId → r.TakesMember groupId) ∧
      ∃ e, (r.recordAll (recordingCalls o p)).1 = .error e) := by
  unfold recordingCalls
  cases p.affinityGroup with
  | none =>
    cases p.collocateWith <;>
      simp [Router.recordAll, Router.record, RecordingCall.effect]
  | some groupId =>
    rcases addMember_ends r (findEntityIdFromInsert p (o.freshId 0)) groupId with
      ⟨takes, r', added, nodes, config, affinity⟩ | ⟨full, e, failed⟩
    · cases p.collocateWith <;>
        simp [Router.recordAll, Router.record, added, nodes, affinity, takes,
          RecordingCall.effect]
    · simp [Router.recordAll, Router.record, failed, full]

def Records (p : Proto.InsertPlan) : Prop :=
  (∃ group, p.affinityGroup = some group) ∨ ∃ id ids, p.collocateWith = some (id :: ids)

/-- The engine and the router find the same id in the plan. -/
def SameId (p : Proto.InsertPlan) : Prop :=
  ∃ id, findIdInFields p.fields p.values = some id ∧ findIdLiteral p = some id

/-- New ids are not in the plan, and no two of them are equal. -/
structure Fresh (o : Outside) (p : Proto.InsertPlan) : Prop where
  unused : ∀ node, .string ((o.env node).freshId 0) ∉ p.values
  apart : ∀ node i, (o.env node).freshId 0 ≠ o.freshId i

theorem string_of_findIdLiteral {id : LogicalId} (found : findIdLiteral p = some id) :
    .string id ∈ p.values := by
  unfold findIdLiteral at found
  obtain ⟨⟨field, value⟩, there, is⟩ := List.exists_of_findSome?_eq_some found
  have listed := (List.of_mem_zip there).2
  cases value with
  | string s =>
    dsimp only at is
    split at is
    · cases is
      exact listed
    · cases is
  | _ => cases is

theorem findIdLiteral_of_engine {id : LogicalId}
    (found : findIdInFields p.fields p.values = some id) : ∃ id', findIdLiteral p = some id' := by
  unfold findIdInFields at found
  obtain ⟨⟨field, value⟩, there, is⟩ := List.exists_of_findSome?_eq_some found
  rw [← Option.isSome_iff_exists, findIdLiteral, List.findSome?_isSome_iff]
  refine ⟨_, there, ?_⟩
  split at is
  · rename_i same
    cases same
    simp [eqIgnoreAsciiCase]
  · cases is

/-- All calls record the engine's id exactly if both find the same in the plan. -/
theorem recorded_target_iff {node : NodeId} (fresh : Fresh o p) :
    (∀ call ∈ recordingCalls o p, ∀ id, call.recorded = some id →
      id = (engineInsert p).target (o.env node)) ↔ (Records p → SameId p) := by
  have each (i : Nat) : findEntityIdFromInsert p (o.freshId i) =
      (engineInsert p).target (o.env node) ↔ SameId p := by
    unfold findEntityIdFromInsert InsertPlan.target engineInsert SameId
    cases engine : findIdInFields p.fields p.values with
    | some id =>
      obtain ⟨id', found⟩ := findIdLiteral_of_engine engine
      simp [found, eq_comm]
    | none =>
      have other : (findIdLiteral p).getD (o.freshId i) ≠ (o.env node).freshId 0 := by
        cases found : findIdLiteral p with
        | some id =>
          intro same
          apply fresh.unused node
          rw [← same]
          exact string_of_findIdLiteral found
        | none => exact fun same => fresh.apart node i same.symm
      simpa using other
  unfold recordingCalls Records
  cases p.affinityGroup <;> rcases p.collocateWith with _ | _ | ⟨_, _⟩ <;>
    simp [RecordingCall.recorded, each]

/-! ### Whole calls -/

variable [WalPayload Payload]

def Router.entities (r : Router) (node : NodeId) : Option (FinMap (String × LogicalId) Entity) :=
  r.nodes[node]?.map fun s => s.store.entities

/-- A call that fails has stored nothing. A call that succeeds has stored the entity, and has
recorded nothing but its id. -/
structure AtomicAndNamed (o : Outside) (r : Router) (p : Proto.InsertPlan) : Prop where
  failed : ∀ error, (r.routeAndExecuteInsert o p).1 = .error error →
    ∀ node, (r.routeAndExecuteInsert o p).2.entities node = r.entities node
  named : ∀ result, (r.routeAndExecuteInsert o p).1 = .ok result → ∃ node s s' e,
    r.nodes[node]? = some s ∧ (r.routeAndExecuteInsert o p).2.nodes[node]? = some s' ∧
      Writes (o.env node) s (engineInsert p) e ∧ s'.store.get p.collection e.id = .ok e ∧
        (r.routeAndExecuteInsert o p).2.affinity = (recordingCalls o p).foldl
          (RecordingCall.effect r.config.maxGroupSize) r.affinity ∧
            ∀ call ∈ recordingCalls o p, ∀ id, call.recorded = some id → id = e.id

/-- The node the INSERT goes to, with its state, comes to write the entity. -/
structure Reaches (o : Outside) (r : Router) (p : Proto.InsertPlan) (node : NodeId) (s : State)
    (e : Entity) : Prop where
  routed : ∃ decision, r.route o (.insert p) = .ok decision ∧ decision.node = node
  there : r.nodes[node]? = some s
  writes : Writes (o.env node) s (engineInsert p) e

/-- What comes behind the write succeeds: the indexes take the entity and the group the member. -/
structure GoesThrough (o : Outside) (r : Router) (p : Proto.InsertPlan) (node : NodeId) (s : State)
    (e : Entity) : Prop where
  encode : EntriesEncode (s.fieldIndexesOf (o.env node) p.collection) e
  takes : ∀ groupId, p.affinityGroup = some groupId → r.TakesMember groupId

omit [WalPayload Payload] in
theorem reaches_iff {decision : RoutingDecision} {s : State}
    (routed : r.route o (.insert p) = .ok decision) (there : r.nodes[decision.node]? = some s)
    {node : NodeId} {s' : State} {e : Entity} :
    Reaches o r p node s' e ↔
      node = decision.node ∧ s' = s ∧ Writes (o.env decision.node) s (engineInsert p) e := by
  constructor
  · rintro ⟨⟨decision', routed', rfl⟩, there', writes⟩
    cases routed.symm.trans routed'
    cases there.symm.trans there'
    exact ⟨rfl, rfl, writes⟩
  · rintro ⟨rfl, rfl, writes⟩
    exact ⟨⟨decision, routed, rfl⟩, there, writes⟩

omit [WalPayload Payload] in
theorem Reaches.unique {node node' : NodeId} {s s' : State} {e e' : Entity}
    (reached : Reaches o r p node s e) (again : Reaches o r p node' s' e') :
    node' = node ∧ s' = s ∧ e' = e := by
  obtain ⟨⟨decision, routed, rfl⟩, there, writes⟩ := reached
  obtain ⟨rfl, rfl, writes'⟩ := (reaches_iff routed there).mp again
  exact ⟨rfl, rfl, writes.unique writes'⟩

omit [WalPayload Payload] in
theorem entities_insert_same {s s' : State} {node : NodeId} {nodes : FinMap NodeId State}
    (there : r.nodes[node]? = some s) (written : nodes = r.nodes.insert node s') (n : NodeId) :
    (nodes[n]?.map fun s => s.store.entities) = r.entities n ↔
      (node = n → s'.store.entities = s.store.entities) := by
  rw [written, FinMap.get_insert]
  by_cases here : node = n
  · subst here
    simp [Router.entities, there]
  · simp [Router.entities, here]

theorem routed_ends (o : Outside) (r : Router) (p : Proto.InsertPlan) :
    ((∀ node s e, ¬ Reaches o r p node s e) ∧
      (∃ error, (r.routeAndExecuteInsert o p).1 = .error error) ∧
        ∀ node, (r.routeAndExecuteInsert o p).2.entities node = r.entities node) ∨
    ∃ node s s' e, Reaches o r p node s e ∧
      (r.routeAndExecuteInsert o p).2.nodes = r.nodes.insert node s' ∧
      s'.store.get p.collection e.id = .ok e ∧
      s'.store.entities = s.store.entities.insert (p.collection, e.id) e ∧
      (GoesThrough o r p node s e ∧ (∃ result, (r.routeAndExecuteInsert o p).1 = .ok result) ∧
        (r.routeAndExecuteInsert o p).2.affinity = (recordingCalls o p).foldl
          (RecordingCall.effect r.config.maxGroupSize) r.affinity ∨
      ¬ GoesThrough o r p node s e ∧
        ∃ error, (r.routeAndExecuteInsert o p).1 = .error error) := by
  unfold Router.routeAndExecuteInsert
  cases routed : r.route o (.insert p) with
  | error e =>
    refine .inl ⟨fun node s e' reaches => ?_, ⟨e, rfl⟩, fun _ => rfl⟩
    obtain ⟨decision, chosen, -⟩ := reaches.routed
    cases routed.symm.trans chosen
  | ok decision =>
    dsimp only
    cases there : r.nodes[decision.node]? with
    | none =>
      refine .inl ⟨fun node s e reaches => ?_, ⟨_, rfl⟩, fun _ => rfl⟩
      obtain ⟨⟨decision', chosen, rfl⟩, found, -⟩ := reaches
      cases routed.symm.trans chosen
      cases there.symm.trans found
    | some s =>
      have reaches := fun node s' e => @reaches_iff o r p _ _ routed there node s' e
      have stores := insert_stores (o.env decision.node) s (engineInsert p)
      have succeeds := fun e => @insert_ok_iff _ (o.env decision.node) s (engineInsert p) e
      dsimp only
      rcases run : Engine.insert (o.env decision.node) s (engineInsert p) with ⟨outcome, s'⟩
      rw [run] at stores succeeds
      dsimp only at stores succeeds ⊢
      rcases stores with ⟨e, writes, got, entities⟩ | ⟨none_, ⟨error, rfl⟩, entities⟩
      · right
        have reached := (reaches decision.node s e).mpr ⟨rfl, rfl, writes⟩
        cases outcome with
        | error error =>
          have stops : ¬ GoesThrough o r p decision.node s e := by
            intro goes
            obtain ⟨result, ok⟩ := (succeeds e writes).mpr goes.encode
            cases ok
          exact ⟨decision.node, s, s', e, reached, rfl, got, entities, .inr ⟨stops, _, rfl⟩⟩
        | ok result =>
          have encode := (succeeds e writes).mp ⟨result, rfl⟩
          dsimp only
          have ends := recordAll_ends o { r with
            lastDecision := some decision, nodes := r.nodes.insert decision.node s' } p
          rcases recorded : Router.recordAll _ (recordingCalls o p) with ⟨outcome, r'⟩
          rw [recorded] at ends
          obtain ⟨nodes, ⟨takes, rfl, affinity⟩ | ⟨full, error, rfl⟩⟩ := ends
          · exact ⟨decision.node, s, s', e, reached, nodes, got, entities,
              .inl ⟨⟨encode, takes⟩, ⟨result, rfl⟩, affinity⟩⟩
          · exact ⟨decision.node, s, s', e, reached, nodes, got, entities,
              .inr ⟨fun goes => full goes.takes, _, rfl⟩⟩
      · left
        refine ⟨fun node s' e reached => ?_, ⟨_, rfl⟩, fun node => ?_⟩
        · exact none_ e ((reaches node s' e).mp reached).2.2
        · exact (entities_insert_same there rfl node).mpr fun _ => entities

/-- Where an INSERT comes to write its entity, and all that comes behind succeeds, both find the
same id, if there is something to record; where something behind it fails, the node already had
this very entity. -/
structure Safe (o : Outside) (r : Router) (p : Proto.InsertPlan) : Prop where
  sameId : ∀ node s e, Reaches o r p node s e → GoesThrough o r p node s e → Records p → SameId p
  nothingNew : ∀ node s e, Reaches o r p node s e → ¬ GoesThrough o r p node s e →
    s.store.get p.collection e.id = .ok e

/-- A routed INSERT is atomic, and names the entity that is stored, exactly in these cases. -/
theorem atomic_and_named_iff (fresh : Fresh o p) : AtomicAndNamed o r p ↔ Safe o r p := by
  rcases routed_ends o r p with ⟨none_, ⟨error, failed⟩, same⟩ |
    ⟨node, s, s', e, reached, nodes, got, entities, ends⟩
  · refine iff_of_true ⟨fun _ _ => same, fun result ok => ?_⟩
      ⟨fun node s e reached => absurd reached (none_ node s e),
        fun node s e reached => absurd reached (none_ node s e)⟩
    cases failed.symm.trans ok
  have present : s.store.hasCollection p.collection = true := by
    obtain ⟨schema, built, -, -, -, present, -⟩ := reached.writes
    exact present
  have held : s.store.get p.collection e.id = .ok e ↔ s'.store.entities = s.store.entities := by
    rw [Store.get_eq_ok, entities, FinMap.insert_eq_self_iff]
    exact and_iff_right present
  rcases ends with ⟨goes, ⟨result, ok⟩, affinity⟩ | ⟨stops, error, failed⟩
  · constructor
    · intro atomic
      obtain ⟨node', s₁, s₂, e', -, -, writes, -, -, recorded⟩ := atomic.named result ok
      rw [writes.id] at recorded
      refine ⟨fun _ _ _ _ _ => (recorded_target_iff fresh).mp recorded, fun n t f again stops => ?_⟩
      obtain ⟨rfl, rfl, rfl⟩ := reached.unique again
      exact absurd goes stops
    · intro safe
      refine ⟨fun error failed => ?_, fun result _ => ⟨node, s, s', e, reached.there, ?_,
        reached.writes, got, affinity, ?_⟩⟩
      · cases ok.symm.trans failed
      · rw [nodes, FinMap.get_insert, if_pos rfl]
      · rw [reached.writes.id]
        exact (recorded_target_iff fresh).mpr (safe.sameId node s e reached goes)
  · constructor
    · intro atomic
      refine ⟨fun n t f again goes => ?_, fun n t f again _ => ?_⟩
      · obtain ⟨rfl, rfl, rfl⟩ := reached.unique again
        exact absurd goes stops
      · obtain ⟨rfl, rfl, rfl⟩ := reached.unique again
        apply held.mpr
        have same := atomic.failed error failed n
        exact (entities_insert_same reached.there nodes n).mp same rfl
    · intro safe
      refine ⟨fun error _ n => ?_, fun result ok => ?_⟩
      · have same := held.mp (safe.nothingNew node s e reached stops)
        exact (entities_insert_same reached.there nodes n).mpr fun _ => same
      · cases ok.symm.trans failed

end Recording

/-! ### One node -/

section Examples
attribute [local instance] headerOnly

def venuesNode : State := (createCollection .idle (.init default) ⟨"venues", [], [], [], none⟩).2

def idleOutside : Outside := ⟨fun _ => .idle, .insertionOrder _, fun _ => "new"⟩

def pairConfig : RouterConfig := ⟨⟨0x3F59999A⟩, ⟨0x3ECCCCCD⟩, ⟨0x3E99999A⟩, ⟨0x3E99999A⟩, 2⟩

def idleSignal : HealthSignal := ⟨⟨0⟩, 0, 1000, ⟨0⟩, ⟨0⟩, .healthy⟩

def oneNode (affinity : LearningIndex) : Router where
  health := ⟨(∅ : FinMap NodeId (HealthSignal × Nat)).insert "n" (idleSignal, 0), 600⟩
  affinity := affinity
  nodes := (∅ : FinMap NodeId State).insert "n" venuesNode
  config := pairConfig
  wal := none
  lastDecision := none

/-- INSERT INTO venues (id) VALUES ('v') AFFINITY GROUP 'g' -/
def venueInGroup : Proto.InsertPlan :=
  ⟨"venues", ["id"], [.string "v"], [], none, some "g", none, none⟩

def emptyGroup : LearningIndex :=
  ⟨⟨∅, (∅ : FinMap AffinityGroupId AffinityGroup).insert "g" ⟨∅, .explicit⟩⟩, ∅⟩

theorem fresh_venue : Fresh idleOutside venueInGroup where
  unused := fun _ => by
    change Literal.string (toString 0) ∉ [Literal.string "v"]
    decide
  apart := fun _ _ => by
    change toString 0 ≠ "new"
    decide

theorem atomic_and_named_group :
    AtomicAndNamed idleOutside (oneNode emptyGroup) venueInGroup := by
  have sameId : SameId venueInGroup := ⟨"v", by decide, by decide +kernel⟩
  refine (atomic_and_named_iff fresh_venue).mpr ⟨fun _ _ _ _ _ _ => sameId,
    fun node s e reached stops => absurd ⟨?_, ?_⟩ stops⟩
  · have there := reached.there
    rw [oneNode, FinMap.get_insert] at there
    split at there
    · cases there
      have none_ : venuesNode.fieldIndexesOf .idle "venues" = [] := by decide +kernel
      change EntriesEncode (venuesNode.fieldIndexesOf .idle "venues") e
      rw [none_]
      exact nofun
    · simp at there
  · rintro groupId ⟨⟩
    refine ⟨⟨⟨∅, .explicit⟩, ?_, by decide +kernel⟩, nofun⟩
    exact (FinMap.get_insert _ _ _ _).trans (if_pos rfl)

/-- Without the group the INSERT fails, and the entity is stored. -/
theorem stored_without_group : ¬ ∀ (o : Outside) (r : Router) (p : Proto.InsertPlan), Fresh o p →
    (p.affinityGroup.isSome ∨ p.collocateWith.isSome) → AtomicAndNamed o r p := by
  intro always
  have atomic := always idleOutside (oneNode .new) venueInGroup fresh_venue (.inl rfl)
  have failed : ((oneNode .new).routeAndExecuteInsert idleOutside venueInGroup).1.toOption.isNone =
      true := by decide +kernel
  have stored : (((oneNode .new).routeAndExecuteInsert idleOutside venueInGroup).2.entities "n").map
      (fun entities => entities.contains ("venues", "v")) = some true := by decide +kernel
  have before : ((oneNode .new).entities "n").map
      (fun entities => entities.contains ("venues", "v")) = some false := by decide +kernel
  cases outcome : ((oneNode .new).routeAndExecuteInsert idleOutside venueInGroup).1 with
  | ok result =>
    rw [outcome] at failed
    cases failed
  | error error =>
    rw [atomic.failed error outcome "n", before] at stored
    cases stored

end Examples
end TronDB.Routing
