import TronDB.Routing.RoutedInsert

/-! Health signals: the load of a node, the status the poll gives it, and the cache of the router
as time passes. -/
namespace TronDB.Routing
open TronDB.Core TronDB.Engine Binary Wal

inductive NodeRole where
  | primary | hotNode | warmNode | readReplica | router
  deriving DecidableEq, Repr

/-- A health signal with all that is sent of it. -/
structure HealthSnapshot extends HealthSignal where
  nodeId : NodeId
  nodeRole : NodeRole
  signalTs : Int64
  sequence : UInt64
  ramPressure : F32
  hotEntityCount : UInt64
  hotTierCapacity : UInt64
  hnswP50Ms : F32
  replicaLagMs : Option UInt64
  warmEntityCount : UInt64
  archiveEntityCount : UInt64

/-- The thresholds of the poll. The one of load shedding is with the router's own. -/
structure HealthConfig where
  pushIntervalMs : Nat
  staleMultiplier : Nat
  cpuWarnThreshold : F32
  ramWarnThreshold : F32
  queueDepthAlert : UInt32
  hnswBaselineP99Ms : F32
  maxReplicaLagMs : F32

def HealthConfig.default : HealthConfig :=
  ⟨200, 3, ⟨0x3F400000⟩, ⟨0x3F59999A⟩, 500, ⟨0x41200000⟩, ⟨0x447A0000⟩⟩

def ofNat64 (n : Nat) : F32 :=
  if n < 2 ^ 24 then ofNat32 n
  else
    -- the carry of the rounding runs into the exponent
    let shift := Nat.log2 n - 23
    ⟨UInt32.ofNat ((149 + shift) * 2 ^ 23 + roundDiv n (2 ^ shift))⟩

example : ofNat64 16777217 = ⟨0x4B800000⟩ ∧ ofNat64 (2 ^ 64 - 1) = ⟨0x5F800000⟩ := by decide +kernel

/-! ### The load and the status -/

/-- 0.35 of the memory, 0.30 of the queue, 0.20 of the processor, 0.10 of the searches and 0.05 of
the lag. -/
def computeLoadScore (s : HealthSnapshot) (config : HealthConfig) : F32 :=
  let queue :=
    if 0 < s.queueCapacity then
      (ofNat32 s.queueDepth.toNat).div (ofNat32 s.queueCapacity.toNat)
    else ⟨0⟩
  let hnsw :=
    if F32.lt ⟨0⟩ config.hnswBaselineP99Ms then
      (s.hnswP99Ms.div config.hnswBaselineP99Ms).min .one
    else ⟨0⟩
  let lag := match s.replicaLagMs with
    | some millis =>
      if F32.lt ⟨0⟩ config.maxReplicaLagMs then
        ((ofNat64 millis.toNat).div config.maxReplicaLagMs).min .one
      else ⟨0⟩
    | none => ⟨0⟩
  ((((s.ramPressure.mul ⟨0x3EB33333⟩).add (queue.mul ⟨0x3E99999A⟩)).add
    (s.cpuUtilisation.mul ⟨0x3E4CCCCD⟩)).add (hnsw.mul ⟨0x3DCCCCCD⟩)).add (lag.mul ⟨0x3D4CCCCD⟩)

def HealthConfig.warns (config : HealthConfig) (s : HealthSnapshot) : Bool :=
  s.cpuUtilisation.ge config.cpuWarnThreshold || s.ramPressure.ge config.ramWarnThreshold ||
    config.queueDepthAlert ≤ s.queueDepth ||
      s.hnswP99Ms.ge (config.hnswBaselineP99Ms.mul (ofNat32 2))

/-- What the poll makes of an answer. A status it has no reason to change is kept. -/
def HealthConfig.assess (config : HealthConfig) (loadShedThreshold : F32) (s : HealthSnapshot) :
    HealthSnapshot :=
  let loadScore := computeLoadScore s config
  let status :=
    if loadScore.ge loadShedThreshold then .overloaded
    else if config.warns s then .degraded
    else s.status
  { s with loadScore, status }

/-! ### Signals -/

def HealthSnapshot.faulted (nodeId : NodeId) (now : Int64) : HealthSnapshot where
  cpuUtilisation := .one
  queueDepth := 0
  queueCapacity := 0
  hnswP99Ms := ⟨0⟩
  loadScore := .one
  status := .faulted
  nodeId := nodeId
  nodeRole := .hotNode
  signalTs := now
  sequence := 0
  ramPressure := .one
  hotEntityCount := 0
  hotTierCapacity := 0
  hnswP50Ms := ⟨0⟩
  replicaLagMs := none
  warmEntityCount := 0
  archiveEntityCount := 0

def HealthSnapshot.unresponsive (nodeId : NodeId) : HealthSnapshot :=
  { HealthSnapshot.faulted nodeId 0 with cpuUtilisation := ⟨0⟩, ramPressure := ⟨0⟩ }

def hotTierDefaultCapacity : UInt64 := 100000

/-- The signal of an engine in the router's own process. -/
def localSnapshot (nodeId : NodeId) (entityCount : UInt64) (now : Int64) : HealthSnapshot where
  cpuUtilisation := ⟨0⟩
  queueDepth := 0
  queueCapacity := 1000
  hnswP99Ms := ⟨0⟩
  loadScore := ⟨0⟩
  status := .healthy
  nodeId := nodeId
  nodeRole := .hotNode
  signalTs := now
  sequence := 0
  ramPressure := (ofNat64 entityCount.toNat).div (ofNat64 hotTierDefaultCapacity.toNat)
  hotEntityCount := entityCount
  hotTierCapacity := hotTierDefaultCapacity
  hnswP50Ms := ⟨0⟩
  replicaLagMs := none
  warmEntityCount := 0
  archiveEntityCount := 0

/-! ### The cache -/

namespace HealthCache

def new (config : HealthConfig) : HealthCache := ⟨∅, config.pushIntervalMs * config.staleMultiplier⟩

def update (health : HealthCache) (s : HealthSnapshot) : HealthCache :=
  { health with signals := health.signals.insert s.nodeId (s.toHealthSignal, 0) }

def elapse (health : HealthCache) (millis : Nat) : HealthCache :=
  { health with signals := health.signals.map fun _ entry => (entry.1, entry.2 + millis) }

variable (health : HealthCache)

theorem signals_update (s : HealthSnapshot) (node : NodeId) :
    (health.update s).signals[node]? =
      if s.nodeId = node then some (s.toHealthSignal, 0) else health.signals[node]? :=
  FinMap.get_insert _ _ _ _

theorem signals_elapse (millis : Nat) (node : NodeId) :
    (health.elapse millis).signals[node]? =
      health.signals[node]?.map fun entry => (entry.1, entry.2 + millis) := by
  unfold elapse
  simp

def shows (entry : HealthSignal × Nat) : Bool :=
  entry.1.status ≠ .faulted && entry.2 ≤ health.staleAfter

theorem mem_healthyNodes (order : HashOrder (NodeId × HealthSignal × Nat)) (node : NodeId)
    (load : F32) : (node, load) ∈ health.healthyNodes order ↔
      ∃ entry, health.signals[node]? = some entry ∧ health.shows entry = true ∧
        entry.1.loadScore = load := by
  unfold healthyNodes
  simp only [List.mem_insertionSort, List.mem_map, List.mem_filter]
  constructor
  · rintro ⟨⟨node', entry⟩, ⟨listed, passes⟩, same⟩
    cases same
    have stored := (FinMap.mem_toList _ _ _).mp ((order.perm _).mem_iff.mp listed)
    exact ⟨entry, stored, passes, rfl⟩
  · rintro ⟨entry, stored, passes, rfl⟩
    have listed := (order.perm _).mem_iff.mpr ((FinMap.mem_toList _ _ _).mpr stored)
    exact ⟨(node, entry), ⟨listed, passes⟩, rfl⟩

end HealthCache

/-! ### Who is routed to -/

namespace Router

/-- A recent signal that is neither faulted nor above the load. -/
def Candidate (r : Router) (node : NodeId) : Prop :=
  ∃ entry, r.health.signals[node]? = some entry ∧ r.health.shows entry = true ∧
    entry.1.loadScore.lt r.config.loadShedThreshold = true

theorem mem_candidates (o : Outside) (r : Router) (node : NodeId) :
    node ∈ ((r.health.healthyNodes o.order).filter fun node =>
        node.2.lt r.config.loadShedThreshold).map Prod.fst ↔ r.Candidate node := by
  constructor
  · intro listed
    obtain ⟨⟨node', load⟩, kept, rfl⟩ := List.mem_map.mp listed
    obtain ⟨healthy, below⟩ := List.mem_filter.mp kept
    obtain ⟨entry, stored, passes, rfl⟩ := (r.health.mem_healthyNodes o.order _ _).mp healthy
    exact ⟨entry, stored, passes, below⟩
  · rintro ⟨entry, stored, passes, below⟩
    have healthy := (r.health.mem_healthyNodes o.order _ _).mpr ⟨entry, stored, passes, rfl⟩
    exact List.mem_map.mpr ⟨_, List.mem_filter.mpr ⟨healthy, below⟩, rfl⟩

theorem scored_some {r : Router} {node : NodeId} (candidate : r.Candidate node) (verb : QueryVerb)
    (targets : List EntityId) :
    ∃ c, routingScore r.config r.health verb targets node = some c ∧ c.node = node := by
  obtain ⟨entry, stored, -⟩ := candidate
  unfold routingScore
  rw [stored]
  exact ⟨_, rfl, rfl⟩

theorem route_unheard {o : Outside} {r : Router} (unheard : r.health.healthyNodes o.order = [])
    (plan : Proto.Plan) : r.route o plan = .error .noCandidates := by
  simp [route, unheard]

/-- A plan is routed to a candidate, and refused only where there is none: for want of nodes that
have been heard of, or for the load of those. -/
theorem route_spec (o : Outside) (r : Router) (plan : Proto.Plan) :
    (∃ d, r.route o plan = .ok d ∧ r.Candidate d.node) ∨
      (∀ node, ¬ r.Candidate node) ∧ r.route o plan =
        .error (if r.health.healthyNodes o.order = [] then .noCandidates else .clusterOverloaded) := by
  have listed := r.mem_candidates o
  unfold route
  dsimp only
  generalize List.map Prod.fst (List.filter _ (r.health.healthyNodes o.order)) = candidates
    at listed ⊢
  split
  · rename_i nobody
    refine .inr ⟨fun node candidate => ?_, ?_⟩
    · rw [← listed, nobody] at candidate
      exact List.not_mem_nil candidate
    · split <;> rfl
  · rename_i somebody
    obtain ⟨node, there⟩ := List.exists_mem_of_ne_nil _ somebody
    obtain ⟨c, scored, -⟩ := scored_some ((listed node).mp there) (planVerb plan) (planTargets plan)
    split
    · rename_i nothing
      have among := List.mem_filterMap.mpr ⟨node, there, scored⟩
      rw [← List.mem_insertionSort fun a b : ScoredCandidate => !a.score.lt b.score, nothing] at among
      exact absurd among List.not_mem_nil
    · rename_i best rest sorted
      refine .inl ⟨_, rfl, ?_⟩
      have among := sorted ▸ List.mem_cons_self (a := best) (l := rest)
      obtain ⟨node', there', scored'⟩ := List.mem_filterMap.mp ((List.mem_insertionSort _).mp among)
      obtain ⟨c', scoredAs, own⟩ :=
        scored_some ((listed node').mp there') (planVerb plan) (planTargets plan)
      cases scored'.symm.trans scoredAs
      exact own ▸ (listed node').mp there'

end Router
end TronDB.Routing
