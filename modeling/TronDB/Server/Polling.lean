import TronDB.Lib.Run
import TronDB.Routing.Health
import TronDB.Server.Service

/-! The router's poll of its nodes as time passes: what the services answer and the messages it is in,
what is kept of it, and which nodes are routed to. -/
namespace TronDB.Proto
open Binary Routing

namespace Message

/-- The enumerations are sent as numbers. -/
structure HealthSignalResponse where
  nodeId : String
  nodeRole : Int32
  signalTs : Int64
  sequence : UInt64
  cpuUtilisation : F32
  ramPressure : F32
  hotEntityCount : UInt64
  hotTierCapacity : UInt64
  warmEntityCount : UInt64
  archiveEntityCount : UInt64
  queueDepth : UInt32
  queueCapacity : UInt32
  hnswP50Ms : F32
  hnswP99Ms : F32
  replicaLagMs : Option UInt64
  loadScore : F32
  status : Int32

end Message

open Message (HealthSignalResponse)

def nodeRoleToProto : NodeRole → Int32
  | .primary => 0
  | .hotNode => 1
  | .warmNode => 2
  | .readReplica => 3
  | .router => 4

def protoToNodeRole (n : Int32) : Except String NodeRole :=
  match n.toInt with
  | 0 => .ok .primary
  | 1 => .ok .hotNode
  | 2 => .ok .warmNode
  | 3 => .ok .readReplica
  | 4 => .ok .router
  | _ => .error s!"unknown NodeRoleProto value: {n}"

def nodeStatusToProto : NodeStatus → Int32
  | .healthy => 0
  | .degraded => 1
  | .overloaded => 2
  | .faulted => 3

def protoToNodeStatus (n : Int32) : Except String NodeStatus :=
  match n.toInt with
  | 0 => .ok .healthy
  | 1 => .ok .degraded
  | 2 => .ok .overloaded
  | 3 => .ok .faulted
  | _ => .error s!"unknown NodeStatusProto value: {n}"

def signalToProto (s : HealthSnapshot) : HealthSignalResponse where
  nodeId := s.nodeId
  nodeRole := nodeRoleToProto s.nodeRole
  signalTs := s.signalTs
  sequence := s.sequence
  cpuUtilisation := s.cpuUtilisation
  ramPressure := s.ramPressure
  hotEntityCount := s.hotEntityCount
  hotTierCapacity := s.hotTierCapacity
  warmEntityCount := s.warmEntityCount
  archiveEntityCount := s.archiveEntityCount
  queueDepth := s.queueDepth
  queueCapacity := s.queueCapacity
  hnswP50Ms := s.hnswP50Ms
  hnswP99Ms := s.hnswP99Ms
  replicaLagMs := s.replicaLagMs
  loadScore := s.loadScore
  status := nodeStatusToProto s.status

def protoToSignal (m : HealthSignalResponse) : Except String HealthSnapshot := do
  let nodeRole ← protoToNodeRole m.nodeRole
  let status ← protoToNodeStatus m.status
  .ok {
    cpuUtilisation := m.cpuUtilisation
    queueDepth := m.queueDepth
    queueCapacity := m.queueCapacity
    hnswP99Ms := m.hnswP99Ms
    loadScore := m.loadScore
    status
    nodeId := m.nodeId
    nodeRole
    signalTs := m.signalTs
    sequence := m.sequence
    ramPressure := m.ramPressure
    hotEntityCount := m.hotEntityCount
    hotTierCapacity := m.hotTierCapacity
    hnswP50Ms := m.hnswP50Ms
    replicaLagMs := m.replicaLagMs
    warmEntityCount := m.warmEntityCount
    archiveEntityCount := m.archiveEntityCount }

theorem nodeRole_iff {n : Int32} {role : NodeRole} :
    protoToNodeRole n = .ok role ↔ n = nodeRoleToProto role := by
  constructor
  · intro read
    unfold protoToNodeRole at read
    split at read
    all_goals
      rename_i number
      cases read
      try exact Int32.toInt_inj.mp number
  · rintro rfl
    cases role <;> rfl

theorem nodeStatus_iff {n : Int32} {status : NodeStatus} :
    protoToNodeStatus n = .ok status ↔ n = nodeStatusToProto status := by
  constructor
  · intro read
    unfold protoToNodeStatus at read
    split at read
    all_goals
      rename_i number
      cases read
      try exact Int32.toInt_inj.mp number
  · rintro rfl
    cases status <;> rfl

theorem signal_back (s : HealthSnapshot) : protoToSignal (signalToProto s) = .ok s := by
  unfold protoToSignal signalToProto
  dsimp only
  rw [nodeRole_iff.mpr rfl, nodeStatus_iff.mpr rfl]
  rfl

end TronDB.Proto

namespace TronDB.Server
open TronDB.Core TronDB.Engine Binary Proto
open Routing (NodeId HealthSnapshot HealthConfig HealthCache HealthSignal Router Outside RouteError
  localSnapshot)

/-! ### The answer of a node -/

/-- What the service of a node reads of its process. -/
structure Host where
  role : NodeRole
  /-- How many entities its engine has; a router has none. -/
  entityCount : Option UInt64
  cpuUtilisation : F32
  ramPressure : F32
  now : Int64

def Host.health (x : Host) : HealthSnapshot where
  cpuUtilisation := x.cpuUtilisation
  queueDepth := 0
  queueCapacity := 1000
  hnswP99Ms := ⟨0⟩
  loadScore := ⟨0⟩
  status := .healthy
  nodeId := "local"
  nodeRole := match x.entityCount, x.role with
    | none, _ | _, .router => .router
    | _, .primary => .primary
    | _, .replica => .readReplica
  signalTs := x.now
  sequence := 0
  ramPressure := x.ramPressure
  hotEntityCount := x.entityCount.getD 0
  hotTierCapacity := if x.entityCount.isSome then 100000 else 0
  hnswP50Ms := ⟨0⟩
  replicaLagMs := none
  warmEntityCount := 0
  archiveEntityCount := 0

inductive HandleKind where
  | localNode | remoteNode
  deriving DecidableEq, Repr

/-- What a poll meets: the entities of a local engine, the service of a remote node, if it is
reached, and the clock. -/
structure Encounter where
  entityCount : UInt64
  host : Option Host
  now : Int64

def healthSnapshot (handle : HandleKind) (node : NodeId) (x : Encounter) : HealthSnapshot :=
  match handle, x.host with
  | .localNode, _ => localSnapshot node x.entityCount x.now
  | .remoteNode, none => .faulted node x.now
  | .remoteNode, some host =>
    match protoToSignal (signalToProto host.health) with
    | .ok s => s
    | .error _ => .faulted node x.now

/-! ### The poll -/

def pollTimeoutMs : Nat := 5000

inductive PollStep where
  | pass (millis : Nat)
  /-- The node is asked, and would answer after so many milliseconds. -/
  | poll (node : NodeId) (took : Nat) (x : Encounter)

def PollStep.duration : PollStep → Nat
  | pass millis => millis
  | poll _ took _ => min took pollTimeoutMs

section Poll
variable (nodes : FinMap NodeId HandleKind) (config : HealthConfig)

/-- A poll ends with an answer or with the timeout. -/
def pollResult (loadShedThreshold : F32) (handle : HandleKind) (node : NodeId) (took : Nat)
    (x : Encounter) : HealthSnapshot :=
  if took ≤ pollTimeoutMs then config.assess loadShedThreshold (healthSnapshot handle node x)
  else .unresponsive node

def pollKept (loadShedThreshold : F32) : PollStep → Option HealthSnapshot
  | .pass _ => none
  | .poll node took x =>
    nodes[node]?.map fun handle => pollResult config loadShedThreshold handle node took x

def pollStep (r : Router) (step : PollStep) : Router :=
  let later := r.health.elapse step.duration
  { r with
    health := match pollKept nodes config r.config.loadShedThreshold step with
      | some s => later.update s
      | none => later }

variable {nodes config}

theorem config_polled (r : Router) (steps : List PollStep) :
    (steps.foldl (pollStep nodes config) r).config = r.config := by
  induction steps generalizing r with
  | nil => rfl
  | cons step rest ih => exact ih _

theorem staleAfter_polled (r : Router) (steps : List PollStep) :
    (steps.foldl (pollStep nodes config) r).health.staleAfter = r.health.staleAfter := by
  induction steps generalizing r with
  | nil => rfl
  | cons step rest ih =>
    refine (ih _).trans ?_
    unfold pollStep
    dsimp only
    cases pollKept nodes config r.config.loadShedThreshold step <;> rfl

theorem signals_pollStep (r : Router) (step : PollStep) (node : NodeId) :
    (pollStep nodes config r step).health.signals[node]? =
      match pollKept nodes config r.config.loadShedThreshold step with
      | some s => if s.nodeId = node then some (s.toHealthSignal, 0)
          else r.health.signals[node]?.map fun entry => (entry.1, entry.2 + step.duration)
      | none => r.health.signals[node]?.map fun entry => (entry.1, entry.2 + step.duration) := by
  have aged := r.health.signals_elapse step.duration node
  unfold pollStep
  dsimp only
  cases pollKept nodes config r.config.loadShedThreshold step with
  | none => exact aged
  | some s =>
    dsimp only
    rw [HealthCache.signals_update, aged]

/-! ### Remote nodes -/

def FailsAt (node : NodeId) : PollStep → Prop
  | .poll node' took x => node' = node ∧ (x.host = none ∨ pollTimeoutMs < took)
  | .pass _ => False

/-- What is routed by after a failed poll of a remote node. -/
def failureSignal (config : HealthConfig) (loadShedThreshold : F32) (took : Nat) : HealthSignal :=
  (if took ≤ pollTimeoutMs then config.assess loadShedThreshold (.faulted "" 0)
    else .unresponsive "").toHealthSignal

theorem result_answered (shed : F32) (node : NodeId) {took : Nat} (inTime : took ≤ pollTimeoutMs)
    {x : Encounter} {host : Host} (reached : x.host = some host) :
    (pollResult config shed .remoteNode node took x).nodeId = "local" := by
  unfold pollResult healthSnapshot
  rw [if_pos inTime, reached]
  dsimp only
  rw [signal_back]
  rfl

theorem result_failed (shed : F32) (node : NodeId) {took : Nat} {x : Encounter}
    (failed : x.host = none ∨ pollTimeoutMs < took) :
    (pollResult config shed .remoteNode node took x).nodeId = node ∧
      (pollResult config shed .remoteNode node took x).toHealthSignal =
        failureSignal config shed took := by
  unfold pollResult failureSignal healthSnapshot
  by_cases inTime : took ≤ pollTimeoutMs
  · obtain unreached | late := failed
    · rw [if_pos inTime, if_pos inTime, unreached]
      exact ⟨rfl, rfl⟩
    · omega
  · rw [if_neg inTime, if_neg inTime]
    exact ⟨rfl, rfl⟩

theorem result_other (shed : F32) (handle : HandleKind) {node other : NodeId} (apart : other ≠ node)
    (named : node ≠ "local") (took : Nat) (x : Encounter) :
    (pollResult config shed handle other took x).nodeId ≠ node := by
  unfold pollResult
  split
  · unfold healthSnapshot
    split
    · exact apart
    · exact apart
    · rw [signal_back]
      exact named.symm
  · exact apart

theorem signals_remote (r : Router) {node : NodeId} (remote : nodes[node]? = some .remoteNode)
    (named : node ≠ "local") (step : PollStep) :
    (∃ took x, step = .poll node took x ∧ FailsAt node step ∧
        (pollStep nodes config r step).health.signals[node]? =
          some (failureSignal config r.config.loadShedThreshold took, 0)) ∨
      ¬ FailsAt node step ∧ (pollStep nodes config r step).health.signals[node]? =
        r.health.signals[node]?.map fun entry => (entry.1, entry.2 + step.duration) := by
  have written : (pollStep nodes config r step).health.signals[node]? = _ :=
    signals_pollStep r step node
  cases step with
  | pass millis => exact .inr ⟨not_false, written⟩
  | poll other took x =>
    by_cases own : other = node
    · subst own
      have kept : pollKept nodes config r.config.loadShedThreshold (.poll other took x) =
          some (pollResult config r.config.loadShedThreshold .remoteNode other took x) := by
        rw [pollKept, remote]
        rfl
      rw [kept] at written
      by_cases failed : x.host = none ∨ pollTimeoutMs < took
      · obtain ⟨nodeId, signal⟩ : _ ∧ _ = failureSignal config _ took :=
          result_failed r.config.loadShedThreshold other failed
        refine .inl ⟨took, x, rfl, ⟨rfl, failed⟩, ?_⟩
        rw [written]
        dsimp only
        rw [if_pos nodeId, signal]
      · refine .inr ⟨fun fails => failed fails.2, ?_⟩
        rw [not_or, Nat.not_lt] at failed
        obtain ⟨host, reached⟩ := Option.ne_none_iff_exists'.mp failed.1
        have nodeId : (pollResult config r.config.loadShedThreshold .remoteNode other took x).nodeId =
            "local" := result_answered _ other failed.2 reached
        rw [written]
        dsimp only
        rw [if_neg (nodeId ▸ named.symm)]
    · refine .inr ⟨fun fails => own fails.1, written.trans ?_⟩
      cases known : nodes[other]? with
      | none => simp only [pollKept, known, Option.map_none]
      | some handle =>
        simp only [pollKept, known, Option.map_some]
        exact if_neg (result_other _ handle own named took x)

/-! ### Runs -/

def duration (steps : List PollStep) : Nat := (steps.map PollStep.duration).sum

/-- The last poll of the node that failed, and what came behind it. -/
def LastFailure (node : NodeId) (steps : List PollStep) (took : Nat) (x : Encounter)
    (after : List PollStep) : Prop :=
  ∃ before, steps = before ++ .poll node took x :: after ∧ FailsAt node (.poll node took x) ∧
    ∀ s ∈ after, ¬ FailsAt node s

theorem lastFailure_cons (node : NodeId) (s : PollStep) (rest : List PollStep) (took : Nat)
    (x : Encounter) (after : List PollStep) :
    LastFailure node (s :: rest) took x after ↔ LastFailure node rest took x after ∨
      s = .poll node took x ∧ after = rest ∧ FailsAt node s ∧ ∀ t ∈ rest, ¬ FailsAt node t := by
  constructor
  · rintro ⟨before, split_, fails, later⟩
    cases before with
    | nil =>
      cases split_
      exact .inr ⟨rfl, rfl, fails, later⟩
    | cons first before =>
      cases split_
      exact .inl ⟨before, rfl, fails, later⟩
  · rintro (⟨before, rfl, fails, later⟩ | ⟨rfl, rfl, fails, later⟩)
    · exact ⟨s :: before, rfl, fails, later⟩
    · exact ⟨[], rfl, fails, later⟩

/-- An entry comes from the last failed poll, or has been there from the start. -/
theorem signals_polled (r : Router) {node : NodeId} (remote : nodes[node]? = some .remoteNode)
    (named : node ≠ "local") (steps : List PollStep) (entry : HealthSignal × Nat) :
    (steps.foldl (pollStep nodes config) r).health.signals[node]? = some entry ↔
      (∃ took x after, LastFailure node steps took x after ∧
        entry = (failureSignal config r.config.loadShedThreshold took, duration after)) ∨
      (∀ s ∈ steps, ¬ FailsAt node s) ∧ ∃ old, r.health.signals[node]? = some old ∧
        entry = (old.1, old.2 + duration steps) := by
  induction steps generalizing r with
  | nil =>
    have nothing (took : Nat) (x : Encounter) (after : List PollStep) :
        ¬ LastFailure node [] took x after := by
      rintro ⟨before, split_, -⟩
      simp at split_
    simp [nothing, duration, eq_comm]
  | cons s rest ih =>
    rw [List.foldl_cons, ih (pollStep nodes config r s), List.forall_mem_cons]
    have shed : (pollStep nodes config r s).config = r.config := rfl
    rw [shed]
    rcases @signals_remote nodes config r node remote named s with
      ⟨took, x, rfl, fails, written⟩ | ⟨answers, aged⟩
    · rw [written]
      constructor
      · rintro (⟨took', x', after, last, rfl⟩ | ⟨later, old, same, rfl⟩)
        · exact .inl ⟨took', x', after, (lastFailure_cons ..).mpr (.inl last), rfl⟩
        · cases same
          refine .inl ⟨took, x, rest, (lastFailure_cons ..).mpr (.inr ⟨rfl, rfl, fails, later⟩), ?_⟩
          rw [Nat.zero_add]
      · rintro (⟨took', x', after, last, rfl⟩ | ⟨⟨answers, -⟩, -⟩)
        · rcases (lastFailure_cons ..).mp last with last | ⟨same, rfl, -, later⟩
          · exact .inl ⟨took', x', after, last, rfl⟩
          · cases same
            refine .inr ⟨later, _, rfl, ?_⟩
            rw [Nat.zero_add]
        · exact absurd fails answers
    · have total : duration (s :: rest) = s.duration + duration rest := List.sum_cons
      rw [aged, total]
      constructor
      · rintro (⟨took, x, after, last, rfl⟩ | ⟨later, old, same, rfl⟩)
        · exact .inl ⟨took, x, after, (lastFailure_cons ..).mpr (.inl last), rfl⟩
        · obtain ⟨first, stored, rfl⟩ := Option.map_eq_some_iff.mp same
          refine .inr ⟨⟨answers, later⟩, first, stored, ?_⟩
          rw [Nat.add_assoc]
      · rintro (⟨took, x, after, last, rfl⟩ | ⟨⟨-, later⟩, first, stored, rfl⟩)
        · rcases (lastFailure_cons ..).mp last with last | ⟨-, -, fails, -⟩
          · exact .inl ⟨took, x, after, last, rfl⟩
          · exact absurd fails answers
        · refine .inr ⟨later, _, Option.map_eq_some_iff.mpr ⟨first, stored, rfl⟩, ?_⟩
          rw [Nat.add_assoc]

/-- The poll's thresholds let a node through that cannot be reached. -/
def PassesUnreachable (config : HealthConfig) (loadShedThreshold : F32) : Prop :=
  let s := config.assess loadShedThreshold (.faulted "" 0)
  s.status ≠ .faulted ∧ s.loadScore.lt loadShedThreshold = true

/-- A remote node is routed to after a poll that could not reach it, for as long as that is not
stale; a node that answers its polls never is. -/
theorem remote_candidate_iff (r : Router) {node : NodeId}
    (remote : nodes[node]? = some .remoteNode) (named : node ≠ "local")
    (unheard : r.health.signals[node]? = none) (steps : List PollStep) :
    Router.Candidate (steps.foldl (pollStep nodes config) r) node ↔
      PassesUnreachable config r.config.loadShedThreshold ∧
        ∃ took x after, LastFailure node steps took x after ∧ took ≤ pollTimeoutMs ∧
          duration after ≤ r.health.staleAfter := by
  unfold Router.Candidate HealthCache.shows
  simp only [signals_polled r remote named, unheard, config_polled, staleAfter_polled]
  constructor
  · rintro ⟨entry, ⟨took, x, after, last, rfl⟩ | ⟨-, old, nothing, -⟩, shown, below⟩
    · rw [Bool.and_eq_true] at shown
      obtain ⟨notFaulted, recent⟩ := shown
      unfold failureSignal at notFaulted below
      by_cases inTime : took ≤ pollTimeoutMs
      · rw [if_pos inTime] at notFaulted below
        exact ⟨⟨by simpa using notFaulted, below⟩, took, x, after, last, inTime, by simpa using recent⟩
      · rw [if_neg inTime] at notFaulted
        cases notFaulted
    · cases nothing
  · rintro ⟨⟨notFaulted, below⟩, took, x, after, last, inTime, recent⟩
    refine ⟨_, .inl ⟨took, x, after, last, rfl⟩, ?_, ?_⟩
    · simp only [failureSignal, if_pos inTime, Bool.and_eq_true]
      exact ⟨by simpa using notFaulted, by simpa using recent⟩
    · simpa only [failureSignal, if_pos inTime] using below

/-! ### Silence -/

/-- A poll ends with an answer of the node, or with the news that it cannot be reached. -/
def PollStep.endsInTime : PollStep → Bool
  | .pass _ => false
  | .poll _ took _ => took ≤ pollTimeoutMs

theorem kept_silent {shed : F32} {step : PollStep} (silent : step.endsInTime = false)
    {s : HealthSnapshot} (kept : pollKept nodes config shed step = some s) :
    s.status = .faulted := by
  cases step with
  | pass millis => cases kept
  | poll node took x =>
    obtain ⟨handle, -, rfl⟩ := Option.map_eq_some_iff.mp kept
    have late : ¬ took ≤ pollTimeoutMs := by simpa [PollStep.endsInTime] using silent
    rw [pollResult, if_neg late]
    rfl

/-- While no poll ends in time, signals only grow older, but for those of faults. -/
theorem signals_silent (r : Router) (steps : List PollStep)
    (silent : ∀ s ∈ steps, s.endsInTime = false) {node : NodeId} {entry : HealthSignal × Nat}
    (stored : (steps.foldl (pollStep nodes config) r).health.signals[node]? = some entry) :
    entry.1.status = .faulted ∨ duration steps ≤ entry.2 := by
  have from_ : entry.1.status = .faulted ∨ ∃ old, r.health.signals[node]? = some old ∧
      entry = (old.1, old.2 + duration steps) := by
    induction steps generalizing r with
    | nil => exact .inr ⟨entry, stored, rfl⟩
    | cons s rest ih =>
      rw [List.forall_mem_cons] at silent
      rcases ih (pollStep nodes config r s) silent.2 stored with faulted | ⟨old, there, rfl⟩
      · exact .inl faulted
      · have total : duration (s :: rest) = s.duration + duration rest := List.sum_cons
        have grown (aged : r.health.signals[node]?.map
            (fun entry => (entry.1, entry.2 + s.duration)) = some old) :
            ∃ first, r.health.signals[node]? = some first ∧
              (old.1, old.2 + duration rest) = (first.1, first.2 + duration (s :: rest)) := by
          obtain ⟨first, known, rfl⟩ := Option.map_eq_some_iff.mp aged
          exact ⟨first, known, by rw [total, Nat.add_assoc]⟩
        rw [signals_pollStep] at there
        split at there
        · rename_i kept
          split at there
          · cases there
            exact .inl (kept_silent silent.1 kept)
          · exact .inr (grown there)
        · exact .inr (grown there)
  rcases from_ with faulted | ⟨old, -, rfl⟩
  · exact .inl faulted
  · exact .inr (Nat.le_add_left _ _)

/-- Once no poll has ended in time for longer than signals are good, nothing is routed: it is
enough that one node hangs. -/
theorem silent_refused (r : Router) (steps : List PollStep)
    (silent : ∀ s ∈ steps, s.endsInTime = false) (long : r.health.staleAfter < duration steps)
    (o : Outside) (plan : Plan) :
    (steps.foldl (pollStep nodes config) r).route o plan = .error .noCandidates := by
  have hidden (node : NodeId) (entry : HealthSignal × Nat)
      (stored : (steps.foldl (pollStep nodes config) r).health.signals[node]? = some entry) :
      HealthCache.shows (steps.foldl (pollStep nodes config) r).health entry = false := by
    have old := signals_silent r steps silent stored
    unfold HealthCache.shows
    rw [staleAfter_polled]
    rcases old with faulted | old
    · simp [faulted]
    · have stale : ¬ entry.2 ≤ r.health.staleAfter := by omega
      simp [stale]
  apply Router.route_unheard
  refine List.eq_nil_iff_forall_not_mem.mpr fun p listed => ?_
  obtain ⟨entry, stored, shown, -⟩ := (HealthCache.mem_healthyNodes _ o.order p.1 p.2).mp listed
  rw [hidden _ entry stored] at shown
  cases shown

end Poll

section Examples

/-- An engine of the router's own, and a remote node. -/
def ownAndRemote : FinMap NodeId HandleKind :=
  ((∅ : FinMap NodeId HandleKind).insert "a" .localNode).insert "b" .remoteNode

def newRouter : Router := ⟨.new .default, .new, ∅, Routing.pairConfig, none, none⟩

/-- The engine is asked, and then the remote node. -/
def askBoth (took : Nat) : List PollStep :=
  [.poll "a" 1 ⟨12, none, 0⟩, .pass 199, .poll "b" took ⟨0, none, 0⟩]

theorem default_passes_unreachable :
    PassesUnreachable .default Routing.pairConfig.loadShedThreshold := by
  unfold PassesUnreachable
  decide +kernel

theorem unreachable_candidate :
    Router.Candidate ((askBoth 10).foldl (pollStep ownAndRemote .default) newRouter) "b" := by
  have last : LastFailure "b" (askBoth 10) 10 ⟨0, none, 0⟩ [] :=
    ⟨[.poll "a" 1 ⟨12, none, 0⟩, .pass 199], rfl, ⟨rfl, .inl rfl⟩,
      fun s there => absurd there List.not_mem_nil⟩
  exact (remote_candidate_iff newRouter (by decide) (by decide) rfl (askBoth 10)).mpr
    ⟨default_passes_unreachable, 10, ⟨0, none, 0⟩, [], last, by decide, by decide⟩

/-- The engine has answered, and is lost while the remote node hangs. -/
theorem hanging_refused :
    ([.poll "b" 5001 ⟨0, none, 0⟩].foldl (pollStep ownAndRemote .default)
      (pollStep ownAndRemote .default newRouter (.poll "a" 1 ⟨12, none, 0⟩))).route
        Routing.idleOutside .checkpoint = .error .noCandidates :=
  silent_refused (pollStep ownAndRemote .default newRouter (.poll "a" 1 ⟨12, none, 0⟩))
    [.poll "b" 5001 ⟨0, none, 0⟩] (by decide) (by decide) Routing.idleOutside .checkpoint

end Examples
end TronDB.Server
