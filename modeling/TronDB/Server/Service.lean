import TronDB.Engine.Refusals
import TronDB.Engine.Replay
import TronDB.Proto.Convert

/-! The service of a node: which requests it executes on its own engine and which it forwards
to the primary. -/
namespace TronDB.Server
open TronDB.Core TronDB.Engine TronDB.Proto Wal
open Message (PlanRequest)

inductive NodeRole where
  | primary | replica | router
  deriving DecidableEq, Repr

def isWritePlan : Plan → Bool
  | .insert _ | .updateEntity _ | .deleteEntity _ | .createCollection _ | .createEdgeType _
  | .insertEdge _ | .deleteEdge _ | .createAffinityGroup _ | .alterEntityDropAffinity _ | .demote _
  | .promote _ | .backup _ | .restore _ | .importCollection _ | .checkpoint | .alterCollection _
  | .upsert _ | .dropCollection _ | .dropEdgeType _ => true
  | _ => false

/-- What the service uses of the layers around it: the texts of numbers on the wire, the text a
schema keeps of a condition, and the parser with the planner. -/
structure Front where
  text : FloatText
  showClause : WhereClause → String
  parseAndPlan : FinMap String CollectionSchema → String → Except EngineError Plan

/-! ### The executor -/

def declared (front : Front) (p : Proto.CreateCollectionPlan) : Engine.CreateCollectionPlan :=
  ⟨p.name, p.representations, p.fields,
    p.indexes.map fun idx => ⟨idx.name, idx.fields, idx.partialCondition.map front.showClause⟩,
    p.vectoriserConfig⟩

/-- The write of the executor a plan stands for. The routing layer takes care of affinity and
tiers, BACKUP copies files, and RESTORE explains what to do. -/
def writeOf (front : Front) : Plan → Option Write
  | .createCollection p => some (.createCollection (declared front p))
  | .insert p =>
    some (.insert ⟨p.collection, p.fields, p.values, p.vectors, p.validFrom, p.validTo⟩)
  | .upsert p => some (.insert ⟨p.collection, p.fields, p.values, p.vectors, none, none⟩)
  | .createEdgeType p => some (.createEdgeType p)
  | .insertEdge p => some (.insertEdge p)
  | .deleteEntity p => some (.deleteEntity p)
  | .deleteEdge p => some (.deleteEdge p)
  | .updateEntity p => some (.updateEntity p)
  | .confirmEdge p => some (.confirmEdge p)
  | .dropCollection name => some (.dropCollection name)
  | .dropEdgeType name => some (.dropEdgeType name)
  | .alterCollection p => some (.alterCollection p)
  | .importCollection p => some (.importCollection p)
  | _ => none

section Service
variable [WalPayload Payload]

/-- The state a plan leaves. A plan that reads, and EXPLAIN of any plan, leave it as it is. -/
def executePlan (front : Front) (env : Env) (s : State) : Plan → State
  | .checkpoint => (checkpoint env.ts s).2
  | plan =>
    match writeOf front plan with
    | some w => (perform env s w).2
    | none => s

/-! ### The service -/

structure Service where
  role : NodeRole
  engine : Option State
  /-- How many replicas are connected, where the node tracks them. -/
  connected : Option Nat
  requireReplica : Bool

/-- What becomes of a request; the result of the statement is left out. -/
inductive Answer where
  | invalidArgument (message : String)
  | failedPrecondition (message : String)
  | unavailable (message : String)
  | internal (e : EngineError)
  | forwarded (plan : Plan)
  | executed

namespace Service

def execute (front : Front) (env : Env) (x : Service) (message : PlanRequest) : Answer × Service :=
  match protoToPlan front.text message with
  | .error e => (.invalidArgument e, x)
  | .ok plan =>
    match x.engine with
    | none => (.forwarded plan, x)
    | some s =>
      if x.role ≠ .primary ∧ isWritePlan plan then (.forwarded plan, x)
      else if x.role = .primary ∧ isWritePlan plan ∧ x.requireReplica ∧ x.connected = some 0 then
        (.unavailable "no replicas connected and require_replica is true", x)
      else (.executed, { x with engine := some (executePlan front env s plan) })

/-- The second entry point looks neither at the role nor at the plan. -/
def executeTql (front : Front) (env : Env) (x : Service) (tql : String) : Answer × Service :=
  match x.engine with
  | none => (.failedPrecondition "no local engine (router node)", x)
  | some s =>
    match front.parseAndPlan s.schemas tql with
    | .error e => (.internal e, x)
    | .ok plan => (.executed, { x with engine := some (executePlan front env s plan) })

end Service

inductive Event where
  | execute (env : Env) (message : PlanRequest)
  | executeTql (env : Env) (tql : String)
  | inferenceTick (env : Env)
  | decayTick (env : Env)
  /-- The snapshot tasks write files and leave the engine as it is. -/
  | snapshotTick
  | applyWalRecord (r : WalRecord Payload)

def Event.replays : Event → Bool
  | .applyWalRecord _ => true
  | _ => false

def Service.step (front : Front) (x : Service) : Event → Service
  | .execute env message => (x.execute front env message).2
  | .executeTql env tql => (x.executeTql front env tql).2
  | .inferenceTick env => { x with engine := x.engine.map (drainInferenceQueue env) }
  | .decayTick env => { x with engine := x.engine.map (sweepDecayedEdges env) }
  | .snapshotTick => x
  | .applyWalRecord r => { x with engine := x.engine.map fun s => s.replicate r }

end Service
end TronDB.Server
