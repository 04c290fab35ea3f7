import TronDB.Core.Decay
import TronDB.Engine.State

/-! TRAVERSE and TRAVERSE MATCH: breadth-first search over the adjacency index. -/
namespace TronDB.Engine
open TronDB.Core Binary Wal

inductive EdgeDirection where
  | forward | backward | undirected
  deriving DecidableEq, Repr

structure EdgePattern where
  edgeType : Option String
  direction : EdgeDirection
  deriving DecidableEq, Repr

structure MatchPattern where
  edge : EdgePattern
  deriving DecidableEq, Repr

structure TraverseMatchPlan where
  fromId : LogicalId
  pattern : MatchPattern
  minDepth : Nat
  maxDepth : Nat
  confidenceThreshold : Option F64
  temporal : Option TemporalClause
  limit : Option Nat
  deriving DecidableEq, Repr

structure TraversePlan where
  edgeType : String
  fromId : LogicalId
  depth : Nat
  limit : Option Nat
  deriving DecidableEq, Repr

/-- What a traversal reads from outside. -/
structure ReadEnv where
  exp : F64 → F64
  /-- The clock when an entry of an edge type is read at an entity. -/
  nowMillis : LogicalId → String → AdjEntry → Nat
  edgeTypeOrder : HashOrder (String × EdgeType)

def edgePassesTemporalFilter (edge : AdjEntry) : TemporalClause → Except EngineError Bool
  | .asOf ts => do
    let point ← parseTemporalTimestamp ts
    let fromOk := edge.validFrom.all fun start => start ≤ point
    let toOk := edge.validTo.all fun stop => point < stop
    .ok (fromOk && toOk)
  | .validDuring rangeStart rangeEnd => do
    let rangeStart ← parseTemporalTimestamp rangeStart
    let rangeEnd ← parseTemporalTimestamp rangeEnd
    let edgeStart := edge.validFrom.getD Int64.minValue
    let edgeEnd := edge.validTo.getD Int64.maxValue
    .ok (edgeStart < rangeEnd && rangeStart < edgeEnd)
  | .asOfTransaction _ => .ok true

def AdjEntry.visible (edge : AdjEntry) (temporal : Option TemporalClause) : Bool :=
  match temporal with
  | some clause =>
    match edgePassesTemporalFilter edge clause with
    | .ok passes => passes
    | .error _ => false
  | none => true

/-- The confidence of an entry when it is read; one without a creation time does not decay. -/
def ReadEnv.confidence (env : ReadEnv) (node : LogicalId) (et : EdgeType) (entry : AdjEntry) : F32 :=
  if 0 < entry.createdAt then
    effectiveConfidence env.exp entry.confidence
      (env.nowMillis node et.name entry - entry.createdAt) et.decayConfig
  else entry.confidence

/-- An entity an edge leads to: its id, the confidence of the edge, and the collection the
edge type names for it. -/
abbrev Neighbor := LogicalId × F32 × String

/-! ### The search -/

/-- An entity that has been found, and at which depth. -/
structure Found where
  id : LogicalId
  collection : String
  entity : Entity
  confidence : F32
  depth : Nat
  deriving DecidableEq

/-- A round of a search under way. -/
structure Round where
  visited : List LogicalId
  nextFrontier : List LogicalId
  found : List Found

def full (limit : Option Nat) (found : List Found) : Bool := limit.any (· ≤ found.length)

structure Search where
  neighbors : LogicalId → List Neighbor
  minDepth : Nat
  limit : Option Nat

namespace Search
variable (search : Search) (store : Store)

/-- The entity is reported when the depth is deep enough and its collection has it. -/
def report (hop : Nat) (neighbor : Neighbor) : Option Found :=
  if search.minDepth ≤ hop + 1 then
    match store.get neighbor.2.2 neighbor.1 with
    | .ok entity => some ⟨neighbor.1, neighbor.2.2, entity, neighbor.2.1, hop + 1⟩
    | .error _ => none
  else none

def visitNeighbors (hop : Nat) : List Neighbor → Round → Round
  | [], r => r
  | neighbor :: rest, r =>
    if neighbor.1 ∈ r.visited then visitNeighbors hop rest r
    else
      let r := { r with visited := neighbor.1 :: r.visited }
      match search.report store hop neighbor with
      | none => visitNeighbors hop rest { r with nextFrontier := r.nextFrontier ++ [neighbor.1] }
      | some found =>
        let r := { r with found := r.found ++ [found] }
        if full search.limit r.found then r
        else visitNeighbors hop rest { r with nextFrontier := r.nextFrontier ++ [neighbor.1] }

def visitFrontier (hop : Nat) : List LogicalId → Round → Round
  | [], r => r
  | node :: rest, r =>
    let r := search.visitNeighbors store hop (search.neighbors node) r
    if full search.limit r.found then r else visitFrontier hop rest r

def hops : Nat → Nat → List LogicalId → List LogicalId → List Found → List Found
  | 0, _, _, _, found => found
  | left + 1, hop, visited, frontier, found =>
    if frontier = [] ∨ full search.limit found then found
    else
      let r := search.visitFrontier store hop frontier ⟨visited, [], found⟩
      hops left (hop + 1) r.visited r.nextFrontier r.found

def run (fromId : LogicalId) (maxDepth : Nat) : List Found :=
  search.hops store (Nat.min maxDepth 10) 0 [fromId] [fromId] []

end Search

/-! ### TRAVERSE -/

def pruned (et : EdgeType) (confidence : F32) : Bool :=
  et.decayConfig.pruneThreshold.any fun threshold => confidence.lt threshold.toF32

def State.traverseNeighbors (s : State) (env : ReadEnv) (et : EdgeType) (name : String)
    (node : LogicalId) : List Neighbor :=
  (s.adjacency.get node name).filterMap fun entry =>
    let confidence := env.confidence node et entry
    if pruned et confidence then none else some (entry.toId, confidence, et.toCollection)

def executeTraverse (env : ReadEnv) (s : State) (p : TraversePlan) : Except EngineError QueryResult :=
  match s.store.getEdgeType p.edgeType with
  | .error e => .error e
  | .ok et =>
    let search : Search := ⟨s.traverseNeighbors env et p.edgeType, 0, p.limit⟩
    let rows := (search.run s.store p.fromId p.depth).map fun f => entityToRow f.entity .all
    .ok ⟨buildColumns rows .all, rows, rows.length, .deterministic, "Ram"⟩

/-! ### TRAVERSE MATCH -/

/-- The edge type of the pattern, if it is stored, or else all of them. -/
def State.edgeTypesToCheck (s : State) (env : ReadEnv) (p : TraverseMatchPlan) : List EdgeType :=
  match p.pattern.edge.edgeType with
  | some name =>
    match s.store.getEdgeType name with
    | .ok et => [et]
    | .error _ => []
  | none => (env.edgeTypeOrder.order s.edgeTypes.toList).map Prod.snd

/-- The entry is read at the node as an edge of the pattern. -/
def TraverseMatchPlan.admits (p : TraverseMatchPlan) (env : ReadEnv) (node : LogicalId)
    (et : EdgeType) (entry : AdjEntry) : Bool :=
  entry.visible p.temporal &&
    (env.confidence node et entry).ge (p.confidenceThreshold.getD .zero).toF32

section Match
variable (s : State) (env : ReadEnv) (p : TraverseMatchPlan)

def State.forwardNeighbors (node : LogicalId) (et : EdgeType) : List Neighbor :=
  ((s.adjacency.get node et.name).filter (p.admits env node et)).map fun entry =>
    (entry.toId, env.confidence node et entry, et.toCollection)

def State.backwardNeighbors (node : LogicalId) (et : EdgeType) : List Neighbor :=
  (s.adjacency.getBackward node et.name).flatMap fun source =>
    ((s.adjacency.get source et.name).filter fun entry =>
      entry.toId = node && p.admits env node et entry).map fun entry =>
        (source, env.confidence node et entry, et.fromCollection)

def State.matchNeighbors (node : LogicalId) : List Neighbor :=
  (s.edgeTypesToCheck env p).flatMap fun et =>
    match p.pattern.edge.direction with
    | .forward => s.forwardNeighbors env p node et
    | .backward => s.backwardNeighbors env p node et
    | .undirected => s.forwardNeighbors env p node et ++ s.backwardNeighbors env p node et

def State.matchFound : List Found :=
  Search.run ⟨s.matchNeighbors env p, p.minDepth, p.limit⟩ s.store p.fromId p.maxDepth

/-- The row of an entity with what is known of the edge that led to it. -/
def TraverseMatchPlan.row (found : Found) : Row :=
  let row := entityToRow found.entity .all
  let values := row.values.insert "_edge.confidence" (.float found.confidence.toF64)
  let values := match p.pattern.edge.edgeType with
    | some name => values.insert "_edge.type" (.string name)
    | none => values
  { row with values := values.insert "_depth" (.int (Int64.ofNat found.depth)) }

def executeTraverseMatchPlan : QueryResult :=
  let rows := (s.matchFound env p).map p.row
  ⟨buildColumns rows .all, rows, rows.length, .deterministic, "Ram"⟩

end Match
end TronDB.Engine
