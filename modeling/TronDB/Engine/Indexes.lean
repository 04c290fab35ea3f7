import TronDB.Core.Types

/-! The memory indexes: dense vectors, sparse vectors and edges. -/
namespace TronDB.Engine
open TronDB.Core Binary

/-- The graph of the dense index as the points inserted into it. -/
structure HnswIndex where
  inner : List (List F32 × Nat)
  dimensions : Nat
  idToIdx : FinMap LogicalId Nat
  idxToId : FinMap Nat LogicalId
  nextIdx : Nat
  tombstones : FinMap LogicalId Unit
  tombstoneCount : Nat
  deriving DecidableEq

namespace HnswIndex

def new (dimensions : Nat) : HnswIndex := ⟨[], dimensions, ∅, ∅, 0, ∅, 0⟩

def insert (h : HnswIndex) (id : LogicalId) (vector : List F32) : HnswIndex :=
  if h.idToIdx.contains id then h
  else { h with
    inner := h.inner ++ [(vector, h.nextIdx)]
    idToIdx := h.idToIdx.insert id h.nextIdx
    idxToId := h.idxToId.insert h.nextIdx id
    nextIdx := h.nextIdx + 1 }

def remove (h : HnswIndex) (id : LogicalId) : HnswIndex :=
  if h.idToIdx.contains id then
    { h with
      tombstones := h.tombstones.insert id ()
      tombstoneCount :=
        if h.tombstones.contains id then h.tombstoneCount else h.tombstoneCount + 1 }
  else h

end HnswIndex

structure SparseIndex where
  postings : FinMap UInt32 (List (LogicalId × F32))
  deriving DecidableEq

namespace SparseIndex

def new : SparseIndex := ⟨∅⟩

def minWeight : F32 := ⟨0x3A83126F⟩

def insert (idx : SparseIndex) (entityId : LogicalId) (vector : List (UInt32 × F32)) : SparseIndex :=
  ⟨vector.foldl (fun postings entry =>
    if entry.2.absLt minWeight then postings
    else postings.insert entry.1 (postings[entry.1]?.getD [] ++ [(entityId, entry.2)])) idx.postings⟩

def remove (idx : SparseIndex) (entityId : LogicalId) (vector : List (UInt32 × F32)) : SparseIndex :=
  ⟨vector.foldl (fun postings entry =>
    match postings[entry.1]? with
    | some entries =>
      let kept := entries.filter fun e => e.1 ≠ entityId
      if kept = [] then postings.erase entry.1 else postings.insert entry.1 kept
    | none => postings) idx.postings⟩

end SparseIndex

structure AdjEntry where
  toId : LogicalId
  confidence : F32
  createdAt : Nat
  source : EdgeSource
  validFrom : Option Int64
  validTo : Option Int64
  deriving DecidableEq, Repr

/-- By entity id and edge type. -/
structure AdjacencyIndex where
  forward : FinMap (LogicalId × String) (List AdjEntry)
  backward : FinMap (LogicalId × String) (List LogicalId)
  deriving DecidableEq

namespace AdjacencyIndex

def new : AdjacencyIndex := ⟨∅, ∅⟩

/-- The first entry of the same target is overwritten. -/
def upsert (entry : AdjEntry) : List AdjEntry → List AdjEntry
  | [] => [entry]
  | e :: rest => if e.toId = entry.toId then entry :: rest else e :: upsert entry rest

def insert (a : AdjacencyIndex) (fromId : LogicalId) (edgeType : String) (entry : AdjEntry) :
    AdjacencyIndex :=
  let sources := a.backward[(entry.toId, edgeType)]?.getD []
  { forward := a.forward.insert (fromId, edgeType)
      (upsert entry (a.forward[(fromId, edgeType)]?.getD []))
    backward := a.backward.insert (entry.toId, edgeType)
      (if fromId ∈ sources then sources else sources ++ [fromId]) }

/-- The entries of a key that stay; a key without entries goes. -/
def retain {V : Type} (m : FinMap (LogicalId × String) (List V)) (key : LogicalId × String)
    (keep : V → Bool) : FinMap (LogicalId × String) (List V) :=
  match m[key]? with
  | some entries =>
    let kept := entries.filter keep
    if kept.isEmpty then m.erase key else m.insert key kept
  | none => m

def remove (a : AdjacencyIndex) (fromId : LogicalId) (edgeType : String) (toId : LogicalId) :
    AdjacencyIndex :=
  { forward := retain a.forward (fromId, edgeType) fun e => e.toId ≠ toId
    backward := retain a.backward (toId, edgeType) fun id => id ≠ fromId }

def get (a : AdjacencyIndex) (fromId : LogicalId) (edgeType : String) : List AdjEntry :=
  a.forward[(fromId, edgeType)]?.getD []

/-- The sources of the edges of a type into an entity. -/
def getBackward (a : AdjacencyIndex) (toId : LogicalId) (edgeType : String) : List LogicalId :=
  a.backward[(toId, edgeType)]?.getD []

/-- Edge type and target of the edges out of an entity. -/
def forwardEdges (a : AdjacencyIndex) (entityId : LogicalId) : List (String × LogicalId) :=
  (a.forward.toList.filter fun kv => kv.1.1 = entityId).flatMap fun kv =>
    kv.2.map fun adj => (kv.1.2, adj.toId)

/-- Edge type and source of the edges into an entity. -/
def backwardEdges (a : AdjacencyIndex) (entityId : LogicalId) : List (String × LogicalId) :=
  (a.backward.toList.filter fun kv => kv.1.1 = entityId).flatMap fun kv =>
    kv.2.map fun fromId => (kv.1.2, fromId)

def removeEdgeType (a : AdjacencyIndex) (edgeType : String) : AdjacencyIndex :=
  { forward := a.forward.filter fun k _ => k.2 ≠ edgeType
    backward := a.backward.filter fun k _ => k.2 ≠ edgeType }

end AdjacencyIndex
end TronDB.Engine
