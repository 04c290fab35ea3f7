import TronDB.Core.Types
import Mathlib.Data.List.Sort

/-! The location table: where each representation of an entity lies and in what state. -/
namespace TronDB.Engine
open TronDB.Core

abbrev ReprKey := LogicalId × Nat

structure NodeAddress where
  host : String
  port : Nat
  deriving DecidableEq, Repr

def NodeAddress.localhost : NodeAddress := ⟨"localhost", 0⟩

structure LocationDescriptor where
  tier : Tier
  nodeAddress : NodeAddress
  state : LocState
  version : Nat
  encoding : Encoding
  lastAccessed : Nat
  deriving DecidableEq, Repr

def canTransitionTo : LocState → LocState → Bool
  | .clean, .dirty | .dirty, .recomputing | .recomputing, .clean
  | .clean, .migrating | .migrating, .clean => true
  | _, _ => false

structure LocationTable where
  descriptors : FinMap ReprKey LocationDescriptor
  entityReprs : FinMap LogicalId (List Nat)
  mutationCounter : Nat
  deriving DecidableEq

namespace LocationTable

def new : LocationTable := ⟨∅, ∅, 0⟩

def register (t : LocationTable) (key : ReprKey) (descriptor : LocationDescriptor) :
    LocationTable :=
  let indices := t.entityReprs[key.1]?.getD []
  { descriptors := t.descriptors.insert key descriptor
    entityReprs := t.entityReprs.insert key.1
      (if key.2 ∈ indices then indices else (indices ++ [key.2]).insertionSort (· ≤ ·))
    mutationCounter := t.mutationCounter + 1 }

def get (t : LocationTable) (key : ReprKey) : Option LocationDescriptor := t.descriptors[key]?

def transition (t : LocationTable) (key : ReprKey) (target : LocState) :
    Except EngineError LocationTable :=
  match t.get key with
  | none => .error (.locationNotFound key.1 key.2)
  | some entry =>
    if canTransitionTo entry.state target then
      .ok { t with
        descriptors :=
          t.descriptors.insert key { entry with state := target, version := entry.version + 1 }
        mutationCounter := t.mutationCounter + 1 }
    else .error (.invalidStateTransition entry.state target)

def tryTransition (t : LocationTable) (key : ReprKey) (target : LocState) : LocationTable :=
  match t.transition key target with
  | .ok t' => t'
  | .error _ => t

def removeEntity (t : LocationTable) (entityId : LogicalId) : LocationTable :=
  let indices := t.entityReprs[entityId]?.getD []
  { descriptors := indices.foldl (fun ds idx => ds.erase (entityId, idx)) t.descriptors
    entityReprs := t.entityReprs.erase entityId
    mutationCounter := t.mutationCounter + 1 }

end LocationTable
end TronDB.Engine
