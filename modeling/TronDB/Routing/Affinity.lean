import TronDB.Lib.Run
import TronDB.Routing.Tiers

/-! Affinity groups: the index in memory, the calls that log what they do, and the replay of the
log. -/
namespace TronDB.Routing
open TronDB.Core

abbrev EntityId := LogicalId
abbrev AffinityGroupId := String

inductive AffinitySource where
  | explicit | learned
  deriving DecidableEq, Repr

structure AffinityGroup where
  members : FinMap EntityId Unit
  source : AffinitySource

structure AffinityIndex where
  explicit : FinMap EntityId AffinityGroupId
  groups : FinMap AffinityGroupId AffinityGroup

namespace AffinityIndex

def new : AffinityIndex := ⟨∅, ∅⟩

def createGroup (idx : AffinityIndex) (id : AffinityGroupId) : Except RouterError AffinityIndex :=
  if idx.groups.contains id then .error (.affinityGroupAlreadyExists id)
  else .ok { idx with groups := idx.groups.insert id ⟨∅, .explicit⟩ }

def addToGroup (idx : AffinityIndex) (entity : EntityId) (groupId : AffinityGroupId) (maxSize : Nat) :
    Except RouterError AffinityIndex :=
  match idx.groups[groupId]? with
  | none => .error (.affinityGroupNotFound groupId)
  | some group =>
    if group.members.size ≥ maxSize then .error (.affinityGroupFull groupId maxSize)
    else .ok
      { explicit := idx.explicit.insert entity groupId
        groups := idx.groups.insert groupId { group with members := group.members.insert entity () } }

def removeFromGroup (idx : AffinityIndex) (entity : EntityId) : AffinityIndex :=
  match idx.explicit[entity]? with
  | none => idx
  | some groupId =>
    { explicit := idx.explicit.erase entity
      groups := FinMap.adjust idx.groups groupId fun group =>
        { group with members := group.members.erase entity } }

def groupFor (idx : AffinityIndex) (entity : EntityId) : Option AffinityGroupId := idx.explicit[entity]?

/-- The member is taken into the group, if there is room. -/
def learn (idx : AffinityIndex) (entity : EntityId) (groupId : AffinityGroupId) (maxSize : Nat) :
    AffinityIndex :=
  match idx.groups[groupId]? with
  | none => idx
  | some group =>
    if group.members.size < maxSize then
      { explicit := idx.explicit.insert entity groupId
        groups := idx.groups.insert groupId { group with members := group.members.insert entity () } }
    else idx

def learnedId (a b : EntityId) : AffinityGroupId := "learned_" ++ a ++ "_" ++ b

def createImplicitGroup (idx : AffinityIndex) (a b : EntityId) (maxSize : Nat) : AffinityIndex :=
  match idx.explicit[a]?, idx.explicit[b]? with
  | some _, some _ => idx
  | some gid, none => idx.learn b gid maxSize
  | none, some gid => idx.learn a gid maxSize
  | none, none =>
    let gid := learnedId a b
    { explicit := (idx.explicit.insert a gid).insert b gid
      groups := idx.groups.insert gid ⟨((∅ : FinMap EntityId Unit).insert a ()).insert b (), .learned⟩ }

/-- The pairs over the threshold, in the order the scores are read. -/
def promoteAndDecay (idx : AffinityIndex) (toPromote : List (EntityId × EntityId)) (maxSize : Nat) :
    AffinityIndex := toPromote.foldl (fun idx p => idx.createImplicitGroup p.1 p.2 maxSize) idx

end AffinityIndex

/-! ### The log -/

inductive AffinityRecord where
  | groupCreate (groupId : AffinityGroupId)
  | groupMember (groupId : AffinityGroupId) (entityId : EntityId)
  | groupRemove (entityId : EntityId) (groupId : AffinityGroupId)
  deriving DecidableEq, Repr

def AffinityIndex.replayAffinityRecord (idx : AffinityIndex) (maxGroupSize : Nat) :
    AffinityRecord → AffinityIndex
  | .groupCreate groupId => (idx.createGroup groupId).toOption.getD idx
  | .groupMember groupId entityId => (idx.addToGroup entityId groupId maxGroupSize).toOption.getD idx
  | .groupRemove entityId _ => idx.removeFromGroup entityId

def replayMaxGroupSize : Nat := 1000

def processPendingAffinities (records : List AffinityRecord) (affinity : AffinityIndex) :
    AffinityIndex :=
  records.foldl (fun idx record => idx.replayAffinityRecord replayMaxGroupSize record) affinity

/-! ### Calls that log -/

inductive AffinityCall where
  | createGroupLogged (id : AffinityGroupId)
  | addToGroupLogged (entity : EntityId) (groupId : AffinityGroupId) (maxSize : Nat)
  | removeFromGroupLogged (entity : EntityId)
  deriving DecidableEq, Repr

namespace AffinityCall

/-- What a call does before its commit: the record it logs, if any. -/
def check (idx : AffinityIndex) : AffinityCall → Except RouterError (Option AffinityRecord)
  | createGroupLogged id =>
    if idx.groups.contains id then .error (.affinityGroupAlreadyExists id)
    else .ok (some (.groupCreate id))
  | addToGroupLogged entity groupId maxSize =>
    match idx.groups[groupId]? with
    | none => .error (.affinityGroupNotFound groupId)
    | some group =>
      if group.members.size ≥ maxSize then .error (.affinityGroupFull groupId maxSize)
      else .ok (some (.groupMember groupId entity))
  | removeFromGroupLogged entity => .ok ((idx.groupFor entity).map (.groupRemove entity))

def apply (idx : AffinityIndex) : AffinityCall → Except RouterError AffinityIndex
  | createGroupLogged id => idx.createGroup id
  | addToGroupLogged entity groupId maxSize => idx.addToGroup entity groupId maxSize
  | removeFromGroupLogged entity => .ok (idx.removeFromGroup entity)

end AffinityCall

/-! ### Any number of tasks -/

/-- The index and the log, the calls that wait for their commit, in the order of the log, and which
members promotion took in. -/
structure Affinities where
  index : AffinityIndex
  log : List AffinityRecord
  inFlight : List (AffinityCall × AffinityRecord)
  learned : EntityId → AffinityGroupId → Bool

inductive AffinityStep where
  | start (call : AffinityCall)
  | finish (i : Nat)
  | promote (toPromote : List (EntityId × EntityId)) (maxSize : Nat)
  deriving DecidableEq, Repr

namespace AffinityIndex

def has (idx : AffinityIndex) (groupId : AffinityGroupId) (entity : EntityId) : Bool :=
  match idx.groups[groupId]? with
  | some group => group.members.contains entity
  | none => false

def isExplicit (idx : AffinityIndex) (groupId : AffinityGroupId) : Bool :=
  match idx.groups[groupId]? with
  | some group => group.source = .explicit
  | none => false

end AffinityIndex

namespace Affinities

def new : Affinities := ⟨.new, [], [], fun _ _ => false⟩

/-- A member that a call put in or took out is no learned one. -/
def settle (a : Affinities) : AffinityCall → EntityId → AffinityGroupId → Bool
  | .createGroupLogged _ => a.learned
  | .addToGroupLogged entity groupId _ => fun e g => a.learned e g && !(e = entity && g = groupId)
  | .removeFromGroupLogged entity => fun e g =>
    a.learned e g && !(e = entity && a.index.groupFor entity = some g)

def conclude (a : Affinities) (call : AffinityCall) : Affinities :=
  match call.apply a.index with
  | .ok index => { a with index, learned := a.settle call }
  | .error _ => a

/-- A pair is promoted; a member that was not there is a learned one. -/
def promotePair (maxSize : Nat) (a : Affinities) (p : EntityId × EntityId) : Affinities :=
  let index := a.index.createImplicitGroup p.1 p.2 maxSize
  { a with
    index
    learned := fun e g => a.learned e g || (index.has g e && !a.index.has g e) }

def step (a : Affinities) : AffinityStep → Affinities
  | .start call =>
    match call.check a.index with
    | .ok (some record) =>
      { a with log := a.log ++ [record], inFlight := a.inFlight ++ [(call, record)] }
    | _ => a
  | .finish i =>
    match a.inFlight[i]? with
    | none => a
    | some (call, _) => { a.conclude call with inFlight := a.inFlight.eraseIdx i }
  | .promote toPromote maxSize => toPromote.foldl (promotePair maxSize) a

theorem promoted_index (a : Affinities) (toPromote : List (EntityId × EntityId)) (maxSize : Nat) :
    (a.step (.promote toPromote maxSize)).index = a.index.promoteAndDecay toPromote maxSize := by
  unfold step AffinityIndex.promoteAndDecay
  induction toPromote generalizing a with
  | nil => rfl
  | cons p rest ih => exact ih (promotePair maxSize a p)

end Affinities
end TronDB.Routing
