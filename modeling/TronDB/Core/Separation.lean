import TronDB.Core.Namespaces

/-! What a statement leaves of the keyspace. -/
namespace TronDB.Core

/-! ### Statements as calls of the store -/

inductive StoreCall where
  | createCollectionSchema (schema : CollectionSchema)
  | dropCollection (name : String)
  | insert (collection : String) (e : Entity)
  | deleteEntity (collection : String) (id : LogicalId)
  | deleteFromTier (collection : String) (id : LogicalId) (tier : Tier)
  | insertIndexed (collection index : String) (key : List UInt8) (id : LogicalId)
  | removeIndexed (collection index : String) (key : List UInt8)
  | createEdgeType (et : EdgeType)
  | dropEdgeType (name : String)
  | insertEdge (edge : Edge)
  | deleteEdge (edgeType : String) (fromId toId : LogicalId)

namespace StoreCall

def run {F : Fjall} (ks : FjallStore F) : StoreCall → Except EngineError (FjallStore F)
  | createCollectionSchema schema => ks.createCollectionSchema schema
  | dropCollection name => ks.dropCollection name
  | insert collection e => ks.insert collection e
  | deleteEntity collection id => ks.deleteEntity collection id
  | deleteFromTier collection id tier => .ok (ks.deleteFromTier collection id tier)
  | insertIndexed collection index key id => .ok (ks.insertIndexed collection index key id)
  | removeIndexed collection index key => .ok (ks.removeIndexed collection index key)
  | createEdgeType et => ks.createEdgeType et
  | dropEdgeType name => ks.dropEdgeType name
  | insertEdge edge => .ok (ks.insertEdge edge)
  | deleteEdge edgeType fromId toId => .ok (ks.deleteEdge edgeType fromId toId)

def subject : StoreCall → Subject
  | createCollectionSchema schema => .collection schema.name
  | dropCollection name => .collection name
  | insert collection _ | deleteEntity collection _ | deleteFromTier collection _ _
  | insertIndexed collection _ _ _ | removeIndexed collection _ _ => .collection collection
  | createEdgeType et => .edgeType et.name
  | dropEdgeType name => .edgeType name
  | insertEdge edge => .edgeType edge.edgeType
  | deleteEdge edgeType _ _ => .edgeType edgeType

def indexes : StoreCall → List String
  | createCollectionSchema schema => FjallStore.indexNames schema
  | insertIndexed _ index _ _ | removeIndexed _ index _ => [index]
  | _ => []

def Named (call : StoreCall) : Prop :=
  call.subject.Named ∧ ∀ index ∈ call.indexes, isIdent index = true

end StoreCall

/-- A statement, with what the executor finds in its memory: the keys of the entity in the field
indexes, and the edges of a deleted entity by type and other end. -/
inductive StorageStatement where
  | createCollection (schema : CollectionSchema)
  | dropCollection (name : String)
  | insert (collection : String) (removed : List (String × List UInt8)) (e : Entity)
      (added : List (String × List UInt8))
  | delete (collection : String) (id : LogicalId) (removed : List (String × List UInt8))
      (forward backward : List (String × LogicalId))
  | createEdgeType (et : EdgeType)
  | dropEdgeType (name : String)
  | insertEdge (edge : Edge)
  | deleteEdge (edgeType : String) (fromId toId : LogicalId)

namespace StorageStatement

/-- The calls in order, and whether an error of the call ends the statement. -/
def calls : StorageStatement → List (StoreCall × Bool)
  | createCollection schema => [(.createCollectionSchema schema, true)]
  | dropCollection name => [(.dropCollection name, true)]
  | insert collection removed e added =>
    removed.map (fun r => (.removeIndexed collection r.1 r.2, false)) ++
      (.insert collection e, true) ::
        added.map fun a => (.insertIndexed collection a.1 a.2 e.id, true)
  | delete collection id removed forward backward =>
    removed.map (fun r => (.removeIndexed collection r.1 r.2, false)) ++
      (.deleteEntity collection id, true) ::
        (forward.map (fun f => (.deleteEdge f.1 id f.2, true)) ++
          (backward.map (fun b => (.deleteEdge b.1 b.2 id, true)) ++
            [(.deleteFromTier collection id .nvme, false), (.deleteFromTier collection id .archive, false)]))
  | createEdgeType et => [(.createEdgeType et, true)]
  | dropEdgeType name => [(.dropEdgeType name, true)]
  | insertEdge edge => [(.insertEdge edge, true)]
  | deleteEdge edgeType fromId toId => [(.deleteEdge edgeType fromId toId, true)]

def Named (st : StorageStatement) : Prop := ∀ call ∈ st.calls, call.1.Named

end StorageStatement

namespace FjallStore
variable {F : Fjall}

def perform (ks : FjallStore F) : List (StoreCall × Bool) → Except EngineError Unit × FjallStore F
  | [] => (.ok (), ks)
  | (call, must) :: rest =>
    match call.run ks with
    | .ok ks' => perform ks' rest
    | .error e => if must then (.error e, ks) else perform ks rest

def step (ks : FjallStore F) (st : StorageStatement) : FjallStore F := (ks.perform st.calls).2

/-! ### What a call leaves -/

/-- The metadata is there, and the stored schemas have names the parser accepts. -/
structure Orderly (ks : FjallStore F) : Prop where
  opened : ks.Opened
  named : ∀ c schema, isIdent c = true →
    ks.cell metaPartition (collectionKey c) = some (.schema schema) →
      ∀ index ∈ indexNames schema, isIdent index = true

section Calls
variable [F.Lawful] {ks ks' : FjallStore F}

theorem elsewhere {x y : Subject} (named : x.Named) (named' : y.Named) (other : y ≠ x)
    {name name' : String} {key key' : List UInt8} (owns : x.Owns name key) (owns' : y.Owns name' key') :
    ¬ (name = name' ∧ key = key') := by
  rintro ⟨rfl, rfl⟩
  exact other (owner_unique named' named owns' owns)

end Calls

/-! ### What a statement leaves -/

section Statements
variable [F.Lawful] {ks : FjallStore F}

def removeAll (ks : FjallStore F) (cells : List (String × List UInt8)) : FjallStore F :=
  cells.foldl (fun ks at_ => ks.remove at_.1 at_.2) ks

end Statements

/-! ### Statements that leave the others alone -/

section Decided
variable [F.Lawful] {ks : FjallStore F}

section Listed
variable {c : String} {id : LogicalId} {removed : List (String × List UInt8)}
  {forward backward : List (String × LogicalId)}

end Listed

end Decided

/-! ### Runs -/

abbrev Parsed := {st : StorageStatement // st.Named}

def advance (ks : FjallStore F) (st : Parsed) : FjallStore F := ks.step st.1

/-- A keyspace in which nothing has been stored. -/
structure New (ks : FjallStore F) : Prop where
  opened : ks.Opened
  empty : ∀ name key, ks.cell name key = none

theorem New.orderly {ks : FjallStore F} (new : ks.New) : ks.Orderly where
  opened := new.opened
  named c schema _ stored := by
    rw [new.empty] at stored
    cases stored

section Example

def dropping (name : String) (ident : isIdent name = true) : Parsed :=
  ⟨.dropCollection name, by
    intro call listed
    rw [List.mem_singleton.mp listed]
    exact ⟨ident, fun _ none_ => absurd none_ List.not_mem_nil⟩⟩

end Example
end FjallStore
end TronDB.Core
