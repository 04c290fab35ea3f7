import TronDB.Core.Store

/-! The persistent store as it lies on disk: one keyspace of partitions, whose names and keys are
made from the names of collections, indexes and edge types. The keyspace is fjall's, of which the
store relies on what `Fjall.Lawful` says. -/
namespace TronDB.Core

/-- What is stored under a key. -/
inductive Cell where
  | schema (schema : CollectionSchema)
  | edgeType (edgeType : EdgeType)
  | entity (e : Entity)
  | edge (edge : Edge)
  | bytes (data : List UInt8)
  deriving DecidableEq

abbrev Partition := FinMap (List UInt8) Cell

/-! ### Names and keys -/

def metaPartition : String := "_meta"
def collectionPrefix : String := "collection:"
def entityPrefix : String := "entity:"
def edgeTypePrefix : String := "edge_type:"
def edgePrefix : String := "edge:"

def collectionKey (name : String) : List UInt8 := utf8 (collectionPrefix ++ name)
def edgeTypeKey (name : String) : List UInt8 := utf8 (edgeTypePrefix ++ name)
def entityKey (id : LogicalId) : List UInt8 := utf8 (entityPrefix ++ id)
def edgeRecordKey (fromId toId : LogicalId) : List UInt8 := utf8 (edgePrefix ++ (fromId ++ ":" ++ toId))

def indexPartitionName (collection index : String) : String := collection ++ ".idx." ++ index
def edgesPartitionName (edgeType : String) : String := "edges." ++ edgeType

def tierPartitionName (collection : String) : Tier → String
  | .fjall | .ram => collection
  | .nvme => "warm." ++ collection
  | .archive => "archive." ++ collection

def isIdent (s : String) : Bool :=
  match s.toList with
  | [] => false
  | c :: rest => (c.isAlpha || c = '_') && rest.all fun c => c.isAlphanum || c = '_'

/-! ### Partitions -/

/-- A keyspace of fjall as the store uses it. Handles are opened by name for each operation, but for
the handle of the metadata, which is taken once. -/
structure Fjall where
  State : Type
  openPartition : State → String → State
  get : State → String → List UInt8 → Option Cell
  put : State → String → List UInt8 → Cell → State
  remove : State → String → List UInt8 → State
  deletePartition : State → String → State
  /-- What the handle of the metadata reads, whether its partition is deleted or not. -/
  metaGet : State → List UInt8 → Option Cell
  metaDeleted : State → Bool
  reopen : State → State

/-- Partitions are apart, and a deleted one loses its data: opened again by its name it is empty. The
handle of the metadata reads the partition until that is deleted; what it reads then is left open. -/
class Fjall.Lawful (F : Fjall) : Prop where
  get_open : ∀ ks name name' key', F.get (F.openPartition ks name) name' key' = F.get ks name' key'
  get_put : ∀ ks name key value name' key', F.get (F.put ks name key value) name' key' =
    if name = name' ∧ key = key' then some value else F.get ks name' key'
  get_remove : ∀ ks name key name' key', F.get (F.remove ks name key) name' key' =
    if name = name' ∧ key = key' then none else F.get ks name' key'
  get_delete : ∀ ks name name' key', F.get (F.deletePartition ks name) name' key' =
    if name = name' then none else F.get ks name' key'
  get_reopen : ∀ ks name key, F.get (F.reopen ks) name key = F.get ks name key
  metaDeleted_open : ∀ ks name, F.metaDeleted (F.openPartition ks name) = F.metaDeleted ks
  metaDeleted_put : ∀ ks name key value, F.metaDeleted (F.put ks name key value) = F.metaDeleted ks
  metaDeleted_remove : ∀ ks name key, F.metaDeleted (F.remove ks name key) = F.metaDeleted ks
  metaDeleted_delete : ∀ ks name, F.metaDeleted (F.deletePartition ks name) =
    (decide (name = metaPartition) || F.metaDeleted ks)
  metaDeleted_reopen : ∀ ks, F.metaDeleted (F.reopen ks) = false
  metaGet_kept : ∀ ks key, F.metaDeleted ks = false → F.metaGet ks key = F.get ks metaPartition key

def FjallStore (F : Fjall) : Type := F.State

namespace FjallStore
variable {F : Fjall}

def cell (ks : FjallStore F) (name : String) (key : List UInt8) : Option Cell := F.get ks name key

def metaCell (ks : FjallStore F) (key : List UInt8) : Option Cell := F.metaGet ks key

def openPartition (ks : FjallStore F) (name : String) : FjallStore F := F.openPartition ks name

def put (ks : FjallStore F) (name : String) (key : List UInt8) (value : Cell) : FjallStore F :=
  F.put ks name key value

def remove (ks : FjallStore F) (name : String) (key : List UInt8) : FjallStore F :=
  F.remove ks name key

def deletePartition (ks : FjallStore F) (name : String) : FjallStore F := F.deletePartition ks name

def reopen (ks : FjallStore F) : FjallStore F := F.reopen ks

/-- The partition that the handle of the metadata was opened on is not deleted. -/
def Opened (ks : FjallStore F) : Prop := F.metaDeleted ks = false

/-! ### The operations of the store -/

def putMeta (ks : FjallStore F) (key : List UInt8) (value : Cell) : Except EngineError (FjallStore F) :=
  if F.metaDeleted ks then .error (.storage "partition deleted")
  else .ok (ks.put metaPartition key value)

def removeMeta (ks : FjallStore F) (key : List UInt8) : Except EngineError (FjallStore F) :=
  if F.metaDeleted ks then .error (.storage "partition deleted")
  else .ok (ks.remove metaPartition key)

def hasCollection (ks : FjallStore F) (name : String) : Bool :=
  (ks.metaCell (collectionKey name)).isSome

def getCollectionSchema (ks : FjallStore F) (name : String) : Except EngineError CollectionSchema :=
  match ks.metaCell (collectionKey name) with
  | some (.schema schema) => .ok schema
  | some _ => .error (.storage "invalid schema")
  | none => .error (.collectionNotFound name)

def indexNames (schema : CollectionSchema) : List String := schema.indexes.map StoredIndex.name

def createCollectionSchema (ks : FjallStore F) (schema : CollectionSchema) : Except EngineError (FjallStore F) :=
  if ks.hasCollection schema.name then .error (.collectionAlreadyExists schema.name)
  else
    match ks.putMeta (collectionKey schema.name) (.schema schema) with
    | .error e => .error e
    | .ok ks => .ok ((indexNames schema).foldl
        (fun ks index => ks.openPartition (indexPartitionName schema.name index))
        (ks.openPartition schema.name))

def dropCollection (ks : FjallStore F) (name : String) : Except EngineError (FjallStore F) :=
  match ks.getCollectionSchema name with
  | .error e => .error e
  | .ok schema =>
    match ks.removeMeta (collectionKey name) with
    | .error e => .error e
    | .ok ks =>
      let ks := ks.deletePartition name
      let ks := (indexNames schema).foldl
        (fun ks index => ks.deletePartition (indexPartitionName name index)) ks
      .ok ((ks.deletePartition (tierPartitionName name .nvme)).deletePartition
        (tierPartitionName name .archive))

def insert (ks : FjallStore F) (collection : String) (e : Entity) : Except EngineError (FjallStore F) :=
  if ks.hasCollection collection then .ok (ks.put collection (entityKey e.id) (.entity e))
  else .error (.collectionNotFound collection)

def deleteEntity (ks : FjallStore F) (collection : String) (id : LogicalId) : Except EngineError (FjallStore F) :=
  if ks.hasCollection collection then .ok (ks.remove collection (entityKey id))
  else .error (.collectionNotFound collection)

def deleteFromTier (ks : FjallStore F) (collection : String) (id : LogicalId) (tier : Tier) : FjallStore F :=
  ks.remove (tierPartitionName collection tier) (entityKey id)

def insertIndexed (ks : FjallStore F) (collection index : String) (key : List UInt8) (id : LogicalId) :
    FjallStore F := ks.put (indexPartitionName collection index) key (.bytes (utf8 id))

def removeIndexed (ks : FjallStore F) (collection index : String) (key : List UInt8) : FjallStore F :=
  ks.remove (indexPartitionName collection index) key

def createEdgeType (ks : FjallStore F) (et : EdgeType) : Except EngineError (FjallStore F) :=
  if (ks.metaCell (edgeTypeKey et.name)).isSome then
    .error (.edgeTypeAlreadyExists et.name)
  else
    match ks.putMeta (edgeTypeKey et.name) (.edgeType et) with
    | .error e => .error e
    | .ok ks => .ok (ks.openPartition (edgesPartitionName et.name))

def dropEdgeType (ks : FjallStore F) (name : String) : Except EngineError (FjallStore F) :=
  match ks.removeMeta (edgeTypeKey name) with
  | .error e => .error e
  | .ok ks => .ok (ks.deletePartition (edgesPartitionName name))

def insertEdge (ks : FjallStore F) (edge : Edge) : FjallStore F :=
  ks.put (edgesPartitionName edge.edgeType) (edgeRecordKey edge.fromId edge.toId) (.edge edge)

def deleteEdge (ks : FjallStore F) (edgeType : String) (fromId toId : LogicalId) : FjallStore F :=
  ks.remove (edgesPartitionName edgeType) (edgeRecordKey fromId toId)

/-! ### Cells under the operations on partitions -/

section Cells
variable [F.Lawful] (ks : FjallStore F) (name : String) (name' : String) (key' : List UInt8)

@[simp] theorem cell_open : (ks.openPartition name).cell name' key' = ks.cell name' key' :=
  Fjall.Lawful.get_open ks name name' key'

theorem cell_put (key : List UInt8) (value : Cell) : (ks.put name key value).cell name' key' =
    if name = name' ∧ key = key' then some value else ks.cell name' key' :=
  Fjall.Lawful.get_put ks name key value name' key'

theorem cell_remove (key : List UInt8) : (ks.remove name key).cell name' key' =
    if name = name' ∧ key = key' then none else ks.cell name' key' :=
  Fjall.Lawful.get_remove ks name key name' key'

variable {ks}

end Cells
end FjallStore

/-! ### A keyspace of finite maps -/

/-- The partitions by their names, and, once the metadata's is deleted, what its handle still
reads. -/
structure Disk where
  partitions : FinMap String Partition
  deletedMeta : Option Partition

namespace Disk

def partition (d : Disk) (name : String) : Partition := d.partitions[name]?.getD ∅

def set (d : Disk) (name : String) (p : Partition) : Disk :=
  { d with partitions := d.partitions.insert name p }

theorem partition_set (d : Disk) (name : String) (p : Partition) (name' : String) :
    (d.set name p).partition name' = if name = name' then p else d.partition name' := by
  unfold partition set
  rw [FinMap.get_insert]
  split <;> rfl

def delete (d : Disk) (name : String) : Disk where
  partitions := d.partitions.erase name
  deletedMeta := if name = metaPartition then some (d.deletedMeta.getD (d.partition name))
    else d.deletedMeta

def fjall : Fjall where
  State := Disk
  openPartition d name := d.set name (d.partition name)
  get d name key := (d.partition name)[key]?
  put d name key value := d.set name ((d.partition name).insert key value)
  remove d name key := d.set name ((d.partition name).erase key)
  deletePartition d name := d.delete name
  metaGet d key := (d.deletedMeta.getD (d.partition metaPartition))[key]?
  metaDeleted d := d.deletedMeta.isSome
  reopen d := ⟨d.partitions, none⟩

instance : fjall.Lawful where
  get_open (d : Disk) name name' key' := by
    change ((d.set name (d.partition name)).partition name')[key']? = (d.partition name')[key']?
    rw [partition_set]
    split
    · rename_i here
      rw [here]
    · rfl
  get_put (d : Disk) name key value name' key' := by
    change ((d.set name _).partition name')[key']? = if _ then _ else (d.partition name')[key']?
    rw [partition_set]
    by_cases here : name = name'
    · rw [if_pos here, FinMap.get_insert, here]
      simp
    · rw [if_neg here, if_neg fun both => here both.1]
  get_remove (d : Disk) name key name' key' := by
    change ((d.set name _).partition name')[key']? = if _ then _ else (d.partition name')[key']?
    rw [partition_set]
    by_cases here : name = name'
    · rw [if_pos here, FinMap.get_erase, here]
      simp
    · rw [if_neg here, if_neg fun both => here both.1]
  get_delete (d : Disk) name name' key' := by
    change ((d.delete name).partition name')[key']? = if _ then _ else (d.partition name')[key']?
    unfold partition delete
    dsimp only
    rw [FinMap.get_erase]
    by_cases here : name = name'
    · rw [if_pos here, if_pos here]
      exact Std.ExtTreeMap.getElem?_empty
    · rw [if_neg here, if_neg here]
  get_reopen _ _ _ := rfl
  metaDeleted_open _ _ := rfl
  metaDeleted_put _ _ _ _ := rfl
  metaDeleted_remove _ _ _ := rfl
  metaDeleted_delete (d : Disk) name := by
    change (d.delete name).deletedMeta.isSome = _
    unfold delete
    by_cases here : name = metaPartition <;> simp [here, fjall]
  metaDeleted_reopen _ := rfl
  metaGet_kept (d : Disk) key kept := by
    have none_ : d.deletedMeta = none := Option.not_isSome_iff_eq_none.mp (Bool.not_eq_true _ ▸ kept)
    change (d.deletedMeta.getD (d.partition metaPartition))[key]? = (d.partition metaPartition)[key]?
    rw [none_]
    rfl

def empty : FjallStore fjall := (⟨∅, none⟩ : Disk)

def fresh : FjallStore fjall := empty.openPartition metaPartition

theorem cell_fresh (name : String) (key : List UInt8) : fresh.cell name key = none := by
  unfold fresh
  rw [FjallStore.cell_open]
  exact Std.ExtTreeMap.getElem?_empty

end Disk
end TronDB.Core
