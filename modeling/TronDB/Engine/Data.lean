import TronDB.Engine.Replay

/-! What a log says: the schemas, edge types, entities and edges it describes, as a fold
over its entries, and that replay into a store computes this fold. -/
namespace TronDB.Engine
open TronDB.Core Wal

/-- What the store holds, apart from index and tier partitions. -/
structure Data where
  collections : FinMap String CollectionSchema
  edgeTypes : FinMap String EdgeType
  entities : FinMap (String × LogicalId) Entity
  edges : FinMap (String × String) Edge
  deriving DecidableEq

theorem Data.ext {d d' : Data} (collections : d.collections = d'.collections)
    (edgeTypes : d.edgeTypes = d'.edgeTypes) (entities : d.entities = d'.entities)
    (edges : d.edges = d'.edges) : d = d' := by
  cases d
  cases d'
  simp_all

def dataOf (s : Store) : Data := ⟨s.collections, s.edgeTypes, s.entities, s.edges⟩

/-- An entry of the log with the collection, edge type or name it is filed under. -/
abbrev Logged := String × Entry Payload

def toLogged (r : WalRecord Payload) : Logged := (r.collection, r.recordType, r.payload)

namespace Data

def empty : Data := ⟨∅, ∅, ∅, ∅⟩

def createCollection (d : Data) (schema : CollectionSchema) : Data :=
  if d.collections.contains schema.name then d
  else { d with collections := d.collections.insert schema.name schema }

def putEntity (d : Data) (collection : String) (e : Entity) : Data :=
  if d.collections.contains collection then
    { d with entities := d.entities.insert (collection, e.id) e }
  else d

def eraseEntity (d : Data) (collection : String) (id : LogicalId) : Data :=
  if d.collections.contains collection then
    { d with entities := d.entities.erase (collection, id) }
  else d

def dropCollection (d : Data) (name : String) : Data :=
  if d.collections.contains name then
    { d with
      collections := d.collections.erase name
      entities := d.entities.filter fun k _ => k.1 ≠ name }
  else d

def alterCollection (d : Data) (collection : String) (op : SchemaAlterOp) : Data :=
  match d.collections[collection]? with
  | some schema =>
    if alterApplies schema op then
      { d with collections := d.collections.insert schema.name (alterSchema schema op) }
    else d
  | none => d

def createEdgeType (d : Data) (et : EdgeType) : Data :=
  if d.edgeTypes.contains et.name then d
  else { d with edgeTypes := d.edgeTypes.insert et.name et }

def dropEdgeType (d : Data) (name : String) : Data :=
  if d.edgeTypes.contains name then
    { d with
      edgeTypes := d.edgeTypes.erase name
      edges := d.edges.filter fun k _ => k.1 ≠ name }
  else d

def putEdge (d : Data) (e : Edge) : Data :=
  if d.edgeTypes.contains e.edgeType then
    { d with edges := d.edges.insert (e.edgeType, edgeKey e.fromId e.toId) e }
  else d

def eraseEdge (d : Data) (edgeType fromId toId : String) : Data :=
  { d with edges := d.edges.erase (edgeType, edgeKey fromId toId) }

def replay (d : Data) : Logged → Data
  | (_, .schemaCreateColl, .schema schema) => d.createCollection schema
  | (collection, .entityWrite, .entity e) | (collection, .reprWrite, .entity e) =>
    d.putEntity collection e
  | (_, .entityDelete, .entityDelete id collection) => d.eraseEntity collection id
  | (_, .schemaCreateEdgeType, .edgeType et) => d.createEdgeType et
  | (_, .edgeWrite, .edge e) | (_, .edgeConfirm, .edge e) | (_, .edgeConfidenceUpdate, .edge e)
  | (_, .edgeInferred, .edge e) => d.putEdge e
  | (_, .edgeDelete, .edgeDelete edgeType fromId toId) => d.eraseEdge edgeType fromId toId
  | (_, .schemaDropColl, .name name) => d.dropCollection name
  | (_, .schemaDropEdgeType, .name name) => d.dropEdgeType name
  | (_, .schemaAlter, .schemaAlter collection op) => d.alterCollection collection op
  | _ => d

end Data

@[simp] theorem name_alterSchema (schema : CollectionSchema) (op : SchemaAlterOp) :
    (alterSchema schema op).name = schema.name := by
  cases op <;> rfl

theorem data_replayEntity (store : Store) (collection : String) (e : Entity) :
    dataOf (replayEntity store collection e) = (dataOf store).putEntity collection e := by
  unfold replayEntity Data.putEntity
  split <;> rename_i h
  · exact (if_pos h).symm
  · exact (if_neg h).symm

theorem data_replayEdge (store : Store) (e : Edge) :
    dataOf (replayEdge store e) = (dataOf store).putEdge e := by
  unfold replayEdge Data.putEdge
  split <;> rename_i h
  · exact (if_pos h).symm
  · exact (if_neg h).symm

theorem data_replayDelete (store : Store) (id : LogicalId) (collection : String) :
    dataOf (replayDelete store id collection) = (dataOf store).eraseEntity collection id := by
  unfold replayDelete Data.eraseEntity Store.deleteEntity
  by_cases h : store.hasCollection collection
  · rw [if_pos h]
    exact (if_pos h).symm
  · rw [if_neg h]
    exact (if_neg h).symm

theorem data_replayDrop (store : Store) (name : String) :
    dataOf (replayDrop store name) = (dataOf store).dropCollection name := by
  unfold replayDrop Data.dropCollection Store.dropCollection Store.getCollectionSchema
  have present : (dataOf store).collections.contains name = store.collections[name]?.isSome :=
    Std.ExtTreeMap.contains_eq_isSome_getElem?
  cases found : store.collections[name]? <;> simp only [present, found] <;> rfl

theorem data_replayAlter (store : Store) (collection : String) (op : SchemaAlterOp) :
    dataOf (replayAlter store collection op) = (dataOf store).alterCollection collection op := by
  unfold replayAlter Data.alterCollection
  rw [show (dataOf store).collections = store.collections from rfl]
  cases store.collections[collection]? with
  | none => rfl
  | some schema =>
    simp only [Store.updateCollectionSchema, name_alterSchema]
    split <;> rfl

theorem data_replayCreate (store : Store) (schema : CollectionSchema) :
    dataOf (if store.hasCollection schema.name then store else store.updateCollectionSchema schema) =
      (dataOf store).createCollection schema := by
  unfold Data.createCollection
  split <;> rename_i h
  · exact (if_pos h).symm
  · exact (if_neg h).symm

theorem data_replayCreateEdgeType (store : Store) (et : EdgeType) :
    dataOf (if store.hasEdgeType et.name then store
      else { store with edgeTypes := store.edgeTypes.insert et.name et }) =
      (dataOf store).createEdgeType et := by
  unfold Data.createEdgeType
  split <;> rename_i h
  · exact (if_pos h).symm
  · exact (if_neg h).symm

theorem data_replayDropEdgeType (store : Store) (name : String) :
    dataOf (if store.hasEdgeType name then store.dropEdgeType name else store) =
      (dataOf store).dropEdgeType name := by
  unfold Data.dropEdgeType
  split <;> rename_i h
  · exact (if_pos h).symm
  · exact (if_neg h).symm

theorem data_replayEntry (store : Store) (collection : String) (entry : Entry Payload) :
    dataOf (replayEntry store collection entry) = (dataOf store).replay (collection, entry) := by
  obtain ⟨recordType, payload⟩ := entry
  cases recordType <;> try rfl
  -- the handled types: only the payload of the type's kind does anything
  all_goals cases payload <;> try rfl
  case schemaCreateColl.schema => exact data_replayCreate _ _
  case entityWrite.entity | reprWrite.entity => exact data_replayEntity _ _ _
  case entityDelete.entityDelete => exact data_replayDelete _ _ _
  case schemaCreateEdgeType.edgeType => exact data_replayCreateEdgeType _ _
  case edgeWrite.edge | edgeConfirm.edge | edgeConfidenceUpdate.edge | edgeInferred.edge =>
    exact data_replayEdge _ _
  case schemaDropColl.name => exact data_replayDrop _ _
  case schemaDropEdgeType.name => exact data_replayDropEdgeType _ _
  case schemaAlter.schemaAlter => exact data_replayAlter _ _ _

theorem data_replayStore (store : Store) (r : WalRecord Payload) :
    dataOf (replayStore store r) = (dataOf store).replay (toLogged r) :=
  data_replayEntry store r.collection _

theorem data_foldl_replayStore (records : List (WalRecord Payload)) (store : Store) :
    dataOf (records.foldl replayStore store) =
      (records.map toLogged).foldl Data.replay (dataOf store) := by
  induction records generalizing store with
  | nil => rfl
  | cons r rest ih => rw [List.foldl_cons, ih, data_replayStore, List.map_cons, List.foldl_cons]

end TronDB.Engine
