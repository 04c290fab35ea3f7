import TronDB.Core.FieldIndex

/-! The persistent store. A partition per collection, edge type and field index, and the
metadata, are kept as maps over the pair of the partition's owner and the key. -/
namespace TronDB.Core

/-- The text an edge is stored under in the partition of its type. -/
def edgeKey (fromId toId : LogicalId) : String := fromId ++ ":" ++ toId

structure Store where
  collections : FinMap String CollectionSchema
  edgeTypes : FinMap String EdgeType
  /-- By collection and id. -/
  entities : FinMap (String × LogicalId) Entity
  /-- By edge type and edge key. -/
  edges : FinMap (String × String) Edge
  /-- By collection and index name. -/
  fieldIndexes : FinMap (String × String) (FinMap (List UInt8) LogicalId)
  /-- The warm and archive partitions, by collection and id. -/
  warm : FinMap (String × LogicalId) (List UInt8)
  archive : FinMap (String × LogicalId) (List UInt8)
  /-- Every entity is stored under its own id. -/
  keyed : ∀ (collection : String) (id : LogicalId) (e : Entity),
    entities[(collection, id)]? = some e → e.id = id

namespace Store

def empty : Store where
  collections := ∅
  edgeTypes := ∅
  entities := ∅
  edges := ∅
  fieldIndexes := ∅
  warm := ∅
  archive := ∅
  keyed := by simp

def hasCollection (s : Store) (name : String) : Bool := s.collections.contains name

def hasEdgeType (s : Store) (name : String) : Bool := s.edgeTypes.contains name

def getCollectionSchema (s : Store) (name : String) : Except EngineError CollectionSchema :=
  match s.collections[name]? with
  | some schema => .ok schema
  | none => .error (.collectionNotFound name)

def createCollectionSchema (s : Store) (schema : CollectionSchema) : Except EngineError Store :=
  if s.hasCollection schema.name then .error (.collectionAlreadyExists schema.name)
  else .ok { s with collections := s.collections.insert schema.name schema }

def updateCollectionSchema (s : Store) (schema : CollectionSchema) : Store :=
  { s with collections := s.collections.insert schema.name schema }

theorem keyed_insert (s : Store) (collection : String) (entity : Entity) (c : String)
    (id : LogicalId) (e : Entity)
    (found : (s.entities.insert (collection, entity.id) entity)[(c, id)]? = some e) : e.id = id := by
  rw [FinMap.get_insert] at found
  split at found
  · cases found
    simp_all
  · exact s.keyed c id e found

def putEntity (s : Store) (collection : String) (entity : Entity) : Store :=
  { s with
    entities := s.entities.insert (collection, entity.id) entity
    keyed := s.keyed_insert collection entity }

def insert (s : Store) (collection : String) (entity : Entity) : Except EngineError Store :=
  if s.hasCollection collection then .ok (s.putEntity collection entity)
  else .error (.collectionNotFound collection)

def get (s : Store) (collection : String) (id : LogicalId) : Except EngineError Entity :=
  if s.hasCollection collection then
    match s.entities[(collection, id)]? with
    | some e => .ok e
    | none => .error (.entityNotFound id)
  else .error (.collectionNotFound collection)

/-- The entities of a collection, in the order of their ids. -/
def partition (s : Store) (collection : String) : List Entity :=
  (s.entities.toList.filter fun kv => kv.1.1 = collection).map Prod.snd

def scan (s : Store) (collection : String) : Except EngineError (List Entity) :=
  if s.hasCollection collection then .ok (s.partition collection)
  else .error (.collectionNotFound collection)

/-- The limit is checked after an entity has been collected. -/
def scanWithLimit (s : Store) (collection : String) (limit : Option Nat) :
    Except EngineError (List Entity) :=
  if s.hasCollection collection then
    .ok (match limit with
      | some max => (s.partition collection).take (max - 1 + 1)
      | none => s.partition collection)
  else .error (.collectionNotFound collection)

theorem keyed_erase (s : Store) (collection : String) (id : LogicalId) (c : String)
    (k : LogicalId) (e : Entity)
    (found : (s.entities.erase (collection, id))[(c, k)]? = some e) : e.id = k := by
  rw [FinMap.get_erase] at found
  split at found
  · cases found
  · exact s.keyed c k e found

def deleteEntity (s : Store) (collection : String) (id : LogicalId) : Except EngineError Store :=
  if s.hasCollection collection then
    .ok { s with
      entities := s.entities.erase (collection, id)
      keyed := s.keyed_erase collection id }
  else .error (.collectionNotFound collection)

theorem keyed_filter (s : Store) (p : String × LogicalId → Entity → Bool) (c : String)
    (id : LogicalId) (e : Entity) (found : (s.entities.filter p)[(c, id)]? = some e) :
    e.id = id := by
  rw [FinMap.get_filter, Option.filter_eq_some_iff] at found
  exact s.keyed c id e found.1

/-- The metadata, the entities, the declared indexes and the warm and archive partitions
of the collection go. -/
def dropCollection (s : Store) (name : String) : Except EngineError Store :=
  match s.getCollectionSchema name with
  | .ok schema =>
    .ok { s with
      collections := s.collections.erase name
      entities := s.entities.filter fun k _ => k.1 ≠ name
      fieldIndexes := s.fieldIndexes.filter fun k _ =>
        ¬ (k.1 = name ∧ k.2 ∈ schema.indexes.map StoredIndex.name)
      warm := s.warm.filter fun k _ => k.1 ≠ name
      archive := s.archive.filter fun k _ => k.1 ≠ name
      keyed := s.keyed_filter fun k _ => k.1 ≠ name }
  | .error e => .error e

def getEdgeType (s : Store) (name : String) : Except EngineError EdgeType :=
  match s.edgeTypes[name]? with
  | some edgeType => .ok edgeType
  | none => .error (.edgeTypeNotFound name)

def createEdgeType (s : Store) (edgeType : EdgeType) : Except EngineError Store :=
  if s.hasEdgeType edgeType.name then .error (.edgeTypeAlreadyExists edgeType.name)
  else .ok { s with edgeTypes := s.edgeTypes.insert edgeType.name edgeType }

def dropEdgeType (s : Store) (name : String) : Store :=
  { s with
    edgeTypes := s.edgeTypes.erase name
    edges := s.edges.filter fun k _ => k.1 ≠ name }

def insertEdge (s : Store) (edge : Edge) : Store :=
  { s with edges := s.edges.insert (edge.edgeType, edgeKey edge.fromId edge.toId) edge }

def getEdge (s : Store) (edgeType fromId toId : String) : Option Edge :=
  s.edges[(edgeType, edgeKey fromId toId)]?

def deleteEdge (s : Store) (edgeType fromId toId : String) : Store :=
  { s with edges := s.edges.erase (edgeType, edgeKey fromId toId) }

def scanEdges (s : Store) (edgeType : String) : List Edge :=
  (s.edges.toList.filter fun kv => kv.1.1 = edgeType).map Prod.snd

def deleteFromTier (s : Store) (collection : String) (id : LogicalId) : Tier → Store
  | .ram | .fjall => { s with
      entities := s.entities.erase (collection, id)
      keyed := s.keyed_erase collection id }
  | .nvme => { s with warm := s.warm.erase (collection, id) }
  | .archive => { s with archive := s.archive.erase (collection, id) }

/-- The partition of a field index; it is opened when it is first used. -/
def indexPartition (s : Store) (collection index : String) : FinMap (List UInt8) LogicalId :=
  s.fieldIndexes[(collection, index)]?.getD ∅

def setIndexPartition (s : Store) (collection index : String)
    (partition : FinMap (List UInt8) LogicalId) : Store :=
  { s with fieldIndexes := s.fieldIndexes.insert (collection, index) partition }

/-! ### Reading back -/

theorem ext {s t : Store} (collections : s.collections = t.collections)
    (edgeTypes : s.edgeTypes = t.edgeTypes) (entities : s.entities = t.entities)
    (edges : s.edges = t.edges) (fieldIndexes : s.fieldIndexes = t.fieldIndexes)
    (warm : s.warm = t.warm) (archive : s.archive = t.archive) : s = t := by
  cases s
  cases t
  simp_all

theorem mem_partition (s : Store) (collection : String) (e : Entity) :
    e ∈ s.partition collection ↔ s.entities[(collection, e.id)]? = some e := by
  simp only [partition, List.mem_map, List.mem_filter, decide_eq_true_eq]
  constructor
  · rintro ⟨⟨⟨c, id⟩, e'⟩, ⟨listed, rfl⟩, rfl⟩
    rw [FinMap.mem_toList] at listed
    rwa [s.keyed c id e' listed]
  · intro stored
    exact ⟨((collection, e.id), e), ⟨(FinMap.mem_toList _ _ _).mpr stored, rfl⟩, rfl⟩

theorem nodup_partition (s : Store) (collection : String) :
    ((s.partition collection).map Entity.id).Nodup := by
  have keys := FinMap.nodup_toList s.entities
  have own : ∀ kv ∈ s.entities.toList.filter fun kv => kv.1.1 = collection,
      kv.1 = (collection, kv.2.id) := by
    rintro ⟨⟨c, id⟩, e⟩ listed
    obtain ⟨stored, rfl⟩ : ((c, id), e) ∈ s.entities.toList ∧ c = collection := by
      simpa using listed
    rw [s.keyed c id e ((FinMap.mem_toList _ _ _).mp stored)]
  have filtered : ((s.entities.toList.filter fun kv => kv.1.1 = collection).map Prod.fst).Nodup :=
    (List.filter_sublist.map Prod.fst).nodup keys
  rw [List.map_congr_left own] at filtered
  rw [List.nodup_iff_pairwise_ne, List.pairwise_map] at filtered
  rw [partition, List.map_map, List.nodup_iff_pairwise_ne, List.pairwise_map]
  exact filtered.imp fun {a b} distinct same => distinct (congrArg (collection, ·) same)

theorem hasCollection_eq (s : Store) (name : String) :
    s.hasCollection name = s.collections[name]?.isSome :=
  Std.ExtTreeMap.contains_eq_isSome_getElem?

theorem hasCollection_of_stored {s : Store} {name : String} {schema : CollectionSchema}
    (stored : s.collections[name]? = some schema) : s.hasCollection name = true := by
  rw [hasCollection_eq, stored]
  rfl

theorem get_eq_ok (s : Store) (collection : String) (id : LogicalId) (e : Entity) :
    s.get collection id = .ok e ↔
      s.hasCollection collection = true ∧ s.entities[(collection, id)]? = some e := by
  unfold get
  by_cases present : s.hasCollection collection = true
  · rw [if_pos present]
    cases s.entities[(collection, id)]? <;> simp [present]
  · rw [if_neg present]
    exact iff_of_false nofun fun both => present both.1

theorem get_putEntity (s : Store) (collection : String) (entity : Entity) (k : String × LogicalId) :
    (s.putEntity collection entity).entities[k]? =
      if (collection, entity.id) = k then some entity else s.entities[k]? :=
  FinMap.get_insert _ _ _ _

end Store
end TronDB.Core
