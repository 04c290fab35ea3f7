import TronDB.Core.Fetch
import TronDB.Engine.Indexes
import TronDB.Engine.Location
import TronDB.Wal.Sequential

/-! The state of the executor: the store, the log and the maps it keeps in memory. -/
namespace TronDB.Engine
open TronDB.Core Binary Wal

inductive SchemaAlterOp where
  | renameField (oldName newName : String)
  | dropField (fieldName : String)
  | setModel (model modelPath : String)
  | alterRepresentationSetFields (reprName : String) (fields : List String)
  | alterRepresentationSetModel (reprName model modelPath : String)
  | addRepresentation (name : String) (dimensions : Option Nat) (metric : Metric) (sparse : Bool)
      (fields : List String)
  deriving DecidableEq, Repr

/-- What the engine stores in the records of the log. -/
inductive Payload where
  | empty
  | checkpoint (lsn : Nat) (snapshotPath : String)
  | schema (schema : CollectionSchema)
  | entity (entity : Entity)
  | entityDelete (entityId : LogicalId) (collection : String)
  | location (key : ReprKey) (descriptor : LocationDescriptor)
  | edgeType (edgeType : EdgeType)
  | edge (edge : Edge)
  | edgeDelete (edgeType fromId toId : String)
  | name (name : String)
  | reprKey (key : ReprKey)
  | schemaAlter (collection : String) (op : SchemaAlterOp)
  deriving DecidableEq

structure State where
  store : Store
  wal : WalWriter (WalSegment Payload) Payload
  location : LocationTable
  indexes : FinMap (String × String) HnswIndex
  sparseIndexes : FinMap (String × String) SparseIndex
  fieldIndexes : FieldIndexes
  schemas : FinMap String CollectionSchema
  adjacency : AdjacencyIndex
  edgeTypes : FinMap String EdgeType
  entityCollections : FinMap LogicalId String
  inferenceQueue : FinMap LogicalId Unit

def State.init [WalPayload Payload] (config : WalConfig) : State where
  store := Store.empty
  wal := WalWriter.open config []
  location := .new
  indexes := ∅
  sparseIndexes := ∅
  fieldIndexes := ∅
  schemas := ∅
  adjacency := .new
  edgeTypes := ∅
  entityCollections := ∅
  inferenceQueue := ∅

/-- The result of a statement and the state it leaves, after an error as well. -/
abbrev Outcome := Except EngineError QueryResult × State

structure Vectoriser where
  modelId : String
  encode : List (String × Value) → Except String VectorData

/-- A value of a JSON document, as far as IMPORT tells them apart. -/
inductive Json where
  | string (s : String)
  | number (asI64 : Option Int64) (asF64 : Option F64)
  | bool (b : Bool)
  | null
  /-- An array or an object, with its text. -/
  | other (text : String)
  deriving DecidableEq, Repr

/-- A line of a JSONL file, read and parsed. -/
inductive ImportLine where
  | blank
  | unreadable (message : String)
  | unparsable (message : String)
  | notObject
  | object (fields : List (String × Json))
  deriving DecidableEq, Repr

/-- What a statement reads from outside the engine. Times and new ids may differ from one
reading to the next; the hash maps hand out their entries in any order. -/
structure Env where
  /-- Timestamp of the log records. -/
  ts : Int
  /-- The clock, when it is read in the transaction of this id. -/
  nowMillis : Nat → Nat
  freshId : Nat → LogicalId
  vectoriser : String → String → Option Vectoriser
  recipeHash : String → List String → List UInt8
  /-- A number with two decimals. -/
  formatConfidence : F32 → String
  /-- The lines of a file, unless its path is refused or it cannot be opened. -/
  importLines : String → Except EngineError (List ImportLine)
  /-- Confidence left of a base confidence after some milliseconds. -/
  effectiveConfidence : F32 → Nat → DecayConfig → F32
  /-- The nearest neighbours of a vector with their scores. -/
  search : HnswIndex → List F32 → Nat → List (LogicalId × F32)
  indexOrder : HashOrder ((String × String) × List (String × FieldType))
  denseOrder : HashOrder ((String × String) × HnswIndex)
  edgeTypeOrder : HashOrder (String × EdgeType)
  queueOrder : HashOrder LogicalId

/-- Outside of an engine without files, vectorisers and search, whose clock stands still. -/
def Env.idle : Env where
  ts := 0
  nowMillis _ := 0
  freshId n := toString n
  vectoriser _ _ := none
  recipeHash _ _ := List.replicate 32 0
  formatConfidence _ := "1.00"
  importLines _ := .error (.invalidQuery "no such file")
  effectiveConfidence confidence _ _ := confidence
  search _ _ _ := []
  indexOrder := .insertionOrder _
  denseOrder := .insertionOrder _
  edgeTypeOrder := .insertionOrder _
  queueOrder := .insertionOrder _

/-- The single cell of the reply of a write statement. -/
def reply (column text : String) (scanned : Nat) : QueryResult :=
  ⟨[column], [⟨(∅ : FinMap String Value).insert column (.string text), none⟩], scanned,
    .deterministic, "Fjall"⟩

/-- One whole transaction: begin, the entries, commit. -/
def State.logTx [WalPayload Payload] (s : State) (ts : Int) (collection : String)
    (entries : List (Entry Payload)) : State :=
  { s with wal := s.wal.transaction collection ts entries }

/-- The open field indexes of a collection, in the order the hash map hands them out. -/
def State.fieldIndexesOf (s : State) (env : Env) (collection : String) :
    List (String × List (String × FieldType)) :=
  ((env.indexOrder.order s.fieldIndexes.toList).filter fun e => e.1.1 = collection).map
    fun e => (e.1.2, e.2)

/-- An entry removed from an index of the store; a failure to encode it is ignored. -/
def removeEntry (store : Store) (collection index : String) (types : List (String × FieldType))
    (id : LogicalId) (values : List Value) : Store :=
  match FieldIndex.remove ⟨store.indexPartition collection index, types⟩ id values with
  | .ok idx => store.setIndexPartition collection index idx.partition
  | .error _ => store

def insertEntry (store : Store) (collection index : String) (types : List (String × FieldType))
    (id : LogicalId) (values : List Value) : Except EngineError Store :=
  match FieldIndex.insert ⟨store.indexPartition collection index, types⟩ id values with
  | .ok idx => .ok (store.setIndexPartition collection index idx.partition)
  | .error e => .error e

/-- The entity is queued when some edge type infers edges out of its collection. -/
def State.enqueue (s : State) (collection : String) (id : LogicalId) : State :=
  if s.edgeTypes.toList.any fun et => et.2.inferenceConfig.auto && et.2.fromCollection = collection then
    { s with inferenceQueue := s.inferenceQueue.insert id () }
  else s

end TronDB.Engine
