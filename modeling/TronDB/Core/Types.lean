import TronDB.Lib.Binary
import TronDB.Lib.FinMap

/-! Values, entities and collection schemas. -/
namespace TronDB.Core
open Binary

abbrev LogicalId := String

inductive Value where
  | string (s : String)
  | int (n : Int64)
  | float (f : F64)
  | bool (b : Bool)
  | null
  deriving DecidableEq, Repr

/-- Equality of the source: floats compare as numbers. -/
def Value.eq : Value → Value → Bool
  | .string a, .string b => a = b
  | .int a, .int b => a = b
  | .float a, .float b => a.eq b
  | .bool a, .bool b => a = b
  | .null, .null => true
  | _, _ => false

theorem float_eq_symm (x y : F64) : x.eq y = y.eq x := by
  unfold F64.eq
  rw [Bool.and_comm (!x.isNaN), decide_eq_decide.mpr (eq_comm (a := x.key))]

theorem Value.eq_symm (v w : Value) : v.eq w = w.eq v := by
  cases v <;> cases w <;>
    first
    | rfl
    | exact float_eq_symm _ _
    | exact decide_eq_decide.mpr eq_comm

theorem Value.eq_null (v : Value) : v.eq .null = decide (v = .null) := by
  cases v <;> rfl

theorem Value.eq_string (v : Value) (s : String) : v.eq (.string s) = decide (v = .string s) := by
  cases v with
  | string t => exact decide_eq_decide.mpr ⟨congrArg _, Value.string.inj⟩
  | _ => rfl

inductive ReprType where
  | atomic | composite
  deriving DecidableEq, Repr

inductive ReprState where
  | clean | dirty
  deriving DecidableEq, Repr

inductive VectorData where
  | dense (v : List F32)
  | sparse (v : List (UInt32 × F32))
  deriving DecidableEq, Repr

structure Representation where
  name : String
  reprType : ReprType
  fields : List String
  vector : VectorData
  recipeHash : List UInt8
  state : ReprState
  computedAt : Nat
  modelVersion : String
  deriving DecidableEq, Repr

structure Entity where
  id : LogicalId
  metadata : FinMap String Value
  representations : List Representation
  schemaVersion : Nat
  validFrom : Option Int64
  validTo : Option Int64
  txTime : Nat
  deriving DecidableEq

def Entity.new (id : LogicalId) : Entity := ⟨id, ∅, [], 1, none, none, 0⟩

inductive Metric where
  | cosine | innerProduct
  deriving DecidableEq, Repr

inductive FieldType where
  | text | dateTime | bool | int | float
  | entityRef (collection : String)
  deriving DecidableEq, Repr

structure VectoriserConfig where
  model : Option String
  modelPath : Option String
  device : Option String
  vectoriserType : Option String
  endpoint : Option String
  auth : Option String
  deriving DecidableEq, Repr

structure StoredRepresentation where
  name : String
  model : Option String
  dimensions : Option Nat
  metric : Metric
  sparse : Bool
  fields : List String
  computedAt : Nat
  modelVersion : String
  vectoriser : Option VectoriserConfig
  deriving DecidableEq, Repr

structure StoredField where
  name : String
  fieldType : FieldType
  deriving DecidableEq, Repr

structure StoredIndex where
  name : String
  fields : List String
  partialCondition : Option String
  deriving DecidableEq, Repr

structure CollectionSchema where
  name : String
  representations : List StoredRepresentation
  fields : List StoredField
  indexes : List StoredIndex
  vectoriserConfig : Option VectoriserConfig
  deriving DecidableEq, Repr

/-- The index fields that are declared, with their types; undeclared ones are dropped. -/
def CollectionSchema.fieldTypes (schema : CollectionSchema) (idx : StoredIndex) :
    List (String × FieldType) :=
  idx.fields.filterMap fun f =>
    (schema.fields.find? fun sf => sf.name = f).map fun sf => (sf.name, sf.fieldType)

inductive EdgeSource where
  | structural | inferred | confirmed
  deriving DecidableEq, Repr

structure Edge where
  fromId : LogicalId
  toId : LogicalId
  edgeType : String
  confidence : F32
  metadata : FinMap String Value
  createdAt : Nat
  source : EdgeSource
  validFrom : Option Int64
  validTo : Option Int64
  deriving DecidableEq

inductive DecayFn where
  | exponential | linear | step
  deriving DecidableEq, Repr

structure DecayConfig where
  decayFn : Option DecayFn
  decayRate : Option F64
  floor : Option F64
  promoteThreshold : Option F64
  pruneThreshold : Option F64
  deriving DecidableEq, Repr

structure InferenceConfig where
  auto : Bool
  confidenceFloor : F32
  limit : Nat
  deriving DecidableEq, Repr

instance : Inhabited DecayConfig := ⟨⟨none, none, none, none, none⟩⟩
-- the floor is 0.5
instance : Inhabited InferenceConfig := ⟨⟨false, ⟨0x3F000000⟩, 10⟩⟩

structure EdgeType where
  name : String
  fromCollection : String
  toCollection : String
  decayConfig : DecayConfig
  inferenceConfig : InferenceConfig
  deriving DecidableEq, Repr

inductive Tier where
  | ram | fjall | nvme | archive
  deriving DecidableEq, Repr

inductive LocState where
  | clean | dirty | recomputing | migrating
  deriving DecidableEq, Repr

inductive Encoding where
  | float32 | int8 | binary | sparse | polarQuant
  deriving DecidableEq, Repr

/-- The errors the modelled statements return, with their arguments. -/
inductive EngineError where
  | collectionNotFound (name : String)
  | collectionAlreadyExists (name : String)
  | entityNotFound (id : String)
  | invalidQuery (message : String)
  | storage (message : String)
  | invalidStateTransition (source target : LocState)
  | locationNotFound (entityId : LogicalId) (reprIndex : Nat)
  | edgeTypeNotFound (name : String)
  | edgeTypeAlreadyExists (name : String)
  | acuBudgetExceeded (estimated budget : F64)
  | duplicateIndex (name : String)
  | duplicateRepresentation (name : String)
  | duplicateField (name : String)
  | invalidFieldType (fieldType : FieldType) (got : Value)
  | fieldNotIndexed (field : String)
  | sparseVectorRequired (collection : String)
  deriving DecidableEq, Repr

end TronDB.Core
