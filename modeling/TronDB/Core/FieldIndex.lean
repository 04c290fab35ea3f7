import TronDB.Core.Types
import TronDB.Lib.ByteOrder

/-! Field indexes: values encoded as sortable bytes, kept in a sorted partition. -/
namespace TronDB.Core
open Binary Bytes

def utf8 (s : String) : List UInt8 := s.toUTF8.data.toList

theorem utf8_injective {s t : String} (same : utf8 s = utf8 t) : s = t := by
  unfold utf8 at same
  exact String.toByteArray_inj.mp (ByteArray.ext (Array.toList_inj.mp same))

def encodeSortable : Value → FieldType → Except EngineError (List UInt8)
  | .string s, .text | .string s, .entityRef _ | .string s, .dateTime => .ok (utf8 s ++ [0x00])
  | .bool b, .bool => .ok [if b then 0x01 else 0x00]
  | .int n, .int => .ok (beBytes 8 (n.toUInt64 ^^^ ((1 : UInt64) <<< 63)).toNat)
  | .float f, .float =>
    let sortable := if f.ge ⟨0⟩ then f.bits ^^^ ((1 : UInt64) <<< 63) else ~~~ f.bits
    .ok (beBytes 8 sortable.toNat)
  | value, fieldType => .error (.invalidFieldType fieldType value)

/-- Values and types are zipped: what has no counterpart is dropped. -/
def encodeCompoundKey : List Value → List FieldType → Except EngineError (List UInt8)
  | v :: values, t :: fieldTypes => do
    let encoded ← encodeSortable v t
    let rest ← encodeCompoundKey values fieldTypes
    .ok (encoded ++ rest)
  | _, _ => .ok []

/-- The key an entity with these values is listed under: the values, a null byte, the id. -/
def fullKey (types : List FieldType) (entityId : LogicalId) (values : List Value) :
    Except EngineError (List UInt8) :=
  match encodeCompoundKey values types with
  | .ok key => .ok (key ++ 0x00 :: utf8 entityId)
  | .error e => .error e

/-- The values of the indexed fields. Fields without a value are left out. -/
def indexedValues (fieldTypes : List (String × FieldType)) (e : Entity) : List Value :=
  fieldTypes.filterMap fun t => e.metadata[t.1]?

/-- The key an index of these fields lists the entity under, if it does. -/
def entryKey (fieldTypes : List (String × FieldType)) (e : Entity) : Option (List UInt8) :=
  let values := indexedValues fieldTypes e
  if values.length = fieldTypes.length then
    (fullKey (fieldTypes.map Prod.snd) e.id values).toOption
  else none

structure FieldIndex where
  partition : FinMap (List UInt8) LogicalId
  fieldTypes : List (String × FieldType)

namespace FieldIndex

def types (idx : FieldIndex) : List FieldType := idx.fieldTypes.map Prod.snd

def insert (idx : FieldIndex) (entityId : LogicalId) (values : List Value) :
    Except EngineError FieldIndex :=
  match fullKey idx.types entityId values with
  | .ok key => .ok { idx with partition := idx.partition.insert key entityId }
  | .error e => .error e

def remove (idx : FieldIndex) (entityId : LogicalId) (values : List Value) :
    Except EngineError FieldIndex :=
  match fullKey idx.types entityId values with
  | .ok key => .ok { idx with partition := idx.partition.erase key }
  | .error e => .error e

def scanPrefix (idx : FieldIndex) (start : List UInt8) : List LogicalId :=
  (idx.partition.toList.filter fun kv => start.isPrefixOf kv.1).map Prod.snd

def lookupEq (idx : FieldIndex) (values : List Value) : Except EngineError (List LogicalId) :=
  if values.length ≠ idx.fieldTypes.length then
    .error (.invalidQuery
      s!"lookup_eq requires {idx.fieldTypes.length} values, got {values.length}")
  else do
    let start ← encodeCompoundKey values idx.types
    .ok (idx.scanPrefix start)

def lookupPrefix (idx : FieldIndex) (values : List Value) : Except EngineError (List LogicalId) := do
  let start ← encodeCompoundKey values (idx.types.take values.length)
  .ok (idx.scanPrefix start)

/-- What is put behind an upper bound so that it covers the keys it is a prefix of. -/
def rangePadding : List UInt8 := List.replicate 65 0xFF

/-- Keys between the encoded bounds, both included. -/
def inRange (fromKey toKey key : List UInt8) : Bool :=
  (compare fromKey key).isLE && (compare key toKey).isLE

def lookupRange (idx : FieldIndex) (lower upper : List Value) :
    Except EngineError (List LogicalId) := do
  let fromKey ← encodeCompoundKey lower idx.types
  let toKey ← encodeCompoundKey upper idx.types
  .ok ((idx.partition.toList.filter fun kv =>
    inRange fromKey (toKey ++ rangePadding) kv.1).map Prod.snd)

end FieldIndex
end TronDB.Core
