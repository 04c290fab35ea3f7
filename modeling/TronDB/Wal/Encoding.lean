import TronDB.Wal.Segment

/-! The serialised body of a record over raw payload bytes, a MessagePack map keyed by
field name, and the CRC-32 of its frame. Reading covers the layout that writing produces. -/
namespace TronDB.Wal
open Bytes

namespace MessagePack

def uint (n : Nat) : List UInt8 :=
  if n < 128 then [UInt8.ofNat n]
  else if n < 256 then 0xcc :: beBytes 1 n
  else if n < 65536 then 0xcd :: beBytes 2 n
  else if n < 4294967296 then 0xce :: beBytes 4 n
  else 0xcf :: beBytes 8 n

def int (i : Int) : List UInt8 :=
  if 0 ≤ i then uint i.toNat
  else
    let magnitude := i.natAbs
    if magnitude ≤ 32 then [UInt8.ofNat (256 - magnitude)]
    else if magnitude ≤ 128 then 0xd0 :: beBytes 1 (256 - magnitude)
    else if magnitude ≤ 32768 then 0xd1 :: beBytes 2 (65536 - magnitude)
    else if magnitude ≤ 2147483648 then 0xd2 :: beBytes 4 (4294967296 - magnitude)
    else 0xd3 :: beBytes 8 (18446744073709551616 - magnitude)

def str (s : String) : List UInt8 :=
  let utf8 := s.toUTF8.data.toList
  let n := utf8.length
  (if n < 32 then [UInt8.ofNat (0xa0 + n)]
    else if n < 256 then 0xd9 :: beBytes 1 n
    else if n < 65536 then 0xda :: beBytes 2 n
    else 0xdb :: beBytes 4 n) ++ utf8

def array (elements : List (List UInt8)) : List UInt8 :=
  let n := elements.length
  (if n < 16 then [UInt8.ofNat (0x90 + n)]
    else if n < 65536 then 0xdc :: beBytes 2 n
    else 0xdd :: beBytes 4 n) ++ elements.flatten

def fixmap (entries : List (String × List UInt8)) : List UInt8 :=
  UInt8.ofNat (0x80 + entries.length) :: entries.flatMap fun e => str e.1 ++ e.2

/-- A reader takes a value off the front of the bytes. -/
abbrev Reader (α : Type) := List UInt8 → Option (α × List UInt8)

def expect (token : List UInt8) : Reader Unit := fun bytes =>
  if bytes.take token.length = token then some ((), bytes.drop token.length) else none

def readBytes (width : Nat) : Reader (List UInt8) := fun bytes =>
  if bytes.length < width then none else some (bytes.take width, bytes.drop width)

def readBE (width : Nat) : Reader Nat := fun bytes => do
  let (digits, rest) ← readBytes width bytes
  some (fromBE digits, rest)

def readUInt : Reader Nat
  | [] => none
  | b :: rest =>
    if b < 0x80 then some (b.toNat, rest)
    else if b = 0xcc then readBE 1 rest
    else if b = 0xcd then readBE 2 rest
    else if b = 0xce then readBE 4 rest
    else if b = 0xcf then readBE 8 rest
    else none

def readNegative (width : Nat) : Reader Int := fun bytes => do
  let (n, rest) ← readBE width bytes
  some ((n : Int) - 256 ^ width, rest)

def readInt : Reader Int
  | [] => none
  | b :: rest =>
    if 0xe0 ≤ b then some ((b.toNat : Int) - 256, rest)
    else if b = 0xd0 then readNegative 1 rest
    else if b = 0xd1 then readNegative 2 rest
    else if b = 0xd2 then readNegative 4 rest
    else if b = 0xd3 then readNegative 8 rest
    else (readUInt (b :: rest)).map fun (n, rest) => ((n : Int), rest)

def readStr : Reader String
  | [] => none
  | b :: rest => do
    let (n, rest) ←
      if 0xa0 ≤ b ∧ b < 0xc0 then some (b.toNat - 0xa0, rest)
      else if b = 0xd9 then readBE 1 rest
      else if b = 0xda then readBE 2 rest
      else if b = 0xdb then readBE 4 rest
      else none
    let (utf8, rest) ← readBytes n rest
    let s ← String.fromUTF8? ⟨utf8.toArray⟩
    some (s, rest)

def readMany {α : Type} (read : Reader α) : Nat → Reader (List α)
  | 0 => fun bytes => some ([], bytes)
  | n + 1 => fun bytes => do
    let (x, rest) ← read bytes
    let (xs, rest) ← readMany read n rest
    some (x :: xs, rest)

def readArray {α : Type} (read : Reader α) : Reader (List α)
  | [] => none
  | b :: rest => do
    let (n, rest) ←
      if 0x90 ≤ b ∧ b < 0xa0 then some (b.toNat - 0x90, rest)
      else if b = 0xdc then readBE 2 rest
      else if b = 0xdd then readBE 4 rest
      else none
    readMany read n rest

def readField {α : Type} (key : String) (read : Reader α) : Reader α := fun bytes => do
  let (_, rest) ← expect (str key) bytes
  read rest

end MessagePack

def RecordType.name : RecordType → String
  | .txBegin => "TxBegin"
  | .txCommit => "TxCommit"
  | .txAbort => "TxAbort"
  | .entityWrite => "EntityWrite"
  | .entityDelete => "EntityDelete"
  | .reprWrite => "ReprWrite"
  | .reprDirty => "ReprDirty"
  | .edgeWrite => "EdgeWrite"
  | .edgeInferred => "EdgeInferred"
  | .edgeConfidenceUpdate => "EdgeConfidenceUpdate"
  | .edgeConfirm => "EdgeConfirm"
  | .edgeDelete => "EdgeDelete"
  | .locationUpdate => "LocationUpdate"
  | .schemaCreateColl => "SchemaCreateColl"
  | .schemaCreateEdgeType => "SchemaCreateEdgeType"
  | .schemaDropColl => "SchemaDropColl"
  | .schemaDropEdgeType => "SchemaDropEdgeType"
  | .schemaAlter => "SchemaAlter"
  | .affinityGroupCreate => "AffinityGroupCreate"
  | .affinityGroupMember => "AffinityGroupMember"
  | .affinityGroupRemove => "AffinityGroupRemove"
  | .tierMigration => "TierMigration"
  | .checkpoint => "Checkpoint"

instance : WalPayload (List UInt8) where
  empty := []
  checkpoint lsn path :=
    MessagePack.fixmap [("lsn", MessagePack.uint lsn), ("snapshot_path", MessagePack.str path)]
  toBytes r := MessagePack.fixmap
    [("lsn", MessagePack.uint r.lsn), ("ts", MessagePack.int r.ts),
      ("tx_id", MessagePack.uint r.txId), ("record_type", MessagePack.str r.recordType.name),
      ("schema_ver", MessagePack.uint r.schemaVer), ("collection", MessagePack.str r.collection),
      ("payload", MessagePack.array (r.payload.map fun b => MessagePack.uint b.toNat))]

def recordTypes : List RecordType :=
  [.txBegin, .txCommit, .txAbort, .entityWrite, .entityDelete, .reprWrite, .reprDirty, .edgeWrite,
    .edgeInferred, .edgeConfidenceUpdate, .edgeConfirm, .edgeDelete, .locationUpdate,
    .schemaCreateColl, .schemaCreateEdgeType, .schemaDropColl, .schemaDropEdgeType, .schemaAlter,
    .affinityGroupCreate, .affinityGroupMember, .affinityGroupRemove, .tierMigration, .checkpoint]

open MessagePack in
/-- Deserialises a record body in the layout the log writes. -/
def fromBytes (bytes : List UInt8) : Option (WalRecord (List UInt8)) := do
  let (_, rest) ← expect [0x87] bytes
  let (lsn, rest) ← readField "lsn" readUInt rest
  let (ts, rest) ← readField "ts" readInt rest
  let (txId, rest) ← readField "tx_id" readUInt rest
  let (variant, rest) ← readField "record_type" readStr rest
  let recordType ← recordTypes.find? fun t => t.name = variant
  let (schemaVer, rest) ← readField "schema_ver" readUInt rest
  let (collection, rest) ← readField "collection" readStr rest
  let (payload, _) ← readField "payload" (readArray readUInt) rest
  if payload.all (· < 256) then
    some ⟨lsn, ts, txId, recordType, schemaVer, collection, payload.map UInt8.ofNat⟩
  else none

def crc32Bit (c : UInt32) : UInt32 :=
  if c &&& 1 = 1 then (c >>> 1) ^^^ 0xEDB88320 else c >>> 1

def crc32 (bytes : List UInt8) : UInt32 :=
  let register := bytes.foldl
    (fun c b => (List.range 8).foldl (fun c _ => crc32Bit c) (c ^^^ b.toUInt32)) 0xFFFFFFFF
  register ^^^ 0xFFFFFFFF

example : crc32 [0x31, 0x32, 0x33, 0x34, 0x35, 0x36, 0x37, 0x38, 0x39] = 0xCBF43926 := by
  decide +kernel

instance : WalCodec (List UInt8) where
  fromBytes := fromBytes
  crc32 := crc32

end TronDB.Wal
