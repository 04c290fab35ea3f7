import Mathlib.Data.List.Basic

/-! Records of the write-ahead log. The payload stays a type variable: the log
never looks inside it, the engine stores its own values in it. -/
namespace TronDB.Wal

inductive RecordType where
  | txBegin | txCommit | txAbort
  | entityWrite | entityDelete
  | reprWrite | reprDirty
  | edgeWrite | edgeInferred | edgeConfidenceUpdate | edgeConfirm | edgeDelete
  | locationUpdate
  | schemaCreateColl | schemaCreateEdgeType | schemaDropColl | schemaDropEdgeType | schemaAlter
  | affinityGroupCreate | affinityGroupMember | affinityGroupRemove
  | tierMigration
  | checkpoint
  deriving DecidableEq, Repr

/-- Control records are consumed by recovery and never handed back. -/
def RecordType.isControl : RecordType → Bool
  | .txBegin | .txCommit | .txAbort | .checkpoint => true
  | _ => false

/-- The record types the callers of `append` pass. The commit and checkpoint records
are built by the writer itself, and no caller writes an abort record. -/
abbrev CallerType := { t : RecordType // t ≠ .txCommit ∧ t ≠ .txAbort ∧ t ≠ .checkpoint }

theorem RecordType.entityWrite_appended :
    RecordType.entityWrite ≠ .txCommit ∧ RecordType.entityWrite ≠ .txAbort ∧
      RecordType.entityWrite ≠ .checkpoint := by
  decide

structure WalRecord (P : Type) where
  lsn : Nat
  ts : Int
  txId : Nat
  recordType : RecordType
  schemaVer : Nat
  collection : String
  payload : P
  deriving DecidableEq, Repr

/-- A mutation record: anything recovery may return. -/
def WalRecord.isMutation {P : Type} (r : WalRecord P) : Bool := !r.recordType.isControl

/-- What the log needs of a payload type: the empty payload of a commit record, the
payload of a checkpoint record, and the serialised body of a record. -/
class WalPayload (P : Type) where
  empty : P
  checkpoint : Nat → String → P
  toBytes : WalRecord P → List UInt8

/-- Length of a framed record: length prefix, body, CRC. -/
def WalRecord.framedLen {P : Type} [WalPayload P] (r : WalRecord P) : Nat :=
  4 + (WalPayload.toBytes r).length + 4

end TronDB.Wal
