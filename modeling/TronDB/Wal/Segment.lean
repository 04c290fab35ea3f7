import TronDB.Lib.ByteOrder
import TronDB.Wal.Recovery

/-! Segment files as bytes: a 64-byte header, then frames of a length prefix, a body and
its CRC. On files made of whole frames they are another kind of the same log segment. -/
namespace TronDB.Wal
open Bytes

/-- The deserialiser and the checksum, both from outside the repository. -/
class WalCodec (P : Type) extends WalPayload P where
  fromBytes : List UInt8 → Option (WalRecord P)
  crc32 : List UInt8 → UInt32

variable {P : Type} [WalCodec P]

/-- The record serialises to a body that its length prefix can hold and that
deserialises to it. -/
def Faithful (r : WalRecord P) : Prop :=
  WalCodec.fromBytes (WalPayload.toBytes r) = some r ∧ (WalPayload.toBytes r).length < 2 ^ 32

def toFramedBytes (r : WalRecord P) : List UInt8 :=
  let body := WalPayload.toBytes r
  beBytes 4 body.length ++ body ++ beBytes 4 (WalCodec.crc32 P body).toNat

/-- One turn of the read loop. -/
inductive FrameStep (P : Type) where
  | stop
  | skip (rest : List UInt8)
  | record (r : WalRecord P) (rest : List UInt8)
  deriving DecidableEq

def readFrame (bytes : List UInt8) : FrameStep P :=
  if bytes.length < 4 then .stop
  else
    let bodyLen := fromBE (bytes.take 4)
    let frame := bytes.drop 4
    if frame.length < bodyLen + 4 then .stop
    else
      let body := frame.take bodyLen
      let rest := frame.drop (bodyLen + 4)
      if fromBE ((frame.drop bodyLen).take 4) ≠ (WalCodec.crc32 P body).toNat then
        -- a mismatch at the end of the file is a torn record, before it a corrupt one
        if rest.length = 0 then .stop else .skip rest
      else match WalCodec.fromBytes body with
        | some r => .record r rest
        | none => .skip rest

def FrameStep.rest : FrameStep P → List UInt8
  | .stop => []
  | .skip rest => rest
  | .record _ rest => rest

/-- Every turn that goes on moves past one whole frame. -/
theorem readFrame_advances (bytes : List UInt8) :
    readFrame (P := P) bytes = .stop ∨
      (8 + fromBE (bytes.take 4) ≤ bytes.length ∧
        (readFrame (P := P) bytes).rest = bytes.drop (8 + fromBE (bytes.take 4))) := by
  unfold readFrame
  by_cases short : bytes.length < 4
  · exact .inl (if_pos short)
  · by_cases cut : (bytes.drop 4).length < fromBE (bytes.take 4) + 4
    · exact .inl (by simp only [if_neg short, if_pos cut])
    · have whole : 8 + fromBE (bytes.take 4) ≤ bytes.length := by
        rw [List.length_drop] at cut
        omega
      have tail : (bytes.drop 4).drop (fromBE (bytes.take 4) + 4) =
          bytes.drop (8 + fromBE (bytes.take 4)) := by
        rw [List.drop_drop]
        congr 1
        omega
      simp only [if_neg short, if_neg cut]
      split
      · split
        · exact .inl rfl
        · exact .inr ⟨whole, tail⟩
      · split <;> exact .inr ⟨whole, tail⟩

theorem readFrame_rest_lt (bytes : List UInt8) (more : readFrame (P := P) bytes ≠ .stop) :
    (readFrame (P := P) bytes).rest.length < bytes.length := by
  rcases readFrame_advances (P := P) bytes with h | ⟨whole, rest⟩
  · exact absurd h more
  · rw [rest, List.length_drop]
    omega

/-- The read loop over the bytes behind the header. -/
def readFrames (bytes : List UInt8) : List (WalRecord P) :=
  match _h : readFrame (P := P) bytes with
  | .stop => []
  | .skip rest => readFrames rest
  | .record r rest => r :: readFrames rest
termination_by bytes.length
decreasing_by
  all_goals
    have shorter := readFrame_rest_lt (P := P) bytes (by simp [_h])
    simpa only [_h, FrameStep.rest] using shorter

theorem readFrames_stop (bytes : List UInt8) (h : readFrame (P := P) bytes = .stop) :
    readFrames (P := P) bytes = [] := by
  rw [readFrames]
  split <;> simp_all

theorem readFrames_skip (bytes rest : List UInt8) (h : readFrame (P := P) bytes = .skip rest) :
    readFrames (P := P) bytes = readFrames rest := by
  rw [readFrames]
  split <;> simp_all

theorem readFrames_record (bytes rest : List UInt8) (r : WalRecord P)
    (h : readFrame bytes = .record r rest) : readFrames bytes = r :: readFrames rest := by
  rw [readFrames]
  split <;> simp_all

@[simp] theorem readFrames_nil : readFrames ([] : List UInt8) = ([] : List (WalRecord P)) :=
  readFrames_stop [] rfl

/-! ### Whole frames and torn ones -/

theorem length_toFramedBytes (r : WalRecord P) :
    (toFramedBytes r).length = 8 + (WalPayload.toBytes r).length := by
  simp only [toFramedBytes, List.length_append, length_beBytes]
  omega

theorem take_toFramedBytes (r : WalRecord P) (faithful : Faithful r) :
    fromBE ((toFramedBytes r).take 4) = (WalPayload.toBytes r).length := by
  have cut : (toFramedBytes r).take 4 = beBytes 4 (WalPayload.toBytes r).length := by
    rw [toFramedBytes, List.append_assoc, List.take_left' (length_beBytes 4 _)]
  rw [cut, fromBE_beBytes 4 _ (by simpa using faithful.2)]

theorem readFrame_frame (r : WalRecord P) (tail : List UInt8) (faithful : Faithful r) :
    readFrame (toFramedBytes r ++ tail) = .record r tail := by
  have lenBytes := take_toFramedBytes r faithful
  have size := length_toFramedBytes r
  have prefix4 : (toFramedBytes r ++ tail).take 4 = (toFramedBytes r).take 4 :=
    List.take_append_of_le_length (by omega)
  have body : (toFramedBytes r ++ tail).drop 4 = WalPayload.toBytes r ++
      (beBytes 4 (WalCodec.crc32 P (WalPayload.toBytes r)).toNat ++ tail) := by
    simp only [toFramedBytes, List.append_assoc]
    exact List.drop_left' (length_beBytes 4 _)
  have crc : fromBE (beBytes 4 (WalCodec.crc32 P (WalPayload.toBytes r)).toNat) =
      (WalCodec.crc32 P (WalPayload.toBytes r)).toNat :=
    fromBE_beBytes 4 _ (by simpa using (WalCodec.crc32 P (WalPayload.toBytes r)).toNat_lt)
  have long : ¬ (toFramedBytes r ++ tail).length < 4 := by
    rw [List.length_append]
    omega
  have whole : ¬ (WalPayload.toBytes r ++
      (beBytes 4 (WalCodec.crc32 P (WalPayload.toBytes r)).toNat ++ tail)).length <
        (WalPayload.toBytes r).length + 4 := by
    simp only [List.length_append, length_beBytes]
    omega
  have behind : (beBytes 4 (WalCodec.crc32 P (WalPayload.toBytes r)).toNat ++ tail).take 4 =
      beBytes 4 (WalCodec.crc32 P (WalPayload.toBytes r)).toNat :=
    List.take_left' (length_beBytes 4 _)
  have rest : (beBytes 4 (WalCodec.crc32 P (WalPayload.toBytes r)).toNat ++ tail).drop 4 = tail :=
    List.drop_left' (length_beBytes 4 _)
  simp only [readFrame, if_neg long, prefix4, lenBytes, body, if_neg whole, List.take_left,
    List.drop_left, behind, crc, ne_eq, not_true_eq_false, if_false, faithful.1]
  rw [← List.drop_drop, List.drop_left, rest]

theorem readFrames_frame (r : WalRecord P) (tail : List UInt8) (faithful : Faithful r) :
    readFrames (toFramedBytes r ++ tail) = r :: readFrames tail :=
  readFrames_record _ _ _ (readFrame_frame r tail faithful)

theorem readFrames_frames (records : List (WalRecord P)) (tail : List UInt8)
    (faithful : ∀ r ∈ records, Faithful r) :
    readFrames (records.flatMap toFramedBytes ++ tail) = records ++ readFrames tail := by
  induction records with
  | nil => rfl
  | cons r rest ih =>
    obtain ⟨here, later⟩ := List.forall_mem_cons.mp faithful
    rw [List.flatMap_cons, List.append_assoc, readFrames_frame r _ here, ih later,
      List.cons_append]

/-- A proper prefix of a frame, what a crash in the middle of a write leaves. -/
structure Torn (torn : List UInt8) (r : WalRecord P) : Prop where
  faithful : Faithful r
  isCut : torn <+: toFramedBytes r
  proper : torn ≠ toFramedBytes r

theorem Torn.length_lt {torn : List UInt8} {r : WalRecord P} (h : Torn torn r) :
    torn.length < 8 + (WalPayload.toBytes r).length := by
  have le := h.isCut.length_le
  have ne : torn.length ≠ (toFramedBytes r).length :=
    fun eq => h.proper (h.isCut.eq_of_length eq)
  rw [length_toFramedBytes] at le ne
  omega

theorem Torn.take_four {torn : List UInt8} {r : WalRecord P} (h : Torn torn r)
    (tail : List UInt8) (long : 4 ≤ torn.length) :
    fromBE ((torn ++ tail).take 4) = (WalPayload.toBytes r).length := by
  obtain ⟨rest, whole⟩ := h.isCut
  rw [List.take_append_of_le_length long, ← take_toFramedBytes r h.faithful, ← whole,
    List.take_append_of_le_length long]

theorem readFrames_torn (torn : List UInt8) (r : WalRecord P) (h : Torn torn r) :
    readFrames torn = ([] : List (WalRecord P)) := by
  apply readFrames_stop
  rcases readFrame_advances (P := P) torn with stop | ⟨whole, _⟩
  · exact stop
  · have short := h.length_lt
    have long : 4 ≤ torn.length := by omega
    have size := h.take_four [] long
    rw [List.append_nil] at size
    omega

/-! ### Segment files -/

def magic : List UInt8 := [0x54, 0x52, 0x4F, 0x4E, 0x57, 0x41, 0x4C, 0x31]

/-- The header of a new file. Nothing reads its creation time, which is left at zero. -/
def segmentHeader (id : Nat) : List UInt8 :=
  magic ++ beBytes 2 1 ++ beBytes 8 id ++ beBytes 8 0 ++ beBytes 38 0

structure SegmentFile (P : Type) where
  id : Nat
  bytes : List UInt8
  deriving DecidableEq, Repr

namespace SegmentFile

omit [WalCodec P] in
def create (id : Nat) : SegmentFile P := ⟨id, segmentHeader id⟩

def append (seg : SegmentFile P) (r : WalRecord P) : SegmentFile P :=
  { seg with bytes := seg.bytes ++ toFramedBytes r }

omit [WalCodec P] in
def currentSize (seg : SegmentFile P) : Nat := seg.bytes.length

def readAll (seg : SegmentFile P) : List (WalRecord P) :=
  readFrames (seg.bytes.drop segmentHeaderSize)

instance : LogSegment (SegmentFile P) P where
  create := create
  append := append
  id := SegmentFile.id
  currentSize := currentSize
  readAll := readAll

/-- A header, the frames of some records, and then the given bytes. -/
def Holds (seg : SegmentFile P) (records : List (WalRecord P)) (tail : List UInt8) : Prop :=
  ∃ header : List UInt8, header.length = segmentHeaderSize ∧
    (∀ r ∈ records, Faithful r) ∧ seg.bytes = header ++ (records.flatMap toFramedBytes ++ tail)

def Clean (seg : SegmentFile P) : Prop := ∃ records, seg.Holds records []

theorem bytes_foldl_append (records : List (WalRecord P)) (seg : SegmentFile P) :
    (records.foldl append seg).bytes = seg.bytes ++ records.flatMap toFramedBytes := by
  induction records generalizing seg with
  | nil => simp
  | cons r rest ih => simp [ih, append]

theorem readAll_holds (seg : SegmentFile P) (records : List (WalRecord P)) (tail : List UInt8)
    (holds : seg.Holds records tail) : seg.readAll = records ++ readFrames tail := by
  obtain ⟨header, size, faithful, bytes⟩ := holds
  rw [readAll, bytes, ← size, List.drop_left, readFrames_frames records tail faithful]

theorem holds_append (seg : SegmentFile P) (records : List (WalRecord P)) (r : WalRecord P)
    (holds : seg.Holds records []) (faithful : Faithful r) :
    (seg.append r).Holds (records ++ [r]) [] := by
  obtain ⟨header, size, all, bytes⟩ := holds
  refine ⟨header, size, ?_, by simp [append, bytes]⟩
  intro q hq
  rcases List.mem_append.mp hq with hq | hq
  · exact all q hq
  · exact List.mem_singleton.mp hq ▸ faithful

theorem appendLaw : AppendLaw (SegmentFile P) Clean Faithful where
  create id := by
    have holds : (create (P := P) id).Holds [] [] :=
      ⟨segmentHeader id, by simp [segmentHeader, magic, segmentHeaderSize], by simp,
        by simp [create]⟩
    have empty := readAll_holds _ _ _ holds
    rw [readFrames_nil] at empty
    exact ⟨⟨[], holds⟩, empty⟩
  append seg r := by
    rintro ⟨records, holds⟩ faithful
    have holds' := holds_append seg records r holds faithful
    refine ⟨⟨_, holds'⟩, ?_⟩
    have before := readAll_holds _ _ _ holds
    have after := readAll_holds _ _ _ holds'
    rw [readFrames_nil, List.append_nil] at before after
    exact after.trans (congrArg (· ++ [r]) before.symm)

end SegmentFile
end TronDB.Wal
