import TronDB.Wal.TornTail

/-! Reading a segment file that was cut off: the loop as it seeks and reads in the file, where a
read past the end is an error. -/
namespace TronDB.Wal
open Bytes

variable {P : Type} [WalCodec P]

/-! ### The file and the loop -/

inductive ReadError where
  | unexpectedEof
  deriving DecidableEq, Repr

structure OpenFile where
  bytes : List UInt8
  cursor : Nat

namespace OpenFile

def seek (file : OpenFile) (start : Nat) : OpenFile := { file with cursor := start }

def readExact (file : OpenFile) (size : Nat) : Except ReadError (List UInt8 × OpenFile) :=
  if file.cursor + size ≤ file.bytes.length then
    .ok ((file.bytes.drop file.cursor).take size, file.seek (file.cursor + size))
  else .error .unexpectedEof

theorem readExact_inside {file : OpenFile} {size : Nat}
    (inside : file.cursor + size ≤ file.bytes.length) :
    file.readExact size =
      .ok ((file.bytes.drop file.cursor).take size, file.seek (file.cursor + size)) :=
  if_pos inside

end OpenFile

def readLoop (fileLen : Nat) (file : OpenFile) (pos : Nat) (records : List (WalRecord P)) :
    Except ReadError (List (WalRecord P)) :=
  if pos < fileLen then
    if pos + 4 > fileLen then .ok records
    else match file.readExact 4 with
      | .error e => .error e
      | .ok (lenBuf, file) =>
        let bodyLen := fromBE lenBuf
        let frameRemaining := bodyLen + 4
        if pos + 4 + frameRemaining > fileLen then .ok records
        else match file.readExact frameRemaining with
          | .error e => .error e
          | .ok (frame, file) =>
            let body := frame.take bodyLen
            let expectedCrc := fromBE (frame.drop bodyLen)
            if (WalCodec.crc32 P body).toNat ≠ expectedCrc then
              -- the last record may be cut off; one before it is corrupt
              if pos + 4 + frameRemaining ≥ fileLen then .ok records
              else readLoop fileLen file (pos + 4 + frameRemaining) records
            else match WalCodec.fromBytes body with
              | some record =>
                readLoop fileLen file (pos + 4 + frameRemaining) (records ++ [record])
              | none => readLoop fileLen file (pos + 4 + frameRemaining) records
  else .ok records
termination_by fileLen - pos

/-- `read_all` of the file at a path, given what the file holds. -/
def readAllFile (bytes : List UInt8) : Except ReadError (List (WalRecord P)) :=
  readLoop bytes.length ((⟨bytes, 0⟩ : OpenFile).seek segmentHeaderSize) segmentHeaderSize []

/-! ### The loop reads what is left of the file -/

theorem readFrames_cons (bytes : List UInt8) : readFrames (P := P) bytes =
    match readFrame (P := P) bytes with
    | .stop => []
    | .skip rest => readFrames rest
    | .record r rest => r :: readFrames rest := by
  cases turn : readFrame (P := P) bytes with
  | stop => exact readFrames_stop bytes turn
  | skip rest => exact readFrames_skip bytes rest turn
  | record r rest => exact readFrames_record bytes rest r turn

/-- Wherever the loop is in whatever bytes, it reads no further than the end of the file. -/
theorem readLoop_eq (bytes : List UInt8) (pos : Nat) (records : List (WalRecord P)) :
    readLoop bytes.length ⟨bytes, pos⟩ pos records = .ok (records ++ readFrames (bytes.drop pos)) := by
  induction left : bytes.length - pos using Nat.strong_induction_on generalizing pos records with
  | _ n ih =>
    subst left
    have length : (bytes.drop pos).length = bytes.length - pos := List.length_drop
    rw [readLoop, readFrames_cons]
    unfold readFrame
    by_cases atEnd : bytes.length ≤ pos
    · have short : (bytes.drop pos).length < 4 := by omega
      rw [if_neg (Nat.not_lt.mpr atEnd), if_pos short, List.append_nil]
    rw [if_pos (Nat.lt_of_not_le atEnd)]
    by_cases cutPrefix : pos + 4 > bytes.length
    · have short : (bytes.drop pos).length < 4 := by omega
      rw [if_pos cutPrefix, if_pos short, List.append_nil]
    have long : ¬ (bytes.drop pos).length < 4 := by omega
    have lenRead : (⟨bytes, pos⟩ : OpenFile).readExact 4 =
        .ok ((bytes.drop pos).take 4, ⟨bytes, pos + 4⟩) :=
      OpenFile.readExact_inside (Nat.not_lt.mp cutPrefix)
    rw [if_neg cutPrefix, if_neg long, lenRead]
    dsimp only
    generalize fromBE ((bytes.drop pos).take 4) = bodyLen
    have behind : (bytes.drop pos).drop 4 = bytes.drop (pos + 4) := List.drop_drop
    have length' : (bytes.drop (pos + 4)).length = bytes.length - (pos + 4) := List.length_drop
    rw [behind]
    by_cases cutRecord : pos + 4 + (bodyLen + 4) > bytes.length
    · have short : (bytes.drop (pos + 4)).length < bodyLen + 4 := by omega
      rw [if_pos cutRecord, if_pos short, List.append_nil]
    have whole : ¬ (bytes.drop (pos + 4)).length < bodyLen + 4 := by omega
    have frameRead : (⟨bytes, pos + 4⟩ : OpenFile).readExact (bodyLen + 4) =
        .ok ((bytes.drop (pos + 4)).take (bodyLen + 4), ⟨bytes, pos + 4 + (bodyLen + 4)⟩) :=
      OpenFile.readExact_inside (Nat.not_lt.mp cutRecord)
    rw [if_neg cutRecord, if_neg whole, frameRead]
    dsimp only
    have body : ((bytes.drop (pos + 4)).take (bodyLen + 4)).take bodyLen =
        (bytes.drop (pos + 4)).take bodyLen := by
      rw [List.take_take, Nat.min_eq_left (Nat.le_add_right _ _)]
    have crc : ((bytes.drop (pos + 4)).take (bodyLen + 4)).drop bodyLen =
        ((bytes.drop (pos + 4)).drop bodyLen).take 4 := by
      rw [List.drop_take, Nat.add_sub_cancel_left]
    have rest : (bytes.drop (pos + 4)).drop (bodyLen + 4) =
        bytes.drop (pos + 4 + (bodyLen + 4)) := List.drop_drop
    have next (records : List (WalRecord P)) := ih (bytes.length - (pos + 4 + (bodyLen + 4)))
      (by omega) (pos + 4 + (bodyLen + 4)) records rfl
    have last : (bytes.drop (pos + 4 + (bodyLen + 4))).length = 0 ↔
        pos + 4 + (bodyLen + 4) ≥ bytes.length := by
      rw [List.length_drop]
      omega
    rw [body, crc, rest, if_congr last rfl rfl]
    by_cases mismatch : fromBE (((bytes.drop (pos + 4)).drop bodyLen).take 4) ≠
        (WalCodec.crc32 P ((bytes.drop (pos + 4)).take bodyLen)).toNat
    · rw [if_pos mismatch, if_pos mismatch.symm]
      split
      · rw [List.append_nil]
      · exact next records
    · rw [if_neg mismatch, if_neg fun differ => mismatch differ.symm]
      cases WalCodec.fromBytes (P := P) ((bytes.drop (pos + 4)).take bodyLen) with
      | none => exact next records
      | some r =>
        refine (next (records ++ [r])).trans ?_
        rw [List.append_assoc]
        rfl

theorem readAllFile_eq (bytes : List UInt8) :
    readAllFile (P := P) bytes = .ok (readFrames (bytes.drop segmentHeaderSize)) :=
  readLoop_eq bytes segmentHeaderSize []

/-! ### Cut files -/

/-- The records with the places where their frames end, the first frame beginning at `start`. -/
def frameEnds (start : Nat) : List (WalRecord P) → List (WalRecord P × Nat)
  | [] => []
  | r :: rest =>
    let frameEnd := start + (toFramedBytes r).length
    (r, frameEnd) :: frameEnds frameEnd rest

/-- The records whose frames lie wholly before the cut. -/
def whollyBefore (cut start : Nat) (records : List (WalRecord P)) : List (WalRecord P) :=
  ((frameEnds start records).filter fun placed => placed.2 ≤ cut).map Prod.fst

theorem frameEnds_after (start : Nat) (records : List (WalRecord P)) :
    ∀ placed ∈ frameEnds start records, start < placed.2 := by
  induction records generalizing start with
  | nil => simp [frameEnds]
  | cons r rest ih =>
    have size := length_toFramedBytes r
    intro placed there
    rcases List.mem_cons.mp there with rfl | later
    · change start < start + (toFramedBytes r).length
      omega
    · have after := ih _ placed later
      omega

theorem whollyBefore_past {cut start : Nat} (past : cut ≤ start) (records : List (WalRecord P)) :
    whollyBefore cut start records = [] := by
  unfold whollyBefore
  rw [List.map_eq_nil_iff, List.filter_eq_nil_iff]
  intro placed there
  have after := frameEnds_after start records placed there
  rw [decide_eq_true_eq]
  omega

theorem readFrames_cut (start cut : Nat) (records : List (WalRecord P))
    (faithful : ∀ r ∈ records, Faithful r) :
    readFrames ((records.flatMap toFramedBytes).take cut) =
      whollyBefore (start + cut) start records := by
  induction records generalizing start cut with
  | nil => rw [List.flatMap_nil, List.take_nil, readFrames_nil]; rfl
  | cons r rest ih =>
    obtain ⟨here, later⟩ := List.forall_mem_cons.mp faithful
    rw [List.flatMap_cons]
    by_cases whole : (toFramedBytes r).length ≤ cut
    · obtain ⟨more, rfl⟩ := Nat.exists_eq_add_of_le whole
      have reached : start + (toFramedBytes r).length ≤
          start + ((toFramedBytes r).length + more) := by omega
      rw [List.take_length_add_append, readFrames_frame r _ here,
        ih (start + (toFramedBytes r).length) more later]
      unfold whollyBefore
      rw [frameEnds, List.filter_cons, if_pos (decide_eq_true reached), List.map_cons,
        Nat.add_assoc]
    · have short : cut < (toFramedBytes r).length := Nat.lt_of_not_le whole
      have torn : Torn ((toFramedBytes r).take cut) r := by
        refine ⟨here, List.take_prefix _ _, fun all => ?_⟩
        have length := congrArg List.length all
        rw [List.length_take] at length
        omega
      have behind : whollyBefore (start + cut) (start + (toFramedBytes r).length) rest = [] :=
        whollyBefore_past (by omega) rest
      have beyond : ¬ start + (toFramedBytes r).length ≤ start + cut := by omega
      rw [List.take_append_of_le_length (Nat.le_of_lt short), readFrames_torn _ r torn]
      unfold whollyBefore at behind ⊢
      rw [frameEnds, List.filter_cons, if_neg (by simpa using beyond), behind]

/-- Reading what is left of a segment file, cut anywhere, succeeds with exactly the records whose
frames lie wholly before the cut, in order. -/
theorem readAllFile_truncated (seg : SegmentFile P) (header : seg.bytes.length = segmentHeaderSize)
    (records : List (WalRecord P)) (faithful : ∀ r ∈ records, Faithful r) (cut : Nat) :
    readAllFile ((records.foldl SegmentFile.append seg).bytes.take cut) =
      .ok (whollyBefore cut segmentHeaderSize records) := by
  rw [readAllFile_eq, SegmentFile.bytes_foldl_append]
  by_cases inHeader : cut ≤ segmentHeaderSize
  · have nothing :
        ((seg.bytes ++ records.flatMap toFramedBytes).take cut).drop segmentHeaderSize = [] := by
      rw [List.drop_eq_nil_iff, List.length_take]
      omega
    rw [nothing, readFrames_nil, whollyBefore_past inHeader]
  · obtain ⟨more, rfl⟩ := Nat.exists_eq_add_of_le (Nat.le_of_not_le inHeader)
    rw [← readFrames_cut segmentHeaderSize more records faithful, ← header,
      List.take_length_add_append, List.drop_left]

/-- Seven bytes of the second frame are left: the first record is read. -/
theorem readAllFile_truncated_commit :
    readAllFile (([tornWrite, commitAfter].foldl SegmentFile.append (SegmentFile.create 1)).bytes.take
      170) = .ok [tornWrite] := by
  have faithful : ∀ r ∈ [tornWrite, commitAfter], Faithful r :=
    List.forall_mem_cons.mpr ⟨tornBytes_torn.faithful,
      List.forall_mem_singleton.mpr commitAfter_faithful⟩
  have kept : whollyBefore 170 segmentHeaderSize [tornWrite, commitAfter] = [tornWrite] := by decide
  have read := readAllFile_truncated (SegmentFile.create 1) (by decide) [tornWrite, commitAfter]
    faithful 170
  rwa [kept] at read

end TronDB.Wal
