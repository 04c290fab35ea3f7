import TronDB.Wal.Record

/-! The log writer. The buffer and the segment are guarded by two different locks, so a
commit is two steps, `commitDrain` and `writeSync`. The writer is written over any kind of
segment file; the first kind below holds the records themselves, another the bytes. -/
namespace TronDB.Wal

/-- What the writer and recovery do with a segment file. -/
class LogSegment (S : Type) (P : outParam Type) where
  create : Nat → S
  append : S → WalRecord P → S
  id : S → Nat
  currentSize : S → Nat
  readAll : S → List (WalRecord P)

def segmentHeaderSize : Nat := 64

/-- A segment file as the list of records its frames hold and its size in bytes. -/
structure WalSegment (P : Type) where
  id : Nat
  records : List (WalRecord P)
  currentSize : Nat
  deriving DecidableEq, Repr

namespace WalSegment

variable {P : Type}

def create (id : Nat) : WalSegment P := ⟨id, [], segmentHeaderSize⟩

def append [WalPayload P] (seg : WalSegment P) (r : WalRecord P) : WalSegment P :=
  { seg with records := seg.records ++ [r], currentSize := seg.currentSize + r.framedLen }

instance [WalPayload P] : LogSegment (WalSegment P) P where
  create := create
  append := append
  id := WalSegment.id
  currentSize := currentSize
  readAll := records

end WalSegment

/-- The segment files of one wal_dir, in ascending order of their ids. -/
abbrev WalDir (P : Type) := List (WalSegment P)

structure WalConfig where
  segmentSizeBytes : Nat
  deriving DecidableEq, Repr

instance : Inhabited WalConfig := ⟨⟨256 * 1024 * 1024⟩⟩

structure WalWriter (S P : Type) where
  config : WalConfig
  /-- Segments rotated away from, oldest first. -/
  closed : List S
  segment : S
  buffer : List (WalRecord P)
  nextLsn : Nat
  nextTx : Nat
  deriving DecidableEq, Repr

variable {S P : Type} [LogSegment S P]

def readDir (dir : List S) : List (WalRecord P) := dir.flatMap LogSegment.readAll

namespace WalWriter

/-- What a crash at this moment leaves in the directory. -/
def dir (w : WalWriter S P) : List S := w.closed ++ [w.segment]

/-- The records a crash at this moment leaves on disk, in file order. -/
def disk (w : WalWriter S P) : List (WalRecord P) := readDir w.dir

/-- The last segment is reopened; its last record alone decides the head LSN. -/
def openOrCreateSegment (dir : List S) : List S × S × Nat :=
  match dir.getLast? with
  | some last =>
    (dir.dropLast, last, ((LogSegment.readAll last).getLast?.map WalRecord.lsn).getD 0)
  | none => ([], LogSegment.create 1, 0)

def «open» (config : WalConfig) (dir : List S) : WalWriter S P :=
  let (closed, segment, headLsn) := openOrCreateSegment dir
  { config, closed, segment, buffer := [], nextLsn := headLsn + 1, nextTx := 1 }

def nextTxId (w : WalWriter S P) : Nat × WalWriter S P :=
  (w.nextTx, { w with nextTx := w.nextTx + 1 })

def append (w : WalWriter S P) (recordType : RecordType) (collection : String)
    (txId schemaVer : Nat) (payload : P) (ts : Int) : WalWriter S P :=
  { w with
    nextLsn := w.nextLsn + 1
    buffer := w.buffer ++ [⟨w.nextLsn, ts, txId, recordType, schemaVer, collection, payload⟩] }

/-- One turn of the write loop: append, and rotate when the segment is full. -/
def writeRecord (w : WalWriter S P) (r : WalRecord P) : WalWriter S P :=
  let seg := LogSegment.append w.segment r
  if w.config.segmentSizeBytes ≤ LogSegment.currentSize seg then
    { w with closed := w.closed ++ [seg], segment := LogSegment.create (LogSegment.id seg + 1) }
  else { w with segment := seg }

/-- Second half of commit, under the segment lock: write the drained records and fsync. -/
def writeSync (w : WalWriter S P) (records : List (WalRecord P)) : WalWriter S P :=
  records.foldl writeRecord w

variable [WalPayload P]

def commitRecord (lsn txId : Nat) (ts : Int) : WalRecord P :=
  ⟨lsn, ts, txId, .txCommit, 0, "", WalPayload.empty⟩

omit [LogSegment S P] in
/-- First half of commit, under the buffer lock: push the commit record, take everything. -/
def commitDrain (w : WalWriter S P) (txId : Nat) (ts : Int) :
    WalWriter S P × List (WalRecord P) :=
  ({ w with nextLsn := w.nextLsn + 1, buffer := [] },
    w.buffer ++ [commitRecord w.nextLsn txId ts])

def commit (w : WalWriter S P) (txId : Nat) (ts : Int) : WalWriter S P :=
  let (w', records) := w.commitDrain txId ts
  w'.writeSync records

def checkpointRecord (lsn : Nat) (snapshotPath : String) (ts : Int) : WalRecord P :=
  ⟨lsn, ts, 0, .checkpoint, 0, "", WalPayload.checkpoint lsn snapshotPath⟩

/-- The checkpoint record goes straight to the segment, past the buffer. -/
def checkpoint (w : WalWriter S P) (snapshotPath : String) (ts : Int) : WalWriter S P :=
  { w with
    nextLsn := w.nextLsn + 1
    segment := LogSegment.append w.segment (checkpointRecord w.nextLsn snapshotPath ts) }

end WalWriter

/-! ### What the operations do to the records on disk

Stated for every kind of segment on which appending is seen by reading: `Clean` segments
and `Good` records. -/

/-- On clean segments, appending a good record is seen by `readAll` as one more record. -/
structure AppendLaw (S : Type) {P : Type} [LogSegment S P] (Clean : S → Prop)
    (Good : WalRecord P → Prop) : Prop where
  create : ∀ id, Clean (LogSegment.create id) ∧ LogSegment.readAll (LogSegment.create id : S) = []
  append : ∀ seg r, Clean seg → Good r → Clean (LogSegment.append seg r) ∧
    LogSegment.readAll (LogSegment.append seg r) = LogSegment.readAll seg ++ [r]

theorem WalSegment.appendLaw [WalPayload P] :
    AppendLaw (WalSegment P) (fun _ => True) (fun _ => True) :=
  ⟨fun _ => ⟨trivial, rfl⟩, fun _ _ _ _ => ⟨trivial, rfl⟩⟩

namespace WalWriter

theorem disk_open (config : WalConfig) (dir : List S)
    (fresh : LogSegment.readAll (LogSegment.create 1 : S) = []) :
    («open» config dir).disk = readDir dir := by
  unfold «open» openOrCreateSegment
  cases h : dir.getLast? with
  | none =>
    rw [List.getLast?_eq_none_iff] at h
    simp [disk, WalWriter.dir, readDir, h, fresh]
  | some last =>
    have split : dir.dropLast ++ [last] = dir := List.dropLast_append_getLast? last h
    simp [disk, WalWriter.dir, split]

theorem nextLsn_open (config : WalConfig) (dir : List S) : 0 < («open» config dir).nextLsn :=
  Nat.succ_pos _

theorem writeRecord_fits (w : WalWriter S P) (r : WalRecord P)
    (fits : LogSegment.currentSize (LogSegment.append w.segment r) < w.config.segmentSizeBytes) :
    w.writeRecord r = { w with segment := LogSegment.append w.segment r } :=
  if_neg (Nat.not_le_of_lt fits)

theorem writeRecord_cases (w : WalWriter S P) (r : WalRecord P) :
    (w.writeRecord r =
      { w with
        closed := w.closed ++ [LogSegment.append w.segment r]
        segment := LogSegment.create (LogSegment.id (LogSegment.append w.segment r) + 1) }) ∨
    w.writeRecord r = { w with segment := LogSegment.append w.segment r } := by
  by_cases full : w.config.segmentSizeBytes ≤
      LogSegment.currentSize (LogSegment.append w.segment r)
  · exact .inl (if_pos full)
  · exact .inr (writeRecord_fits w r (Nat.lt_of_not_le full))

theorem writeRecord_rest (w : WalWriter S P) (r : WalRecord P) :
    (w.writeRecord r).config = w.config ∧ (w.writeRecord r).buffer = w.buffer ∧
      (w.writeRecord r).nextLsn = w.nextLsn ∧ (w.writeRecord r).nextTx = w.nextTx := by
  rcases writeRecord_cases w r with h | h <;> exact h ▸ ⟨rfl, rfl, rfl, rfl⟩

theorem writeSync_rest (w : WalWriter S P) (records : List (WalRecord P)) :
    (w.writeSync records).config = w.config ∧ (w.writeSync records).buffer = w.buffer ∧
      (w.writeSync records).nextLsn = w.nextLsn ∧ (w.writeSync records).nextTx = w.nextTx := by
  induction records generalizing w with
  | nil => exact ⟨rfl, rfl, rfl, rfl⟩
  | cons r rest ih =>
    obtain ⟨hc, hb, hl, ht⟩ := ih (w.writeRecord r)
    obtain ⟨wc, wb, wl, wt⟩ := writeRecord_rest w r
    exact ⟨hc.trans wc, hb.trans wb, hl.trans wl, ht.trans wt⟩

theorem readDir_append (xs ys : List S) : readDir (xs ++ ys) = readDir xs ++ readDir ys :=
  List.flatMap_append

section Law
variable {Clean : S → Prop} {Good : WalRecord P → Prop} (law : AppendLaw S Clean Good)
include law

theorem disk_writeRecord (w : WalWriter S P) (r : WalRecord P) (clean : Clean w.segment)
    (good : Good r) :
    Clean (w.writeRecord r).segment ∧ (w.writeRecord r).disk = w.disk ++ [r] := by
  obtain ⟨still, seen⟩ := law.append w.segment r clean good
  rcases writeRecord_cases w r with h | h
  · obtain ⟨fresh, empty⟩ := law.create (LogSegment.id (LogSegment.append w.segment r) + 1)
    refine ⟨h ▸ fresh, ?_⟩
    simp [h, disk, dir, readDir, seen, empty]
  · refine ⟨h ▸ still, ?_⟩
    simp [h, disk, dir, readDir, seen]

theorem disk_writeSync_clean (w : WalWriter S P) (records : List (WalRecord P))
    (clean : Clean w.segment) (good : ∀ r ∈ records, Good r) :
    Clean (w.writeSync records).segment ∧ (w.writeSync records).disk = w.disk ++ records := by
  induction records generalizing w with
  | nil => exact ⟨clean, (List.append_nil _).symm⟩
  | cons r rest ih =>
    obtain ⟨here, later⟩ := List.forall_mem_cons.mp good
    obtain ⟨clean', seen⟩ := disk_writeRecord law w r clean here
    obtain ⟨clean'', disk⟩ := ih (w.writeRecord r) clean' later
    refine ⟨clean'', ?_⟩
    change ((w.writeRecord r).writeSync rest).disk = _
    rw [disk, seen, List.append_assoc, List.singleton_append]

end Law

variable [WalPayload P]

@[simp] theorem buffer_commit (w : WalWriter S P) (txId : Nat) (ts : Int) :
    (w.commit txId ts).buffer = [] := (writeSync_rest _ _).2.1

@[simp] theorem nextLsn_commit (w : WalWriter S P) (txId : Nat) (ts : Int) :
    (w.commit txId ts).nextLsn = w.nextLsn + 1 := (writeSync_rest _ _).2.2.1

@[simp] theorem nextLsn_checkpoint (w : WalWriter S P) (path : String) (ts : Int) :
    (w.checkpoint path ts).nextLsn = w.nextLsn + 1 := rfl

@[simp] theorem disk_append (w : WalWriter (WalSegment P) P) (t : RecordType)
    (collection : String) (txId schemaVer : Nat) (payload : P) (ts : Int) :
    (w.append t collection txId schemaVer payload ts).disk = w.disk := rfl

theorem disk_writeSync (w : WalWriter (WalSegment P) P) (records : List (WalRecord P)) :
    (w.writeSync records).disk = w.disk ++ records :=
  (disk_writeSync_clean WalSegment.appendLaw w records trivial fun _ _ => trivial).2

theorem disk_commit (w : WalWriter (WalSegment P) P) (txId : Nat) (ts : Int) :
    (w.commit txId ts).disk = w.disk ++ (w.buffer ++ [commitRecord w.nextLsn txId ts]) :=
  disk_writeSync _ _

theorem disk_checkpoint (w : WalWriter (WalSegment P) P) (path : String) (ts : Int) :
    (w.checkpoint path ts).disk = w.disk ++ [checkpointRecord w.nextLsn path ts] := by
  obtain ⟨_, seen⟩ := WalSegment.appendLaw.append w.segment
    (checkpointRecord w.nextLsn path ts) trivial trivial
  simp [checkpoint, disk, dir, readDir, seen]

end WalWriter
end TronDB.Wal
