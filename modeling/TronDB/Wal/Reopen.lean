import TronDB.Wal.Segment
import TronDB.Wal.Session

/-! The writer on files of bytes. On whole frames it is the writer on records; behind a
torn tail, what it writes to the reopened file is not read back. -/
namespace TronDB.Wal

variable {P : Type} [WalCodec P]

/-! ### Files of whole frames -/

def SegmentFile.load (seg : SegmentFile P) : WalSegment P := ⟨seg.id, seg.readAll, seg.currentSize⟩

namespace WalWriter

/-- The writer on records that a writer on files stands for. -/
def load (w : WalWriter (SegmentFile P) P) : WalWriter (WalSegment P) P :=
  { config := w.config, closed := w.closed.map SegmentFile.load, segment := w.segment.load,
    buffer := w.buffer, nextLsn := w.nextLsn, nextTx := w.nextTx }

theorem disk_load (w : WalWriter (SegmentFile P) P) : w.load.disk = w.disk := by
  simp only [disk, dir, load, readDir, List.flatMap_append, List.flatMap_map]
  rfl

theorem load_append_segment (seg : SegmentFile P) (r : WalRecord P) (clean : seg.Clean)
    (faithful : Faithful r) : (seg.append r).load = seg.load.append r := by
  have seen := (SegmentFile.appendLaw.append seg r clean faithful).2
  have size : (seg.append r).currentSize = seg.currentSize + r.framedLen := by
    simp only [SegmentFile.currentSize, SegmentFile.append, List.length_append,
      length_toFramedBytes, WalRecord.framedLen]
    omega
  exact congrArg₂ (WalSegment.mk seg.id) seen size

theorem load_create (id : Nat) : (SegmentFile.create (P := P) id).load = WalSegment.create id := by
  have empty := (SegmentFile.appendLaw.create (S := SegmentFile P) id).2
  have size : (SegmentFile.create (P := P) id).currentSize = segmentHeaderSize := by
    simp [SegmentFile.create, SegmentFile.currentSize, segmentHeader, magic, segmentHeaderSize]
  exact congrArg₂ (WalSegment.mk id) empty size

theorem load_writeRecord (w : WalWriter (SegmentFile P) P) (r : WalRecord P)
    (clean : w.segment.Clean) (faithful : Faithful r) :
    (w.writeRecord r).load = w.load.writeRecord r := by
  have seg := load_append_segment w.segment r clean faithful
  have size : (w.segment.append r).currentSize = (w.segment.load.append r).currentSize :=
    congrArg WalSegment.currentSize seg
  by_cases full : w.config.segmentSizeBytes ≤ (w.segment.append r).currentSize
  · have left : w.writeRecord r =
        { w with
          closed := w.closed ++ [w.segment.append r]
          segment := SegmentFile.create (w.segment.id + 1) } := if_pos full
    have right : w.load.writeRecord r =
        { w.load with
          closed := w.load.closed ++ [w.load.segment.append r]
          segment := WalSegment.create (w.segment.id + 1) } := if_pos (full.trans_eq size)
    rw [left, right]
    simp only [load, List.map_append, List.map_cons, List.map_nil, seg, load_create]
  · have left : w.writeRecord r = { w with segment := w.segment.append r } := if_neg full
    have right : w.load.writeRecord r = { w.load with segment := w.load.segment.append r } :=
      if_neg fun h => full (Nat.le_trans h size.ge)
    rw [left, right]
    simp only [load, seg]

theorem load_writeSync (w : WalWriter (SegmentFile P) P) (records : List (WalRecord P))
    (clean : w.segment.Clean) (faithful : ∀ r ∈ records, Faithful r) :
    (w.writeSync records).load = w.load.writeSync records := by
  induction records generalizing w with
  | nil => rfl
  | cons r rest ih =>
    obtain ⟨here, later⟩ := List.forall_mem_cons.mp faithful
    have clean' := (disk_writeRecord SegmentFile.appendLaw w r clean here).1
    change ((w.writeRecord r).writeSync rest).load = (w.load.writeRecord r).writeSync rest
    rw [← load_writeRecord w r clean here]
    exact ih (w.writeRecord r) clean' later

/-- Over any calls whose records serialise faithfully, the writer on a file of whole
frames does what the writer on records does. -/
theorem load_run (ops : List (WalOp P)) (w : WalWriter (SegmentFile P) P)
    (clean : w.segment.Clean) (faithful : ∀ r ∈ written w.nextLsn w.buffer ops, Faithful r) :
    (ops.foldl apply w).load = ops.foldl apply w.load ∧ (ops.foldl apply w).segment.Clean := by
  induction ops generalizing w with
  | nil => exact ⟨rfl, clean⟩
  | cons op later ih =>
    rw [List.foldl_cons, List.foldl_cons]
    cases op with
    | nextTxId => exact ih w.nextTxId.2 clean faithful
    | append t collection txId schemaVer payload ts =>
      exact ih (w.append t collection txId schemaVer payload ts) clean faithful
    | commit txId ts =>
      simp only [written, List.mem_append] at faithful
      have batch : ∀ r ∈ (w.commitDrain txId ts).2, Faithful r := fun r hr =>
        faithful r (.inl (List.mem_append.mp hr))
      have clean' := (disk_writeSync_clean SegmentFile.appendLaw (w.commitDrain txId ts).1
        (w.commitDrain txId ts).2 clean batch).1
      have same : (w.commit txId ts).load = w.load.commit txId ts :=
        load_writeSync (w.commitDrain txId ts).1 _ clean batch
      have next := ih (w.commit txId ts) clean' (by
        rw [nextLsn_commit, buffer_commit]
        exact fun r hr => faithful r (.inr hr))
      rw [same] at next
      exact next
    | checkpoint path ts =>
      simp only [written, List.forall_mem_cons] at faithful
      have clean' := (SegmentFile.appendLaw.append w.segment _ clean faithful.1).1
      have seg := load_append_segment w.segment _ clean faithful.1
      have same : (w.checkpoint path ts).load = w.load.checkpoint path ts :=
        congrArg (fun seg => { w.load with nextLsn := w.nextLsn + 1, segment := seg }) seg
      have next := ih (w.checkpoint path ts) clean' faithful.2
      rw [same] at next
      exact next

end WalWriter

/-! ### Behind a torn tail -/

open WalWriter

/-- The writer has put `first` behind what was in the reopened file and `rest` into files
of its own. -/
structure Wrote (start w : WalWriter (SegmentFile P) P) (first rest : List (WalRecord P)) :
    Prop where
  disk : w.disk =
    readDir start.closed ++ (first.foldl SegmentFile.append start.segment).readAll ++ rest
  place : (rest = [] ∧ w.closed = start.closed ∧
      w.segment = first.foldl SegmentFile.append start.segment) ∨
    (first ≠ [] ∧ w.segment.Clean)

theorem Wrote.refl (start : WalWriter (SegmentFile P) P) : Wrote start start [] [] :=
  ⟨by simp only [WalWriter.disk, dir, readDir_append, List.append_nil]
      simp [readDir, LogSegment.readAll], .inl ⟨rfl, rfl, rfl⟩⟩

theorem Wrote.append {start w : WalWriter (SegmentFile P) P} {first rest : List (WalRecord P)}
    (wrote : Wrote start w first rest) (w' : WalWriter (SegmentFile P) P) (r : WalRecord P) (faithful : Faithful r)
    (appended : w'.closed = w.closed ∧ w'.segment = w.segment.append r ∨
      w'.closed = w.closed ++ [w.segment.append r] ∧ ∃ id, w'.segment = SegmentFile.create id) :
    ∃ first' rest', first' ++ rest' = first ++ rest ++ [r] ∧ first' ≠ [] ∧
      Wrote start w' first' rest' := by
  have empty (id : Nat) : (SegmentFile.create (P := P) id).readAll = [] :=
    (SegmentFile.appendLaw.create (S := SegmentFile P) id).2
  have fresh (id : Nat) : (SegmentFile.create (P := P) id).Clean :=
    (SegmentFile.appendLaw.create id).1
  have disk' : w'.disk = readDir w.closed ++ (w.segment.append r).readAll := by
    rcases appended with ⟨hc, hs⟩ | ⟨hc, id, hs⟩
    · simp [WalWriter.disk, dir, readDir, LogSegment.readAll, hc, hs]
    · simp [WalWriter.disk, dir, readDir, LogSegment.readAll, hc, hs, empty]
  rcases wrote.place with ⟨none, closed, segment⟩ | ⟨some, clean⟩
  · subst none
    refine ⟨first ++ [r], [], by simp, by simp, ?_, ?_⟩
    · rw [disk', closed, segment, List.foldl_append, List.append_nil]
      rfl
    · rcases appended with ⟨hc, hs⟩ | ⟨hc, id, hs⟩
      · refine .inl ⟨rfl, hc.trans closed, ?_⟩
        rw [hs, segment, List.foldl_append]
        rfl
      · exact .inr ⟨by simp, hs ▸ fresh id⟩
  · obtain ⟨clean', seen⟩ := SegmentFile.appendLaw.append w.segment r clean faithful
    refine ⟨first, rest ++ [r], (List.append_assoc ..).symm, some, ?_, ?_⟩
    · have old : w.disk = readDir w.closed ++ w.segment.readAll := by
        simp [WalWriter.disk, dir, readDir, LogSegment.readAll]
      have seen' : (w.segment.append r).readAll = w.segment.readAll ++ [r] := seen
      rw [disk', seen', ← List.append_assoc, ← old, wrote.disk, List.append_assoc]
    · rcases appended with ⟨_, hs⟩ | ⟨_, id, hs⟩
      · exact .inr ⟨some, hs ▸ clean'⟩
      · exact .inr ⟨some, hs ▸ fresh id⟩

theorem Wrote.writeSync {start w : WalWriter (SegmentFile P) P} {first rest : List (WalRecord P)}
    (wrote : Wrote start w first rest) (records : List (WalRecord P))
    (faithful : ∀ r ∈ records, Faithful r) :
    ∃ first' rest', first' ++ rest' = first ++ rest ++ records ∧
      (records ≠ [] → first' ≠ []) ∧ (first ≠ [] → first' ≠ []) ∧
      Wrote start (w.writeSync records) first' rest' := by
  induction records generalizing w first rest with
  | nil => exact ⟨first, rest, by simp, by simp, id, wrote⟩
  | cons r later ih =>
    obtain ⟨here, there⟩ := List.forall_mem_cons.mp faithful
    have appended := writeRecord_cases w r
    obtain ⟨first', rest', split, some, next⟩ := wrote.append (w.writeRecord r) r here (by
      rcases appended with h | h <;> rw [h]
      · exact .inr ⟨rfl, _, rfl⟩
      · exact .inl ⟨rfl, rfl⟩)
    obtain ⟨first'', rest'', split', _, keep, done⟩ := ih next there
    refine ⟨first'', rest'', ?_, fun _ => keep some, fun _ => keep some, done⟩
    rw [split', split, List.append_assoc, List.singleton_append]

theorem Wrote.run {start w : WalWriter (SegmentFile P) P} {first rest : List (WalRecord P)}
    (wrote : Wrote start w first rest) (ops : List (WalOp P))
    (faithful : ∀ r ∈ written w.nextLsn w.buffer ops, Faithful r) :
    ∃ first' rest', first' ++ rest' = first ++ rest ++ written w.nextLsn w.buffer ops ∧
      (written w.nextLsn w.buffer ops ≠ [] → first' ≠ []) ∧ (first ≠ [] → first' ≠ []) ∧
      Wrote start (ops.foldl WalWriter.apply w) first' rest' := by
  induction ops generalizing w first rest with
  | nil => exact ⟨first, rest, by simp [written], by simp [written], id, wrote⟩
  | cons op later ih =>
    rw [List.foldl_cons]
    cases op with
    | nextTxId => exact ih (w := w.nextTxId.2) ⟨wrote.disk, wrote.place⟩ faithful
    | append t collection txId schemaVer payload ts =>
      exact ih (w := w.append t collection txId schemaVer payload ts)
        ⟨wrote.disk, wrote.place⟩ faithful
    | commit txId ts =>
      simp only [written, List.mem_append] at faithful
      have drained : Wrote start (w.commitDrain txId ts).1 first rest :=
        ⟨wrote.disk, wrote.place⟩
      obtain ⟨first', rest', split, some, keep, next⟩ := drained.writeSync
        (w.commitDrain txId ts).2 fun r hr => faithful r (.inl (List.mem_append.mp hr))
      have some' : first' ≠ [] := some (by simp [commitDrain])
      obtain ⟨first'', rest'', split', _, keep', done⟩ := ih (w := w.commit txId ts) next (by
        rw [nextLsn_commit, buffer_commit]
        exact fun r hr => faithful r (.inr hr))
      refine ⟨first'', rest'', ?_, fun _ => keep' some', fun _ => keep' some', done⟩
      rw [split', split, nextLsn_commit, buffer_commit]
      simp [written, commitDrain]
    | checkpoint path ts =>
      simp only [written, List.forall_mem_cons] at faithful
      obtain ⟨first', rest', split, some, next⟩ := wrote.append (w.checkpoint path ts) _
        faithful.1 (.inl ⟨rfl, rfl⟩)
      obtain ⟨first'', rest'', split', _, keep, done⟩ := ih (w := w.checkpoint path ts) next
        faithful.2
      refine ⟨first'', rest'', ?_, fun _ => keep some, fun _ => keep some, done⟩
      rw [split', split, List.append_assoc]
      rfl

end TronDB.Wal
