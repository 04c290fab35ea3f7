import TronDB.Wal.Encoding
import TronDB.Wal.Reopen

/-! What is read back when a file with a torn tail is reopened and written to. -/
namespace TronDB.Wal
open Bytes WalWriter

variable {P : Type} [WalCodec P]

/-- Somewhere in the torn tail and the frames behind it, at a place where no frame was
written, the bytes read as a frame whose CRC matches and whose body deserialises. -/
def Misread (torn : List UInt8) (records : List (WalRecord P)) : Prop :=
  ∃ before after r rest, torn ++ records.flatMap toFramedBytes = before ++ after ∧
    readFrame after = .record (P := P) r rest ∧
    ∀ xs ys, records = xs ++ ys → before ≠ torn ++ xs.flatMap toFramedBytes

theorem readFrames_past (torn : List UInt8) (records : List (WalRecord P))
    (exact : ¬ Misread torn records) (n : Nat) :
    ∀ before after xs ys, after.length = n →
      torn ++ records.flatMap toFramedBytes = before ++ after → records = xs ++ ys →
      (torn ++ xs.flatMap toFramedBytes).length < before.length →
      (readFrames (P := P) after).length < ys.length := by
  induction n using Nat.strong_induction_on with
  | _ n ih =>
    intro before after xs ys size bytes split past
    have some : 0 < ys.length := by
      rcases Nat.eq_zero_or_pos ys.length with none | some
      · have total := congrArg List.length bytes
        rw [split, List.eq_nil_of_length_eq_zero none, List.append_nil] at total
        simp only [List.length_append] at total past
        omega
      · exact some
    -- one turn of the loop moves to a later place in the same bytes
    have turn (rest : List UInt8) (more : readFrame (P := P) after ≠ .stop)
        (isRest : (readFrame (P := P) after).rest = rest) :
        ∃ seen, torn ++ records.flatMap toFramedBytes = (before ++ seen) ++ rest ∧
          0 < seen.length ∧ rest.length < n := by
      rcases readFrame_advances (P := P) after with stop | ⟨whole, drop⟩
      · exact absurd stop more
      · refine ⟨after.take (8 + fromBE (after.take 4)), ?_, ?_, ?_⟩
        · rw [bytes, List.append_assoc, ← isRest, drop, List.take_append_drop]
        · rw [List.length_take]
          omega
        · rw [← isRest, ← size]
          exact readFrame_rest_lt after more
    cases read : readFrame (P := P) after with
    | stop => rw [readFrames_stop after read]; exact some
    | skip rest =>
      obtain ⟨seen, bytes', _, shorter⟩ := turn rest (by simp [read]) (by rw [read]; rfl)
      rw [readFrames_skip after rest read]
      refine ih rest.length shorter _ rest xs ys rfl bytes' split ?_
      exact Nat.lt_of_lt_of_le past (by simp)
    | record r rest =>
      obtain ⟨seen, bytes', moved, shorter⟩ := turn rest (by simp [read]) (by rw [read]; rfl)
      have place : ∃ xs' ys', records = xs' ++ ys' ∧
          before = torn ++ xs'.flatMap toFramedBytes := by
        by_contra none
        exact exact ⟨before, after, r, rest, bytes, read, fun xs' ys' h eq =>
          none ⟨xs', ys', h, eq⟩⟩
      obtain ⟨xs', ys', split', here⟩ := place
      have further : ys'.length < ys.length := by
        by_contra back
        have isPrefix : xs' <+: xs := by
          refine List.prefix_of_prefix_length_le (split' ▸ List.prefix_append xs' ys')
            (split ▸ List.prefix_append xs ys) ?_
          have lengths := congrArg List.length (split.symm.trans split')
          simp only [List.length_append] at lengths
          omega
        obtain ⟨zs, rfl⟩ := isPrefix
        rw [here, List.flatMap_append] at past
        simp only [List.length_append] at past
        omega
      rw [readFrames_record after rest r read]
      have fewer := ih rest.length shorter _ rest xs' ys' rfl bytes' split' (by
        rw [← here, List.length_append]
        omega)
      rw [List.length_cons]
      omega

theorem readFrames_behind_torn (torn : List UInt8) (r : WalRecord P) (isTorn : Torn torn r)
    (records : List (WalRecord P)) (someTorn : torn ≠ []) (someRecords : records ≠ [])
    (exact : ¬ Misread torn records) :
    (readFrames (P := P) (torn ++ records.flatMap toFramedBytes)).length < records.length := by
  have some : 0 < records.length := List.length_pos_iff.mpr someRecords
  have advance := readFrame_advances (P := P) (torn ++ records.flatMap toFramedBytes)
  have pastTorn : torn.length <
      8 + fromBE ((torn ++ records.flatMap toFramedBytes).take 4) := by
    by_cases long : 4 ≤ torn.length
    · rw [isTorn.take_four _ long]
      exact isTorn.length_lt
    · omega
  cases read : readFrame (P := P) (torn ++ records.flatMap toFramedBytes) with
  | stop => rw [readFrames_stop _ read]; exact some
  | skip rest =>
    rcases advance with stop | ⟨whole, drop⟩
    · exact absurd (read.symm.trans stop) (by simp)
    · rw [read] at drop
      rw [readFrames_skip _ _ read]
      refine readFrames_past torn records exact rest.length
        ((torn ++ records.flatMap toFramedBytes).take
          (8 + fromBE ((torn ++ records.flatMap toFramedBytes).take 4)))
        rest [] records rfl ?_ rfl ?_
      · rw [show rest = _ from drop, List.take_append_drop]
      · rw [List.length_take, Nat.min_eq_left whole]
        simpa using pastTorn
  | record q rest =>
    refine absurd ⟨[], _, q, rest, rfl, read, fun xs ys _ eq => ?_⟩ exact
    exact someTorn (List.append_eq_nil_iff.mp eq.symm).1

/-- Reopening a file whose tail is torn: all is read back iff there was no torn tail or
nothing was written, unless the bytes happen to read as frames that nobody wrote. -/
theorem reopen_torn (config : WalConfig) (closed : List (SegmentFile P)) (last : SegmentFile P)
    (records : List (WalRecord P)) (torn : List UInt8) (r : WalRecord P) (ops : List (WalOp P))
    (holds : last.Holds records torn) (isTorn : Torn torn r)
    (faithful : ∀ q ∈ written («open» config (closed ++ [last])).nextLsn [] ops, Faithful q) :
    let w := «open» config (closed ++ [last])
    let new := written w.nextLsn [] ops
    let readBack := (ops.foldl apply w).disk = readDir (closed ++ [last]) ++ new
    (torn = [] ∨ new = [] → readBack) ∧
      (readBack → torn = [] ∨ new = [] ∨ ∃ first, first <+: new ∧ Misread torn first) := by
  intro w new readBack
  have opened : w.closed = closed ∧ w.segment = last := by
    simp [w, «open», openOrCreateSegment]
  obtain ⟨first, rest, split, some, _, wrote⟩ := (Wrote.refl w).run ops faithful
  rw [List.nil_append, List.nil_append] at split
  have allFirst : ∀ q ∈ first, Faithful q := fun q hq =>
    faithful q (split ▸ List.mem_append_left _ hq)
  have old : readDir (closed ++ [last]) = readDir closed ++ records := by
    have here := SegmentFile.readAll_holds last records torn holds
    rw [readFrames_torn torn r isTorn, List.append_nil] at here
    rw [readDir_append]
    simp [readDir, LogSegment.readAll, here]
  have reread : (first.foldl SegmentFile.append last).readAll =
      records ++ readFrames (torn ++ first.flatMap toFramedBytes) := by
    obtain ⟨header, size, all, eq⟩ := holds
    exact SegmentFile.readAll_holds _ records _
      ⟨header, size, all, by
        rw [SegmentFile.bytes_foldl_append, eq, List.append_assoc, List.append_assoc]⟩
  have exactly : readBack ↔ readFrames (torn ++ first.flatMap toFramedBytes) = first := by
    have disk := wrote.disk
    rw [opened.1, opened.2, reread] at disk
    change (ops.foldl apply w).disk = readDir (closed ++ [last]) ++ new ↔ _
    rw [disk, old, show new = first ++ rest from split.symm]
    simp [List.append_assoc]
  constructor
  · rintro (none | none)
    · rw [exactly, none, List.nil_append]
      simpa using readFrames_frames first [] allFirst
    · rw [exactly]
      have noFirst : first = [] := (List.append_eq_nil_iff.mp (split.trans none)).1
      rw [noFirst, List.flatMap_nil, List.append_nil]
      exact readFrames_torn torn r isTorn
  · intro back
    by_cases someTorn : torn = []
    · exact .inl someTorn
    by_cases someNew : new = []
    · exact .inr (.inl someNew)
    refine .inr (.inr ⟨first, ⟨rest, split⟩, ?_⟩)
    by_contra exact
    have fewer := readFrames_behind_torn torn r isTorn first someTorn (some someNew) exact
    rw [exactly.mp back] at fewer
    exact Nat.lt_irrefl _ fewer

/-! ### A torn entity write, then one commit -/

def tornWrite : WalRecord (List UInt8) := ⟨1, 1741612800000, 1, .entityWrite, 1, "venues", [1, 2, 3]⟩

/-- The first seven bytes of the frame of `tornWrite`. -/
def tornBytes : List UInt8 := [0, 0, 0, 91, 0x87, 0xa3, 0x6c]

/-- The only file of a directory: nothing but a torn write. -/
def tornSegment : SegmentFile (List UInt8) := ⟨1, segmentHeader 1 ++ tornBytes⟩

def commitAfter : WalRecord (List UInt8) := commitRecord 1 1 1741612800000

theorem tornSegment_holds : tornSegment.Holds [] tornBytes :=
  ⟨segmentHeader 1, by decide, by simp, rfl⟩

theorem tornBytes_torn : Torn tornBytes tornWrite :=
  ⟨⟨by decide, by decide⟩, by decide, by decide⟩

theorem commitAfter_faithful : Faithful commitAfter := ⟨by decide, by decide⟩

theorem open_tornSegment :
    «open» default ([] ++ [tornSegment]) = ⟨default, [], tornSegment, [], 1, 1⟩ := by
  have unread : tornSegment.readAll = [] := by
    rw [SegmentFile.readAll_holds _ _ _ tornSegment_holds, List.nil_append]
    exact readFrames_torn tornBytes tornWrite tornBytes_torn
  have none : LogSegment.readAll tornSegment = [] := unread
  simp [«open», openOrCreateSegment, none]

theorem commit_behind_tornBytes :
    readFrames (P := List UInt8) (tornBytes ++ toFramedBytes commitAfter) = [] :=
  readFrames_stop _ (by decide)

/-- Once reopened, the directory of the torn write takes a commit and reads back nothing. -/
theorem reopen_torn_loses : ¬ ∀ (config : WalConfig) (closed : List (SegmentFile (List UInt8)))
    (last : SegmentFile (List UInt8)) (records : List (WalRecord (List UInt8)))
    (torn : List UInt8) (r : WalRecord (List UInt8)) (ops : List (WalOp (List UInt8))),
    last.Holds records torn → Torn torn r →
    (∀ q ∈ written («open» config (closed ++ [last])).nextLsn [] ops, Faithful q) →
    (ops.foldl apply («open» config (closed ++ [last]))).disk =
      readDir (closed ++ [last]) ++ written («open» config (closed ++ [last])).nextLsn [] ops := by
  intro all
  have claimed := all default [] tornSegment [] tornBytes tornWrite [.commit 1 1741612800000]
    tornSegment_holds tornBytes_torn
  rw [open_tornSegment] at claimed
  have disk : ([.commit 1 1741612800000].foldl apply
      (⟨default, [], tornSegment, [], 1, 1⟩ : WalWriter (SegmentFile (List UInt8)) _)).disk =
      (tornSegment.append commitAfter).readAll := by
    simp only [List.foldl_cons, List.foldl_nil, apply, commit, commitDrain, writeSync,
      List.nil_append]
    rw [writeRecord_fits _ _ (by decide +kernel)]
    simp [WalWriter.disk, dir, readDir, LogSegment.readAll]
    rfl
  have lost := claimed fun q hq => List.mem_singleton.mp hq ▸ commitAfter_faithful
  rw [disk] at lost
  have reread : (tornSegment.append commitAfter).readAll = [] := commit_behind_tornBytes
  rw [reread] at lost
  simp [written] at lost

/-- At the torn directory the commit is lost, or the bytes hold a frame nobody wrote. -/
theorem reopen_torn_commit :
    ([.commit 1 1741612800000].foldl apply («open» default ([] ++ [tornSegment]))).disk ≠
        readDir ([] ++ [tornSegment]) ++ [commitAfter] ∨
      ∃ first, first <+: [commitAfter] ∧ Misread tornBytes first := by
  have head : («open» default ([] ++ [tornSegment])).nextLsn = 1 := by rw [open_tornSegment]
  have drained : written («open» default ([] ++ [tornSegment])).nextLsn []
      [.commit 1 1741612800000] = [commitAfter] := by rw [head]; rfl
  have decided := (reopen_torn default [] tornSegment [] tornBytes tornWrite
    [.commit 1 1741612800000] tornSegment_holds tornBytes_torn
    (by rw [drained]; simpa using commitAfter_faithful)).2
  rw [drained] at decided
  by_cases back : ([.commit 1 1741612800000].foldl apply
      («open» default ([] ++ [tornSegment]))).disk = readDir ([] ++ [tornSegment]) ++ [commitAfter]
  · rcases decided back with none | none | misread
    · simp [tornBytes] at none
    · simp at none
    · exact .inr misread
  · exact .inl back

end TronDB.Wal
