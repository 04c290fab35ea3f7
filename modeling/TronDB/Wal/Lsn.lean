import TronDB.Lib.Run
import TronDB.Wal.Encoding
import TronDB.Wal.Session

/-! LSNs over any sequence of calls and reopens of one wal_dir. The head LSN is read off
the last segment alone, which rotation may have left empty. -/
namespace TronDB.Wal
open WalWriter

variable {P : Type} [WalPayload P]

inductive WalAction (P : Type) where
  | call (op : WalOp P)
  /-- Close, or crash, and open again. -/
  | reopen (config : WalConfig)

def walStep (w : WalWriter (WalSegment P) P) : WalAction P → WalWriter (WalSegment P) P
  | .call op => w.apply op
  | .reopen config => «open» config w.dir

def Ahead (w : WalWriter (WalSegment P) P) : Prop := ∀ r ∈ w.disk, r.lsn < w.nextLsn

/-- A reopen must find a record in the last segment, or none in any. -/
def ReopenGuard (w : WalWriter (WalSegment P) P) : WalAction P → Prop
  | .call _ => True
  | .reopen _ => w.segment.records = [] → w.disk = []

structure LsnInv (w : WalWriter (WalSegment P) P) : Prop where
  start : 0 < w.nextLsn
  stored : ∀ r ∈ w.disk, 0 < r.lsn
  buffered : ∀ r ∈ w.buffer, 0 < r.lsn ∧ r.lsn < w.nextLsn
  lastMax : ∀ last ∈ w.disk.getLast?, ∀ r ∈ w.disk, r.lsn ≤ last.lsn

theorem lsnInv_open_empty (config : WalConfig) :
    LsnInv («open» config [] : WalWriter (WalSegment P) P) := by
  have disk := disk_open (S := WalSegment P) config [] rfl
  have none : («open» config [] : WalWriter (WalSegment P) P).disk = [] := disk
  exact ⟨nextLsn_open config [], by simp [none], by simp [«open»], by simp [none]⟩

theorem lsnInv_call (w : WalWriter (WalSegment P) P) (op : WalOp P) (inv : LsnInv w)
    (ahead : Ahead w) : LsnInv (w.apply op) ∧ Ahead (w.apply op) := by
  cases op with
  | nextTxId => exact ⟨⟨inv.start, inv.stored, inv.buffered, inv.lastMax⟩, ahead⟩
  | append t collection txId schemaVer payload ts =>
    refine ⟨⟨Nat.succ_pos _, inv.stored, ?_, inv.lastMax⟩, fun r hr => Nat.lt_succ_of_lt (ahead r hr)⟩
    intro r hr
    rcases List.mem_append.mp hr with old | new
    · exact ⟨(inv.buffered r old).1, Nat.lt_succ_of_lt (inv.buffered r old).2⟩
    · cases List.mem_singleton.mp new
      exact ⟨inv.start, Nat.lt_succ_self _⟩
  | commit txId ts =>
    have disk : (w.apply (.commit txId ts)).disk =
        (w.disk ++ w.buffer) ++ [commitRecord w.nextLsn txId ts] := by
      rw [List.append_assoc]
      exact disk_commit w txId ts
    have next : (w.apply (.commit txId ts)).nextLsn = w.nextLsn + 1 := nextLsn_commit w txId ts
    have below : ∀ r ∈ w.disk ++ w.buffer, 0 < r.lsn ∧ r.lsn < w.nextLsn := by
      intro r hr
      rcases List.mem_append.mp hr with old | drained
      · exact ⟨inv.stored r old, ahead r old⟩
      · exact inv.buffered r drained
    have all : ∀ r ∈ (w.apply (.commit txId ts)).disk, 0 < r.lsn ∧ r.lsn ≤ w.nextLsn := by
      intro r hr
      rw [disk] at hr
      rcases List.mem_append.mp hr with old | new
      · exact ⟨(below r old).1, Nat.le_of_lt (below r old).2⟩
      · cases List.mem_singleton.mp new
        exact ⟨inv.start, Nat.le_refl _⟩
    refine ⟨⟨by rw [next]; exact Nat.succ_pos _, fun r hr => (all r hr).1, ?_, ?_⟩,
      fun r hr => by rw [next]; exact Nat.lt_succ_of_le (all r hr).2⟩
    · have empty : (w.apply (.commit txId ts)).buffer = [] := buffer_commit w txId ts
      simp [empty]
    · intro last isLast r hr
      rw [disk, List.getLast?_concat] at isLast
      cases Option.some.inj isLast
      exact (all r hr).2
  | checkpoint path ts =>
    have disk : (w.apply (.checkpoint path ts)).disk =
        w.disk ++ [checkpointRecord w.nextLsn path ts] := disk_checkpoint w path ts
    have all : ∀ r ∈ (w.apply (.checkpoint path ts)).disk, 0 < r.lsn ∧ r.lsn ≤ w.nextLsn := by
      intro r hr
      rw [disk] at hr
      rcases List.mem_append.mp hr with old | new
      · exact ⟨inv.stored r old, Nat.le_of_lt (ahead r old)⟩
      · cases List.mem_singleton.mp new
        exact ⟨inv.start, Nat.le_refl _⟩
    refine ⟨⟨Nat.succ_pos _, fun r hr => (all r hr).1, fun r hr =>
      ⟨(inv.buffered r hr).1, Nat.lt_succ_of_lt (inv.buffered r hr).2⟩, ?_⟩,
      fun r hr => Nat.lt_succ_of_le (all r hr).2⟩
    intro last isLast r hr
    rw [disk, List.getLast?_concat] at isLast
    cases Option.some.inj isLast
    exact (all r hr).2

theorem open_dir (config : WalConfig) (w : WalWriter (WalSegment P) P) :
    «open» config w.dir =
      { config, closed := w.closed, segment := w.segment, buffer := [],
        nextLsn := (w.segment.records.getLast?.map WalRecord.lsn).getD 0 + 1, nextTx := 1 } := by
  simp [«open», openOrCreateSegment, dir, LogSegment.readAll]

theorem ahead_reopen (config : WalConfig) (w : WalWriter (WalSegment P) P) (inv : LsnInv w) :
    Ahead («open» config w.dir) ↔ (w.segment.records = [] → w.disk = []) := by
  have disk : («open» config w.dir).disk = w.disk := disk_open config w.dir rfl
  have next : («open» config w.dir).nextLsn =
      (w.segment.records.getLast?.map WalRecord.lsn).getD 0 + 1 := by rw [open_dir]
  unfold Ahead
  rw [disk, next]
  cases found : w.segment.records.getLast? with
  | none =>
    have empty : w.segment.records = [] := List.getLast?_eq_none_iff.mp found
    constructor
    · intro ahead _
      refine List.eq_nil_iff_forall_not_mem.mpr fun r hr => ?_
      have zero := ahead r hr
      have positive := inv.stored r hr
      simp at zero
      omega
    · intro guard
      simp [guard empty]
  | some last =>
    have isLast : w.disk.getLast? = some last := by
      have split : w.disk = readDir w.closed ++ w.segment.records := by
        simp [WalWriter.disk, dir, readDir, LogSegment.readAll]
      have some : w.segment.records ≠ [] := by
        intro empty
        rw [empty] at found
        cases found
      rw [split, List.getLast?_append_of_ne_nil _ some, found]
    constructor
    · intro _ empty
      rw [empty] at found
      cases found
    · intro _ r hr
      exact Nat.lt_succ_of_le (inv.lastMax last isLast r hr)

theorem lsnInv_reopen (config : WalConfig) (w : WalWriter (WalSegment P) P) (inv : LsnInv w) :
    LsnInv («open» config w.dir) := by
  have disk : («open» config w.dir).disk = w.disk := disk_open config w.dir rfl
  exact ⟨nextLsn_open config w.dir, disk ▸ inv.stored, by simp [«open»], disk ▸ inv.lastMax⟩

/-- LSNs stay above the stored ones, and above the head LSN recovery reports, iff no
reopen meets an empty last segment behind stored records. -/
theorem lsn_ahead_iff (order : HashOrder (Nat × List (WalRecord P))) (config : WalConfig)
    (actions : List (WalAction P)) :
    (∀ w ∈ Run.visited walStep («open» config []) actions,
      (∀ r ∈ w.disk, r.lsn < w.nextLsn) ∧ (recover order w.dir).headLsn < w.nextLsn) ↔
    ∀ p ∈ Run.taken walStep («open» config []) actions, ReopenGuard p.1 p.2 := by
  have head (w : WalWriter (WalSegment P) P) (start : 0 < w.nextLsn) (ahead : Ahead w) :
      (recover order w.dir).headLsn < w.nextLsn := by
    have bound := (recover_headLsn order w.dir (w.nextLsn - 1)).mpr fun r hr =>
      Nat.le_sub_one_of_lt (ahead r hr)
    omega
  have exactly := Run.good_iff_guarded walStep LsnInv Ahead ReopenGuard actions (lsnInv_open_empty config)
    (by simp [Ahead, disk_open (S := WalSegment P) config [] rfl, readDir])
    (fun w a inv ahead _ => by
      cases a with
      | call op => exact (lsnInv_call w op inv ahead).1
      | reopen config => exact lsnInv_reopen config w inv)
    (fun w a inv ahead => by
      cases a with
      | call op => exact ⟨fun _ => trivial, fun _ => (lsnInv_call w op inv ahead).2⟩
      | reopen config => exact ahead_reopen config w inv)
  rw [← exactly]
  have start : ∀ w ∈ Run.visited walStep («open» config []) actions, 0 < w.nextLsn := by
    refine Run.invariant walStep actions (nextLsn_open (S := WalSegment P) config []) ?_
    intro w a start
    cases a with
    | call op => cases op <;> simp_all [walStep, apply, nextTxId, WalWriter.append]
    | reopen config => exact nextLsn_open config w.dir
  exact ⟨fun all w hw => (all w hw).1, fun all w hw => ⟨all w hw, head w (start w hw) (all w hw)⟩⟩

/-- Every record fills a segment: the rotation behind the commit leaves the last one
empty, and the next session starts over at LSN 1. -/
theorem lsn_restarts :
    ¬ ∀ (order : HashOrder (Nat × List (WalRecord (List UInt8)))) (config : WalConfig)
      (actions : List (WalAction (List UInt8))),
      ∀ w ∈ Run.visited walStep («open» config []) actions,
        (∀ r ∈ w.disk, r.lsn < w.nextLsn) ∧ (recover order w.dir).headLsn < w.nextLsn := by
  intro all
  have last := (all (HashOrder.insertionOrder _) ⟨64⟩ [.call (.commit 1 0), .reopen ⟨64⟩] _
    (Run.end_visited walStep _ _)).2
  revert last
  decide

end TronDB.Wal
