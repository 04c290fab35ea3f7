import Mathlib.Data.List.Nodup
import TronDB.Lib.Run
import TronDB.Wal.Checkpoint

/-! Concurrent commits. The buffer lock is released before the segment lock is taken, so a
commit is two steps, and the steps of any tasks may come in between. -/
namespace TronDB.Wal
open WalWriter

variable {P : Type} [WalPayload P]

/-- A call of commit past its first half. -/
structure PendingCommit (P : Type) where
  txId : Nat
  /-- Drained from the buffer, not written yet. -/
  batch : List (WalRecord P)
  /-- What the transaction had appended when it called commit, and its commit record. -/
  owed : List (WalRecord P)

structure CommitState (P : Type) where
  writer : WalWriter (WalSegment P) P
  inFlight : List (PendingCommit P)
  /-- Calls that have returned Ok. -/
  returned : List (PendingCommit P)
  /-- Every record handed out since the writer was opened. -/
  created : List (WalRecord P)

inductive CommitStep (P : Type) where
  | append (recordType : CallerType) (collection : String) (txId schemaVer : Nat) (payload : P)
      (ts : Int)
  | drain (txId : Nat) (ts : Int)
  /-- The commit at this position of `inFlight` takes the segment lock. -/
  | write (i : Nat)

def commitStep (s : CommitState P) : CommitStep P → CommitState P
  | .append t collection txId schemaVer payload ts =>
    { s with
      writer := s.writer.append t collection txId schemaVer payload ts
      created := s.created ++ [⟨s.writer.nextLsn, ts, txId, t, schemaVer, collection, payload⟩] }
  | .drain txId ts =>
    let (writer, batch) := s.writer.commitDrain txId ts
    let commit := commitRecord s.writer.nextLsn txId ts
    { s with
      writer
      inFlight := s.inFlight ++ [⟨txId, batch, s.created.filter (fun r => r.txId = txId) ++ [commit]⟩]
      created := s.created ++ [commit] }
  | .write i =>
    match s.inFlight[i]? with
    | none => s
    | some c =>
      { s with
        writer := s.writer.writeSync c.batch
        inFlight := s.inFlight.eraseIdx i
        returned := s.returned ++ [c] }

def commitStart (config : WalConfig) (dir : WalDir P) : CommitState P :=
  ⟨«open» config dir, [], [], []⟩

def Durable (s : CommitState P) : Prop := ∀ c ∈ s.returned, ∀ r ∈ c.owed, r ∈ s.writer.disk

/-- A commit may write only when no other commit in flight holds a record it owes. -/
def CommitGuard (s : CommitState P) : CommitStep P → Prop
  | .append .. | .drain .. => True
  | .write i => ∀ c ∈ s.inFlight[i]?, ∀ d ∈ s.inFlight.eraseIdx i, ∀ r ∈ d.batch,
      r ∈ c.owed → r ∈ s.writer.disk

/-- The records in memory: handed out, each held once, all below the next LSN. -/
structure Held (held created : List (WalRecord P)) (next : Nat) : Prop where
  nodup : (held.map WalRecord.lsn).Nodup
  below : ∀ r ∈ held, r.lsn < next
  known : ∀ r ∈ held, r ∈ created

omit [WalPayload P] in
theorem Held.add {old new created : List (WalRecord P)} {next : Nat} (held : Held old created next)
    (r : WalRecord P) (lsn : r.lsn = next) (added : new.Perm (r :: old)) :
    Held new (created ++ [r]) (next + 1) := by
  refine ⟨(added.map WalRecord.lsn).nodup_iff.mpr (List.nodup_cons.mpr ⟨?_, held.nodup⟩), ?_, ?_⟩
  · intro mem
    obtain ⟨q, hq, same⟩ := List.mem_map.mp mem
    have below := held.below q hq
    omega
  · intro q hq
    rcases List.mem_cons.mp (added.mem_iff.mp hq) with new | old
    · rw [new, lsn]
      exact Nat.lt_succ_self _
    · exact Nat.lt_succ_of_lt (held.below q old)
  · intro q hq
    rcases List.mem_cons.mp (added.mem_iff.mp hq) with new | old
    · exact List.mem_append_right _ (List.mem_singleton.mpr new)
    · exact List.mem_append_left _ (held.known q old)

/-- Where the records of a run are. -/
structure CommitInv (first : Nat) (before : List (WalRecord P)) (s : CommitState P) : Prop where
  /-- Every record handed out is buffered, drained or written. -/
  located : ∀ r ∈ s.created,
    r ∈ s.writer.buffer ∨ (∃ c ∈ s.inFlight, r ∈ c.batch) ∨ r ∈ s.writer.disk
  /-- What a commit in flight owes has left the buffer. -/
  drained : ∀ c ∈ s.inFlight, ∀ r ∈ c.owed, (∃ d ∈ s.inFlight, r ∈ d.batch) ∨ r ∈ s.writer.disk
  held : Held (s.writer.buffer ++ s.inFlight.flatMap PendingCommit.batch) s.created
    s.writer.nextLsn
  /-- The log grows at its end, by records of the run. -/
  disk : ∃ grown, s.writer.disk = before ++ grown ∧ ∀ r ∈ grown, r ∈ s.created
  made : ∀ r ∈ s.created, first ≤ r.lsn ∧ r.recordType ≠ .txAbort ∧ r.recordType ≠ .checkpoint
  next : first ≤ s.writer.nextLsn
  owed : ∀ c ∈ s.inFlight ++ s.returned,
    (∀ r ∈ c.owed, r.txId = c.txId ∧ first ≤ r.lsn) ∧ ∃ r ∈ c.owed, r.recordType = .txCommit

omit [WalPayload P] in
theorem Held.sub {old new created : List (WalRecord P)} {next : Nat} (held : Held old created next)
    (sub : new.Sublist old) : Held new created next :=
  ⟨held.nodup.sublist (sub.map _), fun r hr => held.below r (sub.subset hr),
    fun r hr => held.known r (sub.subset hr)⟩

theorem eraseIdx_split {α : Type} (xs : List α) (i : Nat) (x : α) (found : xs[i]? = some x) :
    ∃ front back, xs = front ++ x :: back ∧ xs.eraseIdx i = front ++ back := by
  obtain ⟨bound, eq⟩ := List.getElem?_eq_some_iff.mp found
  refine ⟨xs.take i, xs.drop (i + 1), ?_, List.eraseIdx_eq_take_drop_succ xs i⟩
  rw [← eq, ← List.drop_eq_getElem_cons bound, List.take_append_drop]

theorem commitInv_start (config : WalConfig) (dir : WalDir P) :
    CommitInv («open» config dir).nextLsn (readDir dir) (commitStart config dir) where
  located := by simp [commitStart]
  drained := by simp [commitStart]
  held := ⟨by simp [commitStart, «open»], by simp [commitStart, «open»], by simp [commitStart, «open»]⟩
  disk := ⟨[], by simpa [commitStart] using disk_open config dir rfl, by simp⟩
  made := by simp [commitStart]
  next := Nat.le_refl _
  owed := by simp [commitStart]

theorem commitInv_append (first : Nat) (before : List (WalRecord P)) (s : CommitState P)
    (t : CallerType) (collection : String) (txId schemaVer : Nat) (payload : P) (ts : Int)
    (inv : CommitInv first before s) :
    CommitInv first before (commitStep s (.append t collection txId schemaVer payload ts)) := by
  let r : WalRecord P := ⟨s.writer.nextLsn, ts, txId, t, schemaVer, collection, payload⟩
  have added : ((s.writer.buffer ++ [r]) ++ s.inFlight.flatMap PendingCommit.batch).Perm
      (r :: (s.writer.buffer ++ s.inFlight.flatMap PendingCommit.batch)) := by
    rw [List.append_assoc]
    exact List.perm_middle
  exact
    { located := by
        intro q hq
        rcases List.mem_append.mp hq with old | new
        · rcases inv.located q old with h | h | h
          · exact .inl (List.mem_append_left _ h)
          · exact .inr (.inl h)
          · exact .inr (.inr h)
        · exact .inl (List.mem_append_right _ new)
      drained := inv.drained
      held := inv.held.add r rfl added
      disk := by
        obtain ⟨grown, disk, own⟩ := inv.disk
        exact ⟨grown, disk, fun q hq => List.mem_append_left _ (own q hq)⟩
      made := by
        intro q hq
        rcases List.mem_append.mp hq with old | new
        · exact inv.made q old
        · cases List.mem_singleton.mp new
          exact ⟨inv.next, t.2.2.1, t.2.2.2⟩
      next := Nat.le_succ_of_le inv.next
      owed := inv.owed }

theorem commitInv_drain (first : Nat) (before : List (WalRecord P)) (s : CommitState P)
    (txId : Nat) (ts : Int) (inv : CommitInv first before s) :
    CommitInv first before (commitStep s (.drain txId ts)) := by
  let commit : WalRecord P := commitRecord s.writer.nextLsn txId ts
  let c : PendingCommit P := ⟨txId, s.writer.buffer ++ [commit],
    s.created.filter (fun r => r.txId = txId) ++ [commit]⟩
  have flat : (s.inFlight ++ [c]).flatMap PendingCommit.batch =
      s.inFlight.flatMap PendingCommit.batch ++ (s.writer.buffer ++ [commit]) := by
    simp [c]
  have added : ([] ++ (s.inFlight ++ [c]).flatMap PendingCommit.batch).Perm
      (commit :: (s.writer.buffer ++ s.inFlight.flatMap PendingCommit.batch)) := by
    rw [flat, List.nil_append, ← List.append_assoc]
    exact (List.perm_append_singleton _ _).trans (List.perm_append_comm.cons _)
  have place : ∀ q ∈ s.created ++ [commit],
      (∃ d ∈ s.inFlight ++ [c], q ∈ d.batch) ∨ q ∈ s.writer.disk := by
    intro q hq
    rcases List.mem_append.mp hq with old | new
    · rcases inv.located q old with h | ⟨d, hd, h⟩ | h
      · exact .inl ⟨c, by simp, List.mem_append_left _ h⟩
      · exact .inl ⟨d, List.mem_append_left _ hd, h⟩
      · exact .inr h
    · exact .inl ⟨c, by simp, List.mem_append_right _ new⟩
  exact
    { located := fun q hq => .inr (place q hq)
      drained := by
        intro d hd q hq
        rcases List.mem_append.mp hd with old | new
        · rcases inv.drained d old q hq with ⟨e, he, h⟩ | h
          · exact .inl ⟨e, List.mem_append_left _ he, h⟩
          · exact .inr h
        · cases List.mem_singleton.mp new
          refine place q ?_
          rcases List.mem_append.mp hq with h | h
          · exact List.mem_append_left _ (List.mem_of_mem_filter h)
          · exact List.mem_append_right _ h
      held := inv.held.add commit rfl added
      disk := by
        obtain ⟨grown, disk, own⟩ := inv.disk
        exact ⟨grown, disk, fun q hq => List.mem_append_left _ (own q hq)⟩
      made := by
        intro q hq
        rcases List.mem_append.mp hq with old | new
        · exact inv.made q old
        · cases List.mem_singleton.mp new
          exact ⟨inv.next, nofun, nofun⟩
      next := Nat.le_succ_of_le inv.next
      owed := by
        intro d hd
        have cases : d ∈ s.inFlight ++ s.returned ∨ d = c := by
          have split : d ∈ (s.inFlight ++ [c]) ++ s.returned := hd
          simp only [List.mem_append, List.mem_singleton] at split ⊢
          tauto
        rcases cases with old | new
        · exact inv.owed d old
        · subst new
          refine ⟨fun q hq => ?_, commit, List.mem_append_right _ (List.mem_singleton_self _), rfl⟩
          rcases List.mem_append.mp hq with h | h
          · obtain ⟨old, own⟩ := List.mem_filter.mp h
            exact ⟨by simpa using own, (inv.made q old).1⟩
          · cases List.mem_singleton.mp h
            exact ⟨rfl, inv.next⟩ }

theorem commitStep_write (s : CommitState P) (i : Nat) (c : PendingCommit P)
    (found : s.inFlight[i]? = some c) :
    commitStep s (.write i) =
      { s with
        writer := s.writer.writeSync c.batch
        inFlight := s.inFlight.eraseIdx i
        returned := s.returned ++ [c] } := by
  simp only [commitStep, found]

theorem commitInv_write (first : Nat) (before : List (WalRecord P)) (s : CommitState P)
    (i : Nat) (inv : CommitInv first before s) :
    CommitInv first before (commitStep s (.write i)) := by
  cases found : s.inFlight[i]? with
  | none => simpa only [commitStep, found] using inv
  | some c =>
    rw [commitStep_write s i c found]
    obtain ⟨front, back, split, erased⟩ := eraseIdx_split s.inFlight i c found
    obtain ⟨_, buffer, nextLsn, _⟩ := writeSync_rest s.writer c.batch
    have disk := disk_writeSync s.writer c.batch
    have batch : ∀ r, (∃ d ∈ s.inFlight, r ∈ d.batch) →
        (∃ d ∈ front ++ back, r ∈ d.batch) ∨ r ∈ (s.writer.writeSync c.batch).disk := by
      rintro r ⟨d, hd, hr⟩
      rw [split, List.mem_append, List.mem_cons] at hd
      rcases hd with hd | rfl | hd
      · exact .inl ⟨d, List.mem_append_left _ hd, hr⟩
      · exact .inr (disk ▸ List.mem_append_right _ hr)
      · exact .inl ⟨d, List.mem_append_right _ hd, hr⟩
    have kept : ∀ r ∈ s.writer.disk, r ∈ (s.writer.writeSync c.batch).disk :=
      fun r hr => disk ▸ List.mem_append_left _ hr
    have mine : c ∈ s.inFlight := split ▸ List.mem_append_right _ List.mem_cons_self
    exact
      { located := by
          intro r hr
          rcases inv.located r hr with h | h | h
          · exact .inl (buffer ▸ h)
          · exact .inr (erased ▸ batch r h)
          · exact .inr (.inr (kept r h))
        drained := by
          intro d hd r hr
          have old : d ∈ s.inFlight := List.mem_of_mem_eraseIdx hd
          rcases inv.drained d old r hr with h | h
          · exact erased ▸ batch r h
          · exact .inr (kept r h)
        held := by
          simp only [buffer, nextLsn, erased]
          refine inv.held.sub (List.Sublist.append_left ?_ _)
          rw [split, List.flatMap_append, List.flatMap_append, List.flatMap_cons]
          exact List.Sublist.append_left (List.sublist_append_right _ _) _
        disk := by
          obtain ⟨grown, all, own⟩ := inv.disk
          refine ⟨grown ++ c.batch, by rw [disk, all, List.append_assoc], fun r hr => ?_⟩
          rcases List.mem_append.mp hr with h | h
          · exact own r h
          · exact inv.held.known r
              (List.mem_append_right _ (List.mem_flatMap.mpr ⟨c, mine, h⟩))
        made := inv.made
        next := nextLsn ▸ inv.next
        owed := by
          intro d hd
          refine inv.owed d ?_
          simp only [List.mem_append, List.mem_singleton] at hd ⊢
          rcases hd with h | h | rfl
          · exact .inl (List.mem_of_mem_eraseIdx h)
          · exact .inr h
          · exact .inl mine }

theorem commitInv_step (first : Nat) (before : List (WalRecord P)) (s : CommitState P)
    (a : CommitStep P) (inv : CommitInv first before s) :
    CommitInv first before (commitStep s a) := by
  cases a with
  | append t collection txId schemaVer payload ts =>
    exact commitInv_append first before s t collection txId schemaVer payload ts inv
  | drain txId ts => exact commitInv_drain first before s txId ts inv
  | write i => exact commitInv_write first before s i inv

theorem durable_write (first : Nat) (before : List (WalRecord P)) (s : CommitState P) (i : Nat)
    (inv : CommitInv first before s) (durable : Durable s) :
    Durable (commitStep s (.write i)) ↔ CommitGuard s (.write i) := by
  cases found : s.inFlight[i]? with
  | none => simp [commitStep, CommitGuard, found, durable]
  | some c =>
    rw [commitStep_write s i c found]
    obtain ⟨front, back, split, erased⟩ := eraseIdx_split s.inFlight i c found
    have disk := disk_writeSync s.writer c.batch
    have mine : c ∈ s.inFlight := split ▸ List.mem_append_right _ List.mem_cons_self
    have exactly : Durable
        { s with
          writer := s.writer.writeSync c.batch
          inFlight := s.inFlight.eraseIdx i
          returned := s.returned ++ [c] } ↔ ∀ r ∈ c.owed, r ∈ s.writer.disk ∨ r ∈ c.batch := by
      simp only [Durable, disk, List.mem_append, List.mem_singleton]
      exact ⟨fun all => all c (.inr rfl), fun own d hd r hr => by
        rcases hd with old | rfl
        · exact .inl (durable d old r hr)
        · exact own r hr⟩
    rw [exactly]
    simp only [CommitGuard, found, Option.mem_def, Option.some.injEq, forall_eq', erased]
    constructor
    · intro own d hd r hr owes
      rcases own r owes with h | h
      · exact h
      · -- the same record cannot be in two batches
        exfalso
        have held := inv.held.nodup
        rw [split, List.map_append] at held
        have apart := (List.nodup_append.mp held).2.1
        simp only [List.flatMap_append, List.flatMap_cons, List.map_append] at apart
        have lsn (e : PendingCommit P) (xs : List (PendingCommit P)) (he : e ∈ xs) (h : r ∈ e.batch) :
            r.lsn ∈ (xs.flatMap PendingCommit.batch).map WalRecord.lsn :=
          List.mem_map_of_mem (List.mem_flatMap.mpr ⟨e, he, h⟩)
        have here : r.lsn ∈ c.batch.map WalRecord.lsn := List.mem_map_of_mem h
        obtain ⟨_, right, disjoint⟩ := List.nodup_append.mp apart
        rcases List.mem_append.mp hd with hd | hd
        · exact disjoint _ (lsn d front hd hr) _ (List.mem_append_left _ here) rfl
        · exact (List.nodup_append.mp right).2.2 _ here _ (lsn d back hd hr) rfl
    · intro guard r owes
      rcases inv.drained c mine r owes with ⟨d, hd, hr⟩ | h
      · rw [split, List.mem_append, List.mem_cons] at hd
        rcases hd with hd | rfl | hd
        · exact .inl (guard d (List.mem_append_left _ hd) r hr owes)
        · exact .inr hr
        · exact .inl (guard d (List.mem_append_right _ hd) r hr owes)
      · exact .inl h

/-- A durable transaction is recovered whole from a directory left by earlier sessions,
when the writer resumed above their last checkpoint. -/
theorem durable_recovered (order : HashOrder (Nat × List (WalRecord P)))
    (earlier : List (WalSession P)) (first : Nat) (s : CommitState P)
    (inv : CommitInv first (readDir (history earlier)) s) (c : PendingCommit P)
    (returned : c ∈ s.returned) (stored : ∀ r ∈ c.owed, r ∈ s.writer.disk)
    (resumed : lastCheckpoint earlier < first) :
    ∀ r ∈ c.owed, r.isMutation = true → r ∈ (recover order s.writer.dir).records := by
  obtain ⟨grown, disk, made⟩ := inv.disk
  have sound : ∀ r ∈ readDir s.writer.dir, 0 < r.lsn ∧ r.recordType ≠ .txAbort := by
    intro r hr
    have mem : r ∈ readDir (history earlier) ++ grown := disk ▸ hr
    rcases List.mem_append.mp mem with old | new
    · exact history_sound earlier r old
    · obtain ⟨above, alive, _⟩ := inv.made r (made r new)
      exact ⟨by omega, alive⟩
  have horizon : checkpointLsn (readDir s.writer.dir) = lastCheckpoint earlier := by
    have none : grown.any isCheckpointRecord = false := by
      rw [List.any_eq_false]
      intro r hr
      simpa [isCheckpointRecord] using (inv.made r (made r hr)).2.2
    have all : readDir s.writer.dir = readDir (history earlier) ++ grown := disk
    rw [all, checkpointLsn_append, none, ← checkpointLsn_history]
    rfl
  obtain ⟨own, commit, hcommit, isCommit⟩ :=
    inv.owed c (List.mem_append_right _ returned)
  intro r hr mutation
  have spec := recover_perm order s.writer.dir (fun q hq => (sound q hq).2)
    (fun q hq => (sound q hq).1)
  rw [spec.mem_iff, List.mem_filter, horizon]
  refine ⟨stored r hr, ?_⟩
  have above : lastCheckpoint earlier < r.lsn := Nat.lt_of_lt_of_le resumed (own r hr).2
  have committed : commits ((readDir s.writer.dir).filter fun q => lastCheckpoint earlier < q.lsn)
      r.txId = true :=
    List.any_eq_true.mpr ⟨commit, List.mem_filter.mpr ⟨stored commit hcommit,
      decide_eq_true (Nat.lt_of_lt_of_le resumed (own commit hcommit).2)⟩,
      decide_eq_true ⟨isCommit, (own commit hcommit).1.trans (own r hr).1.symm⟩⟩
  simp [above, mutation, committed]

/-- Over any interleaving: every returned commit has all it owes on disk in every state iff
no commit ever writes while another task still holds, drained and unwritten, a record of
its transaction. What is on disk is recovered, where the writer resumed above the last
checkpoint it found. -/
theorem commit_durable_iff (order : HashOrder (Nat × List (WalRecord P))) (config : WalConfig)
    (earlier : List (WalSession P)) (steps : List (CommitStep P)) :
    ((∀ s ∈ Run.visited commitStep (commitStart config (history earlier)) steps, Durable s) ↔
      ∀ p ∈ Run.taken commitStep (commitStart config (history earlier)) steps,
        CommitGuard p.1 p.2) ∧
    (lastCheckpoint earlier < («open» config (history earlier)).nextLsn →
      ∀ s ∈ Run.visited commitStep (commitStart config (history earlier)) steps,
        Durable s → ∀ c ∈ s.returned, ∀ r ∈ c.owed, r.isMutation = true →
          r ∈ (recover order s.writer.dir).records) := by
  have initial := commitInv_start config (history earlier)
  have invs := Run.invariant commitStep steps initial (commitInv_step _ _)
  constructor
  · refine Run.good_iff_guarded commitStep _ Durable CommitGuard steps initial ?_
      (fun s a inv _ _ => commitInv_step _ _ s a inv) ?_
    · simp [Durable, commitStart]
    · intro s a inv durable
      cases a with
      | append t collection txId schemaVer payload ts => exact ⟨fun _ => trivial, fun _ => durable⟩
      | drain txId ts => exact ⟨fun _ => trivial, fun _ => durable⟩
      | write i => exact durable_write _ _ s i inv durable
  · intro resumed s hs durable c returned
    exact durable_recovered order earlier _ s (invs s hs) c returned (durable c returned) resumed

/-- Transaction 1 appends; transaction 2 drains the buffer; transaction 1 commits, writing
its commit record alone, and returns. -/
def overtaken : List (CommitStep (List UInt8)) :=
  [.append ⟨_, RecordType.entityWrite_appended⟩ "venues" 1 1 [7] 0, .drain 2 0, .drain 1 0, .write 1]

theorem commit_overtaken :
    ¬ ∀ (config : WalConfig) (earlier : List (WalSession (List UInt8)))
      (steps : List (CommitStep (List UInt8))),
      ∀ s ∈ Run.visited commitStep (commitStart config (history earlier)) steps, Durable s := by
  intro all
  have durable := all default [] overtaken _ (Run.end_visited commitStep _ _)
  have lost : ¬ ∀ c ∈ (overtaken.foldl commitStep (commitStart default (history []))).returned,
      ∀ r ∈ c.owed, r ∈ (overtaken.foldl commitStep (commitStart default (history []))).writer.disk := by
    decide +kernel
  exact lost durable

end TronDB.Wal
