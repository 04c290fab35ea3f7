import TronDB.Wal.Recovery

/-! Histories of one wal_dir: sessions that open a writer, call it and stop or crash. Every
record a session hands out is paired with the calls that came after it, and what recovery
returns is stated over these pairs. -/
namespace TronDB.Wal

variable {P : Type}

inductive WalOp (P : Type) where
  | nextTxId
  | append (recordType : CallerType) (collection : String) (txId schemaVer : Nat) (payload : P)
      (ts : Int)
  | commit (txId : Nat) (ts : Int)
  | checkpoint (snapshotPath : String) (ts : Int)

namespace WalOp

def isCommit : WalOp P → Bool
  | .commit _ _ => true
  | _ => false

def isCommitOf (txId : Nat) : WalOp P → Bool
  | .commit t _ => t = txId
  | _ => false

def isCheckpoint : WalOp P → Bool
  | .checkpoint _ _ => true
  | _ => false

theorem isCommit_of_isCommitOf (txId : Nat) (op : WalOp P) (h : op.isCommitOf txId = true) :
    op.isCommit = true := by
  cases op <;> simp_all [isCommit, isCommitOf]

end WalOp

/-- A session: the configuration it opens the directory with, then its calls. What is
still buffered when it ends is lost. -/
structure WalSession (P : Type) where
  config : WalConfig
  ops : List (WalOp P)

/-- The records handed out by a list of calls, each with the calls that follow it. -/
def emitted [WalPayload P] (lsn : Nat) : List (WalOp P) → List (WalRecord P × List (WalOp P))
  | [] => []
  | .nextTxId :: later => emitted lsn later
  | .append t collection txId schemaVer payload ts :: later =>
    (⟨lsn, ts, txId, t, schemaVer, collection, payload⟩, later) :: emitted (lsn + 1) later
  | .commit txId ts :: later => (WalWriter.commitRecord lsn txId ts, later) :: emitted (lsn + 1) later
  | .checkpoint path ts :: later =>
    (WalWriter.checkpointRecord lsn path ts, later) :: emitted (lsn + 1) later

/-- The records handed to the segment files by a list of calls, in the order they are
written, when the buffer holds the given records at the start. -/
def written [WalPayload P] (lsn : Nat) (buffer : List (WalRecord P)) :
    List (WalOp P) → List (WalRecord P)
  | [] => []
  | .nextTxId :: later => written lsn buffer later
  | .append t collection txId schemaVer payload ts :: later =>
    written (lsn + 1)
      (buffer ++ [⟨lsn, ts, txId, t, schemaVer, collection, payload⟩]) later
  | .commit txId ts :: later =>
    buffer ++ [WalWriter.commitRecord lsn txId ts] ++ written (lsn + 1) [] later
  | .checkpoint path ts :: later =>
    WalWriter.checkpointRecord lsn path ts :: written (lsn + 1) buffer later

/-- The same, each record with the calls that follow its append. -/
def logged [WalPayload P] (lsn : Nat) (buffer : List (WalRecord P × List (WalOp P))) :
    List (WalOp P) → List (WalRecord P × List (WalOp P))
  | [] => []
  | .nextTxId :: later => logged lsn buffer later
  | .append t collection txId schemaVer payload ts :: later =>
    logged (lsn + 1) (buffer ++ [(⟨lsn, ts, txId, t, schemaVer, collection, payload⟩, later)]) later
  | .commit txId ts :: later =>
    buffer ++ [(WalWriter.commitRecord lsn txId ts, later)] ++ logged (lsn + 1) [] later
  | .checkpoint path ts :: later =>
    (WalWriter.checkpointRecord lsn path ts, later) :: logged (lsn + 1) buffer later

variable [WalPayload P]

def WalWriter.apply {S : Type} [LogSegment S P] (w : WalWriter S P) : WalOp P → WalWriter S P
  | .nextTxId => w.nextTxId.2
  | .append t collection txId schemaVer payload ts =>
    w.append t collection txId schemaVer payload ts
  | .commit txId ts => w.commit txId ts
  | .checkpoint path ts => w.checkpoint path ts

def WalSession.start (s : WalSession P) (dir : WalDir P) : WalWriter (WalSegment P) P := WalWriter.open s.config dir

def WalSession.leave (dir : WalDir P) (s : WalSession P) : WalDir P :=
  (s.ops.foldl WalWriter.apply (s.start dir)).dir

def history (sessions : List (WalSession P)) : WalDir P := sessions.foldl WalSession.leave []

/-- The records handed out by the sessions of a history that starts on the directory. -/
def historyEmitted (dir : WalDir P) : List (WalSession P) → List (WalRecord P × List (WalOp P))
  | [] => []
  | s :: rest => emitted (s.start dir).nextLsn s.ops ++ historyEmitted (s.leave dir) rest

/-- The log that the sessions of a history leave behind what is in the directory, record by record. -/
def historyLogged (dir : WalDir P) : List (WalSession P) → List (WalRecord P × List (WalOp P))
  | [] => []
  | s :: rest => logged (s.start dir).nextLsn [] s.ops ++ historyLogged (s.leave dir) rest

omit [WalPayload P] in
/-- Mutation records whose own transaction committed later in the session. -/
def committedLater (e : WalRecord P × List (WalOp P)) : Bool :=
  e.1.isMutation && e.2.any (WalOp.isCommitOf e.1.txId)

/-- LSN of the last checkpoint of a history, 0 when there is none. -/
def lastCheckpoint (sessions : List (WalSession P)) : Nat :=
  checkpointLsn ((historyEmitted [] sessions).map Prod.fst)

/-- Some session commits a transaction of this id after the last checkpoint. -/
def committedId (sessions : List (WalSession P)) (txId : Nat) : Bool :=
  commits (((historyEmitted [] sessions).map Prod.fst).filter fun r =>
    lastCheckpoint sessions < r.lsn) txId

/-! ### What reaches the disk -/

/-- The record is on disk when its session ends: the writer flushed it itself, or a commit
drained it. -/
def storedLater (e : WalRecord P × List (WalOp P)) : Bool :=
  e.1.recordType = .txCommit || e.1.recordType = .checkpoint || e.2.any WalOp.isCommit

theorem session_disk (chosen : WalRecord P → Bool)
    (noCheckpoint : ∀ r, r.recordType = .checkpoint → chosen r = false)
    (ops : List (WalOp P)) (w : WalWriter (WalSegment P) P) :
    (ops.foldl WalWriter.apply w).disk.filter chosen =
      w.disk.filter chosen ++ (if ops.any WalOp.isCommit then w.buffer.filter chosen else []) ++
        (((emitted w.nextLsn ops).filter storedLater).map Prod.fst).filter chosen := by
  induction ops generalizing w with
  | nil => simp [emitted]
  | cons op later ih =>
    rw [List.foldl_cons, ih (w.apply op)]
    cases op with
    | nextTxId => rfl
    | append t collection txId schemaVer payload ts =>
      obtain ⟨t, notCommit, notAbort, notCheckpoint⟩ := t
      by_cases drained : later.any WalOp.isCommit
      · simp [WalWriter.apply, WalWriter.append, emitted, storedLater, WalOp.isCommit, drained,
          WalWriter.disk, WalWriter.dir, ← List.filter_append]
      · simp [WalWriter.apply, WalWriter.append, emitted, storedLater, WalOp.isCommit, drained,
          notCommit, notCheckpoint, WalWriter.disk, WalWriter.dir]
    | commit txId ts =>
      have stored : storedLater (WalWriter.commitRecord (P := P) w.nextLsn txId ts, later) = true := by
        simp [storedLater, WalWriter.commitRecord]
      simp only [WalWriter.apply, WalWriter.disk_commit, WalWriter.buffer_commit,
        WalWriter.nextLsn_commit, emitted, List.filter_cons_of_pos stored]
      by_cases keep : chosen (WalWriter.commitRecord w.nextLsn txId ts) <;>
        simp [WalOp.isCommit, keep]
    | checkpoint path ts =>
      have stored :
          storedLater (WalWriter.checkpointRecord (P := P) w.nextLsn path ts, later) = true := by
        simp [storedLater, WalWriter.checkpointRecord]
      have skip : chosen (WalWriter.checkpointRecord w.nextLsn path ts) = false :=
        noCheckpoint _ rfl
      simp only [WalWriter.apply, WalWriter.disk_checkpoint, emitted,
        List.filter_cons_of_pos stored]
      simp [WalWriter.checkpoint, WalOp.isCommit, skip]

omit [WalPayload P] in
def isCheckpointRecord (r : WalRecord P) : Bool := r.recordType = .checkpoint

theorem session_checkpoints (ops : List (WalOp P)) (w : WalWriter (WalSegment P) P)
    (buffered : w.buffer.filter isCheckpointRecord = []) :
    (ops.foldl WalWriter.apply w).disk.filter isCheckpointRecord =
      w.disk.filter isCheckpointRecord ++
        ((emitted w.nextLsn ops).map Prod.fst).filter isCheckpointRecord := by
  induction ops generalizing w with
  | nil => simp [emitted]
  | cons op later ih =>
    rw [List.foldl_cons]
    cases op with
    | nextTxId => exact ih _ buffered
    | append t collection txId schemaVer payload ts =>
      have skip (r : WalRecord P) (h : r.recordType = t.1) : isCheckpointRecord r = false := by
        simp [isCheckpointRecord, h, t.2.2.2]
      rw [ih]
      · simp only [WalWriter.apply, WalWriter.disk_append, emitted, List.map_cons]
        rw [List.filter_cons_of_neg (by simp [skip])]
        rfl
      · simpa [WalWriter.apply, WalWriter.append, skip] using buffered
    | commit txId ts =>
      rw [ih _ (by simp [WalWriter.apply])]
      simp [WalWriter.apply, WalWriter.disk_commit, emitted, buffered, isCheckpointRecord,
        WalWriter.commitRecord]
    | checkpoint path ts =>
      have next := ih (w.checkpoint path ts) buffered
      have keep : isCheckpointRecord (WalWriter.checkpointRecord (P := P) w.nextLsn path ts) = true :=
        rfl
      rw [WalWriter.disk_checkpoint] at next
      simpa [WalWriter.apply, emitted, keep] using next

theorem history_filter (chosen : WalRecord P → Bool)
    (noCheckpoint : ∀ r, r.recordType = .checkpoint → chosen r = false)
    (sessions : List (WalSession P)) (dir : WalDir P) :
    (readDir (sessions.foldl WalSession.leave dir)).filter chosen =
      (readDir dir).filter chosen ++
        (((historyEmitted dir sessions).filter storedLater).map Prod.fst).filter chosen := by
  induction sessions generalizing dir with
  | nil => simp [historyEmitted]
  | cons s rest ih =>
    have here := session_disk chosen noCheckpoint s.ops (s.start dir)
    have disk : (s.start dir).disk = (readDir dir) := WalWriter.disk_open s.config dir rfl
    have buffer : (s.start dir).buffer = [] := rfl
    rw [List.foldl_cons, ih]
    simp only [disk, buffer, List.filter_nil, ite_self, List.append_nil] at here
    simp only [historyEmitted, List.filter_append, List.map_append, ← List.append_assoc]
    rw [← here]
    rfl

theorem history_checkpoints (sessions : List (WalSession P)) (dir : WalDir P) :
    (readDir (sessions.foldl WalSession.leave dir)).filter isCheckpointRecord =
      (readDir dir).filter isCheckpointRecord ++
        ((historyEmitted dir sessions).map Prod.fst).filter isCheckpointRecord := by
  induction sessions generalizing dir with
  | nil => simp [historyEmitted]
  | cons s rest ih =>
    have here := session_checkpoints s.ops (s.start dir) rfl
    have disk : (s.start dir).disk = (readDir dir) := WalWriter.disk_open s.config dir rfl
    rw [disk] at here
    rw [List.foldl_cons, ih]
    simp only [historyEmitted, List.filter_append, List.map_append, ← List.append_assoc]
    rw [← here]
    rfl

omit [WalPayload P] in
theorem checkpointLsn_filter (records : List (WalRecord P)) :
    checkpointLsn records =
      (((records.filter isCheckpointRecord).getLast?).map WalRecord.lsn).getD 0 := by
  unfold checkpointLsn
  rw [← List.head?_filter, List.filter_reverse, List.head?_reverse]
  rfl

theorem checkpointLsn_history (sessions : List (WalSession P)) :
    checkpointLsn (readDir (history sessions)) = lastCheckpoint sessions := by
  rw [lastCheckpoint, checkpointLsn_filter, checkpointLsn_filter, history, history_checkpoints]
  rfl

/-! ### The log in order -/

theorem session_logged (ops : List (WalOp P)) (w : WalWriter (WalSegment P) P)
    (buffer : List (WalRecord P × List (WalOp P))) (buffered : w.buffer = buffer.map Prod.fst) :
    (ops.foldl WalWriter.apply w).disk =
      w.disk ++ (logged w.nextLsn buffer ops).map Prod.fst := by
  induction ops generalizing w buffer with
  | nil => simp [logged]
  | cons op later ih =>
    rw [List.foldl_cons]
    cases op with
    | nextTxId => exact ih _ buffer buffered
    | append t collection txId schemaVer payload ts =>
      refine ih _ (buffer ++ [(⟨w.nextLsn, ts, txId, t, schemaVer, collection, payload⟩, later)]) ?_
      simp [WalWriter.apply, WalWriter.append, buffered]
    | commit txId ts =>
      rw [ih _ [] (by simp [WalWriter.apply])]
      simp [WalWriter.apply, WalWriter.disk_commit, logged, buffered]
    | checkpoint path ts =>
      have next := ih (w.checkpoint path ts) buffer buffered
      rw [WalWriter.disk_checkpoint] at next
      simpa [WalWriter.apply, logged] using next

theorem history_logged (sessions : List (WalSession P)) (dir : WalDir P) :
    readDir (sessions.foldl WalSession.leave dir) =
      readDir dir ++ (historyLogged dir sessions).map Prod.fst := by
  induction sessions generalizing dir with
  | nil => simp [historyLogged]
  | cons s rest ih =>
    have here := session_logged s.ops (s.start dir) [] rfl
    have disk : (s.start dir).disk = readDir dir := WalWriter.disk_open s.config dir rfl
    rw [disk] at here
    rw [List.foldl_cons, ih, historyLogged, List.map_append, ← List.append_assoc, ← here]
    rfl

theorem emitted_of_logged (ops : List (WalOp P)) (lsn : Nat)
    (buffer : List (WalRecord P × List (WalOp P))) (e : WalRecord P × List (WalOp P))
    (there : e ∈ logged lsn buffer ops) : e ∈ buffer ∨ e ∈ emitted lsn ops := by
  induction ops generalizing lsn buffer with
  | nil => cases there
  | cons op later ih =>
    cases op with
    | nextTxId => exact ih lsn buffer there
    | append t collection txId schemaVer payload ts =>
      rcases ih _ _ there with held | handed
      · rcases List.mem_append.mp held with held | own
        · exact .inl held
        · exact .inr (List.mem_singleton.mp own ▸ List.mem_cons_self)
      · exact .inr (List.mem_cons_of_mem _ handed)
    | commit txId ts =>
      simp only [logged, List.mem_append, List.mem_singleton] at there
      rcases there with (held | own) | later_
      · exact .inl held
      · exact .inr (own ▸ List.mem_cons_self)
      · rcases ih _ _ later_ with held | handed
        · cases held
        · exact .inr (List.mem_cons_of_mem _ handed)
    | checkpoint path ts =>
      rcases List.mem_cons.mp there with own | later_
      · exact .inr (own ▸ List.mem_cons_self)
      · exact (ih _ _ later_).imp_right (List.mem_cons_of_mem _)

theorem historyEmitted_of_logged (sessions : List (WalSession P)) (dir : WalDir P)
    (e : WalRecord P × List (WalOp P)) (there : e ∈ historyLogged dir sessions) :
    e ∈ historyEmitted dir sessions := by
  induction sessions generalizing dir with
  | nil => cases there
  | cons s rest ih =>
    refine List.mem_append.mpr ((List.mem_append.mp there).imp (fun here => ?_) (ih _))
    rcases emitted_of_logged s.ops _ [] e here with held | handed
    · cases held
    · exact handed

/-! ### The records a session hands out -/

theorem emitted_sound (ops : List (WalOp P)) (lsn : Nat) :
    ∀ e ∈ emitted lsn ops, lsn ≤ e.1.lsn ∧ e.1.recordType ≠ .txAbort := by
  induction ops generalizing lsn with
  | nil => simp [emitted]
  | cons op later ih =>
    have next : ∀ e ∈ emitted (lsn + 1) later, lsn ≤ e.1.lsn ∧ e.1.recordType ≠ .txAbort :=
      fun e he => ⟨Nat.le_of_succ_le (ih (lsn + 1) e he).1, (ih (lsn + 1) e he).2⟩
    cases op with
    | nextTxId => exact ih lsn
    | append t collection txId schemaVer payload ts =>
      exact List.forall_mem_cons.mpr ⟨⟨Nat.le_refl _, t.2.2.1⟩, next⟩
    | commit txId ts =>
      exact List.forall_mem_cons.mpr ⟨⟨Nat.le_refl _, nofun⟩, next⟩
    | checkpoint path ts =>
      exact List.forall_mem_cons.mpr ⟨⟨Nat.le_refl _, nofun⟩, next⟩

theorem emitted_later (ops : List (WalOp P)) (lsn : Nat) (e : WalRecord P × List (WalOp P))
    (he : e ∈ emitted lsn ops) : ∀ f ∈ emitted (e.1.lsn + 1) e.2, f ∈ emitted lsn ops := by
  induction ops generalizing lsn with
  | nil => simp [emitted] at he
  | cons op later ih =>
    cases op with
    | nextTxId => exact ih lsn he
    | append | commit | checkpoint =>
      simp only [emitted] at he ⊢
      rcases List.mem_cons.mp he with he | he
      · subst he
        exact fun f hf => List.mem_cons_of_mem _ hf
      · exact fun f hf => List.mem_cons_of_mem _ (ih (lsn + 1) he f hf)

theorem emitted_commit (ops : List (WalOp P)) (lsn txId : Nat)
    (commits : ops.any (WalOp.isCommitOf txId) = true) :
    ∃ e ∈ emitted lsn ops, e.1.recordType = .txCommit ∧ e.1.txId = txId := by
  induction ops generalizing lsn with
  | nil => simp at commits
  | cons op later ih =>
    rw [List.any_cons, Bool.or_eq_true] at commits
    have next (h : later.any (WalOp.isCommitOf txId) = true) := ih (lsn + 1) h
    cases op with
    | nextTxId =>
      rcases commits with h | h
      · cases h
      · exact ih lsn h
    | append | checkpoint =>
      rcases commits with h | h
      · cases h
      · obtain ⟨e, he, found⟩ := next h
        exact ⟨e, List.mem_cons_of_mem _ he, found⟩
    | commit t ts =>
      rcases commits with h | h
      · exact ⟨_, List.mem_cons_self, rfl, by simpa [WalOp.isCommitOf, WalWriter.commitRecord] using h⟩
      · obtain ⟨e, he, found⟩ := next h
        exact ⟨e, List.mem_cons_of_mem _ he, found⟩

theorem own_commit (ops : List (WalOp P)) (lsn : Nat) (e : WalRecord P × List (WalOp P))
    (he : e ∈ emitted lsn ops) (commits : e.2.any (WalOp.isCommitOf e.1.txId) = true) :
    ∃ f ∈ emitted lsn ops,
      f.1.recordType = .txCommit ∧ f.1.txId = e.1.txId ∧ e.1.lsn < f.1.lsn := by
  obtain ⟨f, hf, commit, own⟩ := emitted_commit e.2 (e.1.lsn + 1) e.1.txId commits
  exact ⟨f, emitted_later ops lsn e he f hf, commit, own, (emitted_sound _ _ f hf).1⟩

theorem historyEmitted_session (sessions : List (WalSession P)) (dir : WalDir P)
    (e : WalRecord P × List (WalOp P)) (he : e ∈ historyEmitted dir sessions) :
    ∃ ops lsn, 0 < lsn ∧ e ∈ emitted lsn ops ∧
      ∀ f ∈ emitted lsn ops, f ∈ historyEmitted dir sessions := by
  induction sessions generalizing dir with
  | nil => simp [historyEmitted] at he
  | cons s rest ih =>
    simp only [historyEmitted, List.mem_append] at he ⊢
    rcases he with he | he
    · exact ⟨s.ops, _, WalWriter.nextLsn_open s.config dir, he, fun f hf => .inl hf⟩
    · obtain ⟨ops, lsn, positive, own, sub⟩ := ih (s.leave dir) he
      exact ⟨ops, lsn, positive, own, fun f hf => .inr (sub f hf)⟩

theorem history_sound (sessions : List (WalSession P)) :
    ∀ r ∈ (readDir (history sessions)), 0 < r.lsn ∧ r.recordType ≠ .txAbort := by
  intro r hr
  have handed : ∃ e ∈ historyEmitted [] sessions, e.1 = r := by
    by_cases check : r.recordType = .checkpoint
    · have found : r ∈ (readDir (history sessions)).filter isCheckpointRecord :=
        List.mem_filter.mpr ⟨hr, by simpa [isCheckpointRecord] using check⟩
      rw [history, history_checkpoints] at found
      obtain ⟨e, he, rfl⟩ := List.mem_map.mp (List.mem_of_mem_filter found)
      exact ⟨e, he, rfl⟩
    · have found : r ∈ (readDir (history sessions)).filter fun q => !isCheckpointRecord q :=
        List.mem_filter.mpr ⟨hr, by simpa [isCheckpointRecord] using check⟩
      rw [history, history_filter _ (by simp [isCheckpointRecord])] at found
      obtain ⟨e, he, rfl⟩ := List.mem_map.mp (List.mem_of_mem_filter found)
      exact ⟨e, List.mem_of_mem_filter he, rfl⟩
  obtain ⟨e, he, rfl⟩ := handed
  obtain ⟨ops, lsn, positive, own, _⟩ := historyEmitted_session sessions [] e he
  obtain ⟨above, alive⟩ := emitted_sound ops lsn e own
  exact ⟨Nat.lt_of_lt_of_le positive above, alive⟩

end TronDB.Wal
