import TronDB.Wal.Committed

/-! Transactions that are open while a checkpoint record is written. Their buffered records
carry lower LSNs than the checkpoint and reach the disk behind it. -/
namespace TronDB.Wal

variable {P : Type} [WalPayload P]

omit [WalPayload P] in
/-- The calls commit the transaction after their last checkpoint. -/
def commitsLast (txId : Nat) : List (WalOp P) → Bool
  | [] => false
  | op :: later => (op.isCommitOf txId && !later.any WalOp.isCheckpoint) || commitsLast txId later

omit [WalPayload P] in
theorem any_commit_of_commitsLast (txId : Nat) (ops : List (WalOp P))
    (commits : commitsLast txId ops = true) : ops.any (WalOp.isCommitOf txId) = true := by
  induction ops with
  | nil => simp [commitsLast] at commits
  | cons op later ih =>
    simp only [commitsLast, Bool.or_eq_true, Bool.and_eq_true] at commits
    simp only [List.any_cons, Bool.or_eq_true]
    rcases commits with h | h
    · exact .inl h.1
    · exact .inr (ih h)

/-! ### The last checkpoint of a log -/

omit [WalPayload P] in
theorem checkpointLsn_append (xs ys : List (WalRecord P)) :
    checkpointLsn (xs ++ ys) =
      if ys.any isCheckpointRecord then checkpointLsn ys else checkpointLsn xs := by
  simp only [checkpointLsn_filter, List.filter_append]
  by_cases none : ys.filter isCheckpointRecord = []
  · have absent : ys.any isCheckpointRecord = false := by
      simpa [List.filter_eq_nil_iff] using none
    simp [none, absent]
  · have some : ys.any isCheckpointRecord = true := by
      obtain ⟨r, hr⟩ := List.exists_mem_of_ne_nil _ none
      obtain ⟨mem, check⟩ := List.mem_filter.mp hr
      exact List.any_eq_true.mpr ⟨r, mem, check⟩
    rw [if_pos some, List.getLast?_append_of_ne_nil _ none]

theorem emitted_any_checkpoint (ops : List (WalOp P)) (lsn : Nat) :
    ((emitted lsn ops).map Prod.fst).any isCheckpointRecord = ops.any WalOp.isCheckpoint := by
  induction ops generalizing lsn with
  | nil => rfl
  | cons op later ih =>
    cases op with
    | nextTxId => exact ih lsn
    | append t collection txId schemaVer payload ts =>
      simp [emitted, ih, WalOp.isCheckpoint, isCheckpointRecord, t.2.2.2]
    | commit | checkpoint =>
      simp [emitted, ih, WalOp.isCheckpoint, isCheckpointRecord, WalWriter.commitRecord,
        WalWriter.checkpointRecord]

omit [WalPayload P] in
theorem checkpointLsn_none (records : List (WalRecord P))
    (none : records.any isCheckpointRecord = false) : checkpointLsn records = 0 := by
  have empty : records.filter isCheckpointRecord = [] := by
    simpa [List.filter_eq_nil_iff] using none
  rw [checkpointLsn_filter, empty]
  rfl

omit [WalPayload P] in
theorem checkpointLsn_mem (records : List (WalRecord P))
    (some : records.any isCheckpointRecord = true) :
    ∃ r ∈ records, checkpointLsn records = r.lsn := by
  obtain ⟨r, mem, check⟩ := List.any_eq_true.mp some
  have found : records.filter isCheckpointRecord ≠ [] :=
    List.ne_nil_of_mem (List.mem_filter.mpr ⟨mem, check⟩)
  refine ⟨_, List.mem_of_mem_filter (List.getLast_mem found), ?_⟩
  rw [checkpointLsn_filter, List.getLast?_eq_some_getLast found]
  rfl

/-- A checkpoint handed out after a record has the higher LSN, and one handed out before
it the lower. -/
theorem checkpointLsn_emitted (ops : List (WalOp P)) (lsn : Nat) (positive : 0 < lsn)
    (e : WalRecord P × List (WalOp P)) (he : e ∈ emitted lsn ops)
    (mutation : e.1.isMutation = true) :
    checkpointLsn ((emitted lsn ops).map Prod.fst) < e.1.lsn ↔
      e.2.any WalOp.isCheckpoint = false := by
  induction ops generalizing lsn with
  | nil => simp [emitted] at he
  | cons op later ih =>
    have lower (r : WalRecord P) (h : r ∈ (emitted (lsn + 1) later).map Prod.fst) :
        lsn < r.lsn := by
      obtain ⟨f, hf, rfl⟩ := List.mem_map.mp h
      exact (emitted_sound later (lsn + 1) f hf).1
    -- the record handed out by `op`, and then the rest
    have step (r : WalRecord P) (atLsn : r.lsn = lsn)
        (he : e ∈ (r, later) :: emitted (lsn + 1) later) :
        checkpointLsn (((r, later) :: emitted (lsn + 1) later).map Prod.fst) < e.1.lsn ↔
          e.2.any WalOp.isCheckpoint = false := by
      have split := checkpointLsn_append [r] ((emitted (lsn + 1) later).map Prod.fst)
      have single : checkpointLsn [r] ≤ lsn ∧ (r.isMutation = true → checkpointLsn [r] = 0) := by
        by_cases check : r.recordType = .checkpoint
        · simp [checkpointLsn, check, atLsn, WalRecord.isMutation, RecordType.isControl]
        · simp [checkpointLsn, check]
      rw [emitted_any_checkpoint, List.singleton_append] at split
      rw [List.map_cons, split]
      rcases List.mem_cons.mp he with here | there
      · subst here
        by_cases check : later.any WalOp.isCheckpoint = true
        · rw [if_pos check]
          obtain ⟨q, hq, eq⟩ := checkpointLsn_mem ((emitted (lsn + 1) later).map Prod.fst)
            (by rw [emitted_any_checkpoint]; exact check)
          have above := lower q hq
          simp only [check, eq, atLsn]
          simp
          omega
        · rw [if_neg check, single.2 mutation, atLsn]
          simp [positive, Bool.not_eq_true _ ▸ check]
      · have rest := ih (lsn + 1) (Nat.succ_pos _) there
        by_cases check : later.any WalOp.isCheckpoint = true
        · rw [if_pos check]
          exact rest
        · rw [if_neg check]
          have above := lower e.1 (List.mem_map_of_mem there)
          have low : checkpointLsn ((emitted (lsn + 1) later).map Prod.fst) = 0 :=
            checkpointLsn_none _ (by rw [emitted_any_checkpoint]; exact Bool.not_eq_true _ ▸ check)
          rw [low] at rest
          exact ⟨fun _ => rest.mp (Nat.zero_lt_of_lt above), fun _ => by omega⟩
    cases op with
    | nextTxId => exact ih lsn positive he
    | append t collection txId schemaVer payload ts => exact step _ rfl he
    | commit txId ts => exact step _ rfl he
    | checkpoint path ts => exact step _ rfl he

/-! ### What recovery returns of the last session -/

theorem mem_recover_history (order : HashOrder (Nat × List (WalRecord P)))
    (sessions : List (WalSession P)) (r : WalRecord P) :
    r ∈ (recover order (history sessions)).records ↔
      r ∈ readDir (history sessions) ∧ lastCheckpoint sessions < r.lsn ∧ r.isMutation = true ∧
        committedId sessions r.txId = true := by
  have sound := history_sound sessions
  have spec := recover_perm order (history sessions) (fun q hq => (sound q hq).2)
    (fun q hq => (sound q hq).1)
  simp only [checkpointLsn_history, commits_history] at spec
  rw [spec.mem_iff, List.mem_filter]
  simp only [Bool.and_eq_true, decide_eq_true_eq, and_assoc]

theorem historyEmitted_append (sessions : List (WalSession P)) (s : WalSession P)
    (dir : WalDir P) :
    historyEmitted dir (sessions ++ [s]) = historyEmitted dir sessions ++
      emitted (s.start (sessions.foldl WalSession.leave dir)).nextLsn s.ops := by
  induction sessions generalizing dir with
  | nil => simp [historyEmitted]
  | cons first rest ih => simp [historyEmitted, ih]

theorem stored_readDir (sessions : List (WalSession P)) (e : WalRecord P × List (WalOp P))
    (he : e ∈ historyEmitted [] sessions) (mutation : e.1.isMutation = true)
    (stored : storedLater e = true) : e.1 ∈ readDir (history sessions) := by
  have disk := history_filter WalRecord.isMutation
    (by simp +contextual [WalRecord.isMutation, RecordType.isControl]) sessions []
  have found : e.1 ∈ (readDir (history sessions)).filter WalRecord.isMutation := by
    rw [history, disk]
    refine List.mem_append_right _ (List.mem_filter.mpr ⟨?_, mutation⟩)
    exact List.mem_map_of_mem (List.mem_filter.mpr ⟨he, stored⟩)
  exact List.mem_of_mem_filter found

/-- A committed record of the last session is recovered iff its LSN is above the last
checkpoint of the whole log. -/
theorem recovered_iff_above (order : HashOrder (Nat × List (WalRecord P)))
    (earlier : List (WalSession P)) (s : WalSession P) (e : WalRecord P × List (WalOp P))
    (he : e ∈ emitted (s.start (history earlier)).nextLsn s.ops)
    (mutation : e.1.isMutation = true)
    (committed : e.2.any (WalOp.isCommitOf e.1.txId) = true) :
    e.1 ∈ (recover order (history (earlier ++ [s]))).records ↔
      lastCheckpoint (earlier ++ [s]) < e.1.lsn := by
  have known : e ∈ historyEmitted [] (earlier ++ [s]) := by
    rw [historyEmitted_append]
    exact List.mem_append_right _ he
  have stored : storedLater e = true := by
    obtain ⟨op, hop, own⟩ := List.any_eq_true.mp committed
    have drained : e.2.any WalOp.isCommit = true :=
      List.any_eq_true.mpr ⟨op, hop, WalOp.isCommit_of_isCommitOf _ op own⟩
    simp [storedLater, drained]
  rw [mem_recover_history]
  constructor
  · exact fun h => h.2.1
  · exact fun above => ⟨stored_readDir _ e known mutation stored, above, mutation,
      committedLater_committedId _ e known committed above⟩

theorem lastCheckpoint_append (earlier : List (WalSession P)) (s : WalSession P) :
    lastCheckpoint (earlier ++ [s]) =
      if s.ops.any WalOp.isCheckpoint then
        checkpointLsn ((emitted (s.start (history earlier)).nextLsn s.ops).map Prod.fst)
      else lastCheckpoint earlier := by
  rw [lastCheckpoint, historyEmitted_append, List.map_append, checkpointLsn_append,
    emitted_any_checkpoint]
  rfl

/-- In any session on any directory: the records of the transactions that commit after the
last checkpoint are all recovered iff none of these records was appended before that
checkpoint, where a session without a checkpoint has to hand out LSNs above the
checkpoint it found. -/
theorem checkpoint_keeps_iff (order : HashOrder (Nat × List (WalRecord P)))
    (earlier : List (WalSession P)) (s : WalSession P) :
    (∀ e ∈ emitted (s.start (history earlier)).nextLsn s.ops,
      e.1.isMutation = true → commitsLast e.1.txId e.2 = true →
        e.1 ∈ (recover order (history (earlier ++ [s]))).records) ↔
    ∀ e ∈ emitted (s.start (history earlier)).nextLsn s.ops,
      e.1.isMutation = true → commitsLast e.1.txId e.2 = true →
        e.2.any WalOp.isCheckpoint = false ∧
          (s.ops.any WalOp.isCheckpoint = false → lastCheckpoint earlier < e.1.lsn) := by
  have positive := WalWriter.nextLsn_open s.config (history earlier)
  refine forall_congr' fun e => forall_congr' fun he => forall_congr' fun mutation =>
    forall_congr' fun commits => ?_
  have committed := any_commit_of_commitsLast _ _ commits
  rw [recovered_iff_above order earlier s e he mutation committed, lastCheckpoint_append]
  have place := checkpointLsn_emitted s.ops _ positive e he mutation
  by_cases check : s.ops.any WalOp.isCheckpoint = true
  · rw [if_pos check]
    exact ⟨fun above => ⟨place.mp above, fun none => absurd check (by simp [none])⟩,
      fun h => place.mpr h.1⟩
  · have none : s.ops.any WalOp.isCheckpoint = false := Bool.not_eq_true _ ▸ check
    have low := checkpointLsn_none ((emitted (s.start (history earlier)).nextLsn s.ops).map Prod.fst)
      (by rw [emitted_any_checkpoint]; exact none)
    have later : e.2.any WalOp.isCheckpoint = false :=
      place.mp (low ▸ Nat.lt_of_lt_of_le positive (emitted_sound s.ops _ e he).1)
    rw [if_neg check]
    exact ⟨fun above => ⟨later, fun _ => above⟩, fun h => h.2 none⟩

/-- Transaction 1 writes two entities, one on each side of a checkpoint, and commits. -/
def splitTransaction : WalSession (List UInt8) :=
  ⟨default, [.nextTxId, .append ⟨_, RecordType.entityWrite_appended⟩ "venues" 1 1 [1] 0,
    .checkpoint "snapshot" 0, .append ⟨_, RecordType.entityWrite_appended⟩ "venues" 1 1 [2] 0,
    .commit 1 0]⟩

theorem checkpoint_splits :
    ¬ ∀ (order : HashOrder (Nat × List (WalRecord (List UInt8))))
      (earlier : List (WalSession (List UInt8))) (s : WalSession (List UInt8)),
      ∀ e ∈ emitted (s.start (history earlier)).nextLsn s.ops,
        e.1.isMutation = true → commitsLast e.1.txId e.2 = true →
          e.1 ∈ (recover order (history (earlier ++ [s]))).records := by
  intro all
  have first := all (HashOrder.insertionOrder _) [] splitTransaction
  have lost : (⟨1, 0, 1, .entityWrite, 1, "venues", [1]⟩ : WalRecord (List UInt8)) ∉
      (recover (HashOrder.insertionOrder _) (history ([] ++ [splitTransaction]))).records := by
    decide +kernel
  refine lost (first (_, _) (List.mem_cons_self ..) rfl rfl)

end TronDB.Wal
