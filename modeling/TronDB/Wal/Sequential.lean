import TronDB.Wal.Recovery

/-! Transactions one after the other in a single session: recovery hands back everything
they logged, in order. -/
namespace TronDB.Wal

variable {P : Type} [WalPayload P]

/-- A record to be appended to the transaction at hand. -/
abbrev Entry (P : Type) := RecordType × P

namespace WalWriter

def appendAll (w : WalWriter (WalSegment P) P) (collection : String) (txId : Nat) (ts : Int)
    (entries : List (Entry P)) : WalWriter (WalSegment P) P :=
  entries.foldl (fun w entry => w.append entry.1 collection txId 1 entry.2 ts) w

/-- Opens a transaction: takes the next id and appends the begin record. -/
def beginTx (w : WalWriter (WalSegment P) P) (collection : String) (ts : Int) :
    WalWriter (WalSegment P) P :=
  w.nextTxId.2.append .txBegin collection w.nextTx 1 WalPayload.empty ts

/-- One whole transaction: begin, the entries, commit. -/
def transaction (w : WalWriter (WalSegment P) P) (collection : String) (ts : Int)
    (entries : List (Entry P)) : WalWriter (WalSegment P) P :=
  ((w.beginTx collection ts).appendAll collection w.nextTx ts entries).commit w.nextTx ts

end WalWriter

def entryRecords (lsn : Nat) (ts : Int) (txId : Nat) (collection : String) :
    List (Entry P) → List (WalRecord P)
  | [] => []
  | entry :: rest =>
    ⟨lsn, ts, txId, entry.1, 1, collection, entry.2⟩ :: entryRecords (lsn + 1) ts txId collection rest

def WalWriter.mutations (w : WalWriter (WalSegment P) P) : List (WalRecord P) :=
  w.disk.filter WalRecord.isMutation

/-- Nothing is buffered, the LSNs on disk ascend below the next one, and every mutation
record is committed. -/
structure Sequential (w : WalWriter (WalSegment P) P) : Prop where
  flushed : w.buffer = []
  next : 0 < w.nextLsn
  ascending : w.disk.Pairwise fun a b => a.lsn < b.lsn
  below : ∀ r ∈ w.disk, 0 < r.lsn ∧ r.lsn < w.nextLsn
  plain : ∀ r ∈ w.disk, r.recordType ≠ .txAbort ∧ r.recordType ≠ .checkpoint
  committed : ∀ r ∈ w.disk, r.isMutation → commits w.disk r.txId = true

theorem sequential_open (config : WalConfig) :
    Sequential (WalWriter.open config [] : WalWriter (WalSegment P) P) := by
  have empty : (WalWriter.open config [] : WalWriter (WalSegment P) P).disk = [] :=
    WalWriter.disk_open config [] rfl
  exact ⟨rfl, WalWriter.nextLsn_open config [], by simp [empty], by simp [empty], by simp [empty],
    by simp [empty]⟩

theorem mutations_open (config : WalConfig) :
    (WalWriter.open config [] : WalWriter (WalSegment P) P).mutations = [] := by
  have empty : (WalWriter.open config [] : WalWriter (WalSegment P) P).disk = [] :=
    WalWriter.disk_open config [] rfl
  simp [WalWriter.mutations, empty]

/-- Without checkpoints, recovery of a sequential log is its mutation records. -/
theorem recover_sequential (order : HashOrder (Nat × List (WalRecord P)))
    (w : WalWriter (WalSegment P) P) (seq : Sequential w) :
    (recover order w.dir).records = w.mutations := by
  have none : checkpointLsn w.disk = 0 := by
    unfold checkpointLsn
    rw [List.find?_eq_none.mpr]
    · rfl
    · intro r hr
      simpa using (seq.plain r (List.mem_reverse.mp hr)).2
  have found : (recover order w.dir).records.Perm w.mutations := by
    refine (recover_perm order w.dir (fun r hr => (seq.plain r hr).1)
      fun r hr => (seq.below r hr).1).trans (.of_eq ?_)
    rw [show readDir w.dir = w.disk from rfl, none]
    refine List.filter_congr fun r hr => ?_
    have positive := (seq.below r hr).1
    have all : (w.disk.filter fun q => 0 < q.lsn) = w.disk :=
      List.filter_eq_self.mpr fun q hq => decide_eq_true (seq.below q hq).1
    by_cases mutation : r.isMutation = true
    · simp [positive, mutation, all, seq.committed r hr mutation]
    · simp [mutation]
  have ascending : w.mutations.Pairwise fun a b => a.lsn < b.lsn := seq.ascending.filter _
  have distinct : ((recover order w.dir).records.map WalRecord.lsn).Nodup :=
    (found.map _).nodup_iff.mpr (List.pairwise_map.mpr (ascending.imp Nat.ne_of_lt))
  have sorted := (recover_sorted order w.dir).and (List.pairwise_map.mp distinct)
  exact List.Perm.eq_of_pairwise (fun a b _ _ ab ba => absurd ab (Nat.lt_asymm ba))
    (sorted.imp fun h => Nat.lt_of_le_of_ne h.1 h.2) ascending found

/-! ### What a transaction adds -/

omit [WalPayload P] in
theorem mem_entryRecords (entries : List (Entry P)) (lsn : Nat) (ts : Int) (txId : Nat)
    (collection : String) : ∀ r ∈ entryRecords lsn ts txId collection entries,
      r.txId = txId ∧ lsn ≤ r.lsn ∧ r.lsn < lsn + entries.length ∧
        ∃ e ∈ entries, r.recordType = e.1 := by
  induction entries generalizing lsn with
  | nil => simp [entryRecords]
  | cons e rest ih =>
    intro r hr
    rcases List.mem_cons.mp hr with rfl | hr
    · exact ⟨rfl, Nat.le_refl _, by simp, e, by simp, rfl⟩
    · obtain ⟨own, above, below, e', he', same⟩ := ih (lsn + 1) r hr
      refine ⟨own, by omega, ?_, e', List.mem_cons_of_mem _ he', same⟩
      rw [List.length_cons]
      omega

omit [WalPayload P] in
theorem ascending_entryRecords (entries : List (Entry P)) (lsn : Nat) (ts : Int) (txId : Nat)
    (collection : String) :
    (entryRecords lsn ts txId collection entries).Pairwise fun a b => a.lsn < b.lsn := by
  induction entries generalizing lsn with
  | nil => exact .nil
  | cons e rest ih =>
    refine .cons (fun r hr => ?_) (ih (lsn + 1))
    obtain ⟨_, above, _⟩ := mem_entryRecords rest (lsn + 1) ts txId collection r hr
    exact above

namespace WalWriter

theorem appendAll_spec (entries : List (Entry P)) (w : WalWriter (WalSegment P) P)
    (collection : String) (txId : Nat) (ts : Int) :
    (w.appendAll collection txId ts entries).disk = w.disk ∧
      (w.appendAll collection txId ts entries).buffer =
        w.buffer ++ entryRecords w.nextLsn ts txId collection entries ∧
      (w.appendAll collection txId ts entries).nextLsn = w.nextLsn + entries.length ∧
      (w.appendAll collection txId ts entries).nextTx = w.nextTx := by
  induction entries generalizing w with
  | nil => simp [appendAll, entryRecords]
  | cons e rest ih =>
    obtain ⟨disk, buffer, lsn, tx⟩ := ih (w.append e.1 collection txId 1 e.2 ts)
    refine ⟨disk, ?_, ?_, tx⟩
    · simp only [appendAll, List.foldl_cons] at buffer ⊢
      rw [buffer]
      simp [append, entryRecords]
    · simp only [appendAll, List.foldl_cons] at lsn ⊢
      rw [lsn, List.length_cons]
      simp only [append]
      omega

def transactionRecords (w : WalWriter (WalSegment P) P) (collection : String) (ts : Int)
    (entries : List (Entry P)) : List (WalRecord P) :=
  ⟨w.nextLsn, ts, w.nextTx, .txBegin, 1, collection, WalPayload.empty⟩ ::
    entryRecords (w.nextLsn + 1) ts w.nextTx collection entries ++
      [commitRecord (w.nextLsn + 1 + entries.length) w.nextTx ts]

theorem transaction_spec (w : WalWriter (WalSegment P) P) (flushed : w.buffer = [])
    (collection : String) (ts : Int) (entries : List (Entry P)) :
    (w.transaction collection ts entries).disk =
        w.disk ++ w.transactionRecords collection ts entries ∧
      (w.transaction collection ts entries).buffer = [] ∧
      (w.transaction collection ts entries).nextLsn = w.nextLsn + entries.length + 2 ∧
      (w.transaction collection ts entries).nextTx = w.nextTx + 1 := by
  obtain ⟨disk, buffer, lsn, tx⟩ :=
    appendAll_spec entries (w.beginTx collection ts) collection w.nextTx ts
  have started : (w.beginTx collection ts).buffer =
      [⟨w.nextLsn, ts, w.nextTx, .txBegin, 1, collection, WalPayload.empty⟩] := by
    simp [beginTx, append, nextTxId, flushed]
  have first : (w.beginTx collection ts).nextLsn = w.nextLsn + 1 := rfl
  refine ⟨?_, buffer_commit _ _ _, ?_, ?_⟩
  · rw [transaction, disk_commit, disk, buffer, lsn, started, first, transactionRecords]
    simp [beginTx, append, nextTxId, WalWriter.disk, dir]
  · rw [transaction, nextLsn_commit, lsn, first]
    omega
  · rw [transaction, commit]
    exact (writeSync_rest _ _).2.2.2.trans tx

end WalWriter

def Mutating (entries : List (Entry P)) : Prop := ∀ e ∈ entries, e.1.isControl = false

omit [WalPayload P] in
theorem mutations_entryRecords (entries : List (Entry P)) (mutating : Mutating entries)
    (lsn : Nat) (ts : Int) (txId : Nat) (collection : String) :
    (entryRecords lsn ts txId collection entries).filter WalRecord.isMutation =
      entryRecords lsn ts txId collection entries := by
  refine List.filter_eq_self.mpr fun r hr => ?_
  obtain ⟨_, _, _, e, he, same⟩ := mem_entryRecords entries lsn ts txId collection r hr
  simp [WalRecord.isMutation, same, mutating e he]

/-- A transaction on a sequential log leaves a sequential log with its records added. -/
theorem sequential_transaction (w : WalWriter (WalSegment P) P) (seq : Sequential w)
    (collection : String) (ts : Int) (entries : List (Entry P)) (mutating : Mutating entries) :
    Sequential (w.transaction collection ts entries) ∧
      (w.transaction collection ts entries).mutations =
        w.mutations ++ entryRecords (w.nextLsn + 1) ts w.nextTx collection entries := by
  obtain ⟨disk, buffer, lsn, _⟩ := w.transaction_spec seq.flushed collection ts entries
  have inside := mem_entryRecords entries (w.nextLsn + 1) ts w.nextTx collection
  have added : ∀ r ∈ w.transactionRecords collection ts entries,
      w.nextLsn ≤ r.lsn ∧ r.lsn < w.nextLsn + entries.length + 2 ∧
        r.recordType ≠ .txAbort ∧ r.recordType ≠ .checkpoint ∧ r.txId = w.nextTx := by
    intro r hr
    simp only [WalWriter.transactionRecords, List.cons_append, List.mem_cons, List.mem_append,
      List.not_mem_nil, or_false] at hr
    rcases hr with rfl | hr | rfl
    · refine ⟨Nat.le_refl _, by dsimp only; omega, ?_, ?_, rfl⟩
      · intro same
        cases same
      · intro same
        cases same
    · obtain ⟨own, above, below, e, he, same⟩ := inside r hr
      have mutation := mutating e he
      refine ⟨by omega, by omega, ?_, ?_, own⟩ <;> intro h <;>
        simp [← same, h, RecordType.isControl] at mutation
    · refine ⟨by simp only [WalWriter.commitRecord]; omega,
        by simp only [WalWriter.commitRecord]; omega, ?_, ?_, rfl⟩
      · intro same
        cases same
      · intro same
        cases same
  constructor
  · constructor
    · exact buffer
    · omega
    · rw [disk, List.pairwise_append]
      refine ⟨seq.ascending, ?_, fun a ha b hb =>
        Nat.lt_of_lt_of_le (seq.below a ha).2 (added b hb).1⟩
      rw [WalWriter.transactionRecords, List.cons_append]
      refine .cons (fun r hr => ?_) (List.pairwise_append.mpr
        ⟨ascending_entryRecords _ _ _ _ _, List.pairwise_singleton _ _, fun a ha b hb => ?_⟩)
      · rcases List.mem_append.mp hr with hr | hr
        · have := (inside r hr).2.1
          dsimp only
          omega
        · rw [List.mem_singleton.mp hr]
          simp only [WalWriter.commitRecord]
          omega
      · rw [List.mem_singleton.mp hb]
        exact (inside a ha).2.2.1
    · intro r hr
      rw [disk] at hr
      rw [lsn]
      rcases List.mem_append.mp hr with hr | hr
      · have := seq.below r hr
        omega
      · have := added r hr
        have := seq.next
        omega
    · intro r hr
      rw [disk] at hr
      rcases List.mem_append.mp hr with hr | hr
      · exact seq.plain r hr
      · exact ⟨(added r hr).2.2.1, (added r hr).2.2.2.1⟩
    · intro r hr mutation
      rw [disk] at hr ⊢
      rw [commits, List.any_append, Bool.or_eq_true]
      rcases List.mem_append.mp hr with hr | hr
      · exact .inl (seq.committed r hr mutation)
      · refine .inr (List.any_eq_true.mpr ⟨_, List.mem_append_right _ (List.mem_singleton_self _), ?_⟩)
        exact decide_eq_true ⟨rfl, (added r hr).2.2.2.2.symm⟩
  · rw [WalWriter.mutations, disk, List.filter_append, WalWriter.transactionRecords,
      List.filter_append, List.filter_cons_of_neg (by simp [WalRecord.isMutation, RecordType.isControl]),
      mutations_entryRecords entries mutating]
    simp [WalWriter.mutations, WalWriter.commitRecord, WalRecord.isMutation, RecordType.isControl]

end TronDB.Wal
