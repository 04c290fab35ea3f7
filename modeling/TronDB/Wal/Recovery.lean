import Mathlib.Data.List.Sort
import TronDB.Wal.Writer

/-! Recovery of the committed mutation records from the segment files. The groups live in
a hash map, so the order they come out in is a parameter. -/
namespace TronDB.Wal

variable {S P : Type}

/-- The order in which a hash map hands its entries out. -/
structure HashOrder (α : Type) where
  order : List α → List α
  perm : ∀ entries, (order entries).Perm entries

def HashOrder.insertionOrder (α : Type) : HashOrder α := ⟨id, fun _ => .refl _⟩

/-- tx_records and committed_txs of the grouping loop. -/
structure TxGroups (P : Type) where
  txRecords : List (Nat × List (WalRecord P))
  committedTxs : List Nat

/-- The entry of one transaction, created when absent and extended by the given records. -/
def extendEntry (txId : Nat) (records : List (WalRecord P)) :
    List (Nat × List (WalRecord P)) → List (Nat × List (WalRecord P))
  | [] => [(txId, records)]
  | (k, old) :: rest =>
    if k = txId then (k, old ++ records) :: rest
    else (k, old) :: extendEntry txId records rest

def TxGroups.add (g : TxGroups P) (r : WalRecord P) : TxGroups P :=
  match r.recordType with
  | .txCommit => { g with committedTxs := g.committedTxs.insert r.txId }
  | .txAbort => { g with txRecords := g.txRecords.filter fun e => e.1 ≠ r.txId }
  | .txBegin | .checkpoint => { g with txRecords := extendEntry r.txId [] g.txRecords }
  | _ => { g with txRecords := extendEntry r.txId [r] g.txRecords }

/-- LSN of the last checkpoint record of a log, 0 when it has none. -/
def checkpointLsn (records : List (WalRecord P)) : Nat :=
  ((records.reverse.find? fun r => r.recordType = .checkpoint).map WalRecord.lsn).getD 0

def replayRecords (checkpoint : Nat) (records : List (WalRecord P)) : List (WalRecord P) :=
  if checkpoint = 0 then records else records.filter fun r => checkpoint < r.lsn

structure RecoveryResult (P : Type) where
  records : List (WalRecord P)
  headLsn : Nat
  checkpointLsn : Nat
  deriving DecidableEq, Repr

/-- The early returns of the source, for a directory that is missing, has no segments or
holds no records, give what the general path gives on an empty list. Any stable sort gives
the order of `insertionSort`. -/
def recover [LogSegment S P] (order : HashOrder (Nat × List (WalRecord P))) (dir : List S) :
    RecoveryResult P :=
  let allRecords := readDir dir
  let checkpoint := checkpointLsn allRecords
  let groups := (replayRecords checkpoint allRecords).foldl TxGroups.add ⟨[], []⟩
  let committed := (order.order groups.txRecords).filter fun e => groups.committedTxs.contains e.1
  { records := (committed.flatMap Prod.snd).insertionSort fun a b => a.lsn ≤ b.lsn
    headLsn := (allRecords.map WalRecord.lsn).foldl max 0
    checkpointLsn := checkpoint }

/-- A commit record of the transaction is among the records. -/
def commits (records : List (WalRecord P)) (txId : Nat) : Bool :=
  records.any fun r => r.recordType = .txCommit ∧ r.txId = txId

/-- The mutation records left once every abort has removed what its transaction wrote
before it. -/
def keepRecord (kept : List (WalRecord P)) (r : WalRecord P) : List (WalRecord P) :=
  if r.recordType = .txAbort then kept.filter fun q => q.txId ≠ r.txId
  else if r.isMutation then kept ++ [r] else kept

theorem flatMap_extendEntry (txId : Nat) (records : List (WalRecord P))
    (entries : List (Nat × List (WalRecord P))) :
    ((extendEntry txId records entries).flatMap Prod.snd).Perm
      (entries.flatMap Prod.snd ++ records) := by
  induction entries with
  | nil => simp [extendEntry]
  | cons e rest ih =>
    obtain ⟨k, old⟩ := e
    by_cases same : k = txId
    · simp only [extendEntry, same, if_true, List.flatMap_cons, List.append_assoc]
      exact List.Perm.append_left old List.perm_append_comm
    · simp only [extendEntry, same, if_false, List.flatMap_cons, List.append_assoc]
      exact List.Perm.append_left old ih

/-- Every record sits in the entry of its own transaction. -/
def Filed (entries : List (Nat × List (WalRecord P))) : Prop :=
  ∀ e ∈ entries, ∀ r ∈ e.2, r.txId = e.1

theorem filed_extendEntry (txId : Nat) (records : List (WalRecord P))
    (entries : List (Nat × List (WalRecord P))) (filed : Filed entries)
    (own : ∀ r ∈ records, r.txId = txId) : Filed (extendEntry txId records entries) := by
  induction entries with
  | nil => simpa [extendEntry, Filed] using own
  | cons e rest ih =>
    obtain ⟨k, old⟩ := e
    have hrest : Filed rest := fun e he => filed e (List.mem_cons_of_mem _ he)
    have hold : ∀ r ∈ old, r.txId = k := filed (k, old) List.mem_cons_self
    by_cases same : k = txId
    · simp only [extendEntry, same, if_true]
      intro e he r hr
      rcases List.mem_cons.mp he with he | he
      · subst he
        rcases List.mem_append.mp hr with hr | hr
        · exact (hold r hr).trans same
        · exact own r hr
      · exact hrest e he r hr
    · simp only [extendEntry, same, if_false]
      intro e he r hr
      rcases List.mem_cons.mp he with he | he
      · subst he
        exact hold r hr
      · exact ih hrest e he r hr

theorem flatMap_filter_filed (p : Nat → Bool) (entries : List (Nat × List (WalRecord P)))
    (filed : Filed entries) :
    (entries.filter fun e => p e.1).flatMap Prod.snd =
      (entries.flatMap Prod.snd).filter fun r => p r.txId := by
  induction entries with
  | nil => rfl
  | cons e rest ih =>
    have hrest := ih fun e he => filed e (List.mem_cons_of_mem _ he)
    have own : ∀ r ∈ e.2, r.txId = e.1 := filed e List.mem_cons_self
    have here : (e.2.filter fun r => p r.txId) = if p e.1 then e.2 else [] := by
      split
      · rename_i hp
        exact List.filter_eq_self.mpr fun r hr => by rw [own r hr]; exact hp
      · rename_i hp
        exact List.filter_eq_nil_iff.mpr fun r hr => by rw [own r hr]; exact hp
    by_cases hp : p e.1 <;> simp [hp, here, hrest]

/-- What the grouping loop knows after the records seen so far. -/
structure Grouped (seen : List (WalRecord P)) (g : TxGroups P) : Prop where
  filed : Filed g.txRecords
  kept : (g.txRecords.flatMap Prod.snd).Perm (seen.foldl keepRecord [])
  committed : ∀ txId, g.committedTxs.contains txId = commits seen txId

theorem commits_append (xs ys : List (WalRecord P)) (txId : Nat) :
    commits (xs ++ ys) txId = (commits xs txId || commits ys txId) := List.any_append

theorem grouped_add (seen : List (WalRecord P)) (g : TxGroups P) (r : WalRecord P)
    (grouped : Grouped seen g) : Grouped (seen ++ [r]) (g.add r) := by
  have noCommit : r.recordType ≠ .txCommit → ∀ t, commits (seen ++ [r]) t = commits seen t := by
    intro h t
    simp [commits, h]
  have extended (rs : List (WalRecord P)) (own : ∀ q ∈ rs, q.txId = r.txId)
      (kept : keepRecord (seen.foldl keepRecord []) r = seen.foldl keepRecord [] ++ rs)
      (h : r.recordType ≠ .txCommit) :
      Grouped (seen ++ [r]) { g with txRecords := extendEntry r.txId rs g.txRecords } :=
    { filed := filed_extendEntry _ _ _ grouped.filed own
      kept := by
        rw [List.foldl_append, List.foldl_cons, List.foldl_nil, kept]
        exact (flatMap_extendEntry _ _ _).trans (grouped.kept.append_right _)
      committed := fun t => (grouped.committed t).trans (noCommit h t).symm }
  cases hr : r.recordType
  case txCommit =>
    simp only [TxGroups.add, hr]
    exact
      { filed := grouped.filed
        kept := by
          simpa [keepRecord, hr, WalRecord.isMutation, RecordType.isControl] using grouped.kept
        committed := fun t => by
          have ht : commits [r] t = decide (r.txId = t) := by simp [commits, hr]
          simp [commits_append, ht, ← grouped.committed t, List.contains_eq_mem, eq_comm,
            Bool.or_comm] }
  case txAbort =>
    simp only [TxGroups.add, hr]
    refine ⟨fun e he => grouped.filed e (List.mem_of_mem_filter he), ?_, fun t =>
      (grouped.committed t).trans (noCommit (by simp [hr]) t).symm⟩
    have chosen := flatMap_filter_filed (fun k => decide (k ≠ r.txId)) g.txRecords grouped.filed
    simp only [List.foldl_append, List.foldl_cons, List.foldl_nil, keepRecord, hr, if_true]
    rw [chosen]
    exact grouped.kept.filter _
  case txBegin | checkpoint =>
    simp only [TxGroups.add, hr]
    exact extended [] (by simp) (by simp [keepRecord, hr, WalRecord.isMutation,
      RecordType.isControl]) (by simp [hr])
  all_goals
    simp only [TxGroups.add, hr]
    exact extended [r] (by simp) (by simp [keepRecord, hr, WalRecord.isMutation,
      RecordType.isControl]) (by simp [hr])

theorem grouped_foldl (records seen : List (WalRecord P)) (g : TxGroups P)
    (grouped : Grouped seen g) : Grouped (seen ++ records) (records.foldl TxGroups.add g) := by
  induction records generalizing seen g with
  | nil => simpa using grouped
  | cons r rest ih =>
    simpa using ih (seen ++ [r]) (g.add r) (grouped_add seen g r grouped)

/-- Recovery hands back the kept records of the transactions with a commit record in the
replayed part of the log. -/
theorem recover_perm_kept [LogSegment S P] (order : HashOrder (Nat × List (WalRecord P))) (dir : List S) :
    let replayed := replayRecords (checkpointLsn (readDir dir)) (readDir dir)
    (recover order dir).records.Perm
      ((replayed.foldl keepRecord []).filter fun r => commits replayed r.txId) := by
  intro replayed
  have grouped : Grouped replayed (replayed.foldl TxGroups.add ⟨[], []⟩) := by
    simpa using grouped_foldl replayed [] ⟨[], []⟩
      ⟨by simp [Filed], by simp, by simp [commits]⟩
  have shuffled := order.perm (replayed.foldl TxGroups.add ⟨[], []⟩).txRecords
  have chosen := flatMap_filter_filed
    (fun k => (replayed.foldl TxGroups.add ⟨[], []⟩).committedTxs.contains k) _ grouped.filed
  have sorted := List.perm_insertionSort (fun a b : WalRecord P => a.lsn ≤ b.lsn)
  refine (sorted _).trans (((shuffled.filter _).flatMap_right _).trans ?_)
  rw [chosen]
  simp only [grouped.committed]
  exact grouped.kept.filter _

theorem keepRecord_foldl (records kept : List (WalRecord P))
    (unaborted : ∀ r ∈ records, r.recordType ≠ .txAbort) :
    records.foldl keepRecord kept = kept ++ records.filter WalRecord.isMutation := by
  induction records generalizing kept with
  | nil => simp
  | cons r rest ih =>
    simp only [List.forall_mem_cons] at unaborted
    rw [List.foldl_cons, ih _ unaborted.2]
    by_cases hm : r.isMutation <;> simp [keepRecord, unaborted.1, hm]

theorem replayRecords_positive (checkpoint : Nat) (records : List (WalRecord P))
    (positive : ∀ r ∈ records, 0 < r.lsn) :
    replayRecords checkpoint records = records.filter fun r => checkpoint < r.lsn := by
  unfold replayRecords
  split
  · rename_i none
    subst none
    exact (List.filter_eq_self.mpr fun r hr => by simpa using positive r hr).symm
  · rfl

/-- The specification of recovery on the logs the writer makes: no abort records, and no
LSN 0. -/
theorem recover_perm [LogSegment S P] (order : HashOrder (Nat × List (WalRecord P))) (dir : List S)
    (unaborted : ∀ r ∈ (readDir dir), r.recordType ≠ .txAbort)
    (positive : ∀ r ∈ (readDir dir), 0 < r.lsn) :
    (recover order dir).records.Perm ((readDir dir).filter fun r =>
      checkpointLsn (readDir dir) < r.lsn && r.isMutation &&
        commits ((readDir dir).filter fun q => checkpointLsn (readDir dir) < q.lsn) r.txId) := by
  have kept := recover_perm_kept order dir
  simp only [replayRecords_positive _ _ positive] at kept
  rw [keepRecord_foldl _ _ fun r hr => unaborted r (List.mem_of_mem_filter hr)] at kept
  refine kept.trans (List.Perm.of_eq ?_)
  simp only [List.nil_append, List.filter_filter]
  exact List.filter_congr fun r _ => by
    simp only [Bool.and_assoc, Bool.and_comm]

theorem recover_sorted [LogSegment S P] (order : HashOrder (Nat × List (WalRecord P))) (dir : List S) :
    (recover order dir).records.Pairwise fun a b => a.lsn ≤ b.lsn :=
  List.pairwise_insertionSort (fun a b : WalRecord P => a.lsn ≤ b.lsn) _

theorem recover_headLsn [LogSegment S P] (order : HashOrder (Nat × List (WalRecord P))) (dir : List S)
    (bound : Nat) :
    (recover order dir).headLsn ≤ bound ↔ ∀ r ∈ (readDir dir), r.lsn ≤ bound := by
  have fold (lsns : List Nat) (start : Nat) :
      lsns.foldl max start ≤ bound ↔ start ≤ bound ∧ ∀ l ∈ lsns, l ≤ bound := by
    induction lsns generalizing start with
    | nil => simp
    | cons l rest ih => simp [ih, and_assoc]
  simp [recover, fold]

end TronDB.Wal
