import TronDB.Wal.Encoding
import TronDB.Wal.Session
import Mathlib.Data.List.DropRight

/-! Which records recovery hands back, over whole histories: the committed work, and the
work of unfinished transactions whose id some session commits. -/
namespace TronDB.Wal

variable {P : Type} [WalPayload P]

theorem committedLater_committedId (sessions : List (WalSession P))
    (e : WalRecord P × List (WalOp P)) (he : e ∈ historyEmitted [] sessions)
    (committed : e.2.any (WalOp.isCommitOf e.1.txId) = true)
    (above : lastCheckpoint sessions < e.1.lsn) : committedId sessions e.1.txId = true := by
  obtain ⟨ops, lsn, _, own, sub⟩ := historyEmitted_session sessions [] e he
  obtain ⟨f, hf, commit, same, later⟩ := own_commit ops lsn e own committed
  refine List.any_eq_true.mpr ⟨f.1, List.mem_filter.mpr ⟨List.mem_map_of_mem (sub f hf), ?_⟩, ?_⟩
  · exact decide_eq_true (Nat.lt_trans above later)
  · exact decide_eq_true ⟨commit, same⟩

theorem commits_history (sessions : List (WalSession P)) (txId : Nat) :
    commits ((readDir (history sessions)).filter fun r => lastCheckpoint sessions < r.lsn) txId =
      committedId sessions txId := by
  have disk := history_filter (fun r => decide (r.recordType = .txCommit))
    (by simp +contextual) sessions []
  have stored : ((((historyEmitted [] sessions).filter storedLater).map Prod.fst).filter
      fun r => decide (r.recordType = .txCommit)) =
      ((historyEmitted [] sessions).map Prod.fst).filter
        fun r => decide (r.recordType = .txCommit) := by
    simp only [List.filter_map, List.filter_filter]
    congr 1
    exact List.filter_congr fun e _ => by
      by_cases commit : e.1.recordType = .txCommit <;> simp [commit, storedLater]
  rw [stored] at disk
  have only (rs : List (WalRecord P)) :
      commits (rs.filter fun r => lastCheckpoint sessions < r.lsn) txId =
        commits ((rs.filter fun r => decide (r.recordType = .txCommit)).filter
          fun r => lastCheckpoint sessions < r.lsn) txId := by
    simp only [commits, List.any_filter]
    congr 1
    funext r
    by_cases commit : r.recordType = .txCommit <;> simp [commit]
  rw [committedId, only, only ((historyEmitted [] sessions).map Prod.fst), history, disk]
  rfl

/-! ### What lies behind the last checkpoint -/

def beforeCheckpoint (sessions : List (WalSession P)) : List (WalRecord P × List (WalOp P)) :=
  (historyLogged [] sessions).rdropWhile fun e => !isCheckpointRecord e.1

/-- The records behind the last checkpoint record of the log, or all, when it has none. -/
def behindCheckpoint (sessions : List (WalSession P)) : List (WalRecord P × List (WalOp P)) :=
  (historyLogged [] sessions).rtakeWhile fun e => !isCheckpointRecord e.1

/-- The mutation records behind the last checkpoint whose own transaction committed. -/
def committedWork (sessions : List (WalSession P)) : List (WalRecord P) :=
  ((behindCheckpoint sessions).filter committedLater).map Prod.fst

/-- No LSN, and no other transaction's id, misplaces a record: what committed behind the last
checkpoint bears a higher LSN than the checkpoint, and where another mutation record does, no session
commits its transaction's id at such an LSN. -/
structure Placed (sessions : List (WalSession P)) : Prop where
  committed : ∀ e ∈ behindCheckpoint sessions, committedLater e = true →
    lastCheckpoint sessions < e.1.lsn
  unfinished : ∀ e ∈ behindCheckpoint sessions, e.1.isMutation = true → committedLater e = false →
    lastCheckpoint sessions < e.1.lsn → committedId sessions e.1.txId = false
  earlier : ∀ e ∈ beforeCheckpoint sessions, e.1.isMutation = true →
    lastCheckpoint sessions < e.1.lsn → committedId sessions e.1.txId = false

section Placed
variable (sessions : List (WalSession P))

def replays (e : WalRecord P × List (WalOp P)) : Bool :=
  lastCheckpoint sessions < e.1.lsn && e.1.isMutation && committedId sessions e.1.txId

theorem logged_parts :
    historyLogged [] sessions = beforeCheckpoint sessions ++ behindCheckpoint sessions := by
  rw [beforeCheckpoint, behindCheckpoint, List.rdropWhile, List.rtakeWhile, ← List.reverse_append,
    List.takeWhile_append_dropWhile, List.reverse_reverse]

theorem recover_history (order : HashOrder (Nat × List (WalRecord P))) :
    (recover order (history sessions)).records.Perm
      (((beforeCheckpoint sessions).filter (replays sessions) ++
        (behindCheckpoint sessions).filter (replays sessions)).map Prod.fst) := by
  have sound := history_sound sessions
  have spec := recover_perm order (history sessions) (fun r hr => (sound r hr).2)
    (fun r hr => (sound r hr).1)
  simp only [checkpointLsn_history, commits_history] at spec
  refine spec.trans (List.Perm.of_eq ?_)
  have empty : readDir ([] : WalDir P) = [] := rfl
  rw [history, history_logged, logged_parts, empty, List.nil_append, ← List.filter_append,
    List.filter_map]
  rfl

variable {sessions} in
theorem replays_of_committed {e : WalRecord P × List (WalOp P)} (there : e ∈ behindCheckpoint sessions)
    (committed : committedLater e = true) (above : lastCheckpoint sessions < e.1.lsn) :
    replays sessions e = true := by
  have handed : e ∈ historyEmitted [] sessions := by
    apply historyEmitted_of_logged
    rw [logged_parts]
    exact List.mem_append_right _ there
  rw [committedLater, Bool.and_eq_true] at committed
  have known := committedLater_committedId sessions e handed committed.2 above
  simp [replays, above, committed.1, known]

theorem replays_committed (placed : Placed sessions) :
    (behindCheckpoint sessions).filter (replays sessions) =
      (behindCheckpoint sessions).filter committedLater := by
  refine List.filter_congr fun e there => ?_
  cases committed : committedLater e with
  | true => exact replays_of_committed there committed (placed.committed e there committed)
  | false =>
    rw [Bool.eq_false_iff]
    intro replayed
    simp only [replays, Bool.and_eq_true, decide_eq_true_eq] at replayed
    obtain ⟨⟨above, mutation⟩, known⟩ := replayed
    rw [placed.unfinished e there mutation committed above] at known
    cases known

/-- Recovery returns the committed work behind the last checkpoint, and nothing else, exactly if LSNs
and ids place every record where it is. -/
theorem recover_exact_iff (order : HashOrder (Nat × List (WalRecord P))) :
    ((recover order (history sessions)).records.Perm (committedWork sessions) ∧
      (recover order (history sessions)).records.Pairwise fun a b => a.lsn ≤ b.lsn) ↔
    Placed sessions := by
  have found := recover_history sessions order
  constructor
  · rintro ⟨exact_, -⟩
    have same := found.symm.trans exact_
    have above (e : WalRecord P × List (WalOp P)) (there : e ∈ behindCheckpoint sessions)
        (committed : committedLater e = true) : lastCheckpoint sessions < e.1.lsn := by
      have kept := List.mem_map_of_mem (f := Prod.fst) (List.mem_filter.mpr ⟨there, committed⟩)
      obtain ⟨e', among, same'⟩ := List.mem_map.mp (same.mem_iff.mpr kept)
      rw [← List.filter_append] at among
      have replayed := (List.mem_filter.mp among).2
      simp only [replays, Bool.and_eq_true, decide_eq_true_eq] at replayed
      exact same' ▸ replayed.1.1
    -- all that committed is replayed, so the lengths leave room for nothing else
    have count := same.length_eq
    have split := List.length_eq_countP_add_countP committedLater
      (l := (behindCheckpoint sessions).filter (replays sessions))
    have own : ((behindCheckpoint sessions).filter (replays sessions)).countP committedLater =
        ((behindCheckpoint sessions).filter committedLater).length := by
      rw [List.countP_eq_length_filter, List.filter_filter]
      congr 1
      refine List.filter_congr fun e there => ?_
      cases committed : committedLater e with
      | false => rfl
      | true => simp [replays_of_committed there committed (above e there committed)]
    rw [committedWork, List.length_map, List.length_map, List.length_append] at count
    have noneBefore : (beforeCheckpoint sessions).filter (replays sessions) = [] :=
      List.eq_nil_of_length_eq_zero (by omega)
    have noneElse : ((behindCheckpoint sessions).filter (replays sessions)).countP
        (fun e => ¬ committedLater e) = 0 := by omega
    refine ⟨above, fun e there mutation unfinished above => ?_, fun e there mutation above => ?_⟩
    · by_contra known
      have replayed : replays sessions e = true := by
        simp [replays, above, mutation, Bool.eq_true_of_not_eq_false known]
      have absent := List.countP_eq_zero.mp noneElse e (List.mem_filter.mpr ⟨there, replayed⟩)
      simp [unfinished] at absent
    · have absent := List.filter_eq_nil_iff.mp noneBefore e there
      simpa [replays, above, mutation] using absent
  · intro placed
    have noneBefore : (beforeCheckpoint sessions).filter (replays sessions) = [] := by
      apply List.filter_eq_nil_iff.mpr
      intro e there replayed
      simp only [replays, Bool.and_eq_true, decide_eq_true_eq] at replayed
      obtain ⟨⟨above, mutation⟩, known⟩ := replayed
      rw [placed.earlier e there mutation above] at known
      cases known
    rw [noneBefore, List.nil_append, replays_committed sessions placed] at found
    exact ⟨found, recover_sorted order _⟩

end Placed

/-- The first session writes an entity under transaction 1 and stops before committing it;
the second reuses the id. -/
def reusedId : List (WalSession (List UInt8)) :=
  [⟨default, [.nextTxId, .nextTxId,
      .append ⟨_, RecordType.entityWrite_appended⟩ "venues" 1 1 [7] 0, .commit 2 0]⟩,
    ⟨default, [.nextTxId, .commit 1 0]⟩]

theorem recover_uncommitted :
    ¬ ∀ (order : HashOrder (Nat × List (WalRecord (List UInt8))))
      (sessions : List (WalSession (List UInt8))),
      (recover order (history sessions)).records.Perm (committedWork sessions) ∧
        (recover order (history sessions)).records.Pairwise fun a b => a.lsn ≤ b.lsn := by
  intro all
  have same := (all (HashOrder.insertionOrder _) reusedId).1.length_eq
  have found : (recover (HashOrder.insertionOrder _) (history reusedId)).records.length = 1 := by
    decide +kernel
  have none : (committedWork reusedId).length = 0 := by decide +kernel
  omega

end TronDB.Wal
