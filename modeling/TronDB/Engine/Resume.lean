import TronDB.Engine.LocationLog
import TronDB.Engine.SnapshotRuns

/-! What the log of a session and the saved location table say of the entries, and the engine
that opens on them. -/
namespace TronDB.Engine
open TronDB.Core Binary Wal Journal

/-! ### The end of a log -/

theorem filter_above {α : Type} {key : α → Nat} {l : List α}
    (ascending : l.Pairwise fun a b => key a < key b) (n : Nat) :
    ∃ before, l = before ++ l.filter fun a => n < key a := by
  induction l with
  | nil => exact ⟨[], rfl⟩
  | cons a rest ih =>
    rw [List.pairwise_cons] at ascending
    by_cases above : n < key a
    · have all : (a :: rest).filter (fun a => n < key a) = a :: rest := by
        refine List.filter_eq_self.mpr fun b listed => decide_eq_true ?_
        rcases List.mem_cons.mp listed with rfl | later
        · exact above
        · exact above.trans (ascending.1 b later)
      exact ⟨[], by rw [all]; rfl⟩
    · obtain ⟨before, split_⟩ := ih ascending.2
      refine ⟨a :: before, ?_⟩
      rw [List.filter_cons_of_neg (by simpa using above), List.cons_append, ← split_]

section Log
variable [WalPayload Payload]

def State.loggedAfter (s : State) (lsn : Nat) : List Logged :=
  (s.wal.mutations.filter fun r => lsn < r.lsn).map toLogged

theorem logged_split {s : State} (sequential : Sequential s.wal) (lsn : Nat) :
    ∃ before, s.logged = before ++ s.loggedAfter lsn := by
  have ascending : s.wal.mutations.Pairwise fun a b => a.lsn < b.lsn := sequential.ascending.filter _
  obtain ⟨before, split_⟩ := filter_above ascending lsn
  refine ⟨before.map toLogged, ?_⟩
  rw [State.loggedAfter, ← List.map_append, ← split_]
  rfl

theorem loggedAfter_split {s : State} (sequential : Sequential s.wal) {m n : Nat} (le : m ≤ n) :
    ∃ before, s.loggedAfter m = before ++ s.loggedAfter n := by
  have ascending : (s.wal.mutations.filter fun r => m < r.lsn).Pairwise fun a b => a.lsn < b.lsn :=
    (sequential.ascending.filter _).filter _
  obtain ⟨before, split_⟩ := filter_above ascending n
  have narrowed : (s.wal.mutations.filter fun r => m < r.lsn).filter (fun r => n < r.lsn) =
      s.wal.mutations.filter fun r => n < r.lsn := by
    rw [List.filter_filter]
    refine List.filter_congr fun r _ => ?_
    by_cases above : n < r.lsn
    · have both : m < r.lsn := by omega
      simp [above, both]
    · simp [above]
  rw [narrowed] at split_
  refine ⟨before.map toLogged, ?_⟩
  rw [State.loggedAfter, State.loggedAfter, ← List.map_append, ← split_]

theorem mem_loggedAfter {s : State} {lsn : Nat} {l : Logged} (listed : l ∈ s.loggedAfter lsn) :
    l ∈ s.logged := by
  obtain ⟨r, there, rfl⟩ := List.mem_map.mp listed
  exact List.mem_map_of_mem (List.mem_filter.mp there).1

def Tight (w : WalWriter (WalSegment Payload) Payload) : Prop :=
  w.nextLsn = (w.disk.getLast?.map WalRecord.lsn).getD 0 + 1

/-- The log has grown by these entries, all of them behind what was there, and the stored data
has changed as they say. -/
structure Appends (s s' : State) (added : List Logged) : Prop extends Performed s s' added where
  after : Sequential s.wal → ∀ n < s.wal.nextLsn, s'.loggedAfter n = s.loggedAfter n ++ added
  next : Sequential s.wal → s.wal.nextLsn ≤ s'.wal.nextLsn
  tight : Sequential s.wal → Tight s.wal → Tight s'.wal

theorem appends_nothing {s s' : State} (wal : s'.wal = s.wal) (data : dataOf s'.store = dataOf s.store) :
    Appends s s' [] := by
  have logged : s'.logged = s.logged := by rw [State.logged, wal]; rfl
  refine ⟨⟨⟨fun seq => wal ▸ seq, fun _ => ?_, by simp, trivial⟩, data⟩, fun _ n _ => ?_,
    fun _ => wal ▸ Nat.le_refl _, fun _ tight => wal ▸ tight⟩
  · rw [logged, List.append_nil]
  · rw [State.loggedAfter, wal, List.append_nil]
    rfl

theorem appends_transaction {s s' : State} {ts : Int} {collection : String}
    {entries : List (Entry Payload)} (performed : Performed s s' (filed collection entries))
    (mutating : Mutating entries) (wal : s'.wal = s.wal.transaction collection ts entries) :
    Appends s s' (filed collection entries) := by
  refine ⟨performed, fun seq n below => ?_, fun seq => ?_, fun seq _ => ?_⟩
  · obtain ⟨-, grown⟩ := sequential_transaction s.wal seq collection ts entries mutating
    have all : (entryRecords (s.wal.nextLsn + 1) ts s.wal.nextTx collection entries).filter
        (fun r => n < r.lsn) = entryRecords (s.wal.nextLsn + 1) ts s.wal.nextTx collection entries := by
      refine List.filter_eq_self.mpr fun r listed => decide_eq_true ?_
      obtain ⟨-, above, -⟩ := mem_entryRecords entries _ ts s.wal.nextTx collection r listed
      omega
    rw [State.loggedAfter, wal, grown, List.filter_append, all, List.map_append, map_entryRecords]
    rfl
  · obtain ⟨-, -, next, -⟩ := s.wal.transaction_spec seq.flushed collection ts entries
    rw [wal, next]
    omega
  · obtain ⟨disk, -, next, -⟩ := s.wal.transaction_spec seq.flushed collection ts entries
    have last : (s.wal.transaction collection ts entries).disk.getLast? =
        some (WalWriter.commitRecord (s.wal.nextLsn + 1 + entries.length) s.wal.nextTx ts) := by
      rw [disk, WalWriter.transactionRecords, ← List.append_assoc, List.getLast?_append]
      rfl
    rw [Tight, wal, next, last]
    simp only [WalWriter.commitRecord, Option.map_some, Option.getD_some]
    omega

/-! ### The log opened again -/

/-- The segment that is opened again ends with the last record on disk, or none is on disk. -/
theorem open_continues {w : WalWriter (WalSegment Payload) Payload} (sequential : Sequential w)
    (tight : Tight w) (config : WalConfig) (continues : w.segment.records = [] → w.disk = []) :
    Sequential (WalWriter.open config w.dir) ∧ (WalWriter.open config w.dir).nextLsn = w.nextLsn ∧
      (WalWriter.open config w.dir).disk = w.disk := by
  have disk : (WalWriter.open config w.dir).disk = w.disk := WalWriter.disk_open config w.dir rfl
  have next : (WalWriter.open config w.dir).nextLsn = w.nextLsn := by
    have opened : (WalWriter.open config w.dir).nextLsn =
        (w.segment.records.getLast?.map WalRecord.lsn).getD 0 + 1 := by
      simp [WalWriter.open, WalWriter.openOrCreateSegment, WalWriter.dir]
      rfl
    rw [opened, tight]
    congr 2
    have ends_ : w.disk = readDir w.closed ++ w.segment.records := by
      simp [WalWriter.disk, WalWriter.dir, readDir]
      rfl
    cases records : w.segment.records with
    | nil => rw [continues records]
    | cons r rest =>
      rw [ends_, records, List.getLast?_append]
      cases last : (r :: rest).getLast? with
      | none => simp at last
      | some r' => rfl
  refine ⟨⟨rfl, ?_, ?_, ?_, ?_, ?_⟩, next, disk⟩
  · rw [next]
    exact sequential.next
  · rw [disk]
    exact sequential.ascending
  · rw [disk, next]
    exact sequential.below
  · rw [disk]
    exact sequential.plain
  · rw [disk]
    exact sequential.committed

end Log

/-! ### What an engine that opens is told -/

section Engines
variable [WalPayload Payload]

namespace OpenEngine

/-- The state an entry would have in an engine that opened on what this one has on disk. -/
def told (engine : OpenEngine) (k : ReprKey) : Option LocState :=
  (engine.state.loggedAfter engine.disk.snapLsn).foldl (entryAfter k) (engine.disk.location.state k)

/-- The entries of the log since the engine opened. -/
def sinceOpen (engine : OpenEngine) : List Logged := engine.state.loggedAfter engine.walHead

end OpenEngine

/-- An engine and its log, from which it can be opened again. -/
structure Resumable (engine : OpenEngine) : Prop where
  historic : Historic engine.state
  plain : ∀ l ∈ engine.state.logged, Plain l
  tight : Tight engine.state.wal
  head : engine.walHead < engine.state.wal.nextLsn
  saved : engine.disk.snapLsn ≤ engine.walHead
  unmoved : ∀ k, engine.disk.location.state k ≠ some .migrating

theorem said_split {engine : OpenEngine} (resumable : Resumable engine) (k : ReprKey) :
    ∃ s ≠ some .migrating, engine.told k = engine.sinceOpen.foldl (entryAfter k) s := by
  obtain ⟨before, split_⟩ :=
    loggedAfter_split resumable.historic.tracked.sequential resumable.saved
  have plain : ∀ l ∈ before, Plain l := fun l listed =>
    resumable.plain l (mem_loggedAfter (split_ ▸ List.mem_append_left _ listed))
  refine ⟨before.foldl (entryAfter k) (engine.disk.location.state k), ?_, ?_⟩
  · have start := resumable.unmoved k
    clear split_
    generalize engine.disk.location.state k = s at start
    induction before generalizing s with
    | nil => exact start
    | cons l rest ih =>
      rw [List.forall_mem_cons] at plain
      refine ih plain.2 _ ?_
      obtain ⟨-, does | does⟩ | ⟨-, does | does⟩ := entryAfter_cases plain.1 k <;> rw [does]
      · simp
      all_goals
        rcases s with _ | (_ | _ | _ | _) <;> simp [cleaned, dirtied] at start ⊢
  · rw [OpenEngine.told, split_, List.foldl_append]
    rfl

/-- The engine that opens has the stored data, and the entries the log and the saved table speak
of. -/
theorem opens_as_said {engine : OpenEngine} (resumable : Resumable engine) (config : WalConfig)
    (order : HashOrder (Nat × List (WalRecord Payload))) :
    ∃ engine' unhandled, openEngine config order engine.disk = .ok (engine', unhandled) ∧
      (∀ k, engine'.state.location.state k = engine.told k) ∧
      dataOf engine'.state.store = dataOf engine.state.store ∧
      engine'.state.schemas = engine.state.schemas ∧
      engine'.state.wal = WalWriter.open config engine.state.wal.dir ∧
      engine'.walHead = headLsn engine'.state.wal ∧
      engine'.locationSnapshot = engine.locationSnapshot := by
  have tracked := resumable.historic.tracked
  have found : engine.disk.recordsToReplay order =
      engine.state.wal.mutations.filter fun r => engine.disk.snapLsn < r.lsn := by
    have recovered : (recover order engine.disk.wal).records = engine.state.wal.mutations :=
      recover_sequential order engine.state.wal tracked.sequential
    rw [Disk.recordsToReplay, recovered]
  have logged : (engine.disk.recordsToReplay order).map toLogged =
      engine.state.loggedAfter engine.disk.snapLsn := by
    rw [found]
    rfl
  have member : ∀ r ∈ engine.disk.recordsToReplay order, toLogged r ∈ engine.state.logged := by
    intro r listed
    rw [found] at listed
    exact List.mem_map_of_mem (List.mem_filter.mp listed).1
  obtain ⟨s, unhandled, replayed, data⟩ := replayWalRecords_ok (engine.disk.recordsToReplay order)
    (fun r listed => tracked.decoded _ (member r listed))
    (.booting engine.disk.store (WalWriter.open config engine.disk.wal) engine.disk.location)
  have location (k : ReprKey) : s.location.state k = engine.told k := by
    rw [state_replayed _ replayed (fun r listed => (resumable.plain _ (member r listed)).keepsEntries),
      logged]
    rfl
  have wal : s.wal = WalWriter.open config engine.state.wal.dir := replayed_wal _ replayed
  have same : dataOf s.store = dataOf engine.state.store := by
    rw [data, logged]
    obtain ⟨before, split_⟩ := logged_split tracked.sequential engine.disk.snapLsn
    have faithful := resumable.historic.faithful
    have legal := resumable.historic.legal
    rw [Faithful, split_, List.foldl_append] at faithful
    rw [split_, legalAll_append] at legal
    have again := replay_end_again (Data.owned_foldl before Data.owned_empty) legal.2
      fun l listed => resumable.plain l (mem_loggedAfter listed)
    rw [← faithful] at again
    exact again
  have named : engine.disk.Named := ⟨tracked.synced.named, tracked.synced.edgeTypeNamed⟩
  obtain ⟨replaying, schemas⟩ := replaying_loadSchemas (replaying_replayed named replayed)
  have rebuilt := rebuilt_spec schemas engine.disk.hnswSnapshots (engine.disk.recordsToReplay order)
  refine ⟨⟨s.loadSchemas.rebuild engine.disk.hnswSnapshots (engine.disk.recordsToReplay order),
    headLsn (s.loadSchemas.rebuild engine.disk.hnswSnapshots (engine.disk.recordsToReplay order)).wal,
    engine.disk.locationSnapshot, engine.disk.hnswSnapshots⟩, unhandled, ?_, fun k => ?_, ?_, ?_, ?_,
    rfl, rfl⟩
  · unfold openEngine
    dsimp only
    rw [replayed]
  · dsimp only
    rw [rebuild_location]
    exact location k
  · exact rebuilt.data.trans same
  · dsimp only
    rw [rebuilt.schemas, schemas, tracked.synced.schemas]
    exact congrArg Data.collections same
  · exact rebuilt.wal.trans wal

end Engines
end TronDB.Engine
