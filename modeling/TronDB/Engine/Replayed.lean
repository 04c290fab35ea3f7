import TronDB.Engine.PerformedRows
import TronDB.Lib.Run
import TronDB.Wal.Encoding

/-! Replay of the log of a run into an empty store, compared with the store of the run. -/
namespace TronDB.Engine
open TronDB.Core Binary Wal

/-! ### Replay as a fold -/

theorem replay_unhandled {t : RecordType} (unhandled : replayHandles t = false) (d : Data)
    (collection : String) (payload : Payload) : d.replay (collection, t, payload) = d := by
  cases t <;> first | rfl | (cases payload <;> rfl) | cases unhandled

theorem replayWalRecords_ok (records : List (WalRecord Payload))
    (decoded : ∀ r ∈ records, decodable (r.recordType, r.payload) = true) (s : State) :
    ∃ s' rest, replayWalRecords s records = .ok (s', rest) ∧
      dataOf s'.store = (records.map toLogged).foldl Data.replay (dataOf s.store) := by
  induction records generalizing s with
  | nil => exact ⟨s, [], rfl, rfl⟩
  | cons r rest ih =>
    rw [List.forall_mem_cons] at decoded
    obtain ⟨s', unhandled, replayed, data⟩ :=
      ih decoded.2 (if replayHandles r.recordType then replayRecord s r else s)
    refine ⟨s', if replayHandles r.recordType then unhandled else r :: unhandled, ?_, ?_⟩
    · rw [replayWalRecords, if_pos decoded.1, replayed]
    · rw [data, List.map_cons, List.foldl_cons]
      congr 1
      split
      · exact data_replayStore _ _
      · rename_i unhandled
        exact (replay_unhandled (Bool.not_eq_true _ ▸ unhandled) _ _ _).symm

/-- What a replay that comes to its end makes of the data. -/
theorem data_replayed (records : List (WalRecord Payload)) {s s' : State}
    {rest : List (WalRecord Payload)} (replayed : replayWalRecords s records = .ok (s', rest)) :
    dataOf s'.store = (records.map toLogged).foldl Data.replay (dataOf s.store) := by
  have decoded : ∀ r ∈ records, decodable (r.recordType, r.payload) = true := by
    induction records generalizing s rest with
    | nil => exact fun r none_ => absurd none_ List.not_mem_nil
    | cons r later ih =>
      unfold replayWalRecords at replayed
      split at replayed
      · rename_i decoded
        split at replayed
        · cases replayed
        · rename_i done
          cases replayed
          exact List.forall_mem_cons.mpr ⟨decoded, ih done⟩
      · cases replayed
  obtain ⟨t, unhandled, done, data⟩ := replayWalRecords_ok records decoded s
  cases replayed.symm.trans done
  exact data

/-! ### Runs of writes -/

section Runs
variable [WalPayload Payload]

abbrev Step := Env × Write

def State.step (s : State) (a : Step) : State := (perform a.1 s a.2).2

def AllSucceed (s : State) (as : List Step) : Prop :=
  ∀ p ∈ Run.taken State.step s as, succeeds p.2.1 p.1 p.2.2

/-- What recovery finds in the log is replayed into an empty store without an error, and
gives the stored data. -/
def Reproduces (s : State) : Prop :=
  ∀ (order : HashOrder (Nat × List (WalRecord Payload))) (config : WalConfig),
    ∃ fresh rest, replayWalRecords (State.init config) (recover order s.wal.dir).records =
        .ok (fresh, rest) ∧ dataOf fresh.store = dataOf s.store

/-- The log of a state can be read back, and its memory maps agree with the store. -/
structure Tracked (s : State) : Prop where
  sequential : Sequential s.wal
  synced : Synced s
  decoded : ∀ l ∈ s.logged, decodable l.2 = true

def Faithful (s : State) : Prop := dataOf s.store = s.logged.foldl Data.replay .empty

theorem tracked_init (config : WalConfig) : Tracked (State.init config) := by
  refine ⟨sequential_open config, synced_init config, ?_⟩
  rw [State.logged, State.init, mutations_open]
  simp

theorem replay_recovered {s : State} (tracked : Tracked s)
    (order : HashOrder (Nat × List (WalRecord Payload))) (t : State) :
    ∃ t' rest, replayWalRecords t (recover order s.wal.dir).records = .ok (t', rest) ∧
      dataOf t'.store = s.logged.foldl Data.replay (dataOf t.store) := by
  rw [recover_sequential order s.wal tracked.sequential]
  exact replayWalRecords_ok s.wal.mutations
    (fun r listed => tracked.decoded _ (List.mem_map_of_mem listed)) t

theorem reproduces_iff {s : State} (tracked : Tracked s) : Reproduces s ↔ Faithful s := by
  constructor
  · intro reproduces
    let config : WalConfig := default
    obtain ⟨fresh, rest, replayed, same⟩ := reproduces (.insertionOrder _) config
    obtain ⟨fresh', rest', replayed', data⟩ :=
      replay_recovered tracked (.insertionOrder _) (State.init config)
    cases replayed.symm.trans replayed'
    exact same.symm.trans data
  · intro faithful order config
    obtain ⟨fresh, rest, replayed, data⟩ := replay_recovered tracked order (State.init config)
    exact ⟨fresh, rest, replayed, data.trans faithful.symm⟩

/-- A DELETE finds none of the edges stored that the adjacency index has at its entity. -/
def CascadesNothing (s : State) : Write → Prop
  | .deleteEntity p => ∀ e ∈ s.adjacency.edgesInvolving p.entityId,
      s.store.getEdge e.1 e.2.1 e.2.2 = none
  | _ => True

/-! ### One step -/

theorem logged_of_logs {s s' : State} {added : List Logged} (tracked : Tracked s)
    (logs : Logs s s' added) (synced : Synced s') :
    Tracked s' ∧ s'.logged = s.logged ++ added := by
  have grown := logs.grown tracked.sequential
  refine ⟨⟨logs.sequential tracked.sequential, synced, fun l listed => ?_⟩, grown⟩
  rw [grown] at listed
  exact (List.mem_append.mp listed).elim (tracked.decoded l) (logs.decodable l)

theorem faithful_performed {s s' : State} {added : List Logged} (tracked : Tracked s)
    (performed : Performed s s' added) (faithful : Faithful s) : Faithful s' := by
  rw [Faithful, performed.data, performed.grown tracked.sequential, List.foldl_append, ← faithful]

omit [WalPayload Payload] in
theorem cascade_rest (edges : List (String × LogicalId × LogicalId)) (d : Data) :
    (cascade edges d).collections = d.collections ∧ (cascade edges d).edgeTypes = d.edgeTypes ∧
      (cascade edges d).entities = d.entities := by
  induction edges generalizing d with
  | nil => exact ⟨rfl, rfl, rfl⟩
  | cons e rest ih => exact ih (d.eraseEdge e.1 e.2.1 e.2.2)

omit [WalPayload Payload] in
theorem get_cascade (edges : List (String × LogicalId × LogicalId)) (d : Data)
    (k : String × String) :
    (cascade edges d).edges[k]? =
      if ∃ e ∈ edges, (e.1, edgeKey e.2.1 e.2.2) = k then none else d.edges[k]? := by
  induction edges generalizing d with
  | nil => simp [cascade]
  | cons e rest ih =>
    have step : (cascade (e :: rest) d) = cascade rest (d.eraseEdge e.1 e.2.1 e.2.2) := rfl
    rw [step, ih, Data.eraseEdge, FinMap.get_erase]
    by_cases later : ∃ e ∈ rest, (e.1, edgeKey e.2.1 e.2.2) = k
    · have somewhere : ∃ e' ∈ e :: rest, (e'.1, edgeKey e'.2.1 e'.2.2) = k := by
        obtain ⟨e', listed, same⟩ := later
        exact ⟨e', List.mem_cons_of_mem _ listed, same⟩
      rw [if_pos later, if_pos somewhere]
    · rw [if_neg later]
      simp only [List.mem_cons, exists_eq_or_imp, later, or_false]

omit [WalPayload Payload] in
theorem cascade_eq_iff (edges : List (String × LogicalId × LogicalId)) (d : Data) :
    cascade edges d = d ↔ ∀ e ∈ edges, d.edges[(e.1, edgeKey e.2.1 e.2.2)]? = none := by
  constructor
  · intro same e listed
    have erased := get_cascade edges d (e.1, edgeKey e.2.1 e.2.2)
    rwa [same, if_pos ⟨e, listed, rfl⟩] at erased
  · intro absent
    obtain ⟨collections, edgeTypes, entities⟩ := cascade_rest edges d
    have same : (cascade edges d).edges = d.edges := by
      refine FinMap.ext fun k => ?_
      rw [get_cascade]
      split
      · rename_i there
        obtain ⟨e, listed, rfl⟩ := there
        exact (absent e listed).symm
      · rfl
    exact Data.ext collections edgeTypes entities same

theorem tracked_step {s : State} {a : Step} (tracked : Tracked s) (ok : succeeds a.1 s a.2) :
    Tracked (s.step a) := by
  obtain ⟨env, w⟩ := a
  have synced := synced_perform env s w tracked.synced
  cases w with
  | deleteEntity p =>
    obtain ⟨r, ok⟩ := answer_ok ok
    exact (logged_of_logs tracked (logs_deleteEntity ok).1 synced).1
  | alterCollection p =>
    obtain ⟨r, ok⟩ := answer_ok ok
    obtain ⟨mutated, performed⟩ := performed_alterCollection tracked.synced ok
    exact (logged_of_logs tracked performed.toLogs synced).1
  | _ =>
    obtain ⟨added, performed, -⟩ := wrote_perform tracked.synced ok (by simp) (by simp)
    exact (logged_of_logs tracked performed.toLogs synced).1

/-- Among the writes that succeed it is the cascade of DELETE that decides whether the log
still says what is stored. -/
theorem faithful_step {s : State} {a : Step} (tracked : Tracked s) (faithful : Faithful s)
    (ok : succeeds a.1 s a.2) : Faithful (s.step a) ↔ CascadesNothing s a.2 := by
  obtain ⟨env, w⟩ := a
  cases w with
  | deleteEntity p =>
    obtain ⟨r, ok⟩ := answer_ok ok
    obtain ⟨logs, data⟩ := logs_deleteEntity ok
    have said : (State.step s (env, .deleteEntity p)).logged.foldl Data.replay .empty =
        (dataOf s.store).eraseEntity p.collection p.entityId := by
      refine (congrArg (List.foldl Data.replay .empty) (logs.grown tracked.sequential)).trans ?_
      rw [List.foldl_append, ← faithful]
      rfl
    have stored : dataOf (State.step s (env, .deleteEntity p)).store =
        cascade (s.adjacency.edgesInvolving p.entityId)
          ((dataOf s.store).eraseEntity p.collection p.entityId) := data
    have edges : ((dataOf s.store).eraseEntity p.collection p.entityId).edges = s.store.edges := by
      unfold Data.eraseEntity
      split <;> rfl
    rw [Faithful, said, stored, cascade_eq_iff, edges]
    exact Iff.rfl
  | alterCollection p =>
    obtain ⟨r, ok⟩ := answer_ok ok
    obtain ⟨mutated, performed⟩ := performed_alterCollection tracked.synced ok
    exact iff_of_true (faithful_performed tracked performed faithful) trivial
  | _ =>
    obtain ⟨added, performed, -⟩ := wrote_perform tracked.synced ok (by simp) (by simp)
    exact iff_of_true (faithful_performed tracked performed faithful) trivial

theorem reproduces_init (config : WalConfig) : Reproduces (State.init config) := by
  rw [reproduces_iff (tracked_init config), Faithful, State.logged, State.init, mutations_open]
  rfl

theorem tracked_run (config : WalConfig) (as : List Step)
    (succeed : AllSucceed (State.init config) as) :
    Tracked (as.foldl State.step (State.init config)) :=
  Run.invariant_under State.step (fun s a => succeeds a.1 s a.2) as (tracked_init config) succeed
    (fun _ _ => tracked_step) _ (Run.end_visited State.step _ as)

/-- Every state of the run can be rebuilt from its log. -/
def ReproducesThroughout (config : WalConfig) (as : List Step) : Prop :=
  ∀ s ∈ Run.visited State.step (State.init config) as, Reproduces s

def NeverCascades (config : WalConfig) (as : List Step) : Prop :=
  ∀ p ∈ Run.taken State.step (State.init config) as, CascadesNothing p.1 p.2.2

/-- A run of writes that succeed can be rebuilt from its log at every point iff no DELETE of
it takes a stored edge along. -/
theorem replay_reproduces_iff (config : WalConfig) (as : List Step)
    (succeed : AllSucceed (State.init config) as) :
    ReproducesThroughout config as ↔ NeverCascades config as := by
  refine Run.good_iff_guarded_on State.step Tracked Reproduces (fun s a => succeeds a.1 s a.2)
    (fun s a => CascadesNothing s a.2) as (tracked_init config) (reproduces_init config) succeed
    (fun s a tracked _ ok _ => tracked_step tracked ok) (fun s a tracked reproduces ok => ?_)
  rw [reproduces_iff (tracked_step tracked ok)]
  exact faithful_step tracked ((reproduces_iff tracked).mp reproduces) ok

end Runs

/-! ### Two people who know each other -/

/-- Records are framed with their header alone; no segment of the runs below gets full. -/
@[reducible] def headerOnly : WalPayload Payload where
  empty := .empty
  checkpoint := .checkpoint
  toBytes r := MessagePack.fixmap
    [("lsn", MessagePack.uint r.lsn), ("ts", MessagePack.int r.ts),
      ("tx_id", MessagePack.uint r.txId), ("record_type", MessagePack.str r.recordType.name),
      ("schema_ver", MessagePack.uint r.schemaVer), ("collection", MessagePack.str r.collection)]

def insertPerson (id : String) : Write :=
  .insert ⟨"people", ["id"], [.string id], [], none, none⟩

/-- Ann and Bob, and an edge from one to the other. -/
def acquaintances : List Step :=
  [.createCollection ⟨"people", [], [⟨"name", .text⟩], [], none⟩,
    .createEdgeType ⟨"knows", "people", "people", none, none⟩,
    insertPerson "ann", insertPerson "bob",
    .insertEdge ⟨"knows", "ann", "bob", [], none, none⟩].map fun w => (Env.idle, w)

def annDeleted : List Step := acquaintances ++ [(.idle, .deleteEntity ⟨"ann", "people"⟩)]

section Examples
attribute [local instance] headerOnly

theorem acquaintances_reproduced : ReproducesThroughout default acquaintances :=
  (replay_reproduces_iff default acquaintances (by unfold AllSucceed succeeds; decide)).mpr
    (by simp [NeverCascades, acquaintances, insertPerson, Run.taken, CascadesNothing])

theorem annDeleted_succeeds : AllSucceed (State.init default) annDeleted := by
  unfold AllSucceed succeeds
  decide

/-- The edge comes back when the log is replayed. -/
theorem deleted_edge_replayed :
    AllSucceed (State.init default) annDeleted ∧
      ¬ Reproduces (annDeleted.foldl State.step (State.init default)) := by
  refine ⟨annDeleted_succeeds, fun reproduces => ?_⟩
  have faithful := (reproduces_iff (tracked_run default annDeleted annDeleted_succeeds)).mp reproduces
  revert faithful
  unfold Faithful
  decide +kernel

end Examples
end TronDB.Engine
