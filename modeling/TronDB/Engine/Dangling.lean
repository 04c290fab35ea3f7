import TronDB.Engine.Rooted
import TronDB.Engine.SnapshotRuns

/-! Dangling edges over any number of openings: replay, and runs with the tasks in flight. -/
namespace TronDB.Engine
open TronDB.Core Binary Wal

/-! ### Opening -/

namespace Opening

theorem adjacency_rebuildEntities (collection : String) (entities : List Entity) (o : Opening) :
    (entities.foldl (rebuildEntity collection) o).state.adjacency = o.state.adjacency := by
  induction entities generalizing o with
  | nil => rfl
  | cons e rest ih => exact ih (o.rebuildEntity collection e)

theorem adjacency_openCollections (snapshots : HnswSnapshots) (names : List String) (o : Opening) :
    (names.foldl (openCollection snapshots) o).state.adjacency = o.state.adjacency := by
  induction names generalizing o with
  | nil => rfl
  | cons name rest ih =>
    have opened : (o.openIndexes snapshots name).state.adjacency = o.state.adjacency := by
      unfold openIndexes
      split <;> rfl
    refine (ih _).trans ?_
    unfold openCollection
    dsimp only
    split
    · exact (adjacency_rebuildEntities name _ _).trans opened
    · exact opened

end Opening

theorem adjacency_rebuildEdgeTypes (types : List EdgeType) (s : State) :
    (types.foldl State.rebuildEdgeType s).adjacency =
      (types.flatMap fun et => s.store.scanEdges et.name).foldl
        (fun a edge => a.insert edge.fromId edge.edgeType (adjEntry edge)) s.adjacency := by
  induction types generalizing s with
  | nil => rfl
  | cons et rest ih =>
    rw [List.foldl_cons, ih, List.flatMap_cons, List.foldl_append]
    rfl

theorem removeEdgeType_new (name : String) : AdjacencyIndex.new.removeEdgeType name = .new := rfl

theorem adjacency_replayRecord {s : State} (empty : s.adjacency = .new) (r : WalRecord Payload) :
    (replayRecord s r).adjacency = .new := by
  unfold replayRecord State.replayMemory
  dsimp only
  split <;> first
    | exact empty
    | skip
  · rename_i name _ _
    dsimp only
    rw [empty]
    exact removeEdgeType_new name
  · split
    · split
      · unfold State.replayIndexes
        repeat' split
        all_goals exact empty
      · exact empty
    · exact empty

theorem rooted_rebuildEdgeTypes {s : State} (new : s.adjacency = .new)
    (anchored : (dataOf s.store).Anchored)
    (named : ∀ (name : String) (et : EdgeType), s.store.edgeTypes[name]? = some et → et.name = name) :
    Rooted ((s.store.edgeTypes.toList.map Prod.snd).foldl State.rebuildEdgeType s) := by
  have adjacency := adjacency_rebuildEdgeTypes (s.store.edgeTypes.toList.map Prod.snd) s
  obtain ⟨store, -⟩ := rebuildEdgeTypes_rest (s.store.edgeTypes.toList.map Prod.snd) s
  rw [new] at adjacency
  -- the edges that are scanned are the stored ones, since the type of each is known
  have scanned (edge : Edge) : edge ∈ (s.store.edgeTypes.toList.map Prod.snd).flatMap
      (fun et => s.store.scanEdges et.name) ↔ ∃ k : String × String, s.store.edges[k]? = some edge := by
    constructor
    · intro there
      obtain ⟨et, -, there⟩ := List.mem_flatMap.mp there
      unfold Store.scanEdges at there
      obtain ⟨⟨k, edge'⟩, listed, rfl⟩ := List.mem_map.mp there
      exact ⟨k, (FinMap.mem_toList _ _ _).mp (List.mem_filter.mp listed).1⟩
    · rintro ⟨k, there⟩
      obtain ⟨et, known, -⟩ := (Data.anchors_iff _).mp (anchored.anchored k edge there)
      have own : et.name = edge.edgeType := named _ _ known
      have key : k.1 = edge.edgeType := congrArg Prod.fst (anchored.keyed k edge there)
      have listed : et ∈ s.store.edgeTypes.toList.map Prod.snd :=
        List.mem_map.mpr ⟨(_, et), (FinMap.mem_toList _ _ _).mpr known, rfl⟩
      refine List.mem_flatMap.mpr ⟨et, listed, List.mem_map.mpr ⟨(k, edge), ?_, rfl⟩⟩
      refine List.mem_filter.mpr ⟨(FinMap.mem_toList _ _ _).mpr there, ?_⟩
      rw [decide_eq_true_eq, key, own]
  have has (e : EdgeId) : ((s.store.edgeTypes.toList.map Prod.snd).foldl
      State.rebuildEdgeType s).adjacency.Has e ↔
        ∃ (k : String × String) (edge : Edge), s.store.edges[k]? = some edge ∧ edgeId edge = e := by
    have none_ : ¬ AdjacencyIndex.new.Has e := by
      simp [AdjacencyIndex.Has, AdjacencyIndex.get, AdjacencyIndex.new]
    rw [adjacency, AdjacencyIndex.has_insertAll, or_iff_left none_]
    constructor
    · rintro ⟨edge, there, own⟩
      obtain ⟨k, there⟩ := (scanned edge).mp there
      exact ⟨k, edge, there, own⟩
    · rintro ⟨k, edge, there, own⟩
      exact ⟨edge, (scanned edge).mpr ⟨k, there⟩, own⟩
  refine ⟨?_, ?_, fun k edge there => ?_, fun e there => ?_⟩
  · rw [adjacency]
    exact AdjacencyIndex.linked_insertAll _ AdjacencyIndex.linked_new
  · rw [store]
    exact anchored
  · rw [store] at there
    exact (has _).mpr ⟨k, edge, there, rfl⟩
  · obtain ⟨k, edge, stored, rfl⟩ := (has e).mp there
    rw [store]
    exact anchored.anchored k edge stored

section Opening
variable [WalPayload Payload]

/-- What an opening leaves of the edges when every record it replays is admitted in its turn. -/
theorem rooted_opened {config : WalConfig} {order : HashOrder (Nat × List (WalRecord Payload))}
    {disk : Disk} {engine : OpenEngine} {unhandled : List (WalRecord Payload)}
    (named : disk.Named) (opened : openEngine config order disk = .ok (engine, unhandled))
    (stored : (dataOf disk.store).Anchored)
    (admitted : ∀ p ∈ Run.taken Data.replay (dataOf disk.store)
      ((disk.recordsToReplay order).map toLogged), p.1.admits p.2 = true) :
    Synced engine.state ∧ Rooted engine.state := by
  obtain ⟨s, replayed, state, -⟩ := openEngine_replayed opened
  have data : dataOf s.store = ((disk.recordsToReplay order).map toLogged).foldl Data.replay
      (dataOf disk.store) := data_replayed _ replayed
  have anchored : (dataOf s.store).Anchored := data ▸ Data.anchored_foldl stored _ admitted
  have replaying := replaying_replayed named replayed
  have empty : s.adjacency = .new :=
    replay_invariant (P := fun s => s.adjacency = .new) (fun _ r kept => adjacency_replayRecord kept r)
      _ rfl replayed
  obtain ⟨loaded, schemas⟩ := replaying_loadSchemas replaying
  rw [state]
  refine ⟨synced_rebuilt loaded schemas (rebuilt_spec schemas _ _), ?_⟩
  have same := Opening.same_openCollections disk.hnswSnapshots
    (s.loadSchemas.store.collections.toList.map Prod.fst) ⟨s.loadSchemas, ∅⟩
  have index := Opening.adjacency_openCollections disk.hnswSnapshots
    (s.loadSchemas.store.collections.toList.map Prod.fst) ⟨s.loadSchemas, ∅⟩
  unfold State.rebuild
  dsimp only
  generalize (s.loadSchemas.store.collections.toList.map Prod.fst).foldl
    (openCollection disk.hnswSnapshots) ⟨s.loadSchemas, ∅⟩ = o at same index
  have store : dataOf o.state.store = dataOf s.store := same.data
  have types : o.state.store.edgeTypes = s.store.edgeTypes := congrArg Data.edgeTypes store
  refine rooted_rebuildEdgeTypes (s := { o.state with indexes := _ }) (index.trans empty) ?_ ?_
  · exact store ▸ anchored
  · intro name et known
    exact replaying.edgeTypes.named name et (types ▸ known)

end Opening

/-! ### Runs -/

/-- An engine that is closed and opened again, with the edge writes and tasks in flight. -/
structure Running where
  engine : OpenEngine
  writes : List PendingEdge
  drains : List Drain
  sweeps : List Sweep

inductive Life where
  | turn (a : Turn)
  | checkpoint (ts : Int)
  /-- The background task saves the location table. -/
  | saveLocation
  | reopen (config : WalConfig) (order : HashOrder (Nat × List (WalRecord Payload)))

namespace Running

def busy (x : Running) : Busy := ⟨x.engine.state, x.writes, x.drains, x.sweeps⟩

section
variable [WalPayload Payload]

def start (config : WalConfig) : Running := ⟨.init config, [], [], []⟩

/-- One event; none when the engine does not open again. -/
def step (x : Running) : Life → Option Running
  | .turn a =>
    let b := x.busy.step a
    some ⟨{ x.engine with state := b.state }, b.writes, b.drains, b.sweeps⟩
  | .checkpoint ts =>
    some { x with engine := { x.engine with state := (Engine.checkpoint ts x.engine.state).2 } }
  | .saveLocation =>
    some { x with engine := { x.engine with
      locationSnapshot := some (x.engine.state.location.snapshot x.engine.walHead) } }
  | .reopen config order =>
    match openEngine config order x.engine.disk with
    | .ok (engine, _) => some ⟨engine, [], [], []⟩
    | .error _ => none

def next (x : Option Running) (a : Life) : Option Running := x.bind fun x => x.step a

/-- An event under which the edges keep their ends. An opening is one when each record it
replays is in its turn. -/
def admits (x : Running) : Life → Bool
  | .turn a => x.busy.admits a
  | .reopen _ order => (Run.taken Data.replay (dataOf x.engine.disk.store)
      ((x.engine.disk.recordsToReplay order).map toLogged)).all fun p => p.1.admits p.2
  | _ => true

end
end Running

section Runs
variable [WalPayload Payload]

def NeverDangles (config : WalConfig) (events : List Life) : Prop :=
  ∀ x ∈ Run.visited Running.next (some (.start config)) events, ∀ r ∈ x, NoDangling r.engine.state

def AlwaysAdmitted (config : WalConfig) (events : List Life) : Prop :=
  ∀ p ∈ Run.taken Running.next (some (.start config)) events, ∀ r ∈ p.1, r.admits p.2 = true

theorem synced_turn {x : Busy} (synced : Synced x.state) (a : Turn) : Synced (x.step a).state := by
  cases a with
  | statement env w => exact synced_perform env x.state w.1 synced
  | beginInsertEdge env p =>
    simp only [Busy.step, Busy.await]
    rcases beginInsertEdge_ends env x.state p with
      ⟨error, failed⟩ | ⟨pending, et, source, target, begun, -⟩
    · rw [failed]
      exact synced
    · rw [begun]
      exact SameSchemas.synced (s := x.state) ⟨rfl, rfl, rfl, rfl⟩ synced
  | beginConfirmEdge env p =>
    simp only [Busy.step, Busy.await]
    rcases beginConfirmEdge_ends env x.state p with ⟨error, failed⟩ | ⟨pending, recordType, begun, -⟩
    · rw [failed]
      exact synced
    · rw [begun]
      exact SameSchemas.synced (s := x.state) ⟨rfl, rfl, rfl, rfl⟩ synced
  | finishEdge i =>
    simp only [Busy.step]
    cases x.writes[i]? with
    | none => exact synced
    | some pending =>
      unfold finishEdge
      dsimp only
      split <;> exact SameSchemas.synced (s := x.state) ⟨rfl, rfl, rfl, rfl⟩ synced
  | startDrain env => exact synced
  | advanceDrain env i =>
    simp only [Busy.step]
    cases x.drains[i]? with
    | none => exact synced
    | some d =>
      dsimp only
      rcases d.advance_ends env x.state with ⟨edge, -, put, -⟩ | ⟨-, logged | ⟨-, queue, same⟩⟩
      · rw [put]
        exact SameSchemas.synced (s := x.state) ⟨rfl, rfl, rfl, rfl⟩ synced
      · obtain ⟨edge, -, -, logged⟩ := logged
        rw [logged]
        exact SameSchemas.synced (s := x.state) ⟨rfl, rfl, rfl, rfl⟩ synced
      · rw [same]
        exact SameSchemas.synced (s := x.state) ⟨rfl, rfl, rfl, rfl⟩ synced
  | startSweep env => exact synced
  | advanceSweep env i =>
    simp only [Busy.step]
    cases x.sweeps[i]? with
    | none => exact synced
    | some w =>
      dsimp only
      rcases w.advance_ends env x.state with
        ⟨edgeType, fromId, toId, -, taken⟩ | ⟨-, ⟨edgeType, entries, logged⟩ | same⟩
      · rw [taken]
        exact SameSchemas.synced (s := x.state) ⟨rfl, rfl, rfl, rfl⟩ synced
      · rw [logged]
        exact SameSchemas.synced (s := x.state) ⟨rfl, rfl, rfl, rfl⟩ synced
      · rw [same]
        exact synced

theorem rooted_step {x x' : Running} (synced : Synced x.engine.state) (rooted : Rooted x.engine.state)
    {a : Life} (admitted : x.admits a = true) (stepped : x.step a = some x') :
    Synced x'.engine.state ∧ Rooted x'.engine.state := by
  cases a with
  | turn a =>
    cases stepped
    exact ⟨synced_turn synced a, rooted_turn rooted admitted⟩
  | checkpoint ts =>
    cases stepped
    exact ⟨SameSchemas.synced (s := x.engine.state) ⟨rfl, rfl, rfl, rfl⟩ synced,
      rooted.unchanged rfl rfl⟩
  | saveLocation =>
    cases stepped
    exact ⟨synced, rooted⟩
  | reopen config order =>
    unfold Running.step at stepped
    dsimp only at stepped
    split at stepped
    · rename_i engine unhandled opened
      cases stepped
      have each : ∀ p ∈ Run.taken Data.replay (dataOf x.engine.disk.store)
          ((x.engine.disk.recordsToReplay order).map toLogged), p.1.admits p.2 = true :=
        List.all_eq_true.mp admitted
      exact rooted_opened ⟨synced.named, synced.edgeTypeNamed⟩ opened rooted.stored each
    · cases stepped

theorem rooted_start (config : WalConfig) :
    Synced (Running.start config).engine.state ∧ Rooted (Running.start config).engine.state := by
  refine ⟨synced_init config, AdjacencyIndex.linked_new, ⟨?_, ?_⟩, ?_, ?_⟩
  · simp [Running.start, OpenEngine.init, State.init, Store.empty, dataOf]
  · simp [Running.start, OpenEngine.init, State.init, Store.empty, dataOf]
  · simp [Running.start, OpenEngine.init, State.init, Store.empty]
  · simp [Running.start, OpenEngine.init, State.init, AdjacencyIndex.Has, AdjacencyIndex.get,
      AdjacencyIndex.new]

def Running.Safe (x : Option Running) : Prop :=
  ∀ r ∈ x, Synced r.engine.state ∧ Rooted r.engine.state

/-- In a run over any number of openings whose events are all admitted, no edge dangles. -/
theorem edges_never_dangle (config : WalConfig) (events : List Life)
    (admitted : AlwaysAdmitted config events) : NeverDangles config events := by
  have start : Running.Safe (some (.start config)) := by
    intro r this
    cases this
    exact rooted_start config
  have kept := Run.invariant_under Running.next (fun x a => ∀ r ∈ x, r.admits a = true) events start
    admitted (by
      intro x a safe admitted r' there
      obtain ⟨r, here, stepped⟩ := Option.bind_eq_some_iff.mp there
      exact rooted_step (safe r here).1 (safe r here).2 (admitted r here) stepped)
  exact fun x visited r there => (kept x visited r there).2.noDangling

end Runs

/-! ### Edges with and without their ends -/

def linkPeople : List Life :=
  [.turn (.statement .idle ⟨.createCollection ⟨"people", [], [], [], none⟩, rfl⟩),
    .turn (.statement .idle ⟨.createEdgeType ⟨"knows", "people", "people", none, none⟩, rfl⟩)]

/-- An edge between stored people is written and replayed; then bob is deleted, and the edge
with him. -/
def linkedPeople : List Life :=
  linkPeople ++
    [.turn (.statement .idle ⟨.insert ⟨"people", ["id"], [.string "ann"], [], none, none⟩, rfl⟩),
      .turn (.statement .idle ⟨.insert ⟨"people", ["id"], [.string "bob"], [], none, none⟩, rfl⟩),
      .turn (.beginInsertEdge .idle ⟨"knows", "ann", "bob", [], none, none⟩), .turn (.finishEdge 0),
      .reopen default (.insertionOrder _),
      .turn (.statement .idle ⟨.deleteEntity ⟨"bob", "people"⟩, rfl⟩)]

/-- An edge between people that are not stored is confirmed. -/
def confirmedNowhere : List Life :=
  linkPeople ++ [.turn (.beginConfirmEdge .idle ⟨"knows", "ann", "bob", .one⟩), .turn (.finishEdge 0)]

section Examples
attribute [local instance] headerOnly

theorem linked_never_dangle : NeverDangles default linkedPeople :=
  edges_never_dangle default linkedPeople (by
    have admitted : (Run.taken Running.next (some (.start default)) linkedPeople).all fun p =>
        p.1.all fun r => r.admits p.2 := by decide +kernel
    intro p there r this
    have each := List.all_eq_true.mp admitted p there
    rw [this] at each
    exact each)

/-- CONFIRM EDGE has stored an edge whose ends are not. -/
theorem confirmed_edge_dangles : ¬ NeverDangles default confirmedNowhere := by
  intro never
  have stored : (confirmedNowhere.foldl Running.next (some (.start default))).map (fun r =>
      (r.engine.state.store.edges[("knows", "ann:bob")]?.map edgeId,
        (dataOf r.engine.state.store).anchors ("knows", "ann", "bob"))) =
      some (some ("knows", "ann", "bob"), false) := by decide
  obtain ⟨r, reached, same⟩ := Option.map_eq_some_iff.mp stored
  obtain ⟨edge, unanchored⟩ := Prod.mk.inj same
  obtain ⟨edge, there, own⟩ := Option.map_eq_some_iff.mp edge
  have ends := ((never _ (Run.end_visited ..) r reached).stored _ edge there).2
  rw [own] at ends
  have anchored : (dataOf r.engine.state.store).anchors ("knows", "ann", "bob") = true :=
    (Data.anchors_iff _).mpr ends
  cases anchored.symm.trans unanchored

end Examples
end TronDB.Engine
