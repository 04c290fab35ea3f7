import TronDB.Engine.Opened
import TronDB.Engine.Synced

/-! When the dense indexes of an engine that has opened hold what the store has. -/
namespace TronDB.Engine
open TronDB.Core Binary Wal

/-! ### Replay -/

/-- A map in memory knows nothing the stored one does not have, and that one is keyed by name. -/
structure Backed {V : Type} (name : V → String) (memory stored : FinMap String V) : Prop where
  known : ∀ k : String, memory[k]? ≠ none → stored[k]? ≠ none
  named : ∀ (k : String) (v : V), stored[k]? = some v → name v = k

namespace Backed

variable {V : Type} {name : V → String} {memory stored : FinMap String V}

theorem empty (named : ∀ (k : String) (v : V), stored[k]? = some v → name v = k) :
    Backed name ∅ stored := ⟨by simp, named⟩

theorem put (backed : Backed name memory stored) (v : V) :
    Backed name (memory.insert (name v) v) (stored.insert (name v) v) := by
  constructor
  · intro k there
    rw [FinMap.get_insert] at there ⊢
    split
    · exact Option.some_ne_none v
    · rename_i other
      rw [if_neg other] at there
      exact backed.known k there
  · intro k w found
    rw [FinMap.get_insert] at found
    split at found
    · rename_i own
      cases found
      exact own
    · exact backed.named k w found

theorem keep (backed : Backed name memory stored) {v : V} (present : stored.contains (name v) = true) :
    Backed name (memory.insert (name v) v) stored := by
  refine ⟨fun k there => ?_, backed.named⟩
  rw [FinMap.get_insert] at there
  split at there
  · rename_i own
    rw [← own]
    rw [Std.ExtTreeMap.contains_eq_isSome_getElem?] at present
    exact Option.isSome_iff_ne_none.mp present
  · exact backed.known k there

theorem erase (backed : Backed name memory stored) (k : String) :
    Backed name (memory.erase k) (stored.erase k) := by
  constructor
  · intro k' there
    rw [FinMap.get_erase] at there ⊢
    split
    · rename_i own
      rw [if_pos own] at there
      exact there
    · rename_i other
      rw [if_neg other] at there
      exact backed.known k' there
  · intro k' v found
    rw [FinMap.get_erase] at found
    split at found
    · cases found
    · exact backed.named k' v found

theorem forget (backed : Backed name memory stored) (k : String) :
    Backed name (memory.erase k) stored := by
  refine ⟨fun k' there => ?_, backed.named⟩
  rw [FinMap.get_erase] at there
  split at there
  · exact absurd rfl there
  · exact backed.known k' there

theorem load (backed : Backed name memory stored) :
    (stored.toList.map Prod.snd).foldl (fun memory v => memory.insert (name v) v) memory = stored := by
  refine FinMap.ext fun k => ?_
  rw [FinMap.get_insertValues backed.named]
  cases found : stored[k]? with
  | some v => rfl
  | none =>
    by_contra there
    exact backed.known k there found

end Backed

/-- What replay keeps; the indexes it opens are empty. -/
structure Replaying (s : State) : Prop where
  schemas : Backed CollectionSchema.name s.schemas s.store.collections
  edgeTypes : Backed EdgeType.name s.edgeTypes s.store.edgeTypes
  empty : ∀ (key : String × String) (h : HnswIndex), s.indexes[key]? = some h →
    ∃ dims, h = .new dims

theorem Replaying.rows {s s' : State} (replaying : Replaying s) (schemas : s'.schemas = s.schemas)
    (edgeTypes : s'.edgeTypes = s.edgeTypes)
    (collections : (dataOf s'.store).collections = s.store.collections)
    (storedTypes : (dataOf s'.store).edgeTypes = s.store.edgeTypes)
    (indexes : s'.indexes = s.indexes) : Replaying s' := by
  have collections : s'.store.collections = s.store.collections := collections
  have storedTypes : s'.store.edgeTypes = s.store.edgeTypes := storedTypes
  refine ⟨?_, ?_, ?_⟩
  · rw [schemas, collections]
    exact replaying.schemas
  · rw [edgeTypes, storedTypes]
    exact replaying.edgeTypes
  · rw [indexes]
    exact replaying.empty

theorem rows_replayEntity (store : Store) (collection : String) (e : Entity) :
    (dataOf (replayEntity store collection e)).collections = store.collections ∧
      (dataOf (replayEntity store collection e)).edgeTypes = store.edgeTypes := by
  rw [data_replayEntity, Data.putEntity]
  split <;> exact ⟨rfl, rfl⟩

theorem rows_replayDelete (store : Store) (id : LogicalId) (collection : String) :
    (dataOf (replayDelete store id collection)).collections = store.collections ∧
      (dataOf (replayDelete store id collection)).edgeTypes = store.edgeTypes := by
  rw [data_replayDelete, Data.eraseEntity]
  split <;> exact ⟨rfl, rfl⟩

theorem rows_replayEdge (store : Store) (e : Edge) :
    (dataOf (replayEdge store e)).collections = store.collections ∧
      (dataOf (replayEdge store e)).edgeTypes = store.edgeTypes := by
  rw [data_replayEdge, Data.putEdge]
  split <;> exact ⟨rfl, rfl⟩

theorem replaying_alter {s : State} (replaying : Replaying s) (r : WalRecord Payload)
    {collection : String} {op : SchemaAlterOp} (type : r.recordType = .schemaAlter)
    (payload : r.payload = .schemaAlter collection op) : Replaying (replayRecord s r) := by
  have store : replayStore s.store r = replayAlter s.store collection op := by
    rw [replayStore, type, payload]
    rfl
  unfold replayRecord State.replayMemory
  rw [store, type, payload]
  dsimp only
  unfold replayAlter
  cases found : s.store.collections[collection]? with
  | none => exact ⟨replaying.schemas, replaying.edgeTypes, replaying.empty⟩
  | some schema =>
    have own := replaying.schemas.named collection schema found
    dsimp only
    split
    · have indexes : ∀ (key : String × String) (h : HnswIndex),
          (s.replayIndexes collection op).indexes[key]? = some h → ∃ dims, h = .new dims := by
        intro key h there
        unfold State.replayIndexes at there
        repeat' split at there
        all_goals try exact replaying.empty key h there
        rw [FinMap.get_insert] at there
        split at there
        · cases there
          exact ⟨_, rfl⟩
        · exact replaying.empty key h there
      have rest : (s.replayIndexes collection op).edgeTypes = s.edgeTypes := by
        unfold State.replayIndexes
        repeat' split
        all_goals rfl
      have put := replaying.schemas.put (alterSchema schema op)
      rw [name_alterSchema, own] at put
      refine ⟨?_, ?_, indexes⟩
      · unfold Store.updateCollectionSchema
        rw [name_alterSchema, own]
        exact put
      · dsimp only
        rw [rest]
        exact replaying.edgeTypes
    · exact ⟨replaying.schemas, replaying.edgeTypes, replaying.empty⟩

theorem replaying_record {s : State} (replaying : Replaying s) (r : WalRecord Payload) :
    Replaying (replayRecord s r) := by
  obtain ⟨lsn, ts, txId, recordType, schemaVer, collection, payload⟩ := r
  cases recordType <;> try exact replaying.rows rfl rfl rfl rfl rfl
  all_goals cases payload <;> try exact replaying.rows rfl rfl rfl rfl rfl
  case entityWrite.entity e | reprWrite.entity e =>
    obtain ⟨collections, edgeTypes⟩ := rows_replayEntity s.store collection e
    exact replaying.rows rfl rfl collections edgeTypes rfl
  case entityDelete.entityDelete id c =>
    obtain ⟨collections, edgeTypes⟩ := rows_replayDelete s.store id c
    exact replaying.rows rfl rfl collections edgeTypes rfl
  case edgeWrite.edge e | edgeConfirm.edge e | edgeConfidenceUpdate.edge e | edgeInferred.edge e =>
    obtain ⟨collections, edgeTypes⟩ := rows_replayEdge s.store e
    exact replaying.rows rfl rfl collections edgeTypes rfl
  case schemaCreateColl.schema schema =>
    unfold replayRecord replayStore replayEntry
    dsimp only
    split
    · rename_i present
      exact ⟨replaying.schemas.keep present, replaying.edgeTypes, replaying.empty⟩
    · exact ⟨replaying.schemas.put schema, replaying.edgeTypes, replaying.empty⟩
  case schemaCreateEdgeType.edgeType et =>
    unfold replayRecord replayStore replayEntry
    dsimp only
    split
    · rename_i present
      exact ⟨replaying.schemas, replaying.edgeTypes.keep present, replaying.empty⟩
    · exact ⟨replaying.schemas, replaying.edgeTypes.put et, replaying.empty⟩
  case schemaDropColl.name name =>
    have empty : ∀ (key : String × String) (h : HnswIndex),
        (s.forgetCollection name).indexes[key]? = some h → ∃ dims, h = .new dims := by
      intro key h there
      rw [State.forgetCollection, FinMap.get_filter] at there
      exact replaying.empty key h (Option.filter_eq_some_iff.mp there).1
    unfold replayRecord replayStore replayEntry replayDrop Store.dropCollection Store.getCollectionSchema
    dsimp only
    cases s.store.collections[name]? with
    | none => exact ⟨replaying.schemas.forget name, replaying.edgeTypes, empty⟩
    | some schema => exact ⟨replaying.schemas.erase name, replaying.edgeTypes, empty⟩
  case schemaDropEdgeType.name name =>
    unfold replayRecord replayStore replayEntry
    dsimp only
    split
    · exact ⟨replaying.schemas, replaying.edgeTypes.erase name, replaying.empty⟩
    · exact ⟨replaying.schemas, replaying.edgeTypes.forget name, replaying.empty⟩
  case schemaAlter.schemaAlter c op => exact replaying_alter replaying _ rfl rfl

theorem replay_invariant {P : State → Prop} (each : ∀ s r, P s → P (replayRecord s r))
    (records : List (WalRecord Payload)) {s s' : State} {unhandled : List (WalRecord Payload)}
    (start : P s) (replayed : replayWalRecords s records = .ok (s', unhandled)) : P s' := by
  induction records generalizing s unhandled with
  | nil =>
    cases replayed
    exact start
  | cons r rest ih =>
    unfold replayWalRecords at replayed
    split at replayed
    · split at replayed
      · cases replayed
      · rename_i done
        cases replayed
        refine ih ?_ done
        split
        · exact each s r start
        · exact start
    · cases replayed

theorem replaying_records (records : List (WalRecord Payload)) {s s' : State}
    {unhandled : List (WalRecord Payload)} (replaying : Replaying s)
    (replayed : replayWalRecords s records = .ok (s', unhandled)) : Replaying s' :=
  replay_invariant (P := Replaying) (fun _ r kept => replaying_record kept r) records replaying replayed

/-! ### The indexes behind the replay -/

theorem rebuildEdgeTypes_rest (types : List EdgeType) (s : State) :
    (types.foldl State.rebuildEdgeType s).store = s.store ∧
      (types.foldl State.rebuildEdgeType s).schemas = s.schemas ∧
      (types.foldl State.rebuildEdgeType s).indexes = s.indexes ∧
      (types.foldl State.rebuildEdgeType s).wal = s.wal ∧
      (types.foldl State.rebuildEdgeType s).edgeTypes =
        types.foldl (fun types et => types.insert et.name et) s.edgeTypes := by
  induction types generalizing s with
  | nil => exact ⟨rfl, rfl, rfl, rfl, rfl⟩
  | cons et rest ih => exact ih (s.rebuildEdgeType et)

/-- Some index of the collection comes from a snapshot. -/
def State.loads (s : State) (snapshots : HnswSnapshots) (collection : String) : Bool :=
  match s.schemas[collection]? with
  | some schema =>
    schema.representations.any fun repr => (s.loadable snapshots (collection, repr.name)).isSome
  | none => false

theorem declared_of_dense {s : State} {key : String × String} {dims : Nat}
    (dense : s.denseDimensions key = some dims) :
    ∃ schema, s.schemas[key.1]? = some schema ∧ ∃ repr ∈ schema.representations,
      repr.name = key.2 ∧ repr.sparse = false ∧ repr.dimensions = some dims := by
  obtain ⟨schema, known, found⟩ := Option.bind_eq_some_iff.mp dense
  obtain ⟨repr, there, here⟩ := List.exists_of_findSome?_eq_some found
  split at here
  · rename_i name
    unfold denseOf at here
    split at here
    · cases here
    · rename_i notSparse
      exact ⟨schema, known, repr, there, name, Bool.eq_false_iff.mpr notSparse, here⟩
  · cases here

theorem dense_of_loadable {s : State} {snapshots : HnswSnapshots} {key : String × String}
    {snapshot : HnswSnapshot} (loadable : s.loadable snapshots key = some snapshot) :
    ∃ dims, s.denseDimensions key = some dims ∧
      snapshots[snapshotBasename key.1 key.2]? = some snapshot := by
  unfold State.loadable at loadable
  split at loadable
  · cases loadable
  · obtain ⟨dims, dense, found⟩ := Option.bind_eq_some_iff.mp loadable
    exact ⟨dims, dense, (Option.filter_eq_some_iff.mp found).1⟩

theorem loads_iff (s : State) (snapshots : HnswSnapshots) (collection : String) :
    s.loads snapshots collection = true ↔
      ∃ reprName, s.loadable snapshots (collection, reprName) ≠ none := by
  unfold State.loads
  constructor
  · intro loads
    split at loads
    · obtain ⟨repr, -, there⟩ := List.any_eq_true.mp loads
      exact ⟨repr.name, Option.isSome_iff_ne_none.mp there⟩
    · cases loads
  · rintro ⟨reprName, there⟩
    obtain ⟨snapshot, loadable⟩ := Option.ne_none_iff_exists'.mp there
    obtain ⟨dims, dense, -⟩ := dense_of_loadable loadable
    obtain ⟨schema, known, repr, listed, rfl, -⟩ := declared_of_dense dense
    rw [known]
    exact List.any_eq_true.mpr ⟨repr, listed, Option.isSome_iff_ne_none.mpr there⟩

/-- The state behind the replay with its collections opened: for each key the index it is opened
with, brought up by the records when it came from a snapshot. -/
structure Rebuilt (s s' : State) (snapshots : HnswSnapshots) (records : List (WalRecord Payload)) :
    Prop where
  data : dataOf s'.store = dataOf s.store
  schemas : s'.schemas = s.schemas
  edgeTypes : s'.edgeTypes = (s.store.edgeTypes.toList.map Prod.snd).foldl
    (fun types et => types.insert et.name et) s.edgeTypes
  wal : s'.wal = s.wal
  opened : ∃ snapshotLsns : FinMap (String × String) Nat,
    hasSnapshot snapshotLsns = s.loads snapshots ∧ ∀ key : String × String,
      s.store.hasCollection key.1 = true →
        snapshotLsns[key]? = (openedEntry snapshots s key).2 ∧
        s'.indexes[key]? = (openedEntry snapshots s key).1.map fun h =>
          records.foldl (fun h r => catchUpIndex snapshotLsns r key h) h
  others : ∀ key : String × String, ¬ s.store.hasCollection key.1 = true →
    s'.indexes[key]? = s.indexes[key]?

theorem openedEntry_lsn (snapshots : HnswSnapshots) (s : State) (key : String × String) :
    (openedEntry snapshots s key).2 = (s.loadable snapshots key).map HnswSnapshot.lsn := by
  unfold openedEntry
  split <;> rename_i found <;> rw [found] <;> rfl

theorem rebuilt_spec {s : State} (schemas : s.schemas = s.store.collections)
    (snapshots : HnswSnapshots) (records : List (WalRecord Payload)) :
    Rebuilt s (s.rebuild snapshots records) snapshots records := by
  have distinct := FinMap.nodup_toList s.store.collections
  have listed (name : String) : name ∈ s.store.collections.toList.map Prod.fst ↔
      s.store.hasCollection name = true := by
    rw [Store.hasCollection_eq, Option.isSome_iff_exists,
      List.mem_map]
    constructor
    · rintro ⟨⟨name', schema⟩, there, rfl⟩
      exact ⟨schema, (FinMap.mem_toList _ _ _).mp there⟩
    · rintro ⟨schema, found⟩
      exact ⟨(name, schema), (FinMap.mem_toList _ _ _).mpr found, rfl⟩
  have same := Opening.same_openCollections snapshots (s.store.collections.toList.map Prod.fst) ⟨s, ∅⟩
  have entry (key : String × String) (present : s.store.hasCollection key.1 = true) :
      ((s.store.collections.toList.map Prod.fst).foldl (openCollection snapshots) ⟨s, ∅⟩).entry key =
        openedEntry snapshots s key :=
    Opening.entry_openCollections snapshots _ ⟨s, ∅⟩ distinct (fun name there => (listed name).mp there)
      key ((listed key.1).mpr present) (by simp)
  have closed (key : String × String) (absent : ¬ s.store.hasCollection key.1 = true) :
      ((s.store.collections.toList.map Prod.fst).foldl (openCollection snapshots) ⟨s, ∅⟩).entry key =
        (s.indexes[key]?, none) := by
    rw [Opening.entry_openCollections_other snapshots _ ⟨s, ∅⟩
      fun there => absent ((listed key.1).mp there)]
    simp [Opening.entry, Loaded.entry]
  unfold State.rebuild
  generalize (s.store.collections.toList.map Prod.fst).foldl (openCollection snapshots) ⟨s, ∅⟩ = o
    at same entry closed
  dsimp only
  obtain ⟨store, schemas', indexes, wal, edgeTypes⟩ :=
    rebuildEdgeTypes_rest (o.state.store.edgeTypes.toList.map Prod.snd)
      { o.state with indexes := records.foldl (catchUpRecord o.snapshotLsns) o.state.indexes }
  have storedTypes : o.state.store.edgeTypes = s.store.edgeTypes := congrArg Data.edgeTypes same.data
  refine ⟨?_, schemas'.trans same.schemas, ?_, wal.trans same.wal, ⟨o.snapshotLsns, ?_, ?_⟩, ?_⟩
  · rw [store]
    exact same.data
  · rw [edgeTypes, storedTypes]
    have kept : o.state.edgeTypes = s.edgeTypes := same.edgeTypes
    dsimp only
    rw [kept]
  · funext collection
    rw [Bool.eq_iff_iff, hasSnapshot_iff, loads_iff]
    refine exists_congr fun reprName => not_congr ?_
    by_cases present : s.store.hasCollection collection = true
    · have lsn : o.snapshotLsns[(collection, reprName)]? = _ :=
        congrArg Prod.snd (entry (collection, reprName) present)
      rw [lsn, openedEntry_lsn, Option.map_eq_none_iff]
    · refine iff_of_true (congrArg Prod.snd (closed (collection, reprName) present)) ?_
      cases loadable : s.loadable snapshots (collection, reprName) with
      | none => rfl
      | some snapshot =>
        obtain ⟨dims, dense, -⟩ := dense_of_loadable loadable
        obtain ⟨schema, known, -⟩ := declared_of_dense dense
        rw [schemas] at known
        refine absurd ?_ present
        exact Store.hasCollection_of_stored known
  · intro key present
    have opened := entry key present
    have index : o.state.indexes[key]? = _ := congrArg Prod.fst opened
    refine ⟨congrArg Prod.snd opened, ?_⟩
    rw [indexes, get_catchUp, index]
  · intro key absent
    have index : o.state.indexes[key]? = s.indexes[key]? := congrArg Prod.fst (closed key absent)
    have lsn : o.snapshotLsns[key]? = none := congrArg Prod.snd (closed key absent)
    rw [indexes, get_catchUp, index, funext fun h => catchUp_rebuilt lsn records h]
    exact Option.map_id'

/-! ### The vectors -/

/-- Every dense representation with dimensions has an index, and a search in it scores the stored
entities that have a vector for it by that vector, and nothing else. -/
def VectorsRebuilt (s : State) : Prop :=
  ∀ (collection : String) (schema : CollectionSchema),
    s.store.collections[collection]? = some schema → ∀ repr ∈ schema.representations,
      repr.sparse = false → repr.dimensions.isSome = true →
        ∃ h, s.indexes[(collection, repr.name)]? = some h ∧
          ∀ id v, h.Scores id v ↔ storedVector s.store collection id repr.name = some v

/-- Each snapshot that is loaded comes, for every id and with the records behind it, to the
vector the store has: an id the snapshot shows has that vector and is not deleted later, one it
has buried has none, and one it has not seen has the first vector it is given later. -/
def SnapshotsSettle (s : State) (snapshots : HnswSnapshots) (records : List (WalRecord Payload)) :
    Prop :=
  ∀ (key : String × String) (snapshot : HnswSnapshot), s.loadable snapshots key = some snapshot →
    ∀ id, (snapshot.index.slot id).settled
        (records.filterMap (laterNote (s.loads snapshots) key snapshot.lsn id)) =
      storedVector s.store key.1 id key.2

theorem wellFormed_fromSnapshot {h : HnswIndex} (wf : h.WellFormed) : h.fromSnapshot.WellFormed :=
  ⟨wf.numbered, wf.ids, wf.below, wf.tombstones⟩

section Rebuilt
variable {s s' : State} {snapshots : HnswSnapshots} {records : List (WalRecord Payload)}

theorem Rebuilt.loaded (rebuilt : Rebuilt s s' snapshots records)
    (wf : ∀ (base : String) (snapshot : HnswSnapshot), snapshots[base]? = some snapshot →
      snapshot.index.WellFormed) {key : String × String} {snapshot : HnswSnapshot}
    (present : s.store.hasCollection key.1 = true)
    (loadable : s.loadable snapshots key = some snapshot) :
    ∃ h, s'.indexes[key]? = some h ∧ h.WellFormed ∧ ∀ id, (h.slot id).current =
      (snapshot.index.slot id).settled
        (records.filterMap (laterNote (s.loads snapshots) key snapshot.lsn id)) := by
  obtain ⟨lsns, loads, opened⟩ := rebuilt.opened
  obtain ⟨lsn, index⟩ := opened key present
  obtain ⟨dims, -, file⟩ := dense_of_loadable loadable
  have restored := wellFormed_fromSnapshot (wf _ snapshot file)
  rw [openedEntry_lsn, loadable] at lsn
  rw [openedEntry, loadable] at index
  refine ⟨_, index, wellFormed_catchUp restored lsns records key, fun id => ?_⟩
  rw [slot_catchUp restored lsn records id, loads, Slot.current_foldl]
  rfl

theorem Rebuilt.filled (rebuilt : Rebuilt s s' snapshots records) {key : String × String}
    {dims : Nat} (present : s.store.hasCollection key.1 = true)
    (missing : s.loadable snapshots key = none) (empty : s.emptyIndex key = some (.new dims)) :
    ∃ h, s'.indexes[key]? = some h ∧ h.WellFormed ∧
      ∀ id, (h.slot id).current = storedVector s.store key.1 id key.2 := by
  obtain ⟨lsns, -, opened⟩ := rebuilt.opened
  obtain ⟨lsn, index⟩ := opened key present
  have fresh := HnswIndex.wellFormed_new dims
  rw [openedEntry_lsn, missing] at lsn
  rw [openedEntry, missing, empty] at index
  refine ⟨_, index, wellFormed_catchUp (HnswIndex.wellFormed_fill fresh _ _) lsns records key,
    fun id => ?_⟩
  dsimp only
  rw [catchUp_rebuilt lsn, HnswIndex.slot_fill fresh, HnswIndex.slot_new, fill_partition]
  cases storedVector s.store key.1 id key.2 <;> rfl

end Rebuilt

theorem dense_of_declared {s : State} {collection : String} {schema : CollectionSchema}
    (known : s.schemas[collection]? = some schema) {repr : StoredRepresentation}
    (there : repr ∈ schema.representations) (notSparse : repr.sparse = false)
    (dimensions : repr.dimensions.isSome = true) :
    ∃ dims, s.denseDimensions (collection, repr.name) = some dims := by
  unfold State.denseDimensions
  rw [known, Option.bind_some]
  refine Option.isSome_iff_exists.mp (List.findSome?_isSome_iff.mpr ⟨repr, there, ?_⟩)
  rw [if_pos rfl, denseOf, notSparse]
  exact dimensions

/-- The indexes have the stored vectors iff every snapshot that is loaded settles on them. -/
theorem rebuild_iff {s s' : State} (replaying : Replaying s) (schemas : s.schemas = s.store.collections)
    {snapshots : HnswSnapshots} {records : List (WalRecord Payload)}
    (wf : ∀ (base : String) (snapshot : HnswSnapshot), snapshots[base]? = some snapshot →
      snapshot.index.WellFormed) (rebuilt : Rebuilt s s' snapshots records) :
    VectorsRebuilt s' ↔ SnapshotsSettle s snapshots records := by
  have collections : s'.store.collections = s.store.collections := congrArg Data.collections rebuilt.data
  have entities : s'.store.entities = s.store.entities := congrArg Data.entities rebuilt.data
  have stored (collection : String) (id : LogicalId) (reprName : String) :
      storedVector s'.store collection id reprName = storedVector s.store collection id reprName := by
    unfold storedVector
    rw [entities]
  have there {collection : String} {schema : CollectionSchema}
      (known : s.store.collections[collection]? = some schema) :
      s.store.hasCollection collection = true := Store.hasCollection_of_stored known
  constructor
  · intro all key snapshot loadable id
    obtain ⟨dims, dense, -⟩ := dense_of_loadable loadable
    obtain ⟨schema, known, repr, listed, name, notSparse, dimensions⟩ := declared_of_dense dense
    rw [schemas] at known
    obtain ⟨h, index, wfIndex, settles⟩ := rebuilt.loaded wf (there known) loadable
    obtain ⟨h', index', scores⟩ := all key.1 schema (by rw [collections, known]) repr listed notSparse
      (by rw [dimensions]; rfl)
    rw [name] at index' scores
    cases index.symm.trans index'
    rw [← settles id, ← stored key.1 id key.2]
    exact (HnswIndex.scores_stored_iff wfIndex _).mp scores id
  · intro settle collection schema known repr listed notSparse dimensions
    rw [collections] at known
    have present := there known
    rw [← schemas] at known
    obtain ⟨dims, dense⟩ := dense_of_declared known listed notSparse dimensions
    have opened : ∃ h, s'.indexes[(collection, repr.name)]? = some h ∧ h.WellFormed ∧
        ∀ id, (h.slot id).current = storedVector s.store collection id repr.name := by
      cases loadable : s.loadable snapshots (collection, repr.name) with
      | some snapshot =>
        obtain ⟨h, index, wfIndex, settles⟩ := rebuilt.loaded wf present loadable
        exact ⟨h, index, wfIndex, fun id => (settles id).trans (settle _ snapshot loadable id)⟩
      | none =>
        cases before : s.indexes[(collection, repr.name)]? with
        | some h =>
          obtain ⟨dims', rfl⟩ := replaying.empty _ h before
          exact rebuilt.filled present loadable (by rw [State.emptyIndex, before])
        | none =>
          exact @Rebuilt.filled s s' snapshots records rebuilt (collection, repr.name) dims present loadable
            (by rw [State.emptyIndex, before, dense]; rfl)
    obtain ⟨h, index, wfIndex, slots⟩ := opened
    refine ⟨h, index, (HnswIndex.scores_stored_iff wfIndex _).mpr fun id => ?_⟩
    rw [slots id, stored]

end TronDB.Engine
