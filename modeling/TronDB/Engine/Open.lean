import TronDB.Engine.Edges
import TronDB.Engine.Recompute
import TronDB.Engine.Replay

/-! How an engine opens on what an earlier one left on disk. -/
namespace TronDB.Engine
open TronDB.Core Binary Wal

/-! ### Snapshots -/

namespace HnswIndex

def len (h : HnswIndex) : Nat := h.idToIdx.size - h.tombstoneCount

def isEmpty (h : HnswIndex) : Bool := h.len = 0

/-- The graph and the id maps come back as they were dumped; the tombstones are counted anew. -/
def fromSnapshot (h : HnswIndex) : HnswIndex := { h with tombstoneCount := h.tombstones.size }

end HnswIndex

/-- The files of one base name: an index and the head of the log when it was dumped. -/
structure HnswSnapshot where
  index : HnswIndex
  lsn : Nat
  deriving DecidableEq

abbrev HnswSnapshots := FinMap String HnswSnapshot

def snapshotBasename (collection reprName : String) : String := s!"{collection}_{reprName}"

/-- An empty index is skipped, and the files of an earlier snapshot stay. -/
def saveSnapshot (snapshots : HnswSnapshots) (key : String × String) (h : HnswIndex) (lsn : Nat) :
    HnswSnapshots :=
  if h.isEmpty then snapshots else snapshots.insert (snapshotBasename key.1 key.2) ⟨h, lsn⟩

/-- Version, parameters and checksum are those the files were saved with. -/
def loadSnapshot (snapshots : HnswSnapshots) (collection reprName : String)
    (expectedDimensions : Nat) : Except String (Option (HnswIndex × Nat)) :=
  match snapshots[snapshotBasename collection reprName]? with
  | none => .ok none
  | some snapshot =>
    if snapshot.index.dimensions ≠ expectedDimensions then
      .error s!"dimensions mismatch: snapshot {snapshot.index.dimensions} != schema {expectedDimensions}"
    else .ok (some (snapshot.index.fromSnapshot, snapshot.lsn))

/-- The location table as it was saved, with the LSN it was saved under. -/
structure LocationSnapshot where
  entries : List (ReprKey × LocationDescriptor)
  lsn : Nat
  deriving DecidableEq

namespace LocationTable

def snapshot (t : LocationTable) (walHeadLsn : Nat) : LocationSnapshot :=
  ⟨t.descriptors.toList, walHeadLsn⟩

def restore (snap : LocationSnapshot) : LocationTable :=
  snap.entries.foldl (fun t kd => t.register kd.1 kd.2) .new

end LocationTable

/-! ### Opening -/

/-- What an engine leaves behind. -/
structure Disk where
  store : Store
  wal : WalDir Payload
  locationSnapshot : Option LocationSnapshot
  hnswSnapshots : HnswSnapshots

/-- The dense indexes, with the LSNs of those that came from snapshots. -/
structure Loaded where
  indexes : FinMap (String × String) HnswIndex
  snapshotLsns : FinMap (String × String) Nat
  deriving DecidableEq

/-- A snapshot that cannot be loaded leaves an empty index, as no snapshot does. -/
def openDenseIndex (snapshots : HnswSnapshots) (collection : String) (l : Loaded)
    (repr : StoredRepresentation) : Loaded :=
  match repr.sparse, repr.dimensions with
  | false, some dims =>
    if l.indexes.contains (collection, repr.name) then l
    else match loadSnapshot snapshots collection repr.name dims with
      | .ok (some (index, lsn)) =>
        { indexes := l.indexes.insert (collection, repr.name) index
          snapshotLsns := l.snapshotLsns.insert (collection, repr.name) lsn }
      | .ok none | .error _ =>
        { l with indexes := l.indexes.insert (collection, repr.name) (.new dims) }
  | _, _ => l

def reopenSparse (sparseIndexes : FinMap (String × String) SparseIndex) (schema : CollectionSchema)
    (collection : String) : FinMap (String × String) SparseIndex :=
  schema.representations.foldl (fun indexes repr =>
    if repr.sparse && !indexes.contains (collection, repr.name) then
      indexes.insert (collection, repr.name) .new
    else indexes) sparseIndexes

def reopenFieldIndexes (fieldIndexes : FieldIndexes) (schema : CollectionSchema)
    (collection : String) : FieldIndexes :=
  schema.indexes.foldl (fun fieldIndexes idx =>
    if fieldIndexes.contains (collection, idx.name) then fieldIndexes
    else fieldIndexes.insert (collection, idx.name) (schema.fieldTypes idx)) fieldIndexes

/-- The vectors of an entity, where the index did not come from a snapshot. -/
def rebuildDense (l : Loaded) (collection : String) (e : Entity) : Loaded :=
  { l with
    indexes := e.representations.foldl (fun indexes repr =>
      match repr.vector with
      | .dense v =>
        if l.snapshotLsns.contains (collection, repr.name) then indexes
        else FinMap.adjust indexes (collection, repr.name) fun idx => idx.insert e.id v
      | .sparse _ => indexes) l.indexes }

/-- The entries of an entity; the partition still has those of the last session, and an
entry that cannot be encoded is passed over. -/
def rebuildFieldEntries (fieldIndexes : FieldIndexes) (collection : String) (store : Store)
    (e : Entity) : Store :=
  (fieldIndexes.toList.filter fun idx => idx.1.1 = collection).foldl (fun store idx =>
    let values := indexedValues idx.2 e
    if values.length = idx.2.length then
      match insertEntry store collection idx.1.2 idx.2 e.id values with
      | .ok store' => store'
      | .error _ => store
    else store) store

/-- A state with the snapshot LSNs, while the collections are opened. -/
structure Opening where
  state : State
  snapshotLsns : FinMap (String × String) Nat

def Opening.openIndexes (o : Opening) (snapshots : HnswSnapshots) (collection : String) : Opening :=
  match o.state.schemas[collection]? with
  | none => o
  | some schema =>
    let l := schema.representations.foldl (openDenseIndex snapshots collection)
      ⟨o.state.indexes, o.snapshotLsns⟩
    { state := { o.state with
        indexes := l.indexes
        sparseIndexes := reopenSparse o.state.sparseIndexes schema collection
        fieldIndexes := reopenFieldIndexes o.state.fieldIndexes schema collection }
      snapshotLsns := l.snapshotLsns }

def Opening.rebuildEntity (collection : String) (o : Opening) (e : Entity) : Opening :=
  { o with
    state := { o.state with
      entityCollections := o.state.entityCollections.insert e.id collection
      indexes := (rebuildDense ⟨o.state.indexes, o.snapshotLsns⟩ collection e).indexes
      sparseIndexes := insertSparse o.state.sparseIndexes collection e
      store := rebuildFieldEntries o.state.fieldIndexes collection o.state.store e } }

def openCollection (snapshots : HnswSnapshots) (o : Opening) (collection : String) : Opening :=
  let o := o.openIndexes snapshots collection
  match o.state.store.scan collection with
  | .ok entities => entities.foldl (Opening.rebuildEntity collection) o
  | .error _ => o

/-- Some index of the collection came from a snapshot. -/
def hasSnapshot (snapshotLsns : FinMap (String × String) Nat) (collection : String) : Bool :=
  snapshotLsns.toList.any fun kl => kl.1.1 = collection

/-- The record is later than the snapshot the index came from. -/
def afterSnapshot (snapshotLsns : FinMap (String × String) Nat) (key : String × String)
    (lsn : Nat) : Bool :=
  match snapshotLsns[key]? with
  | some snapshotLsn => snapshotLsn < lsn
  | none => false

def catchUpRecord (snapshotLsns : FinMap (String × String) Nat)
    (indexes : FinMap (String × String) HnswIndex) (r : WalRecord Payload) :
    FinMap (String × String) HnswIndex :=
  if !hasSnapshot snapshotLsns r.collection then indexes
  else match r.recordType, r.payload with
    | .entityWrite, .entity e =>
      e.representations.foldl (fun indexes repr =>
        match repr.vector with
        | .dense v =>
          if afterSnapshot snapshotLsns (r.collection, repr.name) r.lsn then
            FinMap.adjust indexes (r.collection, repr.name) fun idx => idx.insert e.id v
          else indexes
        | .sparse _ => indexes) indexes
    | .entityDelete, .entityDelete id collection =>
      indexes.map fun key idx =>
        if key.1 = collection && afterSnapshot snapshotLsns key r.lsn then idx.remove id else idx
    | _, _ => indexes

def State.loadSchemas (s : State) : State :=
  { s with
    schemas := (s.store.collections.toList.map Prod.snd).foldl
      (fun schemas schema => schemas.insert schema.name schema) s.schemas }

def State.rebuildEdgeType (s : State) (et : EdgeType) : State :=
  { s with
    adjacency := (s.store.scanEdges et.name).foldl
      (fun a edge => a.insert edge.fromId edge.edgeType (adjEntry edge)) s.adjacency
    edgeTypes := s.edgeTypes.insert et.name et }

/-- The executor before the replay: the store, the log and the location table. -/
def State.booting (store : Store) (wal : WalWriter (WalSegment Payload) Payload)
    (location : LocationTable) : State where
  store
  wal
  location
  indexes := ∅
  sparseIndexes := ∅
  fieldIndexes := ∅
  schemas := ∅
  adjacency := .new
  edgeTypes := ∅
  entityCollections := ∅
  inferenceQueue := ∅

namespace Disk

/-- The LSN of the location snapshot; records up to it are not replayed. -/
def snapLsn (disk : Disk) : Nat := (disk.locationSnapshot.map LocationSnapshot.lsn).getD 0

def location (disk : Disk) : LocationTable :=
  match disk.locationSnapshot with
  | some snap => .restore snap
  | none => .new

def recordsToReplay [WalPayload Payload] (disk : Disk)
    (order : HashOrder (Nat × List (WalRecord Payload))) : List (WalRecord Payload) :=
  (recover order disk.wal).records.filter fun r => disk.snapLsn < r.lsn

end Disk

/-- The collections one after the other, and then the records for the indexes from snapshots. -/
def State.rebuild (s : State) (snapshots : HnswSnapshots) (records : List (WalRecord Payload)) :
    State :=
  let o := (s.store.collections.toList.map Prod.fst).foldl (openCollection snapshots) ⟨s, ∅⟩
  let s := { o.state with indexes := records.foldl (catchUpRecord o.snapshotLsns) o.state.indexes }
  (s.store.edgeTypes.toList.map Prod.snd).foldl State.rebuildEdgeType s

/-- An open engine: its state, the head of the log when it opened, and the snapshot files. -/
structure OpenEngine where
  state : State
  walHead : Nat
  locationSnapshot : Option LocationSnapshot
  hnswSnapshots : HnswSnapshots

/-- What has been appended to the log and not been committed is lost. -/
def OpenEngine.disk (engine : OpenEngine) : Disk :=
  ⟨engine.state.store, engine.state.wal.dir, engine.locationSnapshot, engine.hnswSnapshots⟩

def headLsn (wal : WalWriter (WalSegment Payload) Payload) : Nat := wal.nextLsn - 1

/-- The engine, and the records replay did not handle. -/
def openEngine [WalPayload Payload] (config : WalConfig)
    (order : HashOrder (Nat × List (WalRecord Payload))) (disk : Disk) :
    Except EngineError (OpenEngine × List (WalRecord Payload)) :=
  let records := disk.recordsToReplay order
  let wal := WalWriter.open config disk.wal
  match replayWalRecords (.booting disk.store wal disk.location) records with
  | .error e => .error e
  | .ok (s, unhandled) =>
    let s := s.loadSchemas.rebuild disk.hnswSnapshots records
    .ok (⟨s, headLsn s.wal, disk.locationSnapshot, disk.hnswSnapshots⟩, unhandled)

end TronDB.Engine
