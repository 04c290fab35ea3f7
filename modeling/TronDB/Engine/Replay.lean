import TronDB.Engine.Schema
import TronDB.Engine.Write

/-! Replay of committed records, by a starting engine or a replica. -/
namespace TronDB.Engine
open TronDB.Core Binary Wal

/-- Record types replay applies; the others are handed back to the caller. -/
def replayHandles : RecordType → Bool
  | .schemaCreateColl | .entityWrite | .entityDelete | .locationUpdate | .schemaCreateEdgeType
  | .edgeWrite | .edgeConfirm | .edgeConfidenceUpdate | .edgeInferred | .edgeDelete
  | .schemaDropColl | .schemaDropEdgeType | .reprDirty | .reprWrite | .schemaAlter => true
  | _ => false

/-- Replay applies an operation only where it still finds what it changes. -/
def alterApplies (schema : CollectionSchema) : SchemaAlterOp → Bool
  | .renameField oldName _ => schema.fields.any fun f => f.name = oldName
  | .dropField fieldName => schema.fields.any fun f => f.name = fieldName
  | .setModel _ _ => true
  | .alterRepresentationSetFields reprName _ | .alterRepresentationSetModel reprName _ _ =>
    schema.representations.any fun r => r.name = reprName
  | .addRepresentation name _ _ _ _ => !schema.representations.any fun r => r.name = name

/-- The memory index of an added representation is created unless it is there. -/
def State.replayIndexes (s : State) (collection : String) : SchemaAlterOp → State
  | .addRepresentation name dimensions _ sparse _ =>
    match sparse, dimensions with
    | true, _ =>
      if s.sparseIndexes.contains (collection, name) then s
      else { s with sparseIndexes := s.sparseIndexes.insert (collection, name) .new }
    | false, some dims =>
      if s.indexes.contains (collection, name) then s
      else { s with indexes := s.indexes.insert (collection, name) (.new dims) }
    | false, none => s
  | _ => s

/-- The states a rewritten representation passes through until it is clean. -/
def cleanLocation (location : LocationTable) (key : ReprKey) : LocationTable :=
  match location.get key with
  | none => location
  | some loc =>
    match loc.state with
    | .dirty => (location.tryTransition key .recomputing).tryTransition key .clean
    | .recomputing => location.tryTransition key .clean
    | _ => location

def replayEntity (store : Store) (collection : String) (e : Entity) : Store :=
  if store.hasCollection collection then store.putEntity collection e else store

def replayEdge (store : Store) (e : Edge) : Store :=
  if store.hasEdgeType e.edgeType then store.insertEdge e else store

def replayDelete (store : Store) (id : LogicalId) (collection : String) : Store :=
  let store := match store.deleteEntity collection id with
    | .ok store => store
    | .error _ => store
  (store.deleteFromTier collection id .nvme).deleteFromTier collection id .archive

def replayDrop (store : Store) (name : String) : Store :=
  match store.dropCollection name with
  | .ok store => store
  | .error _ => store

def replayAlter (store : Store) (collection : String) (op : SchemaAlterOp) : Store :=
  match store.collections[collection]? with
  | some schema =>
    if alterApplies schema op then store.updateCollectionSchema (alterSchema schema op) else store
  | none => store

/-- What a record of this type and payload does to the store. -/
def replayEntry (store : Store) (collection : String) : Entry Payload → Store
  | (.schemaCreateColl, .schema schema) =>
    if store.hasCollection schema.name then store else store.updateCollectionSchema schema
  | (.entityWrite, .entity e) | (.reprWrite, .entity e) => replayEntity store collection e
  | (.entityDelete, .entityDelete id collection) => replayDelete store id collection
  | (.schemaCreateEdgeType, .edgeType et) =>
    if store.hasEdgeType et.name then store
    else { store with edgeTypes := store.edgeTypes.insert et.name et }
  | (.edgeWrite, .edge e) | (.edgeConfirm, .edge e) | (.edgeConfidenceUpdate, .edge e)
  | (.edgeInferred, .edge e) => replayEdge store e
  | (.edgeDelete, .edgeDelete edgeType fromId toId) => store.deleteEdge edgeType fromId toId
  | (.schemaDropColl, .name name) => replayDrop store name
  | (.schemaDropEdgeType, .name name) =>
    if store.hasEdgeType name then store.dropEdgeType name else store
  | (.schemaAlter, .schemaAlter collection op) => replayAlter store collection op
  | _ => store

def replayStore (store : Store) (r : WalRecord Payload) : Store :=
  replayEntry store r.collection (r.recordType, r.payload)

/-- What a record does to the memory maps; the store is the one before it. -/
def State.replayMemory (s : State) (r : WalRecord Payload) : State :=
  match r.recordType, r.payload with
  | .schemaCreateColl, .schema schema =>
    { s with schemas := s.schemas.insert schema.name schema }
  | .entityWrite, .entity e =>
    { s with entityCollections := s.entityCollections.insert e.id r.collection }
  | .entityDelete, .entityDelete id _ => { s with location := s.location.removeEntity id }
  | .locationUpdate, .location key descriptor =>
    { s with location := s.location.register key descriptor }
  | .schemaCreateEdgeType, .edgeType et => { s with edgeTypes := s.edgeTypes.insert et.name et }
  | .schemaDropColl, .name name =>
    { s.forgetCollection name with schemas := s.schemas.erase name }
  | .schemaDropEdgeType, .name name =>
    { s with edgeTypes := s.edgeTypes.erase name, adjacency := s.adjacency.removeEdgeType name }
  | .reprDirty, .reprKey key => { s with location := s.location.tryTransition key .dirty }
  | .reprWrite, .entity e =>
    { s with
      entityCollections := s.entityCollections.insert e.id r.collection
      location := (List.range e.representations.length).foldl
        (fun location idx => cleanLocation location (e.id, idx)) s.location }
  | .schemaAlter, .schemaAlter collection op =>
    match s.store.collections[collection]? with
    | some schema =>
      if alterApplies schema op then
        { s.replayIndexes collection op with
          schemas := s.schemas.insert collection (alterSchema schema op) }
      else s
    | none => s
  | _, _ => s

/-- The payload is of the kind the record type calls for; the writers see to it. -/
def decodable : Entry Payload → Bool
  | (.schemaCreateColl, .schema _) | (.entityWrite, .entity _) | (.reprWrite, .entity _)
  | (.entityDelete, .entityDelete _ _) | (.locationUpdate, .location _ _)
  | (.schemaCreateEdgeType, .edgeType _) | (.edgeWrite, .edge _) | (.edgeConfirm, .edge _)
  | (.edgeConfidenceUpdate, .edge _) | (.edgeInferred, .edge _)
  | (.edgeDelete, .edgeDelete _ _ _) | (.schemaDropColl, .name _) | (.schemaDropEdgeType, .name _)
  | (.reprDirty, .reprKey _) | (.schemaAlter, .schemaAlter _ _) => true
  | (t, _) => !replayHandles t

def replayRecord (s : State) (r : WalRecord Payload) : State :=
  { s.replayMemory r with store := replayStore s.store r }

/-- The records that are not handled come back. A payload that cannot be decoded ends the
replay; checks of the source that cannot fail behind their guards are left out. -/
def replayWalRecords (s : State) :
    List (WalRecord Payload) → Except EngineError (State × List (WalRecord Payload))
  | [] => .ok (s, [])
  | r :: rest =>
    if decodable (r.recordType, r.payload) then
      match replayWalRecords (if replayHandles r.recordType then replayRecord s r else s) rest with
      | .error e => .error e
      | .ok (s', unhandled) =>
        .ok (s', if replayHandles r.recordType then unhandled else r :: unhandled)
    else .error (.storage "record payload")

/-! ### A record of a primary -/

/-- Control records are skipped: a replica does not manage transactions. -/
def applyWalRecord (s : State) (r : WalRecord Payload) : Except EngineError State :=
  match r.recordType with
  | .txBegin | .txCommit | .txAbort | .checkpoint => .ok s
  | _ =>
    match replayWalRecords s [r] with
    | .ok (s', _) => .ok s'
    | .error e => .error e

/-- A record that cannot be applied leaves the engine as it is. -/
def State.replicate (s : State) (r : WalRecord Payload) : State :=
  match applyWalRecord s r with
  | .ok s' => s'
  | .error _ => s

end TronDB.Engine
