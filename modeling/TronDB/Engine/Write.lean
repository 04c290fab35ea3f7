import TronDB.Engine.Insert

/-! UPDATE, DELETE and IMPORT. -/
namespace TronDB.Engine
open TronDB.Core Binary Wal

structure UpdateEntityPlan where
  entityId : LogicalId
  collection : String
  assignments : List (String × Literal)
  deriving DecidableEq, Repr

/-- The values of an index's fields; a missing one is taken as NULL. -/
def valuesOrNull (idx : StoredIndex) (e : Entity) : List Value :=
  idx.fields.map fun f => e.metadata[f]?.getD .null

def assign (e : Entity) (assignments : List (String × Literal)) : Entity :=
  { e with metadata := assignments.foldl (fun metadata a =>
      metadata.insert a.1 (literalToValue a.2)) e.metadata }

/-- The representations with FIELDS that some assigned field belongs to. -/
def dirtyReprIndices (schema : Option CollectionSchema) (assignments : List (String × Literal)) :
    List Nat :=
  match schema with
  | none => []
  | some schema =>
    (schema.representations.zipIdx.filter fun r =>
      !r.1.fields.isEmpty && r.1.fields.any fun f => assignments.any fun a => a.1 = f).map Prod.snd

/-- The old entry of every declared index is replaced by the new one. The first new entry
that cannot be encoded ends the loop. -/
def updateFieldEntries (store : Store) (fieldIndexes : FieldIndexes) (collection : String)
    (old new : Entity) : List StoredIndex → Except EngineError Unit × Store
  | [] => (.ok (), store)
  | idx :: rest =>
    match fieldIndexes[(collection, idx.name)]? with
    | none => updateFieldEntries store fieldIndexes collection old new rest
    | some types =>
      let store := removeEntry store collection idx.name types new.id (valuesOrNull idx old)
      let values := valuesOrNull idx new
      if values.length = types.length then
        match insertEntry store collection idx.name types new.id values with
        | .ok store' => updateFieldEntries store' fieldIndexes collection old new rest
        | .error e => (.error e, store)
      else updateFieldEntries store fieldIndexes collection old new rest

variable [WalPayload Payload]

def updateEntity (env : Env) (s : State) (p : UpdateEntityPlan) : Outcome :=
  match s.store.get p.collection p.entityId with
  | .error e => (.error e, s)
  | .ok old =>
    let schema := s.schemas[p.collection]?
    let new := assign old p.assignments
    let dirty := dirtyReprIndices schema p.assignments
    let s := s.logTx env.ts p.collection
      ((.entityWrite, .entity new) :: dirty.map fun idx => (.reprDirty, .reprKey (p.entityId, idx)))
    match s.store.insert p.collection new with
    | .error e => (.error e, s)
    | .ok store =>
      let (indexed, store) := updateFieldEntries store s.fieldIndexes p.collection old new
        ((schema.map CollectionSchema.indexes).getD [])
      let s := { s with
        store
        location := dirty.foldl (fun t idx => t.tryTransition (p.entityId, idx) .dirty) s.location }
      match indexed with
      | .error e => (.error e, s)
      | .ok () =>
        (.ok (reply "result" s!"Entity '{p.entityId}' updated in '{p.collection}'" 1),
          s.enqueue p.collection p.entityId)

structure DeleteEntityPlan where
  entityId : LogicalId
  collection : String
  deriving DecidableEq, Repr

def tombstone (indexes : FinMap (String × String) HnswIndex) (collection : String)
    (id : LogicalId) : FinMap (String × String) HnswIndex :=
  indexes.map fun k idx => if k.1 = collection then idx.remove id else idx

/-- The entries of an entity in the declared indexes. -/
def removeDeclaredEntries (store : Store) (fieldIndexes : FieldIndexes) (collection : String)
    (e : Entity) (indexes : List StoredIndex) : Store :=
  indexes.foldl (fun store idx =>
    match fieldIndexes[(collection, idx.name)]? with
    | some types => removeEntry store collection idx.name types e.id (valuesOrNull idx e)
    | none => store) store

/-- Type, source and target of the edges the adjacency index has at an entity. -/
def AdjacencyIndex.edgesInvolving (a : AdjacencyIndex) (id : LogicalId) :
    List (String × LogicalId × LogicalId) :=
  (a.forwardEdges id).map (fun e => (e.1, id, e.2)) ++
    (a.backwardEdges id).map fun e => (e.1, e.2, id)

def deleteEntity (env : Env) (s : State) (p : DeleteEntityPlan) : Outcome :=
  match s.store.get p.collection p.entityId with
  | .error e => (.error e, s)
  | .ok entity =>
    let s := s.logTx env.ts p.collection
      [(.entityDelete, .entityDelete p.entityId p.collection)]
    let indexed := removeDeclaredEntries s.store s.fieldIndexes p.collection entity
      ((s.schemas[p.collection]?.map CollectionSchema.indexes).getD [])
    let s := { s with
      indexes := tombstone s.indexes p.collection p.entityId
      store := indexed
      sparseIndexes := removeSparse s.sparseIndexes p.collection entity
      location := s.location.removeEntity p.entityId }
    match s.store.deleteEntity p.collection p.entityId with
    | .error e => (.error e, s)
    | .ok store =>
      -- the edges go from the store and the adjacency index, but no record says so
      let cascaded := s.adjacency.edgesInvolving p.entityId
      let store := cascaded.foldl (fun store e => store.deleteEdge e.1 e.2.1 e.2.2) store
      (.ok (reply "result" s!"Entity '{p.entityId}' deleted from '{p.collection}'" 1),
        { s with
          store := (store.deleteFromTier p.collection p.entityId .nvme).deleteFromTier
            p.collection p.entityId .archive
          adjacency := cascaded.foldl (fun a e => a.remove e.2.1 e.1 e.2.2) s.adjacency
          entityCollections := s.entityCollections.erase p.entityId })

structure ImportPlan where
  collection : String
  path : String
  deriving DecidableEq, Repr

def jsonValue : Json → Value
  | .string s => .string s
  | .number (some n) _ => .int n
  | .number none (some f) => .float f
  | .number none none => .null
  | .bool b => .bool b
  | .null => .null
  | .other text => .string text

/-- The entity of a line, under its own id or a new one. -/
def importEntity (freshId : LogicalId) (fields : List (String × Json)) : Entity :=
  let id := (fields.findSome? fun
    | ("id", .string s) => some s
    | _ => none).getD freshId
  { Entity.new id with
    metadata := fields.foldl (fun metadata kv =>
      if kv.1 = "id" then metadata else metadata.insert kv.1 (jsonValue kv.2)) ∅ }

/-- The loop over the lines: each entity is logged and stored at once, before the commit. -/
def importLoop (env : Env) (collection : String) (txId : Nat) :
    List ImportLine → Nat → State → Except EngineError Nat × State
  | [], imported, s => (.ok imported, s)
  | .blank :: rest, imported, s => importLoop env collection txId rest imported s
  | .unreadable m :: _, _, s => (.error (.invalidQuery s!"read error: {m}"), s)
  | .unparsable m :: _, _, s => (.error (.storage s!"import parse: {m}"), s)
  | .notObject :: _, _, s => (.error (.storage "import: each line must be a JSON object"), s)
  | .object fields :: rest, imported, s =>
    let entity := importEntity (env.freshId imported) fields
    let s := { s with wal := s.wal.append .entityWrite collection txId 1 (.entity entity) env.ts }
    match s.store.insert collection entity with
    | .error e => (.error e, s)
    | .ok store =>
      importLoop env collection txId rest (imported + 1)
        { s with store, entityCollections := s.entityCollections.insert entity.id collection }

/-- A row of a file that is logged, stored and assigned to the collection. -/
def State.importRow (s : State) (env : Env) (collection : String) (txId : Nat) (e : Entity) : State :=
  { s with
    wal := s.wal.append .entityWrite collection txId 1 (.entity e) env.ts
    store := s.store.putEntity collection e
    entityCollections := s.entityCollections.insert e.id collection }

omit [WalPayload Payload] in
/-- What rows preserve, one that is only logged included, a loop that fails preserves as well. -/
theorem importLoop_invariant {P : State → Prop} (env : Env) (collection : String) (txId : Nat)
    (logged : ∀ s e, P s →
      P { s with wal := s.wal.append .entityWrite collection txId 1 (.entity e) env.ts })
    (put : ∀ s e, s.store.hasCollection collection = true → P s → P (s.importRow env collection txId e))
    (lines : List ImportLine) (imported : Nat) {s : State} (start : P s) :
    P (importLoop env collection txId lines imported s).2 := by
  induction lines generalizing imported s with
  | nil => exact start
  | cons line rest ih =>
    cases line with
    | blank => exact ih imported start
    | unreadable m => exact start
    | unparsable m => exact start
    | notObject => exact start
    | object fields =>
      unfold importLoop Store.insert
      by_cases present : s.store.hasCollection collection = true
      · have row := ih (imported + 1) (put s (importEntity (env.freshId imported) fields) present start)
        dsimp only
        rw [if_pos present]
        exact row
      · dsimp only
        rw [if_neg present]
        exact logged s _ start

def importCollection (env : Env) (s : State) (p : ImportPlan) : Outcome :=
  match s.schemas[p.collection]? with
  | none => (.error (.collectionNotFound p.collection), s)
  | some _ =>
    match env.importLines p.path with
    | .error e => (.error e, s)
    | .ok lines =>
      let txId := s.wal.nextTx
      let s := { s with wal := s.wal.beginTx p.collection env.ts }
      match importLoop env p.collection txId lines 0 s with
      | (.error e, s) => (.error e, s)
      | (.ok imported, s) =>
        let row := ((∅ : FinMap String Value).insert "imported" (.int (Int64.ofNat imported))).insert
          "collection" (.string p.collection)
        (.ok ⟨["imported", "collection"], [⟨row, none⟩], 0, .deterministic, "Fjall"⟩,
          { s with wal := s.wal.commit txId env.ts })

end TronDB.Engine
