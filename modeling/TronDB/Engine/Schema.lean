import TronDB.Engine.State

/-! CREATE, ALTER and DROP COLLECTION, CREATE and DROP EDGE. -/
namespace TronDB.Engine
open TronDB.Core Binary Wal

structure RepresentationDecl where
  name : String
  model : Option String
  dimensions : Option Nat
  metric : Metric
  sparse : Bool
  fields : List String
  deriving DecidableEq, Repr

structure CreateCollectionPlan where
  name : String
  representations : List RepresentationDecl
  fields : List StoredField
  indexes : List StoredIndex
  vectoriserConfig : Option VectoriserConfig
  deriving DecidableEq, Repr

def findDuplicate : List String → List String → Option String
  | _, [] => none
  | seen, name :: rest => if name ∈ seen then some name else findDuplicate (name :: seen) rest

def checkDuplicates (p : CreateCollectionPlan) : Except EngineError Unit :=
  match findDuplicate [] (p.representations.map RepresentationDecl.name) with
  | some name => .error (.duplicateRepresentation name)
  | none =>
    match findDuplicate [] (p.fields.map StoredField.name) with
    | some name => .error (.duplicateField name)
    | none =>
      match findDuplicate [] (p.indexes.map StoredIndex.name) with
      | some name => .error (.duplicateIndex name)
      | none => .ok ()

def storedRepresentation (name : String) (model : Option String) (dimensions : Option Nat)
    (metric : Metric) (sparse : Bool) (fields : List String) : StoredRepresentation :=
  ⟨name, model, dimensions, metric, sparse, fields, 0, "", none⟩

def buildCollectionSchema (p : CreateCollectionPlan) : CollectionSchema where
  name := p.name
  representations := p.representations.map fun r =>
    storedRepresentation r.name r.model r.dimensions r.metric r.sparse r.fields
  fields := p.fields
  indexes := p.indexes
  vectoriserConfig := p.vectoriserConfig

def openDense (indexes : FinMap (String × String) HnswIndex) (schema : CollectionSchema) :
    FinMap (String × String) HnswIndex :=
  schema.representations.foldl (fun indexes repr =>
    match repr.sparse, repr.dimensions with
    | false, some dims => indexes.insert (schema.name, repr.name) (.new dims)
    | _, _ => indexes) indexes

def openSparse (sparseIndexes : FinMap (String × String) SparseIndex) (schema : CollectionSchema) :
    FinMap (String × String) SparseIndex :=
  schema.representations.foldl (fun indexes repr =>
    if repr.sparse then indexes.insert (schema.name, repr.name) .new else indexes) sparseIndexes

def openFieldIndexes (fieldIndexes : FieldIndexes) (schema : CollectionSchema) : FieldIndexes :=
  schema.indexes.foldl (fun fieldIndexes idx =>
    fieldIndexes.insert (schema.name, idx.name) (schema.fieldTypes idx)) fieldIndexes

variable [WalPayload Payload]

def createCollection (env : Env) (s : State) (p : CreateCollectionPlan) : Outcome :=
  match checkDuplicates p with
  | .error e => (.error e, s)
  | .ok () =>
    let schema := buildCollectionSchema p
    let s := s.logTx env.ts p.name [(.schemaCreateColl, .schema schema)]
    -- the check whether the collection exists is made by the store, behind the commit
    match s.store.createCollectionSchema schema with
    | .error e => (.error e, s)
    | .ok store =>
      (.ok (reply "result"
          s!"Collection '{p.name}' created ({p.representations.length} representations, {p.fields.length} fields, {p.indexes.length} indexes)" 0),
        { s with
          store
          schemas := s.schemas.insert schema.name schema
          indexes := openDense s.indexes schema
          sparseIndexes := openSparse s.sparseIndexes schema
          fieldIndexes := openFieldIndexes s.fieldIndexes schema })

def State.forgetCollection (s : State) (name : String) : State :=
  { s with
    indexes := s.indexes.filter fun k _ => k.1 ≠ name
    sparseIndexes := s.sparseIndexes.filter fun k _ => k.1 ≠ name
    fieldIndexes := s.fieldIndexes.filter fun k _ => k.1 ≠ name
    location := (s.entityCollections.toList.filter fun kv => kv.2 = name).foldl
      (fun location kv => location.removeEntity kv.1) s.location
    entityCollections := s.entityCollections.filter fun _ collection => collection ≠ name }

def dropCollection (env : Env) (s : State) (name : String) : Outcome :=
  if s.schemas.contains name then
    let s := (s.logTx env.ts name [(.schemaDropColl, .name name)]).forgetCollection name
    match s.store.dropCollection name with
    | .error e => (.error e, s)
    | .ok store =>
      (.ok (reply "result" s!"Collection '{name}' dropped" 0),
        { s with store, schemas := s.schemas.erase name })
  else (.error (.collectionNotFound name), s)

structure CreateEdgeTypePlan where
  name : String
  fromCollection : String
  toCollection : String
  decayConfig : Option DecayConfig
  inferenceConfig : Option InferenceConfig
  deriving DecidableEq, Repr

def buildEdgeType (p : CreateEdgeTypePlan) : EdgeType :=
  ⟨p.name, p.fromCollection, p.toCollection, p.decayConfig.getD default,
    p.inferenceConfig.getD default⟩

def createEdgeType (env : Env) (s : State) (p : CreateEdgeTypePlan) : Outcome :=
  if s.store.hasCollection p.fromCollection then
    if s.store.hasCollection p.toCollection then
      let edgeType := buildEdgeType p
      let s := s.logTx env.ts p.name [(.schemaCreateEdgeType, .edgeType edgeType)]
      match s.store.createEdgeType edgeType with
      | .error e => (.error e, s)
      | .ok store =>
        (.ok (reply "result"
            s!"Edge type '{p.name}' created ({p.fromCollection} -> {p.toCollection})" 0),
          { s with store, edgeTypes := s.edgeTypes.insert p.name edgeType })
    else (.error (.collectionNotFound p.toCollection), s)
  else (.error (.collectionNotFound p.fromCollection), s)

def dropEdgeType (env : Env) (s : State) (name : String) : Outcome :=
  if s.edgeTypes.contains name then
    let s := s.logTx env.ts name [(.schemaDropEdgeType, .name name)]
    (.ok (reply "result" s!"Edge type '{name}' dropped" 0),
      { s with
        adjacency := s.adjacency.removeEdgeType name
        store := s.store.dropEdgeType name
        edgeTypes := s.edgeTypes.erase name })
  else (.error (.edgeTypeNotFound name), s)

/-! ### ALTER COLLECTION -/

/-- The first element that passes the test is changed. -/
def modifyFirst {α : Type} (test : α → Bool) (f : α → α) : List α → List α
  | [] => []
  | a :: rest => if test a then f a :: rest else a :: modifyFirst test f rest

omit [WalPayload Payload] in
theorem modifyFirst_cons {α : Type} (test : α → Bool) (f : α → α) (a : α) (rest : List α) :
    modifyFirst test f (a :: rest) =
      if test a then f a :: rest else a :: modifyFirst test f rest := rfl

structure AlterCollectionPlan where
  collection : String
  operation : SchemaAlterOp
  deriving DecidableEq, Repr

def checkAlter (schema : CollectionSchema) (collection : String) :
    SchemaAlterOp → Except EngineError Unit
  | .renameField oldName _ =>
    if schema.fields.any fun f => f.name = oldName then .ok ()
    else .error (.invalidQuery s!"field '{oldName}' not found in collection '{collection}'")
  | .dropField _ | .setModel _ _ => .ok ()
  | .alterRepresentationSetFields reprName _ | .alterRepresentationSetModel reprName _ _ =>
    if schema.representations.any fun r => r.name = reprName then .ok ()
    else .error (.invalidQuery s!"representation '{reprName}' not found in collection '{collection}'")
  | .addRepresentation name _ _ _ _ =>
    if schema.representations.any fun r => r.name = name then
      .error (.invalidQuery s!"representation '{name}' already exists in collection '{collection}'")
    else .ok ()

/-- The entity after the operation, when the operation changes it. -/
def alterEntity (e : Entity) : SchemaAlterOp → Option Entity
  | .renameField oldName newName =>
    e.metadata[oldName]?.map fun value =>
      { e with metadata := (e.metadata.erase oldName).insert newName value }
  | .dropField fieldName =>
    e.metadata[fieldName]?.map fun _ => { e with metadata := e.metadata.erase fieldName }
  | _ => none

def setVectoriserModel (config : Option VectoriserConfig) (model modelPath : String) :
    Option VectoriserConfig :=
  some { config.getD ⟨none, none, none, none, none, none⟩ with
    model := some model, modelPath := some modelPath }

def alterSchema (schema : CollectionSchema) : SchemaAlterOp → CollectionSchema
  | .renameField oldName newName => { schema with
      fields :=
        modifyFirst (fun f => f.name = oldName) (fun f => { f with name := newName }) schema.fields }
  | .dropField fieldName => { schema with
      fields := schema.fields.filter fun f => f.name ≠ fieldName }
  | .setModel model modelPath => { schema with
      vectoriserConfig := setVectoriserModel schema.vectoriserConfig model modelPath }
  | .alterRepresentationSetFields reprName fields => { schema with
      representations :=
        modifyFirst (fun r => r.name = reprName) (fun r => { r with fields }) schema.representations }
  | .alterRepresentationSetModel reprName model modelPath => { schema with
      representations := modifyFirst (fun r => r.name = reprName)
        (fun r => { r with vectoriser := setVectoriserModel r.vectoriser model modelPath })
        schema.representations }
  | .addRepresentation name dimensions metric sparse fields => { schema with
      representations := schema.representations ++
        [storedRepresentation name none dimensions metric sparse fields] }

/-- The location of a representation that has no vector yet. -/
def dirtyLocation (sparse : Bool) : LocationDescriptor :=
  ⟨.nvme, .localhost, .dirty, 0, if sparse then .sparse else .float32, 0⟩

/-- The effects of the operation on the location table and the memory indexes; the schema
is the one before it. -/
def State.alterMemory (s : State) (collection : String) (schema : CollectionSchema)
    (entities : List Entity) : SchemaAlterOp → State
  | .alterRepresentationSetFields reprName _ =>
    let idx := schema.representations.findIdx fun r => r.name = reprName
    let sparse := (schema.representations[idx]?.map StoredRepresentation.sparse).getD false
    { s with location := entities.foldl (fun location e =>
        if (location.get (e.id, idx)).isSome then location.tryTransition (e.id, idx) .dirty
        else location.register (e.id, idx) (dirtyLocation sparse)) s.location }
  | .addRepresentation name dimensions _ sparse fields =>
    let s := match sparse, dimensions with
      | true, _ => { s with sparseIndexes := s.sparseIndexes.insert (collection, name) .new }
      | false, some dims => { s with indexes := s.indexes.insert (collection, name) (.new dims) }
      | false, none => s
    if fields = [] then s
    else { s with location := entities.foldl (fun location e =>
        location.register (e.id, schema.representations.length) (dirtyLocation sparse)) s.location }
  | _ => s

/-- Entities written one by one; the first failure ends the loop. -/
def insertAll (store : Store) (collection : String) : List Entity → Except EngineError Unit × Store
  | [] => (.ok (), store)
  | e :: rest =>
    match store.insert collection e with
    | .ok store' => insertAll store' collection rest
    | .error err => (.error err, store)

def alterCollection (env : Env) (s : State) (p : AlterCollectionPlan) : Outcome :=
  match s.store.getCollectionSchema p.collection with
  | .error e => (.error e, s)
  | .ok schema =>
    match s.store.scan p.collection with
    | .error e => (.error e, s)
    | .ok entities =>
      match checkAlter schema p.collection p.operation with
      | .error e => (.error e, s)
      | .ok () =>
        let mutated := entities.filterMap fun e => alterEntity e p.operation
        let s := s.logTx env.ts p.collection
          ((.schemaAlter, .schemaAlter p.collection p.operation) ::
            mutated.map fun e => (.entityWrite, .entity e))
        let altered := alterSchema schema p.operation
        let s := s.alterMemory p.collection schema entities p.operation
        let (written, store) :=
          insertAll (s.store.updateCollectionSchema altered) p.collection mutated
        let s := { s with store, schemas := s.schemas.insert p.collection altered }
        match written with
        | .error e => (.error e, s)
        | .ok () => (.ok (reply "message" s!"collection '{p.collection}' altered" 0), s)

end TronDB.Engine
