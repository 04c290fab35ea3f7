import TronDB.Engine.State

/-! INSERT. -/
namespace TronDB.Engine
open TronDB.Core Binary Wal

inductive VectorLiteral where
  | dense (v : List F64)
  | sparse (v : List (UInt32 × F32))
  deriving DecidableEq, Repr

structure InsertPlan where
  collection : String
  fields : List String
  values : List Literal
  vectors : List (String × VectorLiteral)
  validFrom : Option String
  validTo : Option String
  deriving DecidableEq, Repr

/-- Every vector has a representation of its name, and the dimensions that declares. -/
def checkVectors (schema : CollectionSchema) (collection : String) :
    List (String × VectorLiteral) → Except EngineError Unit
  | [] => .ok ()
  | (reprName, literal) :: rest =>
    match schema.representations.find? fun r => r.name = reprName with
    | none => .error (.invalidQuery s!"no representation '{reprName}' in collection '{collection}'")
    | some schemaRepr =>
      match literal, schemaRepr.dimensions with
      | .dense v, some expected =>
        if v.length ≠ expected then
          .error (.invalidQuery
            s!"representation '{reprName}' expects {expected} dimensions, got {v.length}")
        else checkVectors schema collection rest
      | _, _ => checkVectors schema collection rest

def findIdInFields (fields : List String) (values : List Literal) : Option LogicalId :=
  (fields.zip values).findSome? fun
    | ("id", .string s) => some s
    | _ => none

def insertMetadata (fields : List String) (values : List Literal) : FinMap String Value :=
  (fields.zip values).foldl (fun metadata fv =>
    if fv.1 = "id" then metadata else metadata.insert fv.1 (literalToValue fv.2)) ∅

/-- Representations for the vectors the statement gives. -/
def explicitRepresentations (env : Env) (schema : CollectionSchema) (p : InsertPlan) :
    List Representation :=
  p.vectors.map fun (reprName, literal) =>
    let vector := match literal with
      | .dense v => VectorData.dense (v.map F64.toF32)
      | .sparse v => .sparse v
    let recipeHash := match schema.representations.find? fun r => r.name = reprName with
      | some sr =>
        if sr.fields = [] then List.replicate 32 0
        else env.recipeHash ((schema.vectoriserConfig.bind VectoriserConfig.model).getD "unknown")
          sr.fields
      | none => List.replicate 32 0
    ⟨reprName, .atomic, p.fields, vector, recipeHash, .clean, 0, ""⟩

/-- Representations with FIELDS that were not given a vector are encoded from the metadata. -/
def managedRepresentations (env : Env) (collection : String) (explicitNames : List String)
    (metadata : FinMap String Value) :
    List StoredRepresentation → Except EngineError (List Representation)
  | [] => .ok []
  | stored :: rest =>
    if stored.fields = [] ∨ stored.name ∈ explicitNames then
      managedRepresentations env collection explicitNames metadata rest
    else
      let fieldSet := stored.fields.filterMap fun f => metadata[f]?.map fun v => (f, v)
      if fieldSet = [] then managedRepresentations env collection explicitNames metadata rest
      else match env.vectoriser collection stored.name with
        | none => .error (.invalidQuery
            s!"representation '{stored.name}' has FIELDS but no vectoriser registered for collection '{collection}'")
        | some vectoriser =>
          match vectoriser.encode fieldSet with
          | .error e => .error (.storage s!"vectoriser encode failed: {e}")
          | .ok vector =>
            match managedRepresentations env collection explicitNames metadata rest with
            | .error e => .error e
            | .ok reprs => .ok (
                ⟨stored.name, if 1 < stored.fields.length then .composite else .atomic,
                  stored.fields, vector, env.recipeHash vectoriser.modelId stored.fields,
                  .clean, 0, ""⟩ :: reprs)

def buildEntity (env : Env) (schema : CollectionSchema) (p : InsertPlan) (id : LogicalId) :
    Except EngineError Entity :=
  let metadata := insertMetadata p.fields p.values
  match managedRepresentations env p.collection (p.vectors.map Prod.fst) metadata
      schema.representations with
  | .error e => .error e
  | .ok managed =>
    match parseOptional p.validFrom with
    | .error e => .error e
    | .ok validFrom =>
      match parseOptional p.validTo with
      | .error e => .error e
      | .ok validTo =>
        .ok { Entity.new id with
          metadata, representations := explicitRepresentations env schema p ++ managed
          validFrom, validTo }

def removeSparse (sparseIndexes : FinMap (String × String) SparseIndex) (collection : String)
    (e : Entity) : FinMap (String × String) SparseIndex :=
  e.representations.foldl (fun indexes repr =>
    match repr.vector with
    | .sparse sv => FinMap.adjust indexes (collection, repr.name) fun idx => idx.remove e.id sv
    | .dense _ => indexes) sparseIndexes

/-- The field index entries of an entity, where it has a value for every field. -/
def removeFieldEntries (store : Store) (collection : String) (e : Entity)
    (indexes : List (String × List (String × FieldType))) : Store :=
  indexes.foldl (fun store idx =>
    let values := indexedValues idx.2 e
    if values.length = idx.2.length then removeEntry store collection idx.1 idx.2 e.id values
    else store) store

/-- An entity about to be overwritten leaves the sparse and the field indexes. -/
def State.removeOldEntries (s : State) (env : Env) (collection : String) (id : LogicalId) : State :=
  match s.store.get collection id with
  | .error _ => s
  | .ok old => { s with
      sparseIndexes := removeSparse s.sparseIndexes collection old
      store := removeFieldEntries s.store collection old (s.fieldIndexesOf env collection) }

/-- Where a representation that was just written lies. -/
def freshLocation (repr : Representation) : LocationDescriptor :=
  let encoding := match repr.vector with
    | .sparse _ => .sparse
    | .dense _ => .float32
  ⟨.fjall, .localhost, .clean, 1, encoding, 0⟩

def locationEntries (e : Entity) : List (ReprKey × LocationDescriptor) :=
  e.representations.zipIdx.map fun (repr, idx) => ((e.id, idx), freshLocation repr)

def insertDense (indexes : FinMap (String × String) HnswIndex) (collection : String) (e : Entity) :
    FinMap (String × String) HnswIndex :=
  e.representations.foldl (fun indexes repr =>
    match repr.vector with
    | .dense v => FinMap.adjust indexes (collection, repr.name) fun idx => idx.insert e.id v
    | .sparse _ => indexes) indexes

def insertSparse (sparseIndexes : FinMap (String × String) SparseIndex) (collection : String)
    (e : Entity) : FinMap (String × String) SparseIndex :=
  e.representations.foldl (fun indexes repr =>
    match repr.vector with
    | .sparse sv => FinMap.adjust indexes (collection, repr.name) fun idx => idx.insert e.id sv
    | .dense _ => indexes) sparseIndexes

/-- The first entry that cannot be encoded ends the loop. -/
def insertFieldEntries (store : Store) (collection : String) (e : Entity) :
    List (String × List (String × FieldType)) → Except EngineError Unit × Store
  | [] => (.ok (), store)
  | (index, types) :: rest =>
    let values := indexedValues types e
    if values.length = types.length then
      match insertEntry store collection index types e.id values with
      | .ok store' => insertFieldEntries store' collection e rest
      | .error err => (.error err, store)
    else insertFieldEntries store collection e rest

variable [WalPayload Payload]

def State.applyInsert (s : State) (env : Env) (collection : String) (e : Entity) : Outcome :=
  match s.store.insert collection e with
  | .error err => (.error err, s)
  | .ok store =>
    let (indexed, store) := insertFieldEntries store collection e (s.fieldIndexesOf env collection)
    let s := { s with
      store
      entityCollections := s.entityCollections.insert e.id collection
      location := (locationEntries e).foldl (fun t kd => t.register kd.1 kd.2) s.location
      indexes := insertDense s.indexes collection e
      sparseIndexes := insertSparse s.sparseIndexes collection e }
    match indexed with
    | .error err => (.error err, s)
    | .ok () =>
      (.ok (reply "result" s!"Inserted entity '{e.id}'" 0), s.enqueue collection e.id)

def insert (env : Env) (s : State) (p : InsertPlan) : Outcome :=
  match s.schemas[p.collection]? with
  | none => (.error (.collectionNotFound p.collection), s)
  | some schema =>
    match checkVectors schema p.collection p.vectors with
    | .error e => (.error e, s)
    | .ok () =>
      let id := (findIdInFields p.fields p.values).getD (env.freshId 0)
      let s := s.removeOldEntries env p.collection id
      match buildEntity env schema p id with
      | .error e => (.error e, s)
      | .ok entity =>
        let entity := { entity with txTime := s.wal.nextTx }
        let s := s.logTx env.ts p.collection
          ((.entityWrite, .entity entity) ::
            (locationEntries entity).map fun kd => (.locationUpdate, .location kd.1 kd.2))
        s.applyInsert env p.collection entity

end TronDB.Engine
