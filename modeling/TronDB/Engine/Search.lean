import TronDB.Core.Quantise
import TronDB.Engine.Traverse

/-! SEARCH: over the vector indexes of a collection, or over the entities a traversal finds. -/
namespace TronDB.Engine
open TronDB.Core Binary Wal

inductive SearchStrategy where
  | hnsw | sparse | hybrid | naturalLanguage
  deriving DecidableEq, Repr

structure PreFilter where
  indexName : String
  clause : WhereClause

structure TwoPassConfig where
  firstPassK : Nat
  useBinaryFirstPass : Bool
  deriving DecidableEq, Repr

structure SearchPlan where
  collection : String
  fields : FieldList
  denseVector : Option (List F64)
  sparseVector : Option (List (UInt32 × F32))
  preFilter : Option PreFilter
  k : Nat
  confidenceThreshold : F64
  strategy : SearchStrategy
  queryText : Option String
  usingRepr : Option String
  twoPass : Option TwoPassConfig
  within : Option TraverseMatchPlan

/-- What a SEARCH reads from outside: also what vectorisers make of a query's text, the text of a
value, and the orders of more hash maps. -/
structure SearchEnv where
  env : Env
  read : ReadEnv
  encodeQuery : String → String → String → Except String VectorData
  display : Value → String
  sparseOrder : HashOrder ((String × String) × SparseIndex)
  scoreOrder : HashOrder (LogicalId × F32)
  candidateOrder : HashOrder LogicalId

abbrev Hits := List (LogicalId × F32)

abbrev IdSet := FinMap LogicalId Unit

def IdSet.ofList (ids : List LogicalId) : IdSet := ids.foldl (fun set id => set.insert id ()) ∅

/-- Best scores first; scores that cannot be compared are equal. -/
def byScore (hits : Hits) : Hits := hits.insertionSort fun a b => !a.2.lt b.2

def addScore (scores : FinMap LogicalId F32) (id : LogicalId) (score : F32) : FinMap LogicalId F32 :=
  scores.insert id ((scores[id]?.getD ⟨0⟩).add score)

def SparseIndex.search (order : HashOrder (LogicalId × F32)) (idx : SparseIndex)
    (query : List (UInt32 × F32)) (k : Nat) : Hits :=
  let scores := query.foldl (fun scores entry =>
    match idx.postings[entry.1]? with
    | some postings =>
      postings.foldl (fun scores posting => addScore scores posting.1 (entry.2.mul posting.2)) scores
    | none => scores) (∅ : FinMap LogicalId F32)
  (byScore (order.order scores.toList)).take k

def defaultRrfK : Nat := 60

def addRanks (rrfK : Nat) (hits : Hits) (scores : FinMap LogicalId F32) : FinMap LogicalId F32 :=
  hits.zipIdx.foldl (fun scores hit =>
    addScore scores hit.1.1 (F32.one.div ((F32.ofNat rrfK).add (F32.ofNat (hit.2 + 1))))) scores

def mergeRrf (order : HashOrder (LogicalId × F32)) (dense sparse : Hits) (rrfK : Nat) : Hits :=
  byScore (order.order (addRanks rrfK sparse (addRanks rrfK dense ∅)).toList)

def LocationTable.stale (t : LocationTable) (key : ReprKey) : Bool :=
  match t.get key with
  | some loc => loc.state = .dirty || loc.state = .recomputing
  | none => false

section Search
variable (env : SearchEnv) (s : State) (p : SearchPlan)

/-! ### Which ids -/

def State.preFilterIds : Except EngineError (Option IdSet) :=
  match p.preFilter with
  | none => .ok none
  | some pf =>
    match s.fieldIndexes[(p.collection, pf.indexName)]? with
    | none => .error (.invalidQuery s!"pre-filter index '{pf.indexName}' not found")
    | some types => do
      let value ← match pf.clause with
        | .eq _ lit => .ok (literalToValue lit)
        | _ => .error (.invalidQuery "pre-filter only supports Eq")
      let ids ← FieldIndex.lookupEq ⟨s.store.indexPartition p.collection pf.indexName, types⟩ [value]
      .ok (some (.ofList ids))

def State.withinIds (within : TraverseMatchPlan) : IdSet :=
  .ofList ((executeTraverseMatchPlan s env.read within).rows.filterMap fun row =>
    row.values["id"]?.map fun
      | .string id => id
      | v => env.display v)

/-- Where a SEARCH looks: nowhere, at the vectors of some entities, or in the indexes, for any
entity or for some. -/
inductive SearchPath where
  | nowhere
  | subgraph (candidates : IdSet)
  | indexes (allowed : Option IdSet)

def bruteForceSubgraphThreshold : Nat := 500

def State.searchPath : Except EngineError SearchPath :=
  if s.store.hasCollection p.collection then do
    let preFilter ← s.preFilterIds p
    match p.within with
    | none => .ok (.indexes preFilter)
    | some within =>
      let withinIds := s.withinIds env within
      let candidates := match preFilter with
        | some ids => ids.filter fun id _ => withinIds.contains id
        | none => withinIds
      if candidates.isEmpty then .ok .nowhere
      else if candidates.size < bruteForceSubgraphThreshold then .ok (.subgraph candidates)
      else .ok (.indexes (some candidates))
  else .error (.collectionNotFound p.collection)

/-! ### Over the indexes -/

/-- The first dense index of the collection that the hash map comes to. -/
def State.firstDense : Option (String × HnswIndex) :=
  ((env.env.denseOrder.order s.indexes.toList).find? fun e => e.1.1 = p.collection).map
    fun e => (e.1.2, e.2)

def State.firstSparse : Option (String × SparseIndex) :=
  ((env.sparseOrder.order s.sparseIndexes.toList).find? fun e => e.1.1 = p.collection).map
    fun e => (e.1.2, e.2)

/-- In two passes the first is cut to the limit, over the same index. -/
def SearchPlan.searchDense (hnsw : HnswIndex) (query : List F32) (fetchK : Nat) : Hits :=
  match p.twoPass with
  | some twoPass => (env.env.search hnsw query twoPass.firstPassK).take p.k
  | none => env.env.search hnsw query fetchK

def SearchPlan.confident (hits : Hits) : Hits :=
  if p.confidenceThreshold.gt .zero then
    hits.filter fun hit => hit.2.toF64.ge p.confidenceThreshold
  else hits

def required {α : Type} (message : String) : Option α → Except EngineError α
  | some a => .ok a
  | none => .error (.invalidQuery message)

/-- The representation that a text is searched in. -/
def State.textRepr : Except EngineError String :=
  match s.schemas[p.collection]? with
  | none => .error (.collectionNotFound p.collection)
  | some schema =>
    match p.usingRepr with
    | some name => .ok name
    | none => required "no managed representation found for natural language SEARCH"
        ((schema.representations.find? fun r => !r.fields.isEmpty && !r.sparse).map
          StoredRepresentation.name)

def State.usesSparse : Bool :=
  match p.usingRepr, s.schemas[p.collection]? with
  | some name, some schema =>
    match schema.representations.find? fun r => r.name = name with
    | some r => r.sparse
    | none => false
  | _, _ => false

def encodeQueryText (reprName text : String) : Except EngineError VectorData :=
  match env.env.vectoriser p.collection reprName with
  | none => .error (.invalidQuery s!"no vectoriser registered for {p.collection}:{reprName}")
  | some _ =>
    match env.encodeQuery p.collection reprName text with
    | .error e => .error (.storage s!"encode_query failed: {e}")
    | .ok v => .ok v

def State.searchText (fetchK : Nat) : Except EngineError Hits := do
  let text ← required "NaturalLanguage strategy requires query_text" p.queryText
  let reprName ← s.textRepr p
  let query ← encodeQueryText env p reprName text
  if s.usesSparse p then
    match query with
    | .sparse pairs => do
      let idx ← required s!"no sparse index for {p.collection}:{reprName}"
        s.sparseIndexes[(p.collection, reprName)]?
      .ok (p.confident (idx.search env.scoreOrder pairs fetchK))
    | .dense _ => .error (.invalidQuery "sparse representation vectoriser returned non-sparse data")
  else
    match query with
    | .dense v => do
      let hnsw ← required s!"no HNSW index for {p.collection}:{reprName}"
        s.indexes[(p.collection, reprName)]?
      .ok (p.confident (p.searchDense env hnsw v fetchK))
    | .sparse _ => .error (.invalidQuery "dense representation vectoriser returned non-dense data")

def State.strategyHits (fetchK : Nat) : Except EngineError Hits :=
  match p.strategy with
  | .hnsw => do
    let query ← required "HNSW requires dense vector" p.denseVector
    let hnsw ← required "no HNSW index for collection" (s.firstDense env p)
    .ok (p.confident (p.searchDense env hnsw.2 (query.map F64.toF32) fetchK))
  | .sparse => do
    let query ← required "Sparse requires sparse vector" p.sparseVector
    let idx ← required "no SparseIndex for collection" (s.firstSparse env p)
    .ok (idx.2.search env.scoreOrder query fetchK)
  | .hybrid => do
    let denseQuery ← required "Hybrid requires dense vector" p.denseVector
    let sparseQuery ← required "Hybrid requires sparse vector" p.sparseVector
    let hnsw ← required "no HNSW index for collection" (s.firstDense env p)
    let dense := env.env.search hnsw.2 (denseQuery.map F64.toF32) fetchK
    let idx ← required "no SparseIndex for collection" (s.firstSparse env p)
    .ok (mergeRrf env.scoreOrder dense (idx.2.search env.scoreOrder sparseQuery fetchK) defaultRrfK)
  | .naturalLanguage => s.searchText env p fetchK

def State.schemaPosition (name : String) : Option Nat :=
  (s.schemas[p.collection]?).bind fun schema =>
    schema.representations.findIdx? fun r => r.name = name

/-- The representation whose entries are looked at, as its place in the schema. -/
def State.searchedReprIdx : Option Nat :=
  let name := match p.strategy with
    | .hnsw | .hybrid | .naturalLanguage => (s.firstDense env p).map Prod.fst
    | .sparse => (s.firstSparse env p).map Prod.fst
  name.bind (s.schemaPosition p)

/-- The hits whose entry of the index is not stale. -/
def State.withoutStale (reprIdx : Option Nat) (hits : Hits) : Hits :=
  match reprIdx with
  | some i => hits.filter fun hit => !s.location.stale (hit.1, i)
  | none => hits

def SearchPlan.fetchK (allowed : Option IdSet) : Nat := if allowed.isSome then p.k * 4 else p.k

def onlyAllowed (allowed : Option IdSet) (hits : Hits) : Hits :=
  match allowed with
  | some ids => hits.filter fun hit => ids.contains hit.1
  | none => hits

def State.searchIndexes (allowed : Option IdSet) : Except EngineError Hits := do
  let hits ← s.strategyHits env p (p.fetchK allowed)
  .ok ((onlyAllowed allowed (s.withoutStale (s.searchedReprIdx env p) hits)).take p.k)

/-! ### Over a subgraph -/

def norm (v : List F32) : F32 := (F32.sum (v.map fun x => x.mul x)).sqrt

def dot (v w : List F32) : F32 := F32.sum ((v.zip w).map fun xy => xy.1.mul xy.2)

def subgraphQuery (reprName : String) : Except EngineError (List F32) :=
  match p.denseVector, p.queryText with
  | some v, _ => .ok (v.map F64.toF32)
  | none, some text => do
    match ← encodeQueryText env p reprName text with
    | .dense v => .ok v
    | .sparse _ => .error (.invalidQuery "expected dense vector from encode_query")
  | none, none =>
    .error (.invalidQuery "WITHIN brute-force requires a dense vector or query text")

/-- The representation of the name, unless it is marked itself. -/
def State.cleanRepr (reprName : String) (id : LogicalId) : Option Representation :=
  match s.store.get p.collection id with
  | .error _ => none
  | .ok e =>
    match e.representations.find? fun r => r.name = reprName with
    | none => none
    | some r => if r.state = .dirty then none else some r

/-- The cosine with a dense vector that is not zero. -/
def cosine (query : List F32) : VectorData → Option F32
  | .sparse _ => none
  | .dense v =>
    if (norm v).isZero then none else some ((dot query v).div ((norm query).mul (norm v)))

/-- A candidate is left out when its entry, if the schema has the representation, is stale. -/
def State.subgraphHit (reprName : String) (query : List F32) (id : LogicalId) :
    Option (LogicalId × F32) :=
  match s.cleanRepr p reprName id with
  | none => none
  | some r =>
    if (s.schemaPosition p reprName).any fun i => s.location.stale (id, i) then none
    else (cosine query r.vector).map fun score => (id, score)

def State.searchSubgraph (candidates : IdSet) : Except EngineError Hits := do
  let reprName ← required "WITHIN brute-force requires USING repr_name" p.usingRepr
  let query ← subgraphQuery env p reprName
  if (norm query).isZero then .error (.invalidQuery "zero-norm query vector")
  else
    let ids := env.candidateOrder.order (candidates.toList.map Prod.fst)
    .ok ((byScore (ids.filterMap (s.subgraphHit p reprName query))).take p.k)

/-! ### The statement -/

def State.searchAlong : SearchPath → Except EngineError Hits
  | .nowhere => .ok []
  | .subgraph candidates => s.searchSubgraph env p candidates
  | .indexes allowed => s.searchIndexes env p allowed

/-- The hits with their entities; an id that cannot be read is skipped. -/
def State.resolve (hits : Hits) : List (Entity × F32) :=
  hits.filterMap fun hit => (s.store.get p.collection hit.1).toOption.map fun e => (e, hit.2)

def SearchPlan.result (scanned : Nat) (found : List (Entity × F32)) : QueryResult :=
  let rows := found.map fun e => { entityToRow e.1 p.fields with score := some e.2 }
  ⟨buildColumns rows p.fields, rows, scanned, .probabilistic, "Ram"⟩

def executeSearch : Except EngineError QueryResult := do
  match ← s.searchPath env p with
  | .nowhere => .ok ⟨[], [], 0, .probabilistic, "Ram"⟩
  | path => do
    let hits ← s.searchAlong env p path
    .ok (p.result hits.length (s.resolve p hits))

end Search
end TronDB.Engine
