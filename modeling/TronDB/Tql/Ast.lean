import TronDB.Proto.Plan

/-! The statements of TQL. The types of their counts are parameters: U is the type of what the
source holds in 64 bits, D that of the dimensions of a sparse vector. -/
namespace TronDB.Tql
open TronDB.Core TronDB.Engine TronDB.Proto Binary

structure RepresentationDecl (U : Type) where
  name : String
  model : Option String
  dimensions : Option U
  metric : Metric
  sparse : Bool
  fields : List String

structure CreateCollectionStmt (U : Type) where
  name : String
  representations : List (RepresentationDecl U)
  fields : List StoredField
  indexes : List Proto.IndexDecl
  vectoriserConfig : Option VectoriserConfig

inductive VectorLiteral (D : Type) where
  | dense (v : List F64)
  | sparse (v : List (D × F32))

structure InsertStmt (D : Type) where
  collection : String
  fields : List String
  values : List Literal
  vectors : List (String × VectorLiteral D)
  collocateWith : Option (List String)
  affinityGroup : Option String
  validFrom : Option String
  validTo : Option String

inductive TemporalClause (U : Type) where
  | asOf (timestamp : String)
  | validDuring (rangeStart rangeEnd : String)
  | asOfTransaction (lsn : U)

structure FetchStmt (U : Type) where
  collection : String
  fields : FieldList
  filter : Option WhereClause
  temporal : Option (TemporalClause U)
  orderBy : List OrderByClause
  limit : Option U
  hints : List QueryHint

structure TraverseMatchStmt (U : Type) where
  fromId : String
  pattern : Proto.MatchPattern
  minDepth : U
  maxDepth : U
  confidenceThreshold : Option F64
  temporal : Option (TemporalClause U)
  limit : Option U

structure SearchStmt (U D : Type) where
  collection : String
  fields : FieldList
  denseVector : Option (List F64)
  sparseVector : Option (List (D × F32))
  filter : Option WhereClause
  confidence : Option F64
  limit : Option U
  queryText : Option String
  usingRepr : Option String
  hints : List QueryHint
  within : Option (TraverseMatchStmt U)

structure InferenceConfigDecl (U : Type) where
  auto : Bool
  confidenceFloor : Option F32
  limit : Option U

structure CreateEdgeTypeStmt (U : Type) where
  name : String
  fromCollection : String
  toCollection : String
  decayConfig : Option DecayConfig
  inferenceConfig : Option (InferenceConfigDecl U)

structure InsertEdgeStmt where
  edgeType : String
  fromId : String
  toId : String
  metadata : List (String × Literal)
  validFrom : Option String
  validTo : Option String

structure DeleteEdgeStmt where
  edgeType : String
  fromId : String
  toId : String

structure TraverseStmt (U : Type) where
  edgeType : String
  fromId : String
  depth : U
  limit : Option U

structure UpdateStmt where
  entityId : String
  collection : String
  assignments : List (String × Literal)

structure UpsertStmt (D : Type) where
  collection : String
  fields : List String
  values : List Literal
  vectors : List (String × VectorLiteral D)

structure InferStmt (U : Type) where
  fromId : String
  edgeTypes : List String
  limit : Option U
  confidenceFloor : Option F32

structure ConfirmEdgeStmt where
  fromId : String
  toId : String
  edgeType : String
  confidence : F32

structure ExplainHistoryStmt (U : Type) where
  entityId : String
  limit : Option U

structure FetchJoinStmt (U : Type) where
  fields : JoinFieldList
  fromCollection : String
  fromAlias : String
  joins : List JoinClause
  filter : Option WhereClause
  orderBy : List OrderByClause
  limit : Option U
  hints : List QueryHint

inductive AlterCollectionOp (U : Type) where
  | renameField (oldName newName : String)
  | dropField (fieldName : String)
  | setModel (model modelPath : String)
  | alterRepresentationSetFields (reprName : String) (fields : List String)
  | alterRepresentationSetModel (reprName model modelPath : String)
  | addRepresentation (name : String) (dimensions : Option U) (metric : Metric) (sparse : Bool)
      (fields : List String)

inductive Statement (U D : Type) where
  | createCollection (s : CreateCollectionStmt U)
  | insert (s : InsertStmt D)
  | fetch (s : FetchStmt U)
  | search (s : SearchStmt U D)
  | explain (inner : Statement U D)
  | createEdgeType (s : CreateEdgeTypeStmt U)
  | insertEdge (s : InsertEdgeStmt)
  | delete (entityId collection : String)
  | deleteEdge (s : DeleteEdgeStmt)
  | traverse (s : TraverseStmt U)
  | createAffinityGroup (name : String)
  | alterEntityDropAffinity (entityId : String)
  | demote (entityId collection : String) (targetTier : Proto.TierTarget)
  | promote (entityId collection : String)
  | explainTiers (collection : String)
  | update (s : UpdateStmt)
  | infer (s : InferStmt U)
  | confirmEdge (s : ConfirmEdgeStmt)
  | explainHistory (s : ExplainHistoryStmt U)
  | dropCollection (name : String)
  | dropEdgeType (name : String)
  | fetchJoin (s : FetchJoinStmt U)
  | traverseMatch (s : TraverseMatchStmt U)
  | upsert (s : UpsertStmt D)
  | checkpoint
  | backup (path : String)
  | restore (path : String)
  | alterCollection (collection : String) (operation : AlterCollectionOp U)
  | importInto (collection path : String)

/-! ### Statements with other counts -/

section Map
variable {U U' D D' : Type} (f : U → U') (g : D → D')

def RepresentationDecl.map (d : RepresentationDecl U) : RepresentationDecl U' :=
  { d with dimensions := d.dimensions.map f }

def CreateCollectionStmt.map (s : CreateCollectionStmt U) : CreateCollectionStmt U' :=
  { s with representations := s.representations.map (RepresentationDecl.map f) }

/-- The dimensions of a sparse vector have the weights beside them. -/
def mapDims (entries : List (D × F32)) : List (D' × F32) := entries.map (Prod.map g id)

def VectorLiteral.map : VectorLiteral D → VectorLiteral D'
  | .dense v => .dense v
  | .sparse v => .sparse (mapDims g v)

def mapVectors (vectors : List (String × VectorLiteral D)) : List (String × VectorLiteral D') :=
  vectors.map (Prod.map id (VectorLiteral.map g))

def InsertStmt.map (s : InsertStmt D) : InsertStmt D' :=
  { s with vectors := mapVectors g s.vectors }

def TemporalClause.map : TemporalClause U → TemporalClause U'
  | .asOf timestamp => .asOf timestamp
  | .validDuring rangeStart rangeEnd => .validDuring rangeStart rangeEnd
  | .asOfTransaction lsn => .asOfTransaction (f lsn)

def FetchStmt.map (s : FetchStmt U) : FetchStmt U' :=
  { s with temporal := s.temporal.map (TemporalClause.map f), limit := s.limit.map f }

def TraverseMatchStmt.map (s : TraverseMatchStmt U) : TraverseMatchStmt U' :=
  { s with
    minDepth := f s.minDepth
    maxDepth := f s.maxDepth
    temporal := s.temporal.map (TemporalClause.map f)
    limit := s.limit.map f }

def SearchStmt.map (s : SearchStmt U D) : SearchStmt U' D' :=
  { s with
    sparseVector := s.sparseVector.map (mapDims g)
    limit := s.limit.map f
    within := s.within.map (TraverseMatchStmt.map f) }

def InferenceConfigDecl.map (c : InferenceConfigDecl U) : InferenceConfigDecl U' :=
  { c with limit := c.limit.map f }

def CreateEdgeTypeStmt.map (s : CreateEdgeTypeStmt U) : CreateEdgeTypeStmt U' :=
  { s with inferenceConfig := s.inferenceConfig.map (InferenceConfigDecl.map f) }

def TraverseStmt.map (s : TraverseStmt U) : TraverseStmt U' :=
  { s with depth := f s.depth, limit := s.limit.map f }

def UpsertStmt.map (s : UpsertStmt D) : UpsertStmt D' :=
  { s with vectors := mapVectors g s.vectors }

def InferStmt.map (s : InferStmt U) : InferStmt U' := { s with limit := s.limit.map f }

def ExplainHistoryStmt.map (s : ExplainHistoryStmt U) : ExplainHistoryStmt U' :=
  { s with limit := s.limit.map f }

def FetchJoinStmt.map (s : FetchJoinStmt U) : FetchJoinStmt U' := { s with limit := s.limit.map f }

def AlterCollectionOp.map : AlterCollectionOp U → AlterCollectionOp U'
  | .renameField oldName newName => .renameField oldName newName
  | .dropField fieldName => .dropField fieldName
  | .setModel model modelPath => .setModel model modelPath
  | .alterRepresentationSetFields reprName fields => .alterRepresentationSetFields reprName fields
  | .alterRepresentationSetModel reprName model modelPath =>
    .alterRepresentationSetModel reprName model modelPath
  | .addRepresentation name dimensions metric sparse fields =>
    .addRepresentation name (dimensions.map f) metric sparse fields

def Statement.map : Statement U D → Statement U' D'
  | .createCollection s => .createCollection (s.map f)
  | .insert s => .insert (s.map g)
  | .fetch s => .fetch (s.map f)
  | .search s => .search (s.map f g)
  | .explain stmt => .explain stmt.map
  | .createEdgeType s => .createEdgeType (s.map f)
  | .insertEdge s => .insertEdge s
  | .delete entityId collection => .delete entityId collection
  | .deleteEdge s => .deleteEdge s
  | .traverse s => .traverse (s.map f)
  | .createAffinityGroup name => .createAffinityGroup name
  | .alterEntityDropAffinity entityId => .alterEntityDropAffinity entityId
  | .demote entityId collection targetTier => .demote entityId collection targetTier
  | .promote entityId collection => .promote entityId collection
  | .explainTiers collection => .explainTiers collection
  | .update s => .update s
  | .infer s => .infer (s.map f)
  | .confirmEdge s => .confirmEdge s
  | .explainHistory s => .explainHistory (s.map f)
  | .dropCollection name => .dropCollection name
  | .dropEdgeType name => .dropEdgeType name
  | .fetchJoin s => .fetchJoin (s.map f)
  | .traverseMatch s => .traverseMatch (s.map f)
  | .upsert s => .upsert (s.map g)
  | .checkpoint => .checkpoint
  | .backup path => .backup path
  | .restore path => .restore path
  | .alterCollection collection operation => .alterCollection collection (operation.map f)
  | .importInto collection path => .importInto collection path

end Map

/-! ### The counts of a statement -/

section Counts
variable {U D : Type}

def CreateCollectionStmt.counts (s : CreateCollectionStmt U) : List U :=
  s.representations.flatMap fun d => d.dimensions.toList

def dims (entries : List (D × F32)) : List D := entries.map Prod.fst

def VectorLiteral.dims : VectorLiteral D → List D
  | .dense _ => []
  | .sparse v => Tql.dims v

def vectorDims (vectors : List (String × VectorLiteral D)) : List D :=
  vectors.flatMap fun v => v.2.dims

def TemporalClause.counts : TemporalClause U → List U
  | .asOfTransaction lsn => [lsn]
  | _ => []

def countsOf {α : Type} (counts : α → List U) (part : Option α) : List U :=
  part.toList.flatMap counts

def TraverseMatchStmt.counts (s : TraverseMatchStmt U) : List U :=
  s.minDepth :: s.maxDepth :: countsOf TemporalClause.counts s.temporal ++ s.limit.toList

def AlterCollectionOp.counts : AlterCollectionOp U → List U
  | .addRepresentation _ dimensions _ _ _ => dimensions.toList
  | _ => []

/-- LIMIT, TOP, DEPTH, DIMENSIONS and AS OF TRANSACTION. -/
def Statement.counts : Statement U D → List U
  | .createCollection s => s.counts
  | .fetch s => countsOf TemporalClause.counts s.temporal ++ s.limit.toList
  | .search s => s.limit.toList ++ countsOf TraverseMatchStmt.counts s.within
  | .explain stmt => stmt.counts
  | .createEdgeType s => countsOf (fun config => config.limit.toList) s.inferenceConfig
  | .traverse s => s.depth :: s.limit.toList
  | .infer s => s.limit.toList
  | .explainHistory s => s.limit.toList
  | .fetchJoin s => s.limit.toList
  | .traverseMatch s => s.counts
  | .alterCollection _ operation => operation.counts
  | _ => []

def Statement.dims : Statement U D → List D
  | .insert s => vectorDims s.vectors
  | .search s => s.sparseVector.toList.flatMap Tql.dims
  | .explain stmt => stmt.dims
  | .upsert s => vectorDims s.vectors
  | _ => []

end Counts

end TronDB.Tql
