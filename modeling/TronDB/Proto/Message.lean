import TronDB.Lib.Binary

/-! The messages of the wire format. An enumeration is the number that is sent; where one of
several things is sent, `unset` is none of them. -/
namespace TronDB.Proto.Message
open Binary

inductive LiteralValue where
  | unset
  | stringVal (s : String)
  | intVal (n : Int64)
  | floatVal (f : F64)
  | boolVal (b : Bool)
  | nullVal (b : Bool)

structure ComparisonClause where
  field : String
  value : Option LiteralValue

inductive WhereClauseProto where
  | unset
  | eq (c : ComparisonClause)
  | gt (c : ComparisonClause)
  | lt (c : ComparisonClause)
  | gte (c : ComparisonClause)
  | lte (c : ComparisonClause)
  | and (left right : Option WhereClauseProto)
  | or (left right : Option WhereClauseProto)

structure FieldListProto where
  all : Bool
  names : List String

structure SparseEntry where
  index : UInt32
  value : F32

inductive VectorLiteralProto where
  | unset
  | dense (values : List F64)
  | sparse (entries : List SparseEntry)

structure NamedVector where
  name : String
  vector : Option VectorLiteralProto

inductive TemporalClauseProto where
  | unset
  | asOf (timestamp : String)
  | validDuring (rangeStart rangeEnd : String)
  | asOfTransaction (lsn : Nat)

structure RepresentationDecl where
  name : String
  model : Option String
  dimensions : Option Nat
  metric : Int32
  sparse : Bool

structure FieldDecl where
  name : String
  fieldType : Int32
  entityRefCollection : Option String

structure IndexDecl where
  name : String
  fields : List String
  partialCondition : Option WhereClauseProto

structure DecayConfigProto where
  decayFn : Option Int32
  decayRate : Option F64
  floor : Option F64
  promoteThreshold : Option F64
  pruneThreshold : Option F64

structure PreFilterProto where
  indexName : String
  clause : Option WhereClauseProto

structure OrderByClauseProto where
  field : String
  direction : String

structure TwoPassConfigProto where
  firstPassK : Nat
  useBinaryFirstPass : Bool

structure EdgePatternProto where
  variableName : Option String
  edgeType : Option String
  direction : Int32

structure MatchPatternProto where
  sourceVar : String
  edge : Option EdgePatternProto
  targetVar : String

structure TraverseMatchPlanProto where
  fromId : String
  pattern : Option MatchPatternProto
  minDepth : Nat
  maxDepth : Nat
  confidenceThreshold : Option F64
  limit : Option Nat
  temporal : Option TemporalClauseProto

structure FieldAssignment where
  field : String
  value : Option LiteralValue

structure QualifiedFieldProto where
  aliasName : String
  field : String

structure JoinFieldListProto where
  all : Bool
  names : List QualifiedFieldProto

structure JoinClauseProto where
  joinType : Int32
  collection : String
  aliasName : String
  onLeft : Option QualifiedFieldProto
  onRight : Option QualifiedFieldProto
  confidenceThreshold : Option F64

/-! ### Plans -/

structure CreateCollectionPlan where
  name : String
  representations : List RepresentationDecl
  fields : List FieldDecl
  indexes : List IndexDecl

structure InsertPlan where
  collection : String
  fields : List String
  values : List LiteralValue
  vectors : List NamedVector
  collocateWith : List String
  affinityGroup : Option String
  validFrom : Option String
  validTo : Option String

structure FetchPlan where
  collection : String
  fields : Option FieldListProto
  filter : Option WhereClauseProto
  limit : Option Nat
  strategy : Int32
  strategyIndexName : String
  orderBy : List OrderByClauseProto
  hints : List String
  temporal : Option TemporalClauseProto

structure SearchPlan where
  collection : String
  fields : Option FieldListProto
  denseVector : List F64
  sparseVector : List SparseEntry
  filter : Option WhereClauseProto
  preFilter : Option PreFilterProto
  k : Nat
  confidenceThreshold : F64
  strategy : Int32
  hasDense : Bool
  hasSparse : Bool
  queryText : Option String
  usingRepr : Option String
  hints : List String
  twoPass : Option TwoPassConfigProto
  within : Option TraverseMatchPlanProto

structure CreateEdgeTypePlan where
  name : String
  fromCollection : String
  toCollection : String
  decayConfig : Option DecayConfigProto

structure InsertEdgePlan where
  edgeType : String
  fromId : String
  toId : String
  metadata : List FieldAssignment
  validFrom : Option String
  validTo : Option String

structure DeleteEntityPlan where
  entityId : String
  collection : String

structure DeleteEdgePlan where
  edgeType : String
  fromId : String
  toId : String

structure TraversePlan where
  edgeType : String
  fromId : String
  depth : Nat
  limit : Option Nat

structure DemotePlan where
  entityId : String
  collection : String
  targetTier : Int32

structure PromotePlan where
  entityId : String
  collection : String

structure UpdateEntityPlan where
  entityId : String
  collection : String
  assignments : List FieldAssignment

structure InferPlanProto where
  fromId : String
  edgeTypes : List String
  limit : Option Nat
  confidenceFloor : Option F32

structure ConfirmEdgePlanProto where
  fromId : String
  toId : String
  edgeType : String
  confidence : F32

structure ExplainHistoryPlanProto where
  entityId : String
  limit : Option Nat

structure JoinPlanProto where
  fields : Option JoinFieldListProto
  fromCollection : String
  fromAlias : String
  joins : List JoinClauseProto
  filter : Option WhereClauseProto
  orderBy : List OrderByClauseProto
  limit : Option Nat
  hints : List String

structure UpsertPlanProto where
  collection : String
  fields : List String
  values : List LiteralValue
  vectors : List NamedVector

structure AddRepresentationOp where
  name : String
  dimensions : Option UInt32
  metric : String
  sparse : Bool
  fields : List String

inductive AlterOperation where
  | renameField (oldName newName : String)
  | dropField (fieldName : String)
  | setModel (model modelPath : String)
  | alterReprFields (reprName : String) (fields : List String)
  | addRepresentation (op : AddRepresentationOp)
  | alterReprModel (reprName model modelPath : String)

structure AlterCollectionPlanProto where
  collection : String
  operation : Option AlterOperation

structure ImportPlanProto where
  collection : String
  path : String

inductive PlanRequest where
  | unset
  | createCollection (p : CreateCollectionPlan)
  | insert (p : InsertPlan)
  | fetch (p : FetchPlan)
  | search (p : SearchPlan)
  | explain (inner : Option PlanRequest)
  | createEdgeType (p : CreateEdgeTypePlan)
  | insertEdge (p : InsertEdgePlan)
  | deleteEntity (p : DeleteEntityPlan)
  | deleteEdge (p : DeleteEdgePlan)
  | traverse (p : TraversePlan)
  | createAffinityGroup (name : String)
  | alterEntityDropAffinity (entityId : String)
  | demote (p : DemotePlan)
  | promote (p : PromotePlan)
  | explainTiers (collection : String)
  | updateEntity (p : UpdateEntityPlan)
  | infer (p : InferPlanProto)
  | confirmEdge (p : ConfirmEdgePlanProto)
  | explainHistory (p : ExplainHistoryPlanProto)
  | dropCollection (name : String)
  | dropEdgeType (name : String)
  | join (p : JoinPlanProto)
  | traverseMatch (p : TraverseMatchPlanProto)
  | upsert (p : UpsertPlanProto)
  | checkpoint
  | backup (path : String)
  | restore (path : String)
  | alterCollection (p : AlterCollectionPlanProto)
  | importPlan (p : ImportPlanProto)

end TronDB.Proto.Message
