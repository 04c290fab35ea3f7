import TronDB.Engine.Join
import TronDB.Engine.Run
import TronDB.Engine.Traverse

/-! The plans a planner hands to an executor, on this node or another. Of the plans the engine
has of its own these are the ones with the parts only the wire sees. -/
namespace TronDB.Proto
open TronDB.Core TronDB.Engine Binary

structure IndexDecl where
  name : String
  fields : List String
  partialCondition : Option WhereClause

structure CreateCollectionPlan where
  name : String
  representations : List RepresentationDecl
  fields : List StoredField
  indexes : List IndexDecl
  vectoriserConfig : Option VectoriserConfig

structure InsertPlan where
  collection : String
  fields : List String
  values : List Literal
  vectors : List (String × VectorLiteral)
  collocateWith : Option (List String)
  affinityGroup : Option String
  validFrom : Option String
  validTo : Option String
  deriving DecidableEq, Repr

inductive SearchStrategy where
  | hnsw | sparse | hybrid | naturalLanguage
  deriving DecidableEq, Repr

structure PreFilter where
  indexName : String
  clause : WhereClause

structure TwoPassConfig where
  firstPassK : Nat
  useBinaryFirstPass : Bool
  deriving DecidableEq, Repr

structure EdgePattern where
  variableName : Option String
  edgeType : Option String
  direction : EdgeDirection
  deriving DecidableEq, Repr

structure MatchPattern where
  sourceVar : String
  edge : EdgePattern
  targetVar : String
  deriving DecidableEq, Repr

structure TraverseMatchPlan where
  fromId : String
  pattern : MatchPattern
  minDepth : Nat
  maxDepth : Nat
  confidenceThreshold : Option F64
  temporal : Option TemporalClause
  limit : Option Nat
  deriving DecidableEq, Repr

structure SearchPlan where
  collection : String
  fields : FieldList
  denseVector : Option (List F64)
  sparseVector : Option (List (UInt32 × F32))
  filter : Option WhereClause
  preFilter : Option PreFilter
  k : Nat
  confidenceThreshold : F64
  strategy : SearchStrategy
  queryText : Option String
  usingRepr : Option String
  hints : List QueryHint
  twoPass : Option TwoPassConfig
  within : Option TraverseMatchPlan

inductive TierTarget where
  | warm | archive
  deriving DecidableEq, Repr

structure DemotePlan where
  entityId : String
  collection : String
  targetTier : TierTarget
  deriving DecidableEq, Repr

structure PromotePlan where
  entityId : String
  collection : String
  deriving DecidableEq, Repr

structure UpsertPlan where
  collection : String
  fields : List String
  values : List Literal
  vectors : List (String × VectorLiteral)
  deriving DecidableEq, Repr

structure InferPlan where
  fromId : String
  edgeTypes : List String
  limit : Option Nat
  confidenceFloor : Option F32
  deriving DecidableEq, Repr

structure ExplainHistoryPlan where
  entityId : String
  limit : Option Nat
  deriving DecidableEq, Repr

structure JoinPlan where
  fields : JoinFieldList
  fromCollection : String
  fromAlias : String
  joins : List JoinClause
  filter : Option WhereClause
  orderBy : List OrderByClause
  limit : Option Nat
  hints : List QueryHint

inductive Plan where
  | createCollection (p : CreateCollectionPlan)
  | insert (p : InsertPlan)
  | fetch (p : FetchPlan)
  | search (p : SearchPlan)
  | explain (inner : Plan)
  | createEdgeType (p : CreateEdgeTypePlan)
  | insertEdge (p : InsertEdgePlan)
  | deleteEntity (p : DeleteEntityPlan)
  | deleteEdge (p : DeleteEdgePlan)
  | traverse (p : TraversePlan)
  | createAffinityGroup (name : String)
  | alterEntityDropAffinity (entityId : String)
  | demote (p : DemotePlan)
  | promote (p : PromotePlan)
  | explainTiers (collection : String)
  | updateEntity (p : UpdateEntityPlan)
  | infer (p : InferPlan)
  | confirmEdge (p : ConfirmEdgePlan)
  | explainHistory (p : ExplainHistoryPlan)
  | dropCollection (name : String)
  | dropEdgeType (name : String)
  | join (p : JoinPlan)
  | traverseMatch (p : TraverseMatchPlan)
  | upsert (p : UpsertPlan)
  | checkpoint
  | backup (path : String)
  | restore (path : String)
  | alterCollection (p : AlterCollectionPlan)
  | importCollection (p : ImportPlan)

end TronDB.Proto
