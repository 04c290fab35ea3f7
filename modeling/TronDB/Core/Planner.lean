import TronDB.Core.Temporal
import TronDB.Core.Where

/-! Planning of FETCH: which index, if any, answers the filter. -/
namespace TronDB.Core
open Binary

inductive FieldList where
  | all
  | named (names : List String)
  deriving DecidableEq, Repr

inductive SortDirection where
  | asc | desc
  deriving DecidableEq, Repr

structure OrderByClause where
  field : String
  direction : SortDirection
  deriving DecidableEq, Repr

inductive QueryHint where
  | noPromote | noPrefilter | forceFullScan
  | maxAcu (budget : F64)
  | timeout (millis : Nat)
  deriving DecidableEq, Repr

structure FetchStatement where
  collection : String
  fields : FieldList
  filter : Option WhereClause
  temporal : Option TemporalClause
  orderBy : List OrderByClause
  limit : Option Nat
  hints : List QueryHint

inductive FetchStrategy where
  | fullScan
  | fieldIndexLookup (index : String)
  | fieldIndexRange (index : String)
  deriving DecidableEq, Repr

structure FetchPlan where
  collection : String
  fields : FieldList
  filter : Option WhereClause
  temporal : Option TemporalClause
  orderBy : List OrderByClause
  limit : Option Nat
  strategy : FetchStrategy
  hints : List QueryHint

def firstFieldInClause : WhereClause → String
  | .eq field _ | .neq field _ | .gt field _ | .lt field _ | .gte field _ | .lte field _
  | .isNull field | .isNotNull field | .isIn field _ | .like field _ => field
  | .and left _ | .or left _ => firstFieldInClause left
  | .not inner => firstFieldInClause inner

/-- How an index on the clause's first field is used. -/
def strategyFor (index : String) : WhereClause → FetchStrategy
  | .eq _ _ => .fieldIndexLookup index
  | .gt _ _ | .lt _ _ | .gte _ _ | .lte _ _ | .and _ _ => .fieldIndexRange index
  | _ => .fullScan

/-- The first index that starts with the clause's first field decides. -/
def selectFetchStrategy (filter : Option WhereClause) (schema : Option CollectionSchema) :
    FetchStrategy :=
  match filter, schema with
  | some clause, some schema =>
    match schema.indexes.find? fun idx => idx.fields.head? = some (firstFieldInClause clause) with
    | some idx => strategyFor idx.name clause
    | none => .fullScan
  | _, _ => .fullScan

def planFetch (schemas : FinMap String CollectionSchema) (s : FetchStatement) : FetchPlan where
  collection := s.collection
  fields := s.fields
  filter := s.filter
  temporal := s.temporal
  orderBy := s.orderBy
  limit := s.limit
  strategy :=
    if QueryHint.forceFullScan ∈ s.hints then .fullScan
    else selectFetchStrategy s.filter schemas[s.collection]?
  hints := s.hints

end TronDB.Core
