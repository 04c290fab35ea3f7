import Mathlib.Data.List.Sort
import TronDB.Core.Planner
import TronDB.Core.Store

/-! Execution of FETCH: over the whole collection, or over the ids an index names. -/
namespace TronDB.Core
open Binary

structure Row where
  values : FinMap String Value
  score : Option F32
  deriving DecidableEq

inductive QueryMode where
  | deterministic | probabilistic
  deriving DecidableEq, Repr

structure QueryResult where
  columns : List String
  rows : List Row
  entitiesScanned : Nat
  mode : QueryMode
  tier : String
  deriving DecidableEq

def entityToRow (e : Entity) (fields : FieldList) : Row :=
  let values : FinMap String Value := (∅ : FinMap String Value).insert "id" (.string e.id)
  let values := match fields with
    | .all => e.metadata.toList.foldl (fun values kv => values.insert kv.1 kv.2) values
    | .named names => names.foldl (fun values name =>
        if name = "id" then values
        else values.insert name (e.metadata[name]?.getD .null)) values
  let values := match e.validFrom with
    | some vf => values.insert "valid_from" (.int vf)
    | none => values
  let values := match e.validTo with
    | some vt => values.insert "valid_to" (.int vt)
    | none => values
  let values :=
    if 0 < e.txTime then values.insert "tx_time" (.int (Int64.ofNat e.txTime)) else values
  ⟨values, none⟩

def pushNew (columns : List String) (name : String) : List String :=
  if name ≠ "id" ∧ name ∉ columns then columns ++ [name] else columns

def buildColumns (rows : List Row) : FieldList → List String
  | .named names => names.foldl pushNew ["id"]
  | .all =>
    let columns := (rows.flatMap fun row => row.values.toList.map Prod.fst).foldl pushNew ["id"]
    "id" :: (columns.insertionSort fun a b => a ≤ b).filter (· ≠ "id")

/-- NULLs, stored or missing, sort last; values that cannot be compared are equal. -/
def compareValues : Option Value → Option Value → Ordering
  | none, none | some .null, some .null => .eq
  | none, _ | some .null, _ => .gt
  | _, none | _, some .null => .lt
  | some (.int x), some (.int y) => compare x y
  | some (.float x), some (.float y) => partialCmp x y
  | some (.int x), some (.float y) => partialCmp (F64.ofInt x.toInt) y
  | some (.float x), some (.int y) => partialCmp x (F64.ofInt y.toInt)
  | some (.string x), some (.string y) => compare x y
  | some (.bool x), some (.bool y) => compare x y
  | _, _ => .eq
where
  /-- `partial_cmp`, with NaN taken as equal. -/
  partialCmp (x y : F64) : Ordering := if x.lt y then .lt else if x.gt y then .gt else .eq

/-- The first clause that tells the rows apart decides. -/
def compareRows (a b : Row) : List OrderByClause → Ordering
  | [] => .eq
  | clause :: rest =>
    let cmp := compareValues a.values[clause.field]? b.values[clause.field]?
    let cmp := match clause.direction with
      | .asc => cmp
      | .desc => cmp.swap
    if cmp ≠ .eq then cmp else compareRows a b rest

def sortRows (rows : List Row) (orderBy : List OrderByClause) : List Row :=
  if orderBy = [] then rows
  -- The stable sort of the source wherever the comparison orders the rows; where it does not, as on
  -- values of two types, `sort_by` may leave another order or panic.
  else rows.insertionSort fun a b => compareRows a b orderBy ≠ .gt

def pickTighterLower (a b : List Value) : List Value :=
  match a, b with
  | [x], [y] => if valueGt x y then a else b
  | _, _ => a

def pickTighterUpper (a b : List Value) : List Value :=
  match a, b with
  | [x], [y] => if valueLt x y then a else b
  | _, _ => a

/-- Inclusive bounds; an open end is an integer whatever the type of the field. -/
def rangeBoundsFromClause : WhereClause → List Value × List Value
  | .gt _ lit | .gte _ lit => ([literalToValue lit], [.int Int64.maxValue])
  | .lt _ lit | .lte _ lit => ([.int Int64.minValue], [literalToValue lit])
  | .and left right =>
    let l := rangeBoundsFromClause left
    let r := rangeBoundsFromClause right
    (pickTighterLower l.1 r.1, pickTighterUpper l.2 r.2)
  | _ => ([.int Int64.minValue], [.int Int64.maxValue])

def fieldIndexLookupAcu : F64 := F64.ofInt 2
def fullScanAcu (size : Nat) : F64 := (F64.ofInt size).half

def extractMaxAcu (hints : List QueryHint) : Option F64 :=
  hints.findSome? fun
    | .maxAcu budget => some budget
    | _ => none

def overBudget (hints : List QueryHint) (estimate : F64) : Bool :=
  (extractMaxAcu hints).any fun budget => estimate.gt budget

def checkAcuBudget (p : FetchPlan) (size : Nat) : Except EngineError Unit :=
  let estimate := match p.strategy with
    | .fullScan => fullScanAcu size
    | .fieldIndexLookup _ | .fieldIndexRange _ => fieldIndexLookupAcu
  if overBudget p.hints estimate then
    .error (.acuBudgetExceeded estimate ((extractMaxAcu p.hints).getD ⟨0⟩))
  else .ok ()

/-- The types of the open field indexes, by collection and index name. -/
abbrev FieldIndexes := FinMap (String × String) (List (String × FieldType))

def FieldIndexes.find (fieldIndexes : FieldIndexes) (store : Store) (collection index : String) :
    Except EngineError FieldIndex :=
  match fieldIndexes[(collection, index)]? with
  | some types => .ok ⟨store.indexPartition collection index, types⟩
  | none => .error (.invalidQuery s!"field index '{index}' not found")

def FetchPlan.result (p : FetchPlan) (entities : List Entity) (scanned : Nat) (tier : String) :
    QueryResult :=
  let rows := sortRows (entities.map fun e => entityToRow e p.fields) p.orderBy
  let rows := match p.limit with
    | some limit => rows.take limit
    | none => rows
  ⟨buildColumns rows p.fields, rows, scanned, .deterministic, tier⟩

/-- The entities the ids name. Ids that cannot be read are skipped. -/
def readIds (store : Store) (collection : String) (ids : List LogicalId) : List Entity :=
  ids.filterMap fun id => (store.get collection id).toOption

def FetchPlan.lookup (p : FetchPlan) (store : Store) (idx : FieldIndex) :
    Except EngineError QueryResult := do
  let ids ← match p.filter with
    | some (.eq _ lit) => idx.lookupEq [literalToValue lit]
    | _ => .error (.invalidQuery "FieldIndexLookup requires Eq filter")
  let entities := (readIds store p.collection ids).filter fun e => e.visible p.temporal
  .ok (p.result entities ids.length "FieldIndex")

def FetchPlan.matches (p : FetchPlan) (e : Entity) : Bool :=
  p.filter.all fun clause => entityMatches e clause

def FetchPlan.range (p : FetchPlan) (store : Store) (idx : FieldIndex) :
    Except EngineError QueryResult := do
  let ids ← match p.filter with
    | some clause =>
      let bounds := rangeBoundsFromClause clause
      idx.lookupRange bounds.1 bounds.2
    | none => .error (.invalidQuery "FieldIndexRange requires a range filter")
  let entities := (readIds store p.collection ids).filter fun e =>
    p.matches e && e.visible p.temporal
  .ok (p.result entities ids.length "FieldIndex")

def FetchPlan.scan (p : FetchPlan) (store : Store) : Except EngineError QueryResult := do
  let entities ←
    if p.filter.isNone ∧ p.temporal.isNone ∧ p.orderBy = [] ∧ p.limit.isSome then
      store.scanWithLimit p.collection p.limit
    else store.scan p.collection
  let filtered := entities.filter fun e => p.matches e && e.visible p.temporal
  .ok (p.result filtered entities.length "Fjall")

/-- The size is the estimate of the collection's size. -/
def executeFetch (store : Store) (fieldIndexes : FieldIndexes) (size : Nat) (p : FetchPlan) :
    Except EngineError QueryResult := do
  checkAcuBudget p size
  match p.strategy with
  | .fieldIndexLookup index => do
    let idx ← fieldIndexes.find store p.collection index
    p.lookup store idx
  | .fieldIndexRange index => do
    let idx ← fieldIndexes.find store p.collection index
    p.range store idx
  | .fullScan => p.scan store

end TronDB.Core
