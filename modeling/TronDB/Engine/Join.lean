import TronDB.Engine.Traverse

/-! FETCH with JOIN, over field values or over edges. -/
namespace TronDB.Engine
open TronDB.Core Binary Wal

structure QualifiedField where
  aliasName : String
  field : String
  deriving DecidableEq, Repr

def qualified (aliasName field : String) : String := aliasName ++ "." ++ field

def QualifiedField.key (f : QualifiedField) : String := qualified f.aliasName f.field

inductive JoinType where
  | inner | left | right | full
  deriving DecidableEq, Repr

structure JoinClause where
  joinType : JoinType
  collection : String
  aliasName : String
  onLeft : QualifiedField
  onRight : QualifiedField
  /-- Given for a probabilistic join. -/
  confidenceThreshold : Option F64
  deriving DecidableEq, Repr

inductive JoinFieldList where
  | all
  | named (fields : List QualifiedField)
  deriving DecidableEq, Repr

structure JoinPlan where
  fields : JoinFieldList
  fromCollection : String
  fromAlias : String
  joins : List JoinClause
  filter : Option WhereClause
  orderBy : List OrderByClause
  limit : Option Nat

abbrev Combined := FinMap String Value

def joinRowMatches (combined : Combined) : WhereClause → Bool
  | .eq field lit => (combined[field]?.map fun v => v.eq (literalToValue lit)).getD false
  | .neq field lit => (combined[field]?.map fun v => !v.eq (literalToValue lit)).getD true
  | .gt field lit => (combined[field]?.map fun v => valueGt v (literalToValue lit)).getD false
  | .lt field lit => (combined[field]?.map fun v => valueLt v (literalToValue lit)).getD false
  | .gte field lit => (combined[field]?.map fun v =>
      valueGt v (literalToValue lit) || v.eq (literalToValue lit)).getD false
  | .lte field lit => (combined[field]?.map fun v =>
      valueLt v (literalToValue lit) || v.eq (literalToValue lit)).getD false
  | .and l r => joinRowMatches combined l && joinRowMatches combined r
  | .or l r => joinRowMatches combined l || joinRowMatches combined r
  | .not inner => !joinRowMatches combined inner
  | .isNull field => (combined[field]?.map fun v => v.eq .null).getD true
  | .isNotNull field => (combined[field]?.map fun v => !v.eq .null).getD false
  | .isIn field values => values.any fun lit =>
      (combined[field]?.map fun v => v.eq (literalToValue lit)).getD false
  | .like field pattern =>
    match combined[field]? with
    | some (.string s) => likeMatch s pattern
    | _ => false

def projectJoinRow (combined : Combined) (fields : JoinFieldList) : Row :=
  match fields with
  | .all => ⟨combined, none⟩
  | .named qfs => ⟨qfs.foldl (fun projected qf =>
      projected.insert qf.key (combined[qf.key]?.getD .null)) (∅ : Combined), none⟩

def buildJoinColumns (rows : List Row) : JoinFieldList → List String
  | .named qfs => qfs.map QualifiedField.key
  | .all =>
    ((rows.flatMap fun row => row.values.toList.map Prod.fst).foldl (fun columns key =>
      if key ∈ columns then columns else columns ++ [key]) []).insertionSort fun a b => a ≤ b

def addEntity (combined : Combined) (aliasName : String) (e : Entity) : Combined :=
  e.metadata.toList.foldl (fun combined kv => combined.insert (qualified aliasName kv.1) kv.2)
    (combined.insert (qualified aliasName "id") (.string e.id))

/-! ### The right side -/

abbrev LookupTable := FinMap String (List Entity)

def lookupTable (entities : List Entity) (field : String) : LookupTable :=
  entities.foldl (fun table (e : Entity) =>
    match e.metadata[field]? with
    | some (.string k) => table.insert k (table[k]?.getD [] ++ [e])
    | _ => table) ∅

/-- The tables of the structural joins on other fields than the id, by alias. -/
def rightLookupTables (store : Store) :
    List JoinClause → FinMap String LookupTable → Except EngineError (FinMap String LookupTable)
  | [], tables => .ok tables
  | join :: rest, tables =>
    if join.confidenceThreshold = none ∧ join.onRight.field ≠ "id" then
      match store.scan join.collection with
      | .error e => .error e
      | .ok entities =>
        rightLookupTables store rest
          (tables.insert join.aliasName (lookupTable entities join.onRight.field))
    else rightLookupTables store rest tables

def aliasToCollection (p : JoinPlan) : FinMap String String :=
  p.joins.foldl (fun m join => m.insert join.aliasName join.collection)
    ((∅ : FinMap String String).insert p.fromAlias p.fromCollection)

/-- The stored targets of the edges out of an entity that reach the threshold. -/
def State.joinCandidates (s : State) (env : ReadEnv) (threshold : F32)
    (fromCollection toCollection : String) (source : LogicalId) : List (Entity × F32) :=
  (((env.edgeTypeOrder.order s.edgeTypes.toList).map Prod.snd).filter fun et =>
      et.fromCollection = fromCollection && et.toCollection = toCollection).flatMap fun et =>
    ((s.adjacency.get source et.name).filter fun entry => entry.confidence.ge threshold).filterMap
      fun entry => (s.store.get toCollection entry.toId).toOption.map fun e => (e, entry.confidence)

/-- The first of the candidates with the highest confidence. -/
def bestMatch (candidates : List (Entity × F32)) : Option (Entity × F32) :=
  candidates.foldl (fun best candidate =>
    match best with
    | none => some candidate
    | some b => if b.2.lt candidate.2 then some candidate else best) none

/-- The value of the left field, always of the FROM entity. -/
def leftFieldVal (join : JoinClause) (left : Entity) : Option Value :=
  if join.onLeft.field = "id" then some (.string left.id) else left.metadata[join.onLeft.field]?

def State.rightEntity (s : State) (env : ReadEnv) (p : JoinPlan)
    (tables : FinMap String LookupTable) (join : JoinClause) (left : Entity) :
    Option (Entity × F32) :=
  match leftFieldVal join left with
  | some (.string idStr) =>
    match join.confidenceThreshold with
    | some threshold =>
      bestMatch (s.joinCandidates env threshold.toF32
        ((aliasToCollection p)[join.onLeft.aliasName]?.getD "") join.collection idStr)
    | none =>
      if join.onRight.field = "id" then
        (s.store.get join.collection idStr).toOption.map fun e => (e, .one)
      else
        ((tables[join.aliasName]?.bind fun table => table[idStr]?).bind List.head?).map
          fun e => (e, .one)
  | _ => none

/-! ### The rows -/

section Rows
variable (s : State) (env : ReadEnv) (p : JoinPlan)

/-- The combined row of a left entity, unless a join drops it. -/
def State.joinRow (tables : FinMap String LookupTable) (left : Entity) :
    List JoinClause → Combined → Option Combined
  | [], combined => some combined
  | join :: rest, combined =>
    match s.rightEntity env p tables join left, join.joinType with
    | some (right, confidence), _ =>
      let combined := addEntity combined join.aliasName right
      State.joinRow tables left rest
        (if join.confidenceThreshold.isSome then
          combined.insert "_edge.confidence" (.float confidence.toF64)
        else combined)
    | none, .left | none, .full =>
      State.joinRow tables left rest (combined.insert (qualified join.aliasName "id") .null)
    | none, .inner | none, .right => none

def JoinPlan.admits (combined : Combined) : Bool :=
  p.filter.all fun clause => joinRowMatches combined clause

/-- The limit is checked after a row has been pushed. -/
def JoinPlan.full (rows : List Row) : Bool := p.limit.any (· ≤ rows.length)

def State.leftRows (tables : FinMap String LookupTable) : List Entity → List Row → List Row
  | [], rows => rows
  | left :: rest, rows =>
    match s.joinRow env p tables left p.joins (addEntity ∅ p.fromAlias left) with
    | none => State.leftRows tables rest rows
    | some combined =>
      if p.admits combined then
        let rows := rows ++ [projectJoinRow combined p.fields]
        if p.full rows then rows else State.leftRows tables rest rows
      else State.leftRows tables rest rows

/-- Some row so far shows the id of the right entity. -/
def alreadyMatched (rows : List Row) (join : JoinClause) (right : Entity) : Bool :=
  rows.any fun row => row.values[qualified join.aliasName "id"]? = some (.string right.id)

def JoinPlan.unmatchedRow (join : JoinClause) (right : Entity) : Combined :=
  addEntity ((∅ : Combined).insert (qualified p.fromAlias "id") .null) join.aliasName right

def JoinPlan.unmatchedRows (join : JoinClause) : List Entity → List Row → List Row
  | [], rows => rows
  | right :: rest, rows =>
    if alreadyMatched rows join right then JoinPlan.unmatchedRows join rest rows
    else
      let combined := p.unmatchedRow join right
      if p.admits combined then
        let rows := rows ++ [projectJoinRow combined p.fields]
        if p.full rows then rows else JoinPlan.unmatchedRows join rest rows
      else JoinPlan.unmatchedRows join rest rows

/-- The rows of unmatched right entities; a collection that cannot be read has none. -/
def State.rightRows : List JoinClause → List Row → List Row
  | [], rows => rows
  | join :: rest, rows =>
    if join.joinType = .right ∨ join.joinType = .full then
      match s.store.scan join.collection with
      | .ok entities => State.rightRows rest (p.unmatchedRows join entities rows)
      | .error _ => State.rightRows rest rows
    else State.rightRows rest rows

def executeJoin : Except EngineError QueryResult :=
  match rightLookupTables s.store p.joins ∅ with
  | .error e => .error e
  | .ok tables =>
    match s.store.scan p.fromCollection with
    | .error e => .error e
    | .ok lefts =>
      let rows := s.rightRows p p.joins (s.leftRows env p tables lefts [])
      .ok ⟨buildJoinColumns rows p.fields, rows, rows.length, .deterministic, "Fjall"⟩

end Rows
end TronDB.Engine
