import TronDB.Proto.Message
import TronDB.Proto.Plan

/-! Plans put into messages and taken out of them. A conversion into a message that panics gives
the message of the panic. -/
namespace TronDB.Proto
open TronDB.Core TronDB.Engine Binary
open Message (LiteralValue WhereClauseProto PlanRequest AlterOperation)

/-- How floats are printed and read: the text of a number reads as the number, and the text of
any NaN as one and the same. -/
structure FloatText where
  display : F64 → String
  parse : String → Option F64
  nan : F64
  parse_display : ∀ v, parse (display v) = some (if v.isNaN then nan else v)

/-! ### Leaf types -/

def literalToProto : Literal → LiteralValue
  | .string s => .stringVal s
  | .int n => .intVal n
  | .float f => .floatVal f
  | .bool b => .boolVal b
  | .null => .nullVal true

def protoToLiteral : LiteralValue → Except String Literal
  | .stringVal s => .ok (.string s)
  | .intVal n => .ok (.int n)
  | .floatVal f => .ok (.float f)
  | .boolVal b => .ok (.bool b)
  | .nullVal _ => .ok .null
  | .unset => .error "missing literal value"

def required {α : Type} (message : String) : Option α → Except String α
  | some a => .ok a
  | none => .error message

def makeCmp (field : String) (value : Literal) : Message.ComparisonClause :=
  ⟨field, some (literalToProto value)⟩

def extractCmp (cmp : Message.ComparisonClause) : Except String (String × Literal) := do
  let value ← required "missing comparison value" cmp.value
  .ok (cmp.field, ← protoToLiteral value)

/-- Half of the operators are not supported on the wire. -/
def whereClauseToProto : WhereClause → Except String WhereClauseProto
  | .eq f v => .ok (.eq (makeCmp f v))
  | .gt f v => .ok (.gt (makeCmp f v))
  | .lt f v => .ok (.lt (makeCmp f v))
  | .gte f v => .ok (.gte (makeCmp f v))
  | .lte f v => .ok (.lte (makeCmp f v))
  | .and l r => do .ok (.and (some (← whereClauseToProto l)) (some (← whereClauseToProto r)))
  | .or l r => do .ok (.or (some (← whereClauseToProto l)) (some (← whereClauseToProto r)))
  | .neq f _ => .error s!"WHERE != on field '{f}' is not yet supported over gRPC transport"
  | .not _ => .error "WHERE NOT is not yet supported over gRPC transport"
  | .isNull f => .error s!"WHERE IS NULL on field '{f}' is not yet supported over gRPC transport"
  | .isNotNull f =>
    .error s!"WHERE IS NOT NULL on field '{f}' is not yet supported over gRPC transport"
  | .isIn f _ => .error s!"WHERE IN on field '{f}' is not yet supported over gRPC transport"
  | .like f _ => .error s!"WHERE LIKE on field '{f}' is not yet supported over gRPC transport"

def protoToWhereClause : WhereClauseProto → Except String WhereClause
  | .eq c => do
    let (f, v) ← extractCmp c
    .ok (.eq f v)
  | .gt c => do
    let (f, v) ← extractCmp c
    .ok (.gt f v)
  | .lt c => do
    let (f, v) ← extractCmp c
    .ok (.lt f v)
  | .gte c => do
    let (f, v) ← extractCmp c
    .ok (.gte f v)
  | .lte c => do
    let (f, v) ← extractCmp c
    .ok (.lte f v)
  | .and (some l) (some r) => do .ok (.and (← protoToWhereClause l) (← protoToWhereClause r))
  | .or (some l) (some r) => do .ok (.or (← protoToWhereClause l) (← protoToWhereClause r))
  | .and none _ | .or none _ => .error "missing binary left"
  -- the left side is read before the right one is looked for
  | .and (some l) none | .or (some l) none => do
    let _ ← protoToWhereClause l
    .error "missing binary right"
  | .unset => .error "missing where clause"

def fieldListToProto : FieldList → Message.FieldListProto
  | .all => ⟨true, []⟩
  | .named names => ⟨false, names⟩

def protoToFieldList (proto : Message.FieldListProto) : FieldList :=
  if proto.all then .all else .named proto.names

def vectorLiteralToProto : VectorLiteral → Message.VectorLiteralProto
  | .dense v => .dense v
  | .sparse entries => .sparse (entries.map fun e => ⟨e.1, e.2⟩)

def protoToVectorLiteral : Message.VectorLiteralProto → Except String VectorLiteral
  | .dense values => .ok (.dense values)
  | .sparse entries => .ok (.sparse (entries.map fun e => (e.index, e.value)))
  | .unset => .error "missing vector literal"

def temporalClauseToProto : TemporalClause → Message.TemporalClauseProto
  | .asOf ts => .asOf ts
  | .validDuring rangeStart rangeEnd => .validDuring rangeStart rangeEnd
  | .asOfTransaction lsn => .asOfTransaction lsn

def protoToTemporalClause : Message.TemporalClauseProto → Except String TemporalClause
  | .asOf ts => .ok (.asOf ts)
  | .validDuring rangeStart rangeEnd => .ok (.validDuring rangeStart rangeEnd)
  | .asOfTransaction lsn => .ok (.asOfTransaction lsn)
  | .unset => .error "missing temporal clause"

/-! ### Strategies, declarations and hints -/

def fetchStrategyToProto : FetchStrategy → Int32 × String
  | .fullScan => (0, "")
  | .fieldIndexLookup name => (1, name)
  | .fieldIndexRange name => (2, name)

def protoToFetchStrategy (proto : Int32) (indexName : String) : FetchStrategy :=
  if proto = 1 then .fieldIndexLookup indexName
  else if proto = 2 then .fieldIndexRange indexName
  else .fullScan

def searchStrategyToProto : SearchStrategy → Int32
  | .hnsw => 0
  | .sparse => 1
  | .hybrid => 2
  | .naturalLanguage => 3

def protoToSearchStrategy (proto : Int32) : SearchStrategy :=
  if proto = 1 then .sparse
  else if proto = 2 then .hybrid
  else if proto = 3 then .naturalLanguage
  else .hnsw

/-- The fields of the representation are left out. -/
def reprDeclToProto (rd : RepresentationDecl) : Message.RepresentationDecl where
  name := rd.name
  model := rd.model
  dimensions := rd.dimensions
  metric := match rd.metric with
    | .cosine => 0
    | .innerProduct => 1
  sparse := rd.sparse

def protoToReprDecl (proto : Message.RepresentationDecl) : RepresentationDecl where
  name := proto.name
  model := proto.model
  dimensions := proto.dimensions
  metric := if proto.metric = 1 then .innerProduct else .cosine
  sparse := proto.sparse
  fields := []

def fieldDeclToProto (fd : StoredField) : Message.FieldDecl :=
  match fd.fieldType with
  | .text => ⟨fd.name, 0, none⟩
  | .dateTime => ⟨fd.name, 1, none⟩
  | .bool => ⟨fd.name, 2, none⟩
  | .int => ⟨fd.name, 3, none⟩
  | .float => ⟨fd.name, 4, none⟩
  | .entityRef coll => ⟨fd.name, 5, some coll⟩

def protoToFieldDecl (proto : Message.FieldDecl) : Except String StoredField := do
  let fieldType ←
    if proto.fieldType = 0 then .ok .text
    else if proto.fieldType = 1 then .ok .dateTime
    else if proto.fieldType = 2 then .ok .bool
    else if proto.fieldType = 3 then .ok .int
    else if proto.fieldType = 4 then .ok .float
    else if proto.fieldType = 5 then
      (required "missing entity_ref_collection for EntityRef field type"
        proto.entityRefCollection).map .entityRef
    else .error s!"unknown field type: {proto.fieldType.toInt}"
  .ok ⟨proto.name, fieldType⟩

def indexDeclToProto (idx : IndexDecl) : Except String Message.IndexDecl := do
  .ok ⟨idx.name, idx.fields, ← idx.partialCondition.mapM whereClauseToProto⟩

def protoToIndexDecl (proto : Message.IndexDecl) : Except String IndexDecl := do
  .ok ⟨proto.name, proto.fields, ← proto.partialCondition.mapM protoToWhereClause⟩

def decayConfigToProto (dc : DecayConfig) : Message.DecayConfigProto where
  decayFn := dc.decayFn.map fun
    | .exponential => 0
    | .linear => 1
    | .step => 2
  decayRate := dc.decayRate
  floor := dc.floor
  promoteThreshold := dc.promoteThreshold
  pruneThreshold := dc.pruneThreshold

def protoToDecayConfig (proto : Message.DecayConfigProto) : DecayConfig where
  decayFn := proto.decayFn.map fun v =>
    if v = 1 then .linear else if v = 2 then .step else .exponential
  decayRate := proto.decayRate
  floor := proto.floor
  promoteThreshold := proto.promoteThreshold
  pruneThreshold := proto.pruneThreshold

def tierTargetToProto : TierTarget → Int32
  | .warm => 0
  | .archive => 1

def protoToTierTarget (proto : Int32) : TierTarget := if proto = 1 then .archive else .warm

def preFilterToProto (pf : PreFilter) : Except String Message.PreFilterProto := do
  .ok ⟨pf.indexName, some (← whereClauseToProto pf.clause)⟩

def protoToPreFilter (proto : Message.PreFilterProto) : Except String PreFilter := do
  let clause ← required "missing pre_filter clause" proto.clause
  .ok ⟨proto.indexName, ← protoToWhereClause clause⟩

def orderByToProto (clause : OrderByClause) : Message.OrderByClauseProto where
  field := clause.field
  direction := match clause.direction with
    | .asc => "ASC"
    | .desc => "DESC"

def protoToOrderBy (proto : Message.OrderByClauseProto) : OrderByClause where
  field := proto.field
  direction := if proto.direction = "DESC" then .desc else .asc

def hintToProto (text : FloatText) : QueryHint → String
  | .noPromote => "NO_PROMOTE"
  | .noPrefilter => "NO_PREFILTER"
  | .forceFullScan => "FORCE_FULL_SCAN"
  | .maxAcu v => "MAX_ACU(" ++ text.display v ++ ")"
  | .timeout v => "TIMEOUT(" ++ Nat.repr v ++ ")"

/-- What stands between an opening and a closing text. -/
def inner (opening closing s : String) : Option String :=
  let chars := s.toList
  if opening.toList.isPrefixOf chars then
    let rest := chars.drop opening.toList.length
    if closing.toList.isSuffixOf rest then
      some (String.ofList (rest.take (rest.length - closing.toList.length)))
    else none
  else none

def unsigned : List Char → List Char
  | '+' :: digits => digits
  | digits => digits

def parseU64 (s : String) : Option Nat :=
  (parseDigits (unsigned s.toList)).filter fun n => n < 2 ^ 64

def protoToHint (text : FloatText) (s : String) : Option QueryHint :=
  if s = "NO_PROMOTE" then some .noPromote
  else if s = "NO_PREFILTER" then some .noPrefilter
  else if s = "FORCE_FULL_SCAN" then some .forceFullScan
  else match inner "MAX_ACU(" ")" s with
    | some budget => (text.parse budget).map .maxAcu
    | none =>
      match inner "TIMEOUT(" ")" s with
      | some millis => (parseU64 millis).map .timeout
      | none => none

def joinTypeToProto : JoinType → Int32
  | .inner => 0
  | .left => 1
  | .right => 2
  | .full => 3

def protoToJoinType (proto : Int32) : JoinType :=
  if proto = 1 then .left else if proto = 2 then .right else if proto = 3 then .full else .inner

def edgeDirectionToProto : EdgeDirection → Int32
  | .forward => 0
  | .backward => 1
  | .undirected => 2

def protoToEdgeDirection (proto : Int32) : EdgeDirection :=
  if proto = 1 then .backward else if proto = 2 then .undirected else .forward

def twoPassConfigToProto (tp : TwoPassConfig) : Message.TwoPassConfigProto :=
  ⟨tp.firstPassK, tp.useBinaryFirstPass⟩

def protoToTwoPassConfig (proto : Message.TwoPassConfigProto) : TwoPassConfig :=
  ⟨proto.firstPassK, proto.useBinaryFirstPass⟩

def traverseMatchPlanToProto (p : TraverseMatchPlan) : Message.TraverseMatchPlanProto where
  fromId := p.fromId
  pattern := some {
    sourceVar := p.pattern.sourceVar
    edge := some ⟨p.pattern.edge.variableName, p.pattern.edge.edgeType,
      edgeDirectionToProto p.pattern.edge.direction⟩
    targetVar := p.pattern.targetVar }
  minDepth := p.minDepth
  maxDepth := p.maxDepth
  confidenceThreshold := p.confidenceThreshold
  limit := p.limit
  temporal := p.temporal.map temporalClauseToProto

def protoToTraverseMatchPlan (p : Message.TraverseMatchPlanProto) :
    Except String TraverseMatchPlan := do
  let pattern ← required "missing pattern" p.pattern
  let edge ← required "missing edge pattern" pattern.edge
  .ok {
    fromId := p.fromId
    pattern := ⟨pattern.sourceVar,
      ⟨edge.variableName, edge.edgeType, protoToEdgeDirection edge.direction⟩, pattern.targetVar⟩
    minDepth := p.minDepth
    maxDepth := p.maxDepth
    confidenceThreshold := p.confidenceThreshold
    temporal := ← p.temporal.mapM protoToTemporalClause
    limit := p.limit }

/-! ### The parts of several plans -/

def namedVectorToProto (nv : String × VectorLiteral) : Message.NamedVector :=
  ⟨nv.1, some (vectorLiteralToProto nv.2)⟩

def protoToNamedVector (nv : Message.NamedVector) : Except String (String × VectorLiteral) := do
  let vector ← required "missing named vector" nv.vector
  .ok (nv.name, ← protoToVectorLiteral vector)

def assignmentToProto (fv : String × Literal) : Message.FieldAssignment :=
  ⟨fv.1, some (literalToProto fv.2)⟩

def protoToAssignment (message : String) (fa : Message.FieldAssignment) :
    Except String (String × Literal) := do
  let value ← required message fa.value
  .ok (fa.field, ← protoToLiteral value)

def sparseEntryToProto (e : UInt32 × F32) : Message.SparseEntry := ⟨e.1, e.2⟩

def qualifiedFieldToProto (qf : QualifiedField) : Message.QualifiedFieldProto :=
  ⟨qf.aliasName, qf.field⟩

def protoToQualifiedField (qf : Message.QualifiedFieldProto) : QualifiedField :=
  ⟨qf.aliasName, qf.field⟩

def joinFieldListToProto : JoinFieldList → Message.JoinFieldListProto
  | .all => ⟨true, []⟩
  | .named qfs => ⟨false, qfs.map qualifiedFieldToProto⟩

def protoToJoinFieldList (proto : Message.JoinFieldListProto) : JoinFieldList :=
  if proto.all then .all else .named (proto.names.map protoToQualifiedField)

def joinClauseToProto (j : JoinClause) : Message.JoinClauseProto where
  joinType := joinTypeToProto j.joinType
  collection := j.collection
  aliasName := j.aliasName
  onLeft := some (qualifiedFieldToProto j.onLeft)
  onRight := some (qualifiedFieldToProto j.onRight)
  confidenceThreshold := j.confidenceThreshold

def protoToJoinClause (j : Message.JoinClauseProto) : Except String JoinClause := do
  let onLeft ← required "missing on_left" j.onLeft
  let onRight ← required "missing on_right" j.onRight
  .ok {
    joinType := protoToJoinType j.joinType
    collection := j.collection
    aliasName := j.aliasName
    onLeft := protoToQualifiedField onLeft
    onRight := protoToQualifiedField onRight
    confidenceThreshold := j.confidenceThreshold }

def metricToText : Metric → String
  | .cosine => "COSINE"
  | .innerProduct => "INNER_PRODUCT"

def textToMetric (text : String) : Metric :=
  if text.toUpper = "INNER_PRODUCT" then .innerProduct else .cosine

/-- The dimensions of an added representation are cut to 32 bits. -/
def alterOpToProto : SchemaAlterOp → AlterOperation
  | .renameField oldName newName => .renameField oldName newName
  | .dropField fieldName => .dropField fieldName
  | .setModel model modelPath => .setModel model modelPath
  | .alterRepresentationSetModel reprName model modelPath => .alterReprModel reprName model modelPath
  | .alterRepresentationSetFields reprName fields => .alterReprFields reprName fields
  | .addRepresentation name dimensions metric sparse fields => .addRepresentation {
      name
      dimensions := dimensions.map UInt32.ofNat
      metric := metricToText metric
      sparse
      fields }

def protoToAlterOp : AlterOperation → SchemaAlterOp
  | .renameField oldName newName => .renameField oldName newName
  | .dropField fieldName => .dropField fieldName
  | .setModel model modelPath => .setModel model modelPath
  | .alterReprFields reprName fields => .alterRepresentationSetFields reprName fields
  | .alterReprModel reprName model modelPath => .alterRepresentationSetModel reprName model modelPath
  | .addRepresentation op => .addRepresentation op.name (op.dimensions.map UInt32.toNat)
      (textToMetric op.metric) op.sparse op.fields

/-! ### Plans -/

def planToProto (text : FloatText) : Plan → Except String PlanRequest
  | .createCollection cp => do .ok (.createCollection {
      name := cp.name
      representations := cp.representations.map reprDeclToProto
      fields := cp.fields.map fieldDeclToProto
      indexes := ← cp.indexes.mapM indexDeclToProto })
  | .insert ip => .ok (.insert {
      collection := ip.collection
      fields := ip.fields
      values := ip.values.map literalToProto
      vectors := ip.vectors.map namedVectorToProto
      collocateWith := ip.collocateWith.getD []
      affinityGroup := ip.affinityGroup
      validFrom := ip.validFrom
      validTo := ip.validTo })
  | .fetch fp => do .ok (.fetch {
      collection := fp.collection
      fields := some (fieldListToProto fp.fields)
      filter := ← fp.filter.mapM whereClauseToProto
      limit := fp.limit
      strategy := (fetchStrategyToProto fp.strategy).1
      strategyIndexName := (fetchStrategyToProto fp.strategy).2
      orderBy := fp.orderBy.map orderByToProto
      hints := fp.hints.map (hintToProto text)
      temporal := fp.temporal.map temporalClauseToProto })
  | .search sp => do .ok (.search {
      collection := sp.collection
      fields := some (fieldListToProto sp.fields)
      denseVector := sp.denseVector.getD []
      sparseVector := (sp.sparseVector.map fun sv => sv.map sparseEntryToProto).getD []
      filter := ← sp.filter.mapM whereClauseToProto
      preFilter := ← sp.preFilter.mapM preFilterToProto
      k := sp.k
      confidenceThreshold := sp.confidenceThreshold
      strategy := searchStrategyToProto sp.strategy
      hasDense := sp.denseVector.isSome
      hasSparse := sp.sparseVector.isSome
      queryText := sp.queryText
      usingRepr := sp.usingRepr
      hints := sp.hints.map (hintToProto text)
      twoPass := sp.twoPass.map twoPassConfigToProto
      within := sp.within.map traverseMatchPlanToProto })
  | .explain plan => do .ok (.explain (some (← planToProto text plan)))
  | .createEdgeType ce => .ok (.createEdgeType {
      name := ce.name
      fromCollection := ce.fromCollection
      toCollection := ce.toCollection
      decayConfig := ce.decayConfig.map decayConfigToProto })
  | .insertEdge ie => .ok (.insertEdge {
      edgeType := ie.edgeType
      fromId := ie.fromId
      toId := ie.toId
      metadata := ie.metadata.map assignmentToProto
      validFrom := ie.validFrom
      validTo := ie.validTo })
  | .deleteEntity de => .ok (.deleteEntity ⟨de.entityId, de.collection⟩)
  | .deleteEdge de => .ok (.deleteEdge ⟨de.edgeType, de.fromId, de.toId⟩)
  | .traverse tp => .ok (.traverse ⟨tp.edgeType, tp.fromId, tp.depth, tp.limit⟩)
  | .createAffinityGroup name => .ok (.createAffinityGroup name)
  | .alterEntityDropAffinity entityId => .ok (.alterEntityDropAffinity entityId)
  | .demote dp => .ok (.demote ⟨dp.entityId, dp.collection, tierTargetToProto dp.targetTier⟩)
  | .promote pp => .ok (.promote ⟨pp.entityId, pp.collection⟩)
  | .explainTiers collection => .ok (.explainTiers collection)
  | .updateEntity up => .ok (.updateEntity {
      entityId := up.entityId
      collection := up.collection
      assignments := up.assignments.map assignmentToProto })
  | .infer p => .ok (.infer ⟨p.fromId, p.edgeTypes, p.limit, p.confidenceFloor⟩)
  | .confirmEdge p => .ok (.confirmEdge ⟨p.fromId, p.toId, p.edgeType, p.confidence⟩)
  | .explainHistory p => .ok (.explainHistory ⟨p.entityId, p.limit⟩)
  | .dropCollection name => .ok (.dropCollection name)
  | .dropEdgeType name => .ok (.dropEdgeType name)
  | .join p => do .ok (.join {
      fields := some (joinFieldListToProto p.fields)
      fromCollection := p.fromCollection
      fromAlias := p.fromAlias
      joins := p.joins.map joinClauseToProto
      filter := ← p.filter.mapM whereClauseToProto
      orderBy := p.orderBy.map orderByToProto
      limit := p.limit
      hints := p.hints.map (hintToProto text) })
  | .traverseMatch p => .ok (.traverseMatch (traverseMatchPlanToProto p))
  | .checkpoint => .ok .checkpoint
  | .upsert p => .ok (.upsert {
      collection := p.collection
      fields := p.fields
      values := p.values.map literalToProto
      vectors := p.vectors.map namedVectorToProto })
  | .backup path => .ok (.backup path)
  | .restore path => .ok (.restore path)
  | .alterCollection p => .ok (.alterCollection ⟨p.collection, some (alterOpToProto p.operation)⟩)
  | .importCollection p => .ok (.importPlan ⟨p.collection, p.path⟩)

def protoToPlan (text : FloatText) : PlanRequest → Except String Plan
  | .unset => .error "missing plan"
  | .createCollection cp => do .ok (.createCollection {
      name := cp.name
      representations := cp.representations.map protoToReprDecl
      fields := ← cp.fields.mapM protoToFieldDecl
      indexes := ← cp.indexes.mapM protoToIndexDecl
      vectoriserConfig := none })
  | .insert ip => do
    let vectors ← ip.vectors.mapM protoToNamedVector
    let values ← ip.values.mapM protoToLiteral
    .ok (.insert {
      collection := ip.collection
      fields := ip.fields
      values
      vectors
      collocateWith := if ip.collocateWith = [] then none else some ip.collocateWith
      affinityGroup := ip.affinityGroup
      validFrom := ip.validFrom
      validTo := ip.validTo })
  | .fetch fp => do .ok (.fetch {
      collection := fp.collection
      fields := protoToFieldList (← required "missing fields" fp.fields)
      filter := ← fp.filter.mapM protoToWhereClause
      temporal := ← fp.temporal.mapM protoToTemporalClause
      orderBy := fp.orderBy.map protoToOrderBy
      limit := fp.limit
      strategy := protoToFetchStrategy fp.strategy fp.strategyIndexName
      hints := fp.hints.filterMap (protoToHint text) })
  | .search sp => do .ok (.search {
      collection := sp.collection
      fields := protoToFieldList (← required "missing search fields" sp.fields)
      denseVector := if sp.hasDense then some sp.denseVector else none
      sparseVector :=
        if sp.hasSparse then some (sp.sparseVector.map fun e => (e.index, e.value)) else none
      filter := ← sp.filter.mapM protoToWhereClause
      preFilter := ← sp.preFilter.mapM protoToPreFilter
      k := sp.k
      confidenceThreshold := sp.confidenceThreshold
      strategy := protoToSearchStrategy sp.strategy
      queryText := sp.queryText
      usingRepr := sp.usingRepr
      hints := sp.hints.filterMap (protoToHint text)
      twoPass := sp.twoPass.map protoToTwoPassConfig
      within := ← sp.within.mapM protoToTraverseMatchPlan })
  | .explain none => .error "missing inner plan"
  | .explain (some plan) => do .ok (.explain (← protoToPlan text plan))
  | .createEdgeType ce => .ok (.createEdgeType {
      name := ce.name
      fromCollection := ce.fromCollection
      toCollection := ce.toCollection
      decayConfig := ce.decayConfig.map protoToDecayConfig
      inferenceConfig := none })
  | .insertEdge ie => do .ok (.insertEdge {
      edgeType := ie.edgeType
      fromId := ie.fromId
      toId := ie.toId
      metadata := ← ie.metadata.mapM (protoToAssignment "missing field value")
      validFrom := ie.validFrom
      validTo := ie.validTo })
  | .deleteEntity de => .ok (.deleteEntity ⟨de.entityId, de.collection⟩)
  | .deleteEdge de => .ok (.deleteEdge ⟨de.edgeType, de.fromId, de.toId⟩)
  | .traverse tp => .ok (.traverse ⟨tp.edgeType, tp.fromId, tp.depth, tp.limit⟩)
  | .createAffinityGroup name => .ok (.createAffinityGroup name)
  | .alterEntityDropAffinity entityId => .ok (.alterEntityDropAffinity entityId)
  | .demote dp => .ok (.demote ⟨dp.entityId, dp.collection, protoToTierTarget dp.targetTier⟩)
  | .promote pp => .ok (.promote ⟨pp.entityId, pp.collection⟩)
  | .explainTiers collection => .ok (.explainTiers collection)
  | .updateEntity up => do .ok (.updateEntity {
      entityId := up.entityId
      collection := up.collection
      assignments := ← up.assignments.mapM (protoToAssignment "missing assignment value") })
  | .infer p => .ok (.infer ⟨p.fromId, p.edgeTypes, p.limit, p.confidenceFloor⟩)
  | .confirmEdge p => .ok (.confirmEdge ⟨p.edgeType, p.fromId, p.toId, p.confidence⟩)
  | .explainHistory p => .ok (.explainHistory ⟨p.entityId, p.limit⟩)
  | .dropCollection name => .ok (.dropCollection name)
  | .dropEdgeType name => .ok (.dropEdgeType name)
  | .join p => do
    let fields ← required "missing join fields" p.fields
    let joins ← p.joins.mapM protoToJoinClause
    .ok (.join {
      fields := protoToJoinFieldList fields
      fromCollection := p.fromCollection
      fromAlias := p.fromAlias
      joins
      filter := ← p.filter.mapM protoToWhereClause
      orderBy := p.orderBy.map protoToOrderBy
      limit := p.limit
      hints := p.hints.filterMap (protoToHint text) })
  | .traverseMatch p => do .ok (.traverseMatch (← protoToTraverseMatchPlan p))
  | .checkpoint => .ok .checkpoint
  | .upsert p => do
    let vectors ← p.vectors.mapM protoToNamedVector
    let values ← p.values.mapM protoToLiteral
    .ok (.upsert ⟨p.collection, p.fields, values, vectors⟩)
  | .backup path => .ok (.backup path)
  | .restore path => .ok (.restore path)
  | .alterCollection p => do
    let operation ← required "missing alter collection operation" p.operation
    .ok (.alterCollection ⟨p.collection, protoToAlterOp operation⟩)
  | .importPlan p => .ok (.importCollection ⟨p.collection, p.path⟩)

end TronDB.Proto
