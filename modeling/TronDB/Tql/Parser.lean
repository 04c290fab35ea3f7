import TronDB.Tql.Ast
import TronDB.Tql.Where

/-! The recursive descent parser of TQL. What becomes of an integer literal at a count is a
parameter: `as usize` and `as u64` of the source are one function, `as u32` the other. -/
namespace TronDB.Tql
open TronDB.Core TronDB.Engine TronDB.Proto Binary
open Parsing

/-! ### Clauses -/

def parseKvPair : TokenParser (String × Literal) := do
  let key ← expectIdent
  expect .eq
  let value ← parseLiteral
  pure (key, value)

def parseKvList : TokenParser (List (String × Literal)) := inParens (commaList parseKvPair)

/-- `str::parse::<u64>`. -/
def parseU64 (s : List Char) : Option Nat :=
  let digits := match s with
    | '+' :: digits => digits
    | digits => digits
  if digits.isEmpty || !digits.all Char.isDigit then none
  else if decimal digits < 2 ^ 64 then some (decimal digits) else none

/-- What stands in the parentheses of a hint with an argument. -/
def hintArgument (name : String) (s : List Char) : Option (List Char) :=
  if name.toList.isPrefixOf s ∧ s.getLast? = some ')' then some (s.drop 8).dropLast else none

/-- Unknown hints, and those whose argument cannot be read, are ignored. -/
def readHint (raw : String) : Option QueryHint :=
  let s := trim raw.toList
  if s = "NO_PROMOTE".toList then some .noPromote
  else if s = "NO_PREFILTER".toList then some .noPrefilter
  else if s = "FORCE_FULL_SCAN".toList then some .forceFullScan
  else match hintArgument "MAX_ACU(" s with
    | some budget => (parseF64 budget).map .maxAcu
    | none =>
      match hintArgument "TIMEOUT(" s with
      | some millis => (parseU64 millis).map .timeout
      | none => none

def parseHints : TokenParser (List QueryHint) :=
  Parser.loop (fun t hints => match t.1 with
    | .hint raw => some (pure (hints ++ (readHint raw).toList))
    | _ => none) []

def parseDirection : TokenParser SortDirection := do
  match ← peek with
  | some .asc =>
    advance
    pure .asc
  | some .desc =>
    advance
    pure .desc
  | _ => pure .asc

def parseOrderByClause : TokenParser OrderByClause := do
  let field ← expectIdent
  let direction ← parseDirection
  pure ⟨field, direction⟩

def parseOrderBy : TokenParser (List OrderByClause) := do
  expect .by_
  commaList parseOrderByClause

/-- WHERE and ORDER BY of a FETCH. -/
def parseFilter : TokenParser (Option WhereClause) := given .where_ parseWhereClause

def parseOptionalOrderBy : TokenParser (List OrderByClause) :=
  (fun clauses => clauses.getD []) <$> given .order parseOrderBy

def parseFieldList : TokenParser FieldList := do
  if (← peek) = some .star then
    advance
    pure .all
  else
    .named <$> commaList expectIdent

/-- CONFIDENCE > threshold, behind the first word. -/
def parseThreshold : TokenParser F64 := do
  expect .gt
  expectFloatOrInt

/-- VALID FROM 'timestamp' [TO 'timestamp']. -/
def parseValidity : TokenParser (Option String × Option String) := do
  let validity ← given .valid do
    expect .from_
    let start ← expectStringLit
    let stop ← given .to_ expectStringLit
    pure (some start, stop)
  pure (validity.getD (none, none))

def parseMetric : TokenParser Metric := do
  match ← peek with
  | some .cosine =>
    advance
    pure .cosine
  | some .innerProduct =>
    advance
    pure .innerProduct
  | _ => Parser.fail (.invalidSyntax "expected COSINE or INNER_PRODUCT")

def parseSparseFlag : TokenParser Bool := do
  match ← peek with
  | some .true =>
    advance
    pure true
  | some .false =>
    advance
    pure false
  | _ => Parser.fail (.invalidSyntax "expected true or false after SPARSE")

def parseFloatList : TokenParser (List F64) := do
  expect .lBracket
  let values ← commaList parseNumberAsF64
  expect .rBracket
  pure values

/-! ### JOIN -/

def pickFieldName : Token → Option String
  | .ident s => some s
  | .confidence => some "confidence"
  | .type => some "type"
  | .order => some "order"
  | .set => some "set"
  | .all => some "all"
  | .in_ => some "in"
  | .index => some "index"
  | .edge => some "edge"
  | .fields => some "fields"
  | .auto => some "auto"
  | .step => some "step"
  | .group => some "group"
  | .inner => some "inner"
  | .left => some "left"
  | .right => some "right"
  | .full => some "full"
  | .join => some "join"
  | .as_ => some "as"
  | .text => some "text"
  | _ => none

def expectIdentOrKeywordAsField : TokenParser String :=
  picking pickFieldName "field name" "field name"

def isIdent (t : Token) : Bool := (pickIdent t).isSome

/-- Nothing is taken if no dot follows the identifier. -/
def tryParseQualifiedField : TokenParser (Option QualifiedField) := do
  if ← followed isIdent .dot then
    let aliasName ← expectIdent
    expect .dot
    let field ← expectIdentOrKeywordAsField
    pure (some ⟨aliasName, field⟩)
  else pure none

def parseJoinField : TokenParser QualifiedField := do
  match ← tryParseQualifiedField with
  | some field => pure field
  | none =>
    let ident ← expectIdent
    Parser.fail (.invalidQuery s!"JOIN fields must be qualified (alias.field), got bare '{ident}'")

def parseJoinFieldList : TokenParser JoinFieldList := do
  if (← peek) = some .star then
    advance
    pure .all
  else
    .named <$> commaList parseJoinField

def parseOnField : TokenParser QualifiedField := do
  match ← tryParseQualifiedField with
  | some field => pure field
  | none => Parser.fail (.invalidQuery "expected qualified field in ON clause (alias.field)")

/-- What follows the words of the join type. -/
def parseJoinClause (joinType : JoinType) : TokenParser JoinClause := do
  let collection ← expectIdent
  expect .as_
  let aliasName ← expectIdent
  expect .on_
  let onLeft ← parseOnField
  expect .eq
  let onRight ← parseOnField
  let confidenceThreshold ← given .confidence parseThreshold
  pure { joinType, collection, aliasName, onLeft, onRight, confidenceThreshold }

/-- JOIN alone is an inner join. -/
def nextJoin (t : Token × Nat) (joins : List JoinClause) : Option (TokenParser (List JoinClause)) :=
  let typed (joinType : JoinType) : TokenParser (List JoinClause) := do
    expect .join
    let join ← parseJoinClause joinType
    pure (joins ++ [join])
  match t.1 with
  | .inner => some (typed .inner)
  | .left => some (typed .left)
  | .right => some (typed .right)
  | .full => some (typed .full)
  | .join => some ((fun join => joins ++ [join]) <$> parseJoinClause .inner)
  | _ => none

section Counts
variable {U D : Type} (asU64 : Int64 → U) (asU32 : Int64 → D)

def parseLimit : TokenParser (Option U) := given .limit (asU64 <$> expectInt)

/-! ### Vectors -/

def parseSparseEntry : TokenParser (D × F32) := do
  let dim ← asU32 <$> expectInt
  expect .colon
  let weight ← parseNumberAsF64
  pure (dim, weight.toF32)

/-- Behind a comma the list may end. -/
def parseSparseEntries (entries : List (D × F32)) : TokenParser (List (D × F32)) := do
  if (← peek) = some .rBracket then pure entries
  else (fun entry => entries ++ [entry]) <$> parseSparseEntry asU32

def nextSparseEntry (t : Token × Nat) (entries : List (D × F32)) :
    Option (TokenParser (List (D × F32))) :=
  if t.1 = .comma then some (parseSparseEntries asU32 entries) else none

def parseSparseVectorList : TokenParser (List (D × F32)) := do
  expect .lBracket
  let first ← parseSparseEntries asU32 []
  let entries ← Parser.loop (nextSparseEntry asU32) first
  expect .rBracket
  pure entries

/-- A vector with the name of its representation, behind the first word. -/
def parseNamedVector : TokenParser (String × VectorLiteral D) := do
  let reprName ← expectName
  match ← peek with
  | some .vector =>
    advance
    let v ← parseFloatList
    pure (reprName, .dense v)
  | some .sparse =>
    advance
    let v ← parseSparseVectorList asU32
    pure (reprName, .sparse v)
  | _ => refuse "VECTOR or SPARSE" "VECTOR or SPARSE"

def parseNamedVectors : TokenParser (List (String × VectorLiteral D)) :=
  Parser.repeated (fun t => t.1 = .representation) (parseNamedVector asU32) []

/-! ### Schemas -/

/-- Behind the first word; the attributes stand in any order. -/
def parseRepresentationDecl : TokenParser (RepresentationDecl U) := do
  let name ← expectName
  Parser.loop (fun t decl => match t.1 with
    | .model => some ((fun model => { decl with model := some model }) <$> expectStringLit)
    | .dimensions =>
      some ((fun dims => { decl with dimensions := some dims }) <$> (asU64 <$> expectInt))
    | .tokenMetric => some ((fun metric => { decl with metric }) <$> parseMetric)
    | .sparse => some ((fun sparse => { decl with sparse }) <$> parseSparseFlag)
    | .fields => some ((fun fields => { decl with fields := decl.fields ++ fields }) <$>
        inParens (commaList expectIdent))
    | _ => none) ⟨name, none, none, .cosine, false, []⟩

/-- ENTITY_REF, which has a collection behind it, picks no type yet. -/
def pickFieldType : Token → Option (Option FieldType)
  | .text => some (some .text)
  | .dateTime => some (some .dateTime)
  | .tokenBool => some (some .bool)
  | .tokenInt => some (some .int)
  | .tokenFloat => some (some .float)
  | .entityRef => some none
  | _ => none

def parseFieldType : TokenParser FieldType := do
  match ← picking pickFieldType "field type (TEXT, DATETIME, BOOL, INT, FLOAT, ENTITY_REF)"
      "field type" with
  | some fieldType => pure fieldType
  | none => .entityRef <$> inParens expectIdent

def parseFieldDecl : TokenParser StoredField := do
  let name ← expectIdent
  let fieldType ← parseFieldType
  pure ⟨name, fieldType⟩

def parseIndexDecl : TokenParser Proto.IndexDecl := do
  let name ← expectIdent
  expect .on_
  let fields ← inParens (commaList expectIdent)
  let partialCondition ← parseFilter
  pure ⟨name, fields, partialCondition⟩

/-- MODEL is taken once, the others overwrite what they read before. -/
def configToken (t : Token × Nat) (config : VectoriserConfig) :
    Option (TokenParser VectoriserConfig) :=
  match t.1 with
  | .model =>
    if config.model = none then
      some ((fun s => { config with model := some s }) <$> expectStringLit)
    else none
  | .modelPath => some ((fun s => { config with modelPath := some s }) <$> expectStringLit)
  | .tokenDevice => some ((fun s => { config with device := some s }) <$> expectStringLit)
  | .tokenVectoriser => some ((fun s => { config with vectoriserType := some s }) <$> expectStringLit)
  | .tokenEndpoint => some ((fun s => { config with endpoint := some s }) <$> expectStringLit)
  | .tokenAuth => some ((fun s => { config with auth := some s }) <$> expectStringLit)
  | _ => none

def emptyConfig : VectoriserConfig := ⟨none, none, none, none, none, none⟩

/-- The comma between declarations may be left out. -/
def parseDeclaration (t : Token × Nat) (s : CreateCollectionStmt U) :
    Option (TokenParser (CreateCollectionStmt U)) :=
  let separated (p : TokenParser (CreateCollectionStmt U)) : TokenParser (CreateCollectionStmt U) := do
    let s ← p
    let _ ← given .comma (pure ())
    pure s
  match t.1 with
  | .representation => some (separated ((fun decl =>
      { s with representations := s.representations ++ [decl] }) <$> parseRepresentationDecl asU64))
  | .field => some (separated ((fun decl => { s with fields := s.fields ++ [decl] }) <$>
      parseFieldDecl))
  | .index => some (separated ((fun decl => { s with indexes := s.indexes ++ [decl] }) <$>
      parseIndexDecl))
  | _ => none

def parseCreateCollection : TokenParser (Statement U D) := do
  advance
  let name ← expectIdent
  expect .lParen
  let config ← Parser.loop configToken emptyConfig
  let stmt ← Parser.loop (parseDeclaration asU64)
    ⟨name, [], [], [], if config = emptyConfig then none else some config⟩
  if (← peek) = some .rParen then
    advance
    expect .semicolon
    pure (.createCollection stmt)
  else refuse "REPRESENTATION, FIELD, INDEX, or )" ") or declaration"

def pickDecayFn : Token → Option DecayFn
  | .exponential => some .exponential
  | .linear => some .linear
  | .step => some .step
  | _ => none

/-- RATE, FLOOR and PRUNE stand in any order. -/
def parseDecay : TokenParser DecayConfig := do
  let decayFn ← picking pickDecayFn "EXPONENTIAL, LINEAR, or STEP"
    "decay function (EXPONENTIAL, LINEAR, or STEP)"
  Parser.loop (fun t config => match t.1 with
    | .rate => some ((fun x => { config with decayRate := some x }) <$> expectFloatOrInt)
    | .tokenFloor => some ((fun x => { config with floor := some x }) <$> expectFloatOrInt)
    | .prune => some ((fun x => { config with pruneThreshold := some x }) <$> expectFloatOrInt)
    | _ => none) ⟨some decayFn, none, none, none, none⟩

/-- AUTO, with CONFIDENCE and LIMIT in any order. -/
def parseInferAuto : TokenParser (InferenceConfigDecl U) := do
  expect .auto
  Parser.loop (fun t config => match t.1 with
    | .confidence => some ((fun x => { config with confidenceFloor := some x.toF32 }) <$>
        parseThreshold)
    | .limit => some ((fun n => { config with limit := some n }) <$> (asU64 <$> expectInt))
    | _ => none) ⟨true, none, none⟩

def parseCreateEdge : TokenParser (Statement U D) := do
  advance
  let name ← expectIdent
  expect .from_
  let fromCollection ← expectIdent
  expect .to_
  let toCollection ← expectIdent
  let decayConfig ← given .decay parseDecay
  let inferenceConfig ← given .infer (parseInferAuto asU64)
  expect .semicolon
  pure (.createEdgeType { name, fromCollection, toCollection, decayConfig, inferenceConfig })

def parseCreate : TokenParser (Statement U D) := do
  advance
  match ← peek with
  | some .collection => parseCreateCollection asU64
  | some .edge => parseCreateEdge asU64
  | some .affinity =>
    advance
    expect .group
    let name ← expectStringLit
    expect .semicolon
    pure (.createAffinityGroup name)
  | _ => refuse "COLLECTION, EDGE, or AFFINITY" "COLLECTION, EDGE, or AFFINITY"

def parseAddRepresentation : TokenParser (AlterCollectionOp U) := do
  expect .representation
  let name ← expectName
  let dimensions ← given .dimensions (asU64 <$> expectInt)
  expect .tokenMetric
  let metric ← parseMetric
  let sparse ← given .sparse parseSparseFlag
  let fields ← given .fields (inParens (commaList expectIdent))
  expect .semicolon
  pure (.addRepresentation name dimensions metric (sparse.getD false) (fields.getD []))

def parseAlterRepresentation : TokenParser (AlterCollectionOp U) := do
  expect .representation
  let reprName ← expectIdent
  expect .set
  match ← peek with
  | some .fields =>
    advance
    let fields ← inParens (commaList expectIdent)
    expect .semicolon
    pure (.alterRepresentationSetFields reprName fields)
  | some .model =>
    advance
    let model ← expectStringLit
    expect .modelPath
    let modelPath ← expectStringLit
    expect .semicolon
    pure (.alterRepresentationSetModel reprName model modelPath)
  | _ => refuse "FIELDS or MODEL" "FIELDS or MODEL"

def parseAlterOperation : TokenParser (AlterCollectionOp U) := do
  match ← peek with
  | some .rename =>
    advance
    expect .field
    let oldName ← expectIdent
    expect .to_
    let newName ← expectIdent
    expect .semicolon
    pure (.renameField oldName newName)
  | some .drop =>
    advance
    expect .field
    let fieldName ← expectIdent
    expect .semicolon
    pure (.dropField fieldName)
  | some .set =>
    advance
    expect .model
    let model ← expectStringLit
    expect .modelPath
    let modelPath ← expectStringLit
    expect .semicolon
    pure (.setModel model modelPath)
  | some .alter =>
    advance
    parseAlterRepresentation
  | some .add =>
    advance
    parseAddRepresentation asU64
  | _ => refuse "RENAME, DROP, SET, ALTER, or ADD" "RENAME, DROP, SET, ALTER, or ADD"

def parseAlter : TokenParser (Statement U D) := do
  advance
  match ← peek with
  | some .entity =>
    advance
    let entityId ← expectStringLit
    expect .drop
    expect .affinity
    expect .group
    expect .semicolon
    pure (.alterEntityDropAffinity entityId)
  | some .collection =>
    advance
    let collection ← expectIdent
    let operation ← parseAlterOperation asU64
    pure (.alterCollection collection operation)
  | _ => refuse "ENTITY or COLLECTION" "ENTITY or COLLECTION"

/-- The place it fails at is the number of the token. -/
def parseDrop (count : Nat) : TokenParser (Statement U D) := do
  advance
  match ← peek with
  | some .collection =>
    advance
    let name ← expectIdent
    expect .semicolon
    pure (.dropCollection name)
  | some .edge =>
    advance
    expect .type
    let name ← expectStringLit
    expect .semicolon
    pure (.dropEdgeType name)
  | other =>
    let left ← Parser.rest
    Parser.fail (.unexpectedToken (count - left.length) "COLLECTION or EDGE" (.peeked other))

/-! ### Writes -/

/-- INTO, the fields, VALUES and the values. -/
def parseRow : TokenParser (String × List String × List Literal) := do
  let collection ← expectIdent
  let fields ← inParens (commaList expectIdent)
  expect .values
  let values ← inParens (commaList parseLiteral)
  pure (collection, fields, values)

def parseUpsertEntity : TokenParser (Statement U D) := do
  expect .into
  let (collection, fields, values) ← parseRow
  let vectors ← parseNamedVectors asU32
  expect .semicolon
  pure (.upsert { collection, fields, values, vectors })

/-- COLLOCATE WITH and AFFINITY GROUP exclude each other. -/
def parseColocation : TokenParser (Option (List String) × Option String) := do
  match ← peek with
  | some .collocate =>
    advance
    expect .with_
    let ids ← inParens (commaList expectStringLit)
    pure (some ids, none)
  | some .affinity =>
    advance
    expect .group
    let name ← expectStringLit
    pure (none, some name)
  | _ => pure (none, none)

def parseInsertEntity : TokenParser (Statement U D) := do
  advance
  let (collection, fields, values) ← parseRow
  let vectors ← parseNamedVectors asU32
  let (collocateWith, affinityGroup) ← parseColocation
  let (validFrom, validTo) ← parseValidity
  expect .semicolon
  pure (.insert
    { collection, fields, values, vectors, collocateWith, affinityGroup, validFrom, validTo })

def parseInsertEdge : TokenParser (Statement U D) := do
  advance
  let edgeType ← expectIdent
  expect .from_
  let fromId ← expectStringLit
  expect .to_
  let toId ← expectStringLit
  let metadata ← given .with_ parseKvList
  let (validFrom, validTo) ← parseValidity
  expect .semicolon
  pure (.insertEdge { edgeType, fromId, toId, metadata := metadata.getD [], validFrom, validTo })

def parseInsert : TokenParser (Statement U D) := do
  advance
  match ← peek with
  | some .or =>
    advance
    expect .update
    parseUpsertEntity asU32
  | some .into => parseInsertEntity asU32
  | some .edge => parseInsertEdge
  | _ => refuse "INTO, EDGE, or OR" "INTO, EDGE, or OR"

def parseAssignment : TokenParser (String × Literal) := do
  let field ← expectIdent
  expect .eq
  match ← Parser.peek with
  | some (.null, pos) =>
    Parser.fail (.unexpectedToken pos "value (NULL not supported in UPDATE)" "NULL")
  | _ =>
    let value ← parseLiteral
    pure (field, value)

def parseUpdate : TokenParser (Statement U D) := do
  advance
  let entityId ← expectStringLit
  expect .in_
  let collection ← expectIdent
  expect .set
  let assignments ← commaList parseAssignment
  expect .semicolon
  pure (.update { entityId, collection, assignments })

def parseDeleteEdge : TokenParser (Statement U D) := do
  advance
  let edgeType ← expectIdent
  expect .from_
  let fromId ← expectStringLit
  expect .to_
  let toId ← expectStringLit
  expect .semicolon
  pure (.deleteEdge { edgeType, fromId, toId })

def parseDeleteEntity : TokenParser (Statement U D) := do
  let entityId ← expectStringLit
  expect .from_
  let collection ← expectIdent
  expect .semicolon
  pure (.delete entityId collection)

def parseDelete : TokenParser (Statement U D) := do
  advance
  if (← peek) = some .edge then parseDeleteEdge else parseDeleteEntity

def parseTargetTier : TokenParser Proto.TierTarget := do
  match ← peek with
  | some .warm =>
    advance
    pure .warm
  | some .archive =>
    advance
    pure .archive
  | _ => Parser.fail (.invalidSyntax "expected WARM or ARCHIVE")

def parseDemote : TokenParser (Statement U D) := do
  advance
  let entityId ← expectStringLit
  expect .from_
  let collection ← expectIdent
  expect .to_
  let targetTier ← parseTargetTier
  expect .semicolon
  pure (.demote entityId collection targetTier)

def parsePromote : TokenParser (Statement U D) := do
  advance
  let entityId ← expectStringLit
  expect .from_
  let collection ← expectIdent
  expect .semicolon
  pure (.promote entityId collection)

def parseConfirmEdge : TokenParser (Statement U D) := do
  advance
  expect .edge
  expect .from_
  let fromId ← expectStringLit
  expect .to_
  let toId ← expectStringLit
  expect .type
  let edgeType ← expectIdent
  expect .confidence
  let confidence ← expectFloatOrInt
  expect .semicolon
  pure (.confirmEdge { fromId, toId, edgeType, confidence := confidence.toF32 })

/-! ### Queries -/

/-- AS without OF is left for an alias. -/
def parseTemporalClause : TokenParser (Option (TemporalClause U)) := do
  if ← followed (fun t => t = .as_) .of then
    advance
    advance
    if (← peek) = some .transaction then
      advance
      let lsn ← asU64 <$> expectInt
      pure (some (.asOfTransaction lsn))
    else
      let timestamp ← expectStringLit
      pure (some (.asOf timestamp))
  else if (← peek) = some .valid then
    advance
    if (← peek) = some .during then
      advance
      let rangeStart ← expectStringLit
      expect .dotDot
      let rangeEnd ← expectStringLit
      pure (some (.validDuring rangeStart rangeEnd))
    else Parser.fail (.invalidQuery "expected DURING after VALID in temporal clause")
  else pure none

/-- `-[e:TYPE]->` or `-[e:TYPE]-`. -/
def parseEdgePattern : TokenParser Proto.EdgePattern := do
  expect .dash
  expect .lBracket
  let (variableName, edgeType) ← do
    match ← peek with
    | some (.ident _) =>
      let ident ← expectIdent
      let edgeType ← given .colon expectIdent
      pure (some ident, edgeType)
    | _ => pure (none, none)
  expect .rBracket
  match ← peek with
  | some .arrow =>
    advance
    pure { variableName, edgeType, direction := .forward }
  | some .dash =>
    advance
    pure { variableName, edgeType, direction := .undirected }
  | _ => Parser.fail (.invalidQuery "expected -> or - after edge pattern")

def parseTraverseMatchInner : TokenParser (TraverseMatchStmt U) := do
  expect .from_
  let fromId ← expectStringLit
  expect .match_
  let sourceVar ← inParens expectIdent
  let edge ← parseEdgePattern
  let targetVar ← inParens expectIdent
  expect .depth
  let minDepth ← asU64 <$> expectInt
  expect .dotDot
  let maxDepth ← asU64 <$> expectInt
  let confidenceThreshold ← given .confidence parseThreshold
  let temporal ← parseTemporalClause asU64
  let limit ← parseLimit asU64
  pure { fromId, pattern := { sourceVar, edge, targetVar }, minDepth, maxDepth,
         confidenceThreshold, temporal, limit }

def parseTraverseMatch : TokenParser (Statement U D) := do
  let stmt ← parseTraverseMatchInner asU64
  expect .semicolon
  pure (.traverseMatch stmt)

/-- The default depth is 1. -/
def parseDepth : TokenParser U :=
  (fun depth => depth.getD (asU64 1)) <$> given .depth (asU64 <$> expectInt)

def parseTraverse : TokenParser (Statement U D) := do
  advance
  if (← peek) = some .from_ then parseTraverseMatch asU64
  else
    let edgeType ← expectIdent
    expect .from_
    let fromId ← expectStringLit
    let depth ← parseDepth asU64
    let limit ← parseLimit asU64
    expect .semicolon
    pure (.traverse { edgeType, fromId, depth, limit })

def parseFetchJoin (hints : List QueryHint) (fields : JoinFieldList) (fromCollection : String) :
    TokenParser (Statement U D) := do
  expect .as_
  let fromAlias ← expectIdent
  let joins ← Parser.loop nextJoin []
  if joins = [] then Parser.fail (.invalidQuery "expected at least one JOIN clause")
  else
    let filter ← parseFilter
    let orderBy ← parseOptionalOrderBy
    let limit ← parseLimit asU64
    expect .semicolon
    pure (.fetchJoin { fields, fromCollection, fromAlias, joins, filter, orderBy, limit, hints })

/-- An alias behind a plain list of fields, which has to be a star then. -/
def parseAliased (hints : List QueryHint) (fields : FieldList) (collection : String) :
    TokenParser (Statement U D) :=
  match fields with
  | .all => parseFetchJoin asU64 hints .all collection
  | .named _ => Parser.fail (.invalidQuery "JOIN fields must be qualified (alias.field)")

/-- A field with a dot behind it, or AS behind a star and a collection, begins a join. -/
def parseFetch : TokenParser (Statement U D) := do
  advance
  let hints ← parseHints
  if ← followed isIdent .dot then
    let fields ← parseJoinFieldList
    expect .from_
    let collection ← expectIdent
    parseFetchJoin asU64 hints fields collection
  else
    let fields ← parseFieldList
    expect .from_
    let collection ← expectIdent
    let temporal ← parseTemporalClause asU64
    if temporal.isNone ∧ (← peek) = some .as_ then
      parseAliased asU64 hints fields collection
    else
      let filter ← parseFilter
      let orderBy ← parseOptionalOrderBy
      let limit ← parseLimit asU64
      expect .semicolon
      pure (.fetch { collection, fields, filter, temporal, orderBy, limit, hints })

structure Near (D : Type) where
  denseVector : Option (List F64)
  sparseVector : Option (List (D × F32))
  queryText : Option String

def parseNear (near : Near D) : TokenParser (Near D) := do
  match ← peek with
  | some .vector =>
    advance
    (fun v => { near with denseVector := some v }) <$> parseFloatList
  | some .sparse =>
    advance
    (fun v => { near with sparseVector := some v }) <$> parseSparseVectorList asU32
  | some (.stringLit s) =>
    advance
    pure { near with queryText := some s }
  | _ => refuse "VECTOR, SPARSE, or string literal" "VECTOR, SPARSE, or string literal"

def nextNear (t : Token × Nat) (near : Near D) : Option (TokenParser (Near D)) :=
  if t.1 = .near then some (parseNear asU32 near) else none

/-- The traversal of a WITHIN clause, behind the first word. -/
def parseWithin : TokenParser (TraverseMatchStmt U) := do
  expect .lParen
  expect .traverse
  let stmt ← parseTraverseMatchInner asU64
  expect .rParen
  pure stmt

def parseSearch : TokenParser (Statement U D) := do
  advance
  let hints ← parseHints
  let collection ← expectIdent
  let filter ← parseFilter
  let near ← Parser.loop (nextNear asU32) ⟨none, none, none⟩
  let usingRepr ← given .using_ expectIdent
  if near.denseVector.isNone ∧ near.sparseVector.isNone ∧ near.queryText.isNone then
    Parser.fail (.invalidSyntax
      "SEARCH requires at least one NEAR VECTOR, NEAR SPARSE, or NEAR 'text query' clause")
  else
    let confidence ← given .confidence parseThreshold
    let within ← given .within (parseWithin asU64)
    let limit ← parseLimit asU64
    expect .semicolon
    pure (.search
      { collection, fields := .all, denseVector := near.denseVector,
        sparseVector := near.sparseVector, filter, confidence, limit,
        queryText := near.queryText, usingRepr, hints, within })

def parseInfer : TokenParser (Statement U D) := do
  advance
  expect .edges
  expect .from_
  let fromId ← expectStringLit
  let edgeTypes ← given .via (commaList expectIdent)
  expect .returning
  let limit ← do
    if (← peek) = some .top then
      advance
      some <$> (asU64 <$> expectInt)
    else
      expect .all
      pure none
  let confidenceFloor ← given .confidence (F64.toF32 <$> parseThreshold)
  expect .semicolon
  pure (.infer { fromId, edgeTypes := edgeTypes.getD [], limit, confidenceFloor })

/-- EXPLAIN TIERS and EXPLAIN HISTORY, behind the first word; otherwise another statement is
explained. -/
def parseExplain : TokenParser (Option (Statement U D)) := do
  match ← peek with
  | some .tiers =>
    advance
    let collection ← expectIdent
    expect .semicolon
    pure (some (.explainTiers collection))
  | some .history =>
    advance
    let entityId ← expectStringLit
    let limit ← parseLimit asU64
    expect .semicolon
    pure (some (.explainHistory { entityId, limit }))
  | _ => pure none

/-! ### Statements -/

/-- Any statement but EXPLAIN. -/
def parseUnexplained (count : Nat) : TokenParser (Statement U D) := do
  match ← peek with
  | some .create => parseCreate asU64
  | some .insert => parseInsert asU32
  | some .fetch => parseFetch asU64
  | some .search => parseSearch asU64 asU32
  | some .demote => parseDemote
  | some .promote => parsePromote
  | some .alter => parseAlter asU64
  | some .update => parseUpdate
  | some .delete => parseDelete
  | some .traverse => parseTraverse asU64
  | some .confirm => parseConfirmEdge
  | some .infer => parseInfer asU64
  | some .drop => parseDrop count
  | some .checkpoint =>
    advance
    expect .semicolon
    pure .checkpoint
  | some .backup =>
    advance
    expect .to_
    let path ← expectStringLit
    expect .semicolon
    pure (.backup path)
  | some .restore =>
    advance
    expect .from_
    let path ← expectStringLit
    expect .semicolon
    pure (.restore path)
  | some .import_ =>
    advance
    expect .into
    let collection ← expectIdent
    expect .from_
    let path ← expectStringLit
    expect .semicolon
    pure (.importInto collection path)
  | _ => refuse "statement keyword" "statement"

def parseStatement (count : Nat) : TokenParser (Statement U D) :=
  Parser.nest (fun t => if t.1 = .explain then some (parseExplain asU64) else none) .explain
    (parseUnexplained asU64 asU32 count)

/-- Nothing may stand behind the statement. -/
def parseTokens (tokens : List (Token × Nat)) : Except ParseError (Statement U D) :=
  match (parseStatement asU64 asU32 tokens.length).run tokens with
  | .ok (stmt, []) => .ok stmt
  | .ok (_, (tok, pos) :: _) => .error (.unexpectedToken pos "end of input" (.token tok))
  | .error e => .error e

/-- A literal that cannot be converted panics. -/
inductive ParseFailure where
  | error (e : ParseError)
  | panic
  deriving DecidableEq, Repr

def LexFailure.toParse : LexFailure → ParseFailure
  | .lexerError pos => .error (.lexerError pos)
  | .panic => .panic

def parseWith (input : String) : Except ParseFailure (Statement U D) :=
  match lexer input with
  | .ok tokens => (parseTokens asU64 asU32 tokens).mapError .error
  | .error failure => .error failure.toParse

end Counts

/-- `as` keeps the bits it has room for. -/
def castU64 (n : Int64) : UInt64 := n.toUInt64

def castU32 (n : Int64) : UInt32 := n.toUInt64.toUInt32

def parse (input : String) : Except ParseFailure (Statement UInt64 UInt32) :=
  parseWith castU64 castU32 input

end TronDB.Tql
