import TronDB.Tql.Parser

/-! The parser does the same whatever becomes of the literals at the counts. -/
namespace TronDB.Tql
open TronDB.Core TronDB.Engine TronDB.Proto Binary Parsing

attribute [local simp] Statement.map

section Tokens
variable {α β : Type} (f : α → β)

@[simp] theorem map_ite (c : Prop) [Decidable c] (p q : TokenParser α) :
    f <$> (if c then p else q) = if c then f <$> p else f <$> q := apply_ite (f <$> ·) c p q

@[simp] theorem map_refuse (expected eof : String) :
    f <$> (refuse expected eof : TokenParser α) = refuse expected eof := by
  unfold refuse
  rw [map_bind]
  congr 1
  funext next
  cases next <;> rfl

theorem given_map (t : Token) (p : TokenParser α) :
    given t (f <$> p) = Option.map f <$> given t p := by
  simp [given]

end Tokens

def Near.map {D D' : Type} (g : D → D') (near : Near D) : Near D' :=
  { near with sparseVector := near.sparseVector.map (mapDims g) }

section Casting
variable {U U' D D' : Type} (f : U → U') (g : D → D') (asU64 : Int64 → U) (asU32 : Int64 → D)

theorem parseLimit_map : parseLimit (f ∘ asU64) = Option.map f <$> parseLimit asU64 := by
  rw [parseLimit, comp_map, given_map]
  rfl

/-! ### Vectors -/

theorem parseSparseEntry_map :
    parseSparseEntry (g ∘ asU32) = Prod.map g id <$> parseSparseEntry asU32 := by
  simp [parseSparseEntry]

theorem parseSparseEntries_map (entries : List (D × F32)) :
    parseSparseEntries (g ∘ asU32) (mapDims g entries) =
      mapDims g <$> parseSparseEntries asU32 entries := by
  simp [parseSparseEntries, parseSparseEntry_map, mapDims]

theorem nextSparseEntry_map (t : Token × Nat) (entries : List (D × F32)) :
    nextSparseEntry (g ∘ asU32) t (mapDims g entries) =
      (nextSparseEntry asU32 t entries).map (mapDims g <$> ·) := by
  unfold nextSparseEntry
  split <;> simp [parseSparseEntries_map]

theorem parseSparseVectorList_map :
    parseSparseVectorList (g ∘ asU32) = mapDims g <$> parseSparseVectorList asU32 := by
  have first := parseSparseEntries_map g asU32 []
  have loops := Parser.loop_map (mapDims g) (nextSparseEntry_map g asU32)
  rw [mapDims, List.map_nil] at first
  simp [parseSparseVectorList, first, loops]

theorem parseNamedVector_map :
    parseNamedVector (g ∘ asU32) = Prod.map id (VectorLiteral.map g) <$> parseNamedVector asU32 := by
  simp only [parseNamedVector, map_bind]
  refine bind_congr fun reprName => bind_congr fun next => ?_
  split <;> simp [parseSparseVectorList_map, VectorLiteral.map]

theorem parseNamedVectors_map :
    parseNamedVectors (g ∘ asU32) = mapVectors g <$> parseNamedVectors asU32 := by
  rw [parseNamedVectors, parseNamedVector_map]
  exact Parser.repeated_map _ _ _ []

/-! ### Schemas -/

theorem parseRepresentationDecl_map :
    parseRepresentationDecl (f ∘ asU64) = RepresentationDecl.map f <$> parseRepresentationDecl asU64 := by
  rw [parseRepresentationDecl, parseRepresentationDecl, map_bind]
  refine bind_congr fun name => ?_
  apply Parser.loop_map (RepresentationDecl.map f) _ ⟨name, none, none, .cosine, false, []⟩
  intro t decl
  split <;> simp [RepresentationDecl.map]

theorem parseDeclaration_map (t : Token × Nat) (s : CreateCollectionStmt U) :
    parseDeclaration (f ∘ asU64) t (s.map f) =
      (parseDeclaration asU64 t s).map (CreateCollectionStmt.map f <$> ·) := by
  unfold parseDeclaration
  split <;> simp [parseRepresentationDecl_map, CreateCollectionStmt.map]

theorem parseCreateCollection_map :
    parseCreateCollection (f ∘ asU64) =
      Statement.map f g <$> (parseCreateCollection asU64 : TokenParser (Statement U D)) := by
  have loops (name : String) (config : Option VectoriserConfig) :
      Parser.loop (parseDeclaration (f ∘ asU64)) ⟨name, [], [], [], config⟩ =
        CreateCollectionStmt.map f <$>
          Parser.loop (parseDeclaration asU64) ⟨name, [], [], [], config⟩ :=
    Parser.loop_map (CreateCollectionStmt.map f) (parseDeclaration_map f asU64)
      ⟨name, [], [], [], config⟩
  simp [parseCreateCollection, loops, Statement.map]

theorem parseInferAuto_map :
    parseInferAuto (f ∘ asU64) = InferenceConfigDecl.map f <$> parseInferAuto asU64 := by
  rw [parseInferAuto, parseInferAuto, map_bind]
  refine bind_congr fun _ => ?_
  apply Parser.loop_map (InferenceConfigDecl.map f) _ ⟨true, none, none⟩
  intro t config
  split <;> simp [InferenceConfigDecl.map]

theorem parseCreateEdge_map :
    parseCreateEdge (f ∘ asU64) =
      Statement.map f g <$> (parseCreateEdge asU64 : TokenParser (Statement U D)) := by
  simp [parseCreateEdge, parseInferAuto_map, given_map, Statement.map, CreateEdgeTypeStmt.map]

theorem parseCreate_map :
    parseCreate (f ∘ asU64) =
      Statement.map f g <$> (parseCreate asU64 : TokenParser (Statement U D)) := by
  simp only [parseCreate, map_bind, parseCreateCollection_map f g, parseCreateEdge_map f g]
  refine bind_congr fun _ => bind_congr fun next => ?_
  split <;> simp [Statement.map]

theorem parseAddRepresentation_map :
    parseAddRepresentation (f ∘ asU64) = AlterCollectionOp.map f <$> parseAddRepresentation asU64 := by
  simp [parseAddRepresentation, given_map, AlterCollectionOp.map, Function.comp_def]

theorem parseAlterRepresentation_map :
    parseAlterRepresentation = AlterCollectionOp.map f <$> parseAlterRepresentation := by
  simp only [parseAlterRepresentation, map_bind]
  refine bind_congr fun _ => bind_congr fun reprName => bind_congr fun _ => bind_congr fun next => ?_
  split <;> simp [AlterCollectionOp.map]

theorem parseAlterOperation_map :
    parseAlterOperation (f ∘ asU64) = AlterCollectionOp.map f <$> parseAlterOperation asU64 := by
  rw [parseAlterOperation, parseAlterOperation, map_bind]
  refine bind_congr fun next => ?_
  split <;> simp [parseAddRepresentation_map, AlterCollectionOp.map, ← parseAlterRepresentation_map f]

theorem parseAlter_map :
    parseAlter (f ∘ asU64) =
      Statement.map f g <$> (parseAlter asU64 : TokenParser (Statement U D)) := by
  simp only [parseAlter, map_bind]
  refine bind_congr fun _ => bind_congr fun next => ?_
  split <;> simp [parseAlterOperation_map, Statement.map]

theorem parseDrop_map (count : Nat) :
    parseDrop count = Statement.map f g <$> (parseDrop count : TokenParser (Statement U D)) := by
  simp only [parseDrop, map_bind]
  refine bind_congr fun _ => bind_congr fun next => ?_
  split <;> simp [Statement.map]

/-! ### Writes -/

theorem parseUpsertEntity_map :
    parseUpsertEntity (g ∘ asU32) =
      Statement.map f g <$> (parseUpsertEntity asU32 : TokenParser (Statement U D)) := by
  simp [parseUpsertEntity, parseNamedVectors_map, Statement.map, UpsertStmt.map]

theorem parseInsertEntity_map :
    parseInsertEntity (g ∘ asU32) =
      Statement.map f g <$> (parseInsertEntity asU32 : TokenParser (Statement U D)) := by
  simp [parseInsertEntity, parseNamedVectors_map, Statement.map, InsertStmt.map]

theorem parseInsertEdge_map :
    parseInsertEdge = Statement.map f g <$> (parseInsertEdge : TokenParser (Statement U D)) := by
  simp [parseInsertEdge, Statement.map]

theorem parseInsert_map :
    parseInsert (g ∘ asU32) =
      Statement.map f g <$> (parseInsert asU32 : TokenParser (Statement U D)) := by
  simp only [parseInsert, map_bind, parseUpsertEntity_map f g, parseInsertEntity_map f g,
    parseInsertEdge_map f g]
  refine bind_congr fun _ => bind_congr fun next => ?_
  split <;> simp

theorem parseUpdate_map :
    parseUpdate = Statement.map f g <$> (parseUpdate : TokenParser (Statement U D)) := by
  simp [parseUpdate, Statement.map]

theorem parseDelete_map :
    parseDelete = Statement.map f g <$> (parseDelete : TokenParser (Statement U D)) := by
  simp [parseDelete, parseDeleteEdge, parseDeleteEntity, Statement.map]

theorem parseDemote_map :
    parseDemote = Statement.map f g <$> (parseDemote : TokenParser (Statement U D)) := by
  simp [parseDemote, Statement.map]

theorem parsePromote_map :
    parsePromote = Statement.map f g <$> (parsePromote : TokenParser (Statement U D)) := by
  simp [parsePromote, Statement.map]

theorem parseConfirmEdge_map :
    parseConfirmEdge = Statement.map f g <$> (parseConfirmEdge : TokenParser (Statement U D)) := by
  simp [parseConfirmEdge, Statement.map]

/-! ### Queries -/

theorem parseTemporalClause_map :
    parseTemporalClause (f ∘ asU64) =
      Option.map (TemporalClause.map f) <$> parseTemporalClause asU64 := by
  simp [parseTemporalClause, TemporalClause.map]

theorem parseTraverseMatchInner_map :
    parseTraverseMatchInner (f ∘ asU64) =
      TraverseMatchStmt.map f <$> parseTraverseMatchInner asU64 := by
  simp [parseTraverseMatchInner, parseTemporalClause_map, parseLimit_map, TraverseMatchStmt.map]

theorem parseDepth_map : parseDepth (f ∘ asU64) = f <$> parseDepth asU64 := by
  simp [parseDepth, given_map, Function.comp_def]

theorem parseTraverse_map :
    parseTraverse (f ∘ asU64) =
      Statement.map f g <$> (parseTraverse asU64 : TokenParser (Statement U D)) := by
  simp [parseTraverse, parseTraverseMatch, parseTraverseMatchInner_map, parseDepth_map, parseLimit_map,
    Statement.map, TraverseStmt.map]

theorem parseFetchJoin_map (hints : List QueryHint) (fields : JoinFieldList) (collection : String) :
    parseFetchJoin (f ∘ asU64) hints fields collection =
      Statement.map f g <$>
        (parseFetchJoin asU64 hints fields collection : TokenParser (Statement U D)) := by
  simp [parseFetchJoin, parseLimit_map, Statement.map, FetchJoinStmt.map]

theorem parseAliased_map (hints : List QueryHint) (fields : FieldList) (collection : String) :
    parseAliased (f ∘ asU64) hints fields collection =
      Statement.map f g <$>
        (parseAliased asU64 hints fields collection : TokenParser (Statement U D)) := by
  cases fields with
  | all => exact parseFetchJoin_map f g asU64 hints .all collection
  | named names => rfl

theorem parseFetch_map :
    parseFetch (f ∘ asU64) =
      Statement.map f g <$> (parseFetch asU64 : TokenParser (Statement U D)) := by
  simp [parseFetch, parseFetchJoin_map f g, parseAliased_map f g, parseTemporalClause_map, parseLimit_map, Statement.map,
    FetchStmt.map]

theorem parseNear_map (near : Near D) :
    parseNear (g ∘ asU32) (near.map g) = Near.map g <$> parseNear asU32 near := by
  rw [parseNear, parseNear, map_bind]
  refine bind_congr fun next => ?_
  split <;> simp [parseSparseVectorList_map, Near.map]

theorem nextNear_map (t : Token × Nat) (near : Near D) :
    nextNear (g ∘ asU32) t (near.map g) = (nextNear asU32 t near).map (Near.map g <$> ·) := by
  unfold nextNear
  split <;> simp [parseNear_map]

theorem parseWithin_map :
    parseWithin (f ∘ asU64) = TraverseMatchStmt.map f <$> parseWithin asU64 := by
  simp [parseWithin, parseTraverseMatchInner_map]

theorem parseSearch_map :
    parseSearch (f ∘ asU64) (g ∘ asU32) = Statement.map f g <$> parseSearch asU64 asU32 := by
  have loops : Parser.loop (nextNear (g ∘ asU32)) ⟨none, none, none⟩ =
      Near.map g <$> Parser.loop (nextNear asU32) ⟨none, none, none⟩ :=
    Parser.loop_map (Near.map g) (nextNear_map g asU32) ⟨none, none, none⟩
  simp [parseSearch, loops, parseWithin_map, parseLimit_map,
    given_map, Statement.map, SearchStmt.map, Near.map]

theorem parseInfer_map :
    parseInfer (f ∘ asU64) =
      Statement.map f g <$> (parseInfer asU64 : TokenParser (Statement U D)) := by
  simp [parseInfer, Statement.map, InferStmt.map]

theorem parseExplain_map :
    parseExplain (f ∘ asU64) =
      Option.map (Statement.map f g) <$>
        (parseExplain asU64 : TokenParser (Option (Statement U D))) := by
  rw [parseExplain, parseExplain, map_bind]
  refine bind_congr fun next => ?_
  split <;> simp [parseLimit_map, Statement.map, ExplainHistoryStmt.map]

theorem parseUnexplained_map (count : Nat) :
    parseUnexplained (f ∘ asU64) (g ∘ asU32) count =
      Statement.map f g <$> parseUnexplained asU64 asU32 count := by
  rw [parseUnexplained, parseUnexplained, map_bind]
  refine bind_congr fun next => ?_
  split
  · exact parseCreate_map f g asU64
  · exact parseInsert_map f g asU32
  · exact parseFetch_map f g asU64
  · exact parseSearch_map f g asU64 asU32
  · exact parseDemote_map f g
  · exact parsePromote_map f g
  · exact parseAlter_map f g asU64
  · exact parseUpdate_map f g
  · exact parseDelete_map f g
  · exact parseTraverse_map f g asU64
  · exact parseConfirmEdge_map f g
  · exact parseInfer_map f g asU64
  · exact parseDrop_map f g count
  all_goals simp [Statement.map]

theorem parseStatement_map (count : Nat) :
    parseStatement (f ∘ asU64) (g ∘ asU32) count =
      Statement.map f g <$> parseStatement asU64 asU32 count := by
  rw [parseStatement, parseUnexplained_map]
  apply Parser.nest_map
  · intro t
    split <;> simp [parseExplain_map f g]
  · exact fun _ => rfl

theorem parseTokens_map (tokens : List (Token × Nat)) :
    parseTokens (f ∘ asU64) (g ∘ asU32) tokens =
      (parseTokens asU64 asU32 tokens).map (Statement.map f g) := by
  rw [parseTokens, parseTokens, parseStatement_map, Parser.run_map]
  cases (parseStatement asU64 asU32 tokens.length).run tokens with
  | error e => rfl
  | ok out =>
    obtain ⟨stmt, rest⟩ := out
    cases rest <;> rfl

theorem parseWith_map (input : String) :
    parseWith (f ∘ asU64) (g ∘ asU32) input =
      (parseWith asU64 asU32 input).map (Statement.map f g) := by
  unfold parseWith
  cases lexer input with
  | error failure => rfl
  | ok tokens =>
    dsimp only
    rw [parseTokens_map]
    cases parseTokens asU64 asU32 tokens <;> rfl

end Casting
end TronDB.Tql
