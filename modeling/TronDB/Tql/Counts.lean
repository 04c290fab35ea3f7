import TronDB.Engine.SearchWhere
import TronDB.Tql.Casting
import TronDB.Tql.Comments

/-! Whether the counts of a statement, and what is derived from them, are the numbers written. -/
namespace TronDB.Tql
open TronDB.Core TronDB.Engine TronDB.Proto Binary

/-! ### Two statements with the same counts -/

section Same
variable {U U' U'' D D' D'' : Type}

section Compose
variable (f : U → U') (f' : U' → U'') (g : D → D') (g' : D' → D'')

theorem TemporalClause.map_map (c : TemporalClause U) : (c.map f).map f' = c.map (f' ∘ f) := by
  cases c <;> rfl

theorem TraverseMatchStmt.map_map (s : TraverseMatchStmt U) :
    (s.map f).map f' = s.map (f' ∘ f) := by
  simp [TraverseMatchStmt.map, Function.comp_def, TemporalClause.map_map]

theorem mapDims_mapDims (entries : List (D × F32)) :
    mapDims g' (mapDims g entries) = mapDims (g' ∘ g) entries := by
  simp [mapDims]

theorem mapVectors_mapVectors (vectors : List (String × VectorLiteral D)) :
    mapVectors g' (mapVectors g vectors) = mapVectors (g' ∘ g) vectors := by
  have each (v : VectorLiteral D) : (v.map g).map g' = v.map (g' ∘ g) := by
    cases v with
    | dense v => rfl
    | sparse v => exact congrArg VectorLiteral.sparse (mapDims_mapDims g g' v)
  simp [mapVectors, Function.comp_def, each]

theorem InferenceConfigDecl.map_map (c : InferenceConfigDecl U) :
    (c.map f).map f' = c.map (f' ∘ f) := by
  simp [InferenceConfigDecl.map]

theorem Statement.map_map (s : Statement U D) :
    (s.map f g).map f' g' = s.map (f' ∘ f) (g' ∘ g) := by
  induction s with
  | explain inner ih => exact congrArg Statement.explain ih
  | alterCollection collection operation => cases operation <;> simp [map, AlterCollectionOp.map]
  | _ => simp [map, CreateCollectionStmt.map, RepresentationDecl.map, InsertStmt.map, FetchStmt.map,
      SearchStmt.map, CreateEdgeTypeStmt.map, InferenceConfigDecl.map_map, TraverseStmt.map,
      UpsertStmt.map, InferStmt.map, ExplainHistoryStmt.map, FetchJoinStmt.map,
      TemporalClause.map_map, TraverseMatchStmt.map_map, mapDims_mapDims, mapVectors_mapVectors,
      Function.comp_def]

end Compose

section Congr
variable {f f' : U → U'} {g g' : D → D'}

theorem option_map_eq_iff {α β : Type} {f f' : α → β} {part : Option α} :
    part.map f = part.map f' ↔ ∀ a ∈ part.toList, f a = f' a := by
  cases part <;> simp

theorem TemporalClause.map_eq_iff {c : TemporalClause U} :
    c.map f = c.map f' ↔ ∀ n ∈ c.counts, f n = f' n := by
  cases c <;> simp [map, counts]

theorem countsOf_eq_iff {α β : Type} {h h' : α → β} {counts : α → List U} {part : Option α}
    (each : ∀ a, h a = h' a ↔ ∀ n ∈ counts a, f n = f' n) :
    part.map h = part.map h' ↔ ∀ n ∈ countsOf counts part, f n = f' n := by
  cases part <;> simp [countsOf, each]

theorem temporal_eq_iff {part : Option (TemporalClause U)} :
    part.map (TemporalClause.map f) = part.map (TemporalClause.map f') ↔
      ∀ n ∈ countsOf TemporalClause.counts part, f n = f' n :=
  countsOf_eq_iff fun _ => TemporalClause.map_eq_iff

theorem TraverseMatchStmt.map_eq_iff {s : TraverseMatchStmt U} :
    s.map f = s.map f' ↔ ∀ n ∈ s.counts, f n = f' n := by
  simp only [map, mk.injEq, temporal_eq_iff]
  simp [counts, option_map_eq_iff, or_imp, forall_and]

theorem within_eq_iff {part : Option (TraverseMatchStmt U)} :
    part.map (TraverseMatchStmt.map f) = part.map (TraverseMatchStmt.map f') ↔
      ∀ n ∈ countsOf TraverseMatchStmt.counts part, f n = f' n :=
  countsOf_eq_iff fun _ => TraverseMatchStmt.map_eq_iff

theorem inference_eq_iff {part : Option (InferenceConfigDecl U)} :
    part.map (InferenceConfigDecl.map f) = part.map (InferenceConfigDecl.map f') ↔
      ∀ n ∈ countsOf (fun config => config.limit.toList) part, f n = f' n :=
  countsOf_eq_iff fun config => by simp [InferenceConfigDecl.map, option_map_eq_iff]

theorem representations_eq_iff {decls : List (RepresentationDecl U)} :
    decls.map (RepresentationDecl.map f) = decls.map (RepresentationDecl.map f') ↔
      ∀ n ∈ decls.flatMap fun d => d.dimensions.toList, f n = f' n := by
  have each (d : RepresentationDecl U) : d.map f = d.map f' ↔ ∀ n ∈ d.dimensions.toList, f n = f' n := by
    simp [RepresentationDecl.map, option_map_eq_iff]
  simp only [List.map_inj_left, each, List.mem_flatMap, forall_exists_index, and_imp]
  exact ⟨fun all n d member => all d member n, fun all d member n => all n d member⟩

theorem mapDims_eq_iff {entries : List (D × F32)} :
    mapDims g entries = mapDims g' entries ↔ ∀ d ∈ Tql.dims entries, g d = g' d := by
  simp [mapDims, Tql.dims, List.map_inj_left]

theorem sparse_eq_iff {part : Option (List (D × F32))} :
    part.map (mapDims g) = part.map (mapDims g') ↔ ∀ d ∈ part.toList.flatMap Tql.dims, g d = g' d := by
  cases part <;> simp [mapDims_eq_iff]

theorem mapVectors_eq_iff {vectors : List (String × VectorLiteral D)} :
    mapVectors g vectors = mapVectors g' vectors ↔ ∀ d ∈ vectorDims vectors, g d = g' d := by
  have each (v : VectorLiteral D) : v.map g = v.map g' ↔ ∀ d ∈ v.dims, g d = g' d := by
    cases v with
    | dense v => simp [VectorLiteral.map, VectorLiteral.dims]
    | sparse v => simp [VectorLiteral.map, VectorLiteral.dims, mapDims_eq_iff]
  simp only [mapVectors, vectorDims, List.map_inj_left, Prod.ext_iff, Prod.map_fst, Prod.map_snd,
    each, true_and, List.mem_flatMap, forall_exists_index, and_imp]
  exact ⟨fun all d v member => all v member d, fun all v member d => all d v member⟩

/-- Two maps agree on a statement when they agree on its counts. -/
theorem Statement.map_eq_iff {s : Statement U D} :
    s.map f g = s.map f' g' ↔ (∀ n ∈ s.counts, f n = f' n) ∧ ∀ d ∈ s.dims, g d = g' d := by
  induction s with
  | explain inner ih => simpa [map, counts, dims] using ih
  | createCollection s =>
    simp only [map, createCollection.injEq, CreateCollectionStmt.map, CreateCollectionStmt.mk.injEq,
      representations_eq_iff]
    simp [counts, dims, CreateCollectionStmt.counts]
  | insert s | upsert s => simp [map, counts, dims, InsertStmt.map, UpsertStmt.map, mapVectors_eq_iff]
  | fetch s =>
    simp only [map, fetch.injEq, FetchStmt.map, FetchStmt.mk.injEq, temporal_eq_iff]
    simp [counts, dims, option_map_eq_iff, or_imp, forall_and]
  | search s =>
    simp only [map, search.injEq, SearchStmt.map, SearchStmt.mk.injEq, within_eq_iff, sparse_eq_iff]
    simp [counts, dims, option_map_eq_iff, or_imp, forall_and]
    tauto
  | createEdgeType s =>
    simp only [map, createEdgeType.injEq, CreateEdgeTypeStmt.map, CreateEdgeTypeStmt.mk.injEq,
      inference_eq_iff]
    simp [counts, dims]
  | traverseMatch s => simp [map, counts, dims, TraverseMatchStmt.map_eq_iff]
  | alterCollection collection operation =>
    cases operation <;>
      simp [map, counts, dims, AlterCollectionOp.map, AlterCollectionOp.counts, option_map_eq_iff]
  | _ => simp [map, counts, dims, TraverseStmt.map, InferStmt.map, ExplainHistoryStmt.map,
      FetchJoinStmt.map, option_map_eq_iff]

end Congr

end Same

/-! ### What plan and execute derive -/

section Derived
variable {U D : Type} [Mul U] [LE U] [DecidableLE U] [∀ n, OfNat U n]

def orDefault (limit : Option U) : U := limit.getD 10

def SearchStmt.k (s : SearchStmt U D) : U := orDefault s.limit

def SearchStmt.firstPassK (s : SearchStmt U D) : Option U :=
  if 50 ≤ s.k then some (s.k * 3) else none

/-- With candidates from an index or a traversal more is fetched. -/
def SearchStmt.fetchK (s : SearchStmt U D) (preFiltered : Bool) : U :=
  if preFiltered then s.k * 4 else s.k

/-- In some database there are candidates: an index answers nothing but an equality. -/
def SearchStmt.mayPreFilter (s : SearchStmt U D) : Bool :=
  s.within.isSome || match s.filter with
    | some (.eq _ _) => QueryHint.noPrefilter ∉ s.hints
    | _ => false

/-- Of INFER, and of the background work an edge type asks for with INFER AUTO. -/
def searchK (limit : Option U) : U := orDefault limit * 4

/-- The quantities in a plan that are not in the statement. -/
def Statement.planned : Statement U D → List U
  | .search s => s.k :: s.firstPassK.toList
  | .createEdgeType s => s.inferenceConfig.toList.map fun config => orDefault config.limit
  | .explain stmt => stmt.planned
  | _ => []

def Statement.executed : Statement U D → List U
  | .search s => s.fetchK false :: if s.mayPreFilter then [s.fetchK true] else []
  | .infer s => [searchK s.limit]
  | .createEdgeType s => s.inferenceConfig.toList.map fun config => searchK config.limit
  | _ => []

end Derived

/-! ### Numbers written and numbers held -/

def literals (input : String) : Except ParseFailure (Statement Int64 Int64) := parseWith id id input

def Statement.written (lits : Statement Int64 Int64) : Statement Int Int :=
  lits.map Int64.toInt Int64.toInt

def value (n : UInt64) : Int := n.toNat

def Statement.held (stmt : Statement UInt64 UInt32) : Statement Int Int :=
  stmt.map value fun d => d.toNat

/-- The counts are the numbers written, and what is derived from them is what mathematics derives
from these. -/
structure AsWritten (lits : Statement Int64 Int64) (stmt : Statement UInt64 UInt32) : Prop where
  counts : stmt.held = lits.written
  planned : stmt.planned.map value = lits.written.planned
  executed : stmt.executed.map value = lits.written.executed

/-- No count is negative, the dimensions of sparse vectors have 32 bits, and the multiples that are
taken have 64. -/
structure InRange (lits : Statement Int64 Int64) : Prop where
  counts : ∀ n ∈ lits.counts, 0 ≤ n
  dims : ∀ d ∈ lits.dims, 0 ≤ d ∧ d.toInt < 2 ^ 32
  planned : ∀ q ∈ lits.written.planned, q < 2 ^ 64
  executed : ∀ q ∈ lits.written.executed, q < 2 ^ 64

theorem castU64_value_iff (n : Int64) : value (castU64 n) = n.toInt ↔ 0 ≤ n := by
  have bits : n.toInt = if 2 * (castU64 n).toNat < 2 ^ 64 then ((castU64 n).toNat : Int)
      else (castU64 n).toNat - 2 ^ 64 := BitVec.toInt_eq_toNat_cond n.toBitVec
  have small := (castU64 n).toNat_lt
  rw [Int64.le_iff_toInt_le, bits, value, Int64.toInt_zero]
  split <;> omega

theorem castU32_value_iff (n : Int64) :
    ((castU32 n).toNat : Int) = n.toInt ↔ 0 ≤ n ∧ n.toInt < 2 ^ 32 := by
  have low : (castU32 n).toNat = (castU64 n).toNat % 2 ^ 32 := UInt64.toNat_toUInt32 _
  have wide := castU64_value_iff n
  have positive : 0 ≤ n ↔ 0 ≤ n.toInt := by rw [Int64.le_iff_toInt_le, Int64.toInt_zero]
  rw [value] at wide
  constructor
  · intro same
    rw [positive]
    omega
  · rintro ⟨nonneg, fits⟩
    have held := wide.mpr nonneg
    omega

theorem held_eq_written_iff (lits : Statement Int64 Int64) :
    (lits.map castU64 castU32).held = lits.written ↔
      (∀ n ∈ lits.counts, 0 ≤ n) ∧ ∀ d ∈ lits.dims, 0 ≤ d ∧ d.toInt < 2 ^ 32 := by
  rw [Statement.held, Statement.map_map, Statement.written, Statement.map_eq_iff]
  simp only [Function.comp_apply, castU64_value_iff, castU32_value_iff]

/-! ### Multiples -/

section Multiples
variable (n : UInt64) (limit : Option UInt64)

theorem value_three_iff : value (n * 3) = value n * 3 ↔ value n * 3 < 2 ^ 64 := by
  have product : (n * 3).toNat = n.toNat * 3 % 2 ^ 64 := UInt64.toNat_mul n 3
  simp only [value]
  omega

theorem value_four_iff : value (n * 4) = value n * 4 ↔ value n * 4 < 2 ^ 64 := by
  have product : (n * 4).toNat = n.toNat * 4 % 2 ^ 64 := UInt64.toNat_mul n 4
  simp only [value]
  omega

theorem value_lt : value n < 2 ^ 64 := by
  have small := n.toNat_lt
  simp only [value]
  omega

theorem value_ge_fifty : 50 ≤ value n ↔ 50 ≤ n := by
  have fifty : (50 : UInt64).toNat = 50 := rfl
  rw [UInt64.le_iff_toNat_le, fifty, value]
  omega

theorem orDefault_value : orDefault (limit.map value) = value (orDefault limit) := by
  cases limit <;> rfl

end Multiples

theorem planned_iff (stmt : Statement UInt64 UInt32) :
    stmt.planned.map value = stmt.held.planned ↔ ∀ q ∈ stmt.held.planned, q < 2 ^ 64 := by
  induction stmt with
  | explain inner ih => exact ih
  | search s =>
    have k : (s.map value fun d => (d.toNat : Int)).k = value s.k := orDefault_value s.limit
    simp only [Statement.held, Statement.map, Statement.planned, SearchStmt.firstPassK, k,
      value_ge_fifty]
    split <;> simp [-Int.reducePow, value_three_iff, value_lt]
  | createEdgeType s =>
    obtain ⟨name, fromCollection, toCollection, decayConfig, config⟩ := s
    cases config <;>
      simp [-Int.reducePow, Statement.held, Statement.map, Statement.planned, CreateEdgeTypeStmt.map,
        InferenceConfigDecl.map, orDefault_value, value_lt]
  | _ => simp [Statement.held, Statement.map, Statement.planned]

theorem executed_iff (stmt : Statement UInt64 UInt32) :
    stmt.executed.map value = stmt.held.executed ↔ ∀ q ∈ stmt.held.executed, q < 2 ^ 64 := by
  cases stmt with
  | search s =>
    have k : (s.map value fun d => (d.toNat : Int)).k = value s.k := orDefault_value s.limit
    have may : (s.map value fun d => (d.toNat : Int)).mayPreFilter = s.mayPreFilter := by
      simp only [SearchStmt.mayPreFilter, SearchStmt.map, Option.isSome_map]
      rfl
    simp only [Statement.held, Statement.map, Statement.executed, SearchStmt.fetchK, k, may,
      if_true, Bool.false_eq_true, if_false]
    cases s.mayPreFilter <;> simp [-Int.reducePow, value_four_iff, value_lt]
  | infer s =>
    simp [Statement.held, Statement.map, Statement.executed, InferStmt.map, searchK, orDefault_value,
      value_four_iff]
  | createEdgeType s =>
    obtain ⟨name, fromCollection, toCollection, decayConfig, config⟩ := s
    cases config <;>
      simp [Statement.held, Statement.map, Statement.executed, CreateEdgeTypeStmt.map,
        InferenceConfigDecl.map, searchK, orDefault_value, value_four_iff]
  | _ => simp [Statement.held, Statement.map, Statement.executed]

theorem asWritten_iff (lits : Statement Int64 Int64) :
    AsWritten lits (lits.map castU64 castU32) ↔ InRange lits := by
  have ranges := held_eq_written_iff lits
  have planned := planned_iff (lits.map castU64 castU32)
  have executed := executed_iff (lits.map castU64 castU32)
  constructor
  · intro law
    rw [law.counts] at planned executed
    have ⟨counts, dims⟩ := ranges.mp law.counts
    exact ⟨counts, dims, planned.mp law.planned, executed.mp law.executed⟩
  · intro fits
    have held := ranges.mpr ⟨fits.counts, fits.dims⟩
    rw [held] at planned executed
    exact ⟨held, planned.mpr fits.planned, executed.mpr fits.executed⟩

theorem parse_eq_literals (input : String) :
    parse input = (literals input).map (Statement.map castU64 castU32) :=
  parseWith_map castU64 castU32 id id input

/-- Whatever is accepted means what is written when every accepted literal is in range, and only
then. -/
theorem counts_as_written_iff (input : String) :
    (∀ stmt, parse input = .ok stmt → ∃ lits, literals input = .ok lits ∧ AsWritten lits stmt) ↔
      ∀ lits, literals input = .ok lits → InRange lits := by
  rw [parse_eq_literals]
  cases literals input with
  | error failure => simp [Except.map]
  | ok lits => simp [Except.map, asWritten_iff]

theorem lexer_negative_limit : lexer "FETCH*FROM c LIMIT-1;" =
    .ok [(.fetch, 0), (.star, 5), (.from_, 6), (.ident "c", 11), (.limit, 13), (.intLit (-1), 18),
      (.semicolon, 20)] := by
  have end_ : lex 20 [';'] = .ok [(.semicolon, 20)] := by decide +kernel
  have number : lex 18 ("-1".toList ++ [';']) = .ok [(.intLit (-1), 18), (.semicolon, 20)] :=
    lex_word (by decide +kernel) (by decide) end_
  have limit : lex 13 ("LIMIT".toList ++ ("-1".toList ++ [';'])) =
      .ok [(.limit, 13), (.intLit (-1), 18), (.semicolon, 20)] :=
    lex_word (by decide +kernel) (by decide) number
  have name : lex 11 ("c".toList ++ ' ' :: ("LIMIT".toList ++ ("-1".toList ++ [';']))) =
      .ok [(.ident "c", 11), (.limit, 13), (.intLit (-1), 18), (.semicolon, 20)] :=
    lex_word (by decide +kernel) (by decide) ((lex_blank rfl 12 _).trans limit)
  have source : lex 6 ("FROM".toList ++ ' ' :: ("c".toList ++ ' ' ::
      ("LIMIT".toList ++ ("-1".toList ++ [';'])))) =
      .ok [(.from_, 6), (.ident "c", 11), (.limit, 13), (.intLit (-1), 18), (.semicolon, 20)] :=
    lex_word (by decide +kernel) (by decide) ((lex_blank rfl 10 _).trans name)
  have fields : lex 5 ("*".toList ++ ("FROM".toList ++ ' ' :: ("c".toList ++ ' ' ::
      ("LIMIT".toList ++ ("-1".toList ++ [';']))))) =
      .ok [(.star, 5), (.from_, 6), (.ident "c", 11), (.limit, 13), (.intLit (-1), 18),
        (.semicolon, 20)] :=
    lex_word (by decide +kernel) (by decide) source
  exact @lex_word "FETCH".toList _ _ _ _ (by decide +kernel) (by decide) fields

/-- A limit of -1 is accepted and held as the greatest number there is. -/
theorem negative_limit_accepted :
    ∃ stmt lits, parse "FETCH*FROM c LIMIT-1;" = .ok stmt ∧
      literals "FETCH*FROM c LIMIT-1;" = .ok lits ∧
        stmt.counts = [18446744073709551615] ∧ lits.counts = [-1] ∧ ¬ AsWritten lits stmt := by
  have read : literals "FETCH*FROM c LIMIT-1;" =
      .ok (.fetch ⟨"c", .all, none, none, [], some (-1), []⟩) := by
    rw [literals, parseWith, lexer_negative_limit]
    rfl
  have cast := parse_eq_literals "FETCH*FROM c LIMIT-1;"
  rw [read] at cast
  refine ⟨_, _, cast, read, rfl, rfl, ?_⟩
  rw [asWritten_iff]
  intro fits
  have positive := fits.counts (-1) (by simp [Statement.counts])
  exact absurd positive (by decide)

/-! ### The plans of the engine -/

/-- The engine's planner multiplies without end; below the bound it derives the same. -/
theorem toPlan_derived {D : Type} (s : SearchStmt UInt64 D) (st : SearchStatement)
    (same : st.limit = s.limit.map UInt64.toNat) (preFilter : Option Engine.PreFilter) :
    (st.toPlan preFilter).k = s.k.toNat ∧
      (s.k.toNat * 3 < 2 ^ 64 →
        (st.toPlan preFilter).twoPass.map Engine.TwoPassConfig.firstPassK =
          s.firstPassK.map UInt64.toNat) ∧
      (s.k.toNat * 4 < 2 ^ 64 → ∀ allowed,
        (st.toPlan preFilter).fetchK allowed = (s.fetchK allowed.isSome).toNat) := by
  have k : st.limit.getD 10 = s.k.toNat := by
    rw [same, SearchStmt.k, orDefault]
    cases s.limit <;> rfl
  refine ⟨k, ?_, ?_⟩
  · intro small
    have product : (s.k * 3).toNat = s.k.toNat * 3 := by
      rw [UInt64.toNat_mul]
      exact Nat.mod_eq_of_lt small
    have fifty : 50 ≤ s.k ↔ 50 ≤ s.k.toNat := UInt64.le_iff_toNat_le
    simp only [SearchStatement.toPlan, SearchStmt.firstPassK, k, fifty]
    split <;> simp [product]
  · intro small allowed
    have product : (s.k * 4).toNat = s.k.toNat * 4 := by
      rw [UInt64.toNat_mul]
      exact Nat.mod_eq_of_lt small
    have plan : (st.toPlan preFilter).k = s.k.toNat := k
    rw [SearchPlan.fetchK, SearchStmt.fetchK, plan]
    split <;> simp [product]

end TronDB.Tql
