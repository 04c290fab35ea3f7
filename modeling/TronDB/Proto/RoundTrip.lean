import TronDB.Lib.Codec
import TronDB.Proto.Convert

/-! Which plans come back from the wire as they were. -/
namespace TronDB.Proto
open TronDB.Core TronDB.Engine Binary
open Message (LiteralValue WhereClauseProto PlanRequest AlterOperation)
open Codec (Survives)

/-! ### What can be sent -/

/-- Comparisons other than `!=`, and what AND and OR make of them. -/
def Sendable : WhereClause → Prop
  | .eq _ _ | .gt _ _ | .lt _ _ | .gte _ _ | .lte _ _ => True
  | .and l r | .or l r => Sendable l ∧ Sendable r
  | _ => False

/-- A budget that is a number, or the NaN the text of a NaN is read as. -/
def HintSendable (text : FloatText) : QueryHint → Prop
  | .maxAcu v => v.isNaN = true → v = text.nan
  | .timeout v => v < 2 ^ 64
  | _ => True

/-- The plan has only what the messages have room for. -/
def Wireable (text : FloatText) : Plan → Prop
  | .createCollection p => (∀ r ∈ p.representations, r.fields = []) ∧
    (∀ idx ∈ p.indexes, ∀ clause ∈ idx.partialCondition, Sendable clause) ∧ p.vectoriserConfig = none
  | .insert p => p.collocateWith ≠ some []
  | .fetch p => (∀ clause ∈ p.filter, Sendable clause) ∧ ∀ h ∈ p.hints, HintSendable text h
  | .search p => (∀ clause ∈ p.filter, Sendable clause) ∧ (∀ pf ∈ p.preFilter, Sendable pf.clause) ∧
    ∀ h ∈ p.hints, HintSendable text h
  | .explain plan => Wireable text plan
  | .createEdgeType p => p.inferenceConfig = none
  | .join p => (∀ clause ∈ p.filter, Sendable clause) ∧ ∀ h ∈ p.hints, HintSendable text h
  | .alterCollection p =>
    match p.operation with
    | .addRepresentation _ dimensions _ _ _ => ∀ d ∈ dimensions, d < 2 ^ 32
    | _ => True
  | _ => True

attribute [local simp] planToProto protoToPlan Wireable

/-! ### Leaf types -/

theorem literal_back (lit : Literal) : protoToLiteral (literalToProto lit) = .ok lit := by
  cases lit <;> rfl

theorem extractCmp_makeCmp (field : String) (lit : Literal) :
    extractCmp (makeCmp field lit) = .ok (field, lit) := by
  cases lit <;> rfl

theorem where_back {clause : WhereClause} {message : WhereClauseProto}
    (sent : whereClauseToProto clause = .ok message) : protoToWhereClause message = .ok clause := by
  induction clause generalizing message with
  | eq f v | gt f v | lt f v | gte f v | lte f v =>
    cases sent
    rw [protoToWhereClause, extractCmp_makeCmp]
    rfl
  | and l r left right | or l r left right =>
    rw [whereClauseToProto] at sent
    cases first : whereClauseToProto l with
    | error e =>
      rw [first] at sent
      cases sent
    | ok lm =>
      cases second : whereClauseToProto r with
      | error e =>
        rw [first, second] at sent
        cases sent
      | ok rm =>
        rw [first, second] at sent
        cases sent
        rw [protoToWhereClause, left first, right second]
        rfl
  | _ => cases sent

theorem where_sent_iff (clause : WhereClause) :
    (∃ message, whereClauseToProto clause = .ok message) ↔ Sendable clause := by
  induction clause with
  | eq f v | gt f v | lt f v | gte f v | lte f v => exact iff_of_true ⟨_, rfl⟩ trivial
  | and l r left right | or l r left right =>
    rw [Sendable, ← left, ← right, whereClauseToProto]
    cases whereClauseToProto l with
    | error e => exact iff_of_false (fun ⟨_, none_⟩ => nomatch none_) fun ⟨⟨_, none_⟩, _⟩ => nomatch none_
    | ok lm =>
      cases whereClauseToProto r with
      | error e => exact iff_of_false (fun ⟨_, none_⟩ => nomatch none_) fun ⟨_, _, none_⟩ => nomatch none_
      | ok rm => exact iff_of_true ⟨_, rfl⟩ ⟨⟨lm, rfl⟩, rm, rfl⟩
  | _ => exact iff_of_false (fun ⟨_, none_⟩ => nomatch none_) (by simp [Sendable])

theorem where_survives_iff (clause : WhereClause) :
    Survives whereClauseToProto protoToWhereClause clause ↔ Sendable clause := by
  rw [Codec.survives_iff, ← where_sent_iff]
  exact exists_congr fun message => and_iff_left_of_imp where_back

theorem fieldList_back (fl : FieldList) : protoToFieldList (fieldListToProto fl) = fl := by
  cases fl <;> rfl

theorem sparseEntries_back (entries : List (UInt32 × F32)) :
    (entries.map sparseEntryToProto).map (fun e => (e.index, e.value)) = entries := by
  rw [List.map_map]
  exact List.map_id entries

theorem vectorLiteral_back (vl : VectorLiteral) :
    protoToVectorLiteral (vectorLiteralToProto vl) = .ok vl := by
  cases vl with
  | dense v => rfl
  | sparse entries =>
    have entries_ := sparseEntries_back entries
    exact congrArg (fun entries => Except.ok (VectorLiteral.sparse entries)) entries_

theorem namedVector_back (nv : String × VectorLiteral) :
    protoToNamedVector (namedVectorToProto nv) = .ok nv := by
  have vector := vectorLiteral_back nv.2
  unfold protoToNamedVector namedVectorToProto required
  dsimp only [bind, Except.bind]
  rw [vector]

theorem assignment_back (message : String) (fv : String × Literal) :
    protoToAssignment message (assignmentToProto fv) = .ok fv := by
  have value := literal_back fv.2
  unfold protoToAssignment assignmentToProto required
  dsimp only [bind, Except.bind]
  rw [value]

theorem temporalClause_back (tc : TemporalClause) :
    protoToTemporalClause (temporalClauseToProto tc) = .ok tc := by
  cases tc <;> rfl

theorem fetchStrategy_back (fs : FetchStrategy) :
    protoToFetchStrategy (fetchStrategyToProto fs).1 (fetchStrategyToProto fs).2 = fs := by
  cases fs <;> rfl

theorem searchStrategy_back (ss : SearchStrategy) :
    protoToSearchStrategy (searchStrategyToProto ss) = ss := by
  cases ss <;> rfl

theorem reprDecl_back (rd : RepresentationDecl) :
    protoToReprDecl (reprDeclToProto rd) = { rd with fields := [] } := by
  obtain ⟨name, model, dimensions, metric, sparse, fields⟩ := rd
  cases metric <;> rfl

theorem fieldDecl_back (fd : StoredField) : protoToFieldDecl (fieldDeclToProto fd) = .ok fd := by
  obtain ⟨name, fieldType⟩ := fd
  cases fieldType <;> rfl

theorem decayConfig_back (dc : DecayConfig) : protoToDecayConfig (decayConfigToProto dc) = dc := by
  obtain ⟨decayFn, rate, floor, promote, prune⟩ := dc
  cases decayFn with
  | none => rfl
  | some f => cases f <;> rfl

theorem tierTarget_back (tt : TierTarget) : protoToTierTarget (tierTargetToProto tt) = tt := by
  cases tt <;> rfl

theorem orderBy_back (clause : OrderByClause) : protoToOrderBy (orderByToProto clause) = clause := by
  obtain ⟨field, direction⟩ := clause
  cases direction <;> rfl

theorem orderBys_back (clauses : List OrderByClause) :
    (clauses.map orderByToProto).map protoToOrderBy = clauses := by
  rw [List.map_map]
  exact (List.map_congr_left fun clause _ => orderBy_back clause).trans (List.map_id clauses)

theorem metric_back (metric : Metric) : textToMetric (metricToText metric) = metric := by
  cases metric <;> decide +kernel

theorem traverseMatchPlan_back (p : TraverseMatchPlan) :
    protoToTraverseMatchPlan (traverseMatchPlanToProto p) = .ok p := by
  obtain ⟨fromId, ⟨sourceVar, ⟨variableName, edgeType, direction⟩, targetVar⟩, minDepth, maxDepth, threshold,
    temporal, limit⟩ := p
  have clause := Codec.mapM_map_option (ε := String) temporalClause_back temporal
  unfold protoToTraverseMatchPlan traverseMatchPlanToProto required
  dsimp only [bind, Except.bind]
  rw [clause]
  cases direction <;> rfl

theorem joinClause_back (j : JoinClause) : protoToJoinClause (joinClauseToProto j) = .ok j := by
  obtain ⟨joinType, collection, aliasName, onLeft, onRight, threshold⟩ := j
  cases joinType <;> rfl

theorem joinFieldList_back (fl : JoinFieldList) :
    protoToJoinFieldList (joinFieldListToProto fl) = fl := by
  cases fl with
  | all => rfl
  | named qfs =>
    have names : (qfs.map qualifiedFieldToProto).map protoToQualifiedField = qfs := by
      rw [List.map_map]
      exact List.map_id qfs
    exact congrArg JoinFieldList.named names

/-! ### Hints -/

theorem inner_between (opening closing s : String) :
    inner opening closing (opening ++ s ++ closing) = some s := by
  unfold inner
  dsimp only
  have chars : (opening ++ s ++ closing).toList = opening.toList ++ (s.toList ++ closing.toList) := by
    simp
  rw [chars, if_pos (List.isPrefixOf_iff_prefix.mpr ⟨_, rfl⟩), List.drop_left,
    if_pos (List.isSuffixOf_iff_suffix.mpr ⟨_, rfl⟩)]
  simp

theorem isDigit_of_mem_toDigits (n : Nat) : ∀ c ∈ Nat.toDigits 10 n, c.isDigit = true :=
  fun _ there => Nat.isDigit_of_mem_toDigits (by omega) (by omega) there

theorem parseDigits_toDigits (n : Nat) : parseDigits (Nat.toDigits 10 n) = some n := by
  unfold parseDigits
  rw [if_pos ⟨Nat.toDigits_ne_nil, List.all_eq_true.mpr (isDigit_of_mem_toDigits n)⟩,
    ← Nat.ofDigitChars_eq_foldl, Nat.ofDigitChars_ten_toDigits]

theorem parseU64_repr (n : Nat) : parseU64 (Nat.repr n) = if n < 2 ^ 64 then some n else none := by
  have chars : (Nat.repr n).toList = Nat.toDigits 10 n := by simp
  have plain : unsigned (Nat.toDigits 10 n) = Nat.toDigits 10 n := by
    unfold unsigned
    split
    · rename_i rest same
      have plus := isDigit_of_mem_toDigits n '+' (same ▸ List.mem_cons_self)
      cases plus
    · rfl
  rw [parseU64, chars, plain, parseDigits_toDigits, Option.filter_some]
  simp only [decide_eq_true_eq]

theorem not_inner {opening closing s : String} {c d : Char} {rest rest' : List Char}
    (first : opening.toList = c :: rest) (other : s.toList = d :: rest') (differ : c ≠ d) :
    inner opening closing s = none := by
  unfold inner
  dsimp only
  rw [first, other, if_neg]
  simp [differ]

theorem hint_back (text : FloatText) (h : QueryHint) :
    protoToHint text (hintToProto text h) = some h ↔ HintSendable text h := by
  cases h with
  | noPromote | noPrefilter | forceFullScan => exact iff_of_true rfl trivial
  | maxAcu v =>
    have chars : (hintToProto text (.maxAcu v)).toList =
        'M' :: ("AX_ACU(" ++ text.display v ++ ")").toList := by
      simp [hintToProto]
    have other (s : String) (c : Char) (rest : List Char) (first : s.toList = c :: rest) (differ : c ≠ 'M') :
        ¬ hintToProto text (.maxAcu v) = s := by
      intro same
      rw [same, first] at chars
      exact differ (List.cons.inj chars).1
    unfold protoToHint
    rw [if_neg (other _ 'N' _ rfl (by decide)), if_neg (other _ 'N' _ rfl (by decide)),
      if_neg (other _ 'F' _ rfl (by decide)), hintToProto, inner_between]
    dsimp only
    rw [text.parse_display]
    unfold HintSendable
    by_cases nan : v.isNaN = true
    · rw [if_pos nan, Option.map_some, Option.some.injEq, QueryHint.maxAcu.injEq, eq_comm]
      exact ⟨fun same _ => same, fun same => same nan⟩
    · rw [if_neg nan]
      exact iff_of_true rfl fun here => absurd here nan
  | timeout v =>
    have chars : (hintToProto text (.timeout v)).toList =
        'T' :: ("IMEOUT(" ++ Nat.repr v ++ ")").toList := by
      simp [hintToProto]
    have other (s : String) (c : Char) (rest : List Char) (first : s.toList = c :: rest) (differ : c ≠ 'T') :
        ¬ hintToProto text (.timeout v) = s := by
      intro same
      rw [same, first] at chars
      exact differ (List.cons.inj chars).1
    have opening : "MAX_ACU(".toList = 'M' :: "AX_ACU(".toList := rfl
    unfold protoToHint
    rw [if_neg (other _ 'N' _ rfl (by decide)), if_neg (other _ 'N' _ rfl (by decide)),
      if_neg (other _ 'F' _ rfl (by decide)),
      not_inner opening chars (by decide), hintToProto, inner_between]
    dsimp only
    rw [parseU64_repr]
    unfold HintSendable
    by_cases fits : v < 2 ^ 64
    · rw [if_pos fits]
      exact iff_of_true rfl fits
    · rw [if_neg fits]
      exact iff_of_false nofun fits

theorem hints_back (text : FloatText) (hints : List QueryHint) :
    (hints.map (hintToProto text)).filterMap (protoToHint text) = hints ↔
      ∀ h ∈ hints, HintSendable text h := by
  rw [List.filterMap_map, Codec.filterMap_eq_self]
  exact forall₂_congr fun h _ => hint_back text h

/-! ### Plans -/

theorem indexDecl_survives_iff (idx : IndexDecl) :
    Survives indexDeclToProto protoToIndexDecl idx ↔
      ∀ clause ∈ idx.partialCondition, Sendable clause := by
  obtain ⟨name, fields, partialCondition⟩ := idx
  dsimp only
  have clauses := Codec.survives_option whereClauseToProto protoToWhereClause partialCondition
  simp only [where_survives_iff] at clauses
  rw [← clauses, Codec.survives_iff, Codec.survives_iff]
  unfold indexDeclToProto
  dsimp only
  cases sent : partialCondition.mapM whereClauseToProto with
  | error e => exact iff_of_false (fun ⟨_, none_, _⟩ => nomatch none_) fun ⟨_, none_, _⟩ => nomatch none_
  | ok message =>
    constructor
    · rintro ⟨_, same, back⟩
      cases same
      refine ⟨message, rfl, ?_⟩
      unfold protoToIndexDecl at back
      cases read : message.mapM protoToWhereClause with
      | error e =>
        rw [read] at back
        cases back
      | ok condition =>
        rw [read] at back
        cases back
        rfl
    · rintro ⟨_, same, back⟩
      cases same
      refine ⟨_, rfl, ?_⟩
      unfold protoToIndexDecl
      dsimp only
      rw [back]
      rfl

theorem filter_sent (filter : Option WhereClause) :
    (∃ message, filter.mapM whereClauseToProto = .ok message ∧
        message.mapM protoToWhereClause = .ok filter ∧ ∀ clause ∈ filter, Sendable clause) ∨
      ∃ e, filter.mapM whereClauseToProto = .error e ∧ ¬ ∀ clause ∈ filter, Sendable clause := by
  have survives := Codec.survives_option whereClauseToProto protoToWhereClause filter
  simp only [where_survives_iff] at survives
  rw [← survives, Codec.survives_iff]
  cases sent : filter.mapM whereClauseToProto with
  | error e => exact .inr ⟨e, rfl, fun ⟨_, none_, _⟩ => nomatch none_⟩
  | ok message =>
    have back : message.mapM protoToWhereClause = .ok filter := by
      cases filter with
      | none =>
        cases sent
        rfl
      | some clause =>
        obtain ⟨m, made, rfl⟩ := Codec.mapM_some.mp sent
        exact Codec.mapM_some.mpr ⟨clause, where_back made, rfl⟩
    exact .inl ⟨message, rfl, back, message, rfl, back⟩

theorem preFilter_sent (preFilter : Option PreFilter) :
    (∃ message, preFilter.mapM preFilterToProto = .ok message ∧
        message.mapM protoToPreFilter = .ok preFilter ∧ ∀ pf ∈ preFilter, Sendable pf.clause) ∨
      ∃ e, preFilter.mapM preFilterToProto = .error e ∧ ¬ ∀ pf ∈ preFilter, Sendable pf.clause := by
  cases preFilter with
  | none =>
    refine .inl ⟨none, rfl, rfl, fun pf listed => ?_⟩
    cases listed
  | some pf =>
    simp only [Option.mem_some_iff, forall_eq']
    rw [← where_sent_iff]
    cases sent : whereClauseToProto pf.clause with
    | error e =>
      have failed : (some pf).mapM preFilterToProto = .error e := by
        rw [Codec.mapM_some_map, preFilterToProto, sent]
        rfl
      refine .inr ⟨e, failed, ?_⟩
      rintro ⟨message, same⟩
      cases same
    | ok message =>
      refine .inl ⟨some ⟨pf.indexName, some message⟩, Codec.mapM_some.mpr ⟨_, ?_, rfl⟩,
        Codec.mapM_some.mpr ⟨pf, ?_, rfl⟩, message, rfl⟩
      · rw [preFilterToProto, sent]
        rfl
      · unfold protoToPreFilter required
        dsimp only [bind, Except.bind]
        rw [where_back sent]

theorem createCollection_survives_iff (text : FloatText) (p : CreateCollectionPlan) :
    Survives (planToProto text) (protoToPlan text) (.createCollection p) ↔
      Wireable text (.createCollection p) := by
  have indexes := Codec.survives_mapM indexDeclToProto protoToIndexDecl p.indexes
  simp only [indexDecl_survives_iff] at indexes
  have fields := Codec.mapM_map fieldDecl_back p.fields
  have representations : (p.representations.map reprDeclToProto).map protoToReprDecl = p.representations ↔
      ∀ r ∈ p.representations, r.fields = [] := by
    have same : List.map (protoToReprDecl ∘ reprDeclToProto) p.representations = p.representations.map id ↔ _ :=
      List.map_inj_left
    rw [List.map_id] at same
    rw [List.map_map, same]
    refine forall₂_congr fun r _ => ?_
    rw [Function.comp_apply, reprDecl_back]
    obtain ⟨name, model, dimensions, metric, sparse, fields⟩ := r
    simp [eq_comm]
  rw [Wireable, ← indexes, ← representations, Codec.survives_iff, Codec.survives_iff, planToProto]
  cases sent : p.indexes.mapM indexDeclToProto with
  | error e => exact iff_of_false (fun ⟨_, none_, _⟩ => nomatch none_) fun ⟨_, ⟨_, none_, _⟩, _⟩ => nomatch none_
  | ok messages =>
    constructor
    · rintro ⟨_, same, back⟩
      cases same
      unfold protoToPlan at back
      dsimp only at back
      rw [fields] at back
      cases read : messages.mapM protoToIndexDecl with
      | error e =>
        rw [read] at back
        cases back
      | ok idxs =>
        rw [read] at back
        have same : CreateCollectionPlan.mk _ _ _ _ _ = p := Plan.createCollection.inj (Except.ok.inj back)
        refine ⟨congrArg CreateCollectionPlan.representations same, ⟨messages, rfl, ?_⟩,
          (congrArg CreateCollectionPlan.vectoriserConfig same).symm⟩
        rw [read, ← congrArg CreateCollectionPlan.indexes same]
    · rintro ⟨repr, ⟨_, same, back⟩, vectoriser⟩
      cases same
      refine ⟨_, rfl, ?_⟩
      unfold protoToPlan
      dsimp only
      rw [fields, back, repr]
      obtain ⟨name, representations, fields, indexes, config⟩ := p
      cases vectoriser
      rfl

theorem fetch_survives_iff (text : FloatText) (p : FetchPlan) :
    Survives (planToProto text) (protoToPlan text) (.fetch p) ↔ Wireable text (.fetch p) := by
  have temporal := Codec.mapM_map_option temporalClause_back p.temporal
  have orderBy := orderBys_back p.orderBy
  rw [Wireable, ← hints_back, Codec.survives_iff, planToProto]
  rcases filter_sent p.filter with ⟨message, sent, back, ok⟩ | ⟨e, failed, no⟩
  · rw [sent]
    constructor
    · rintro ⟨_, same, here⟩
      cases same
      unfold protoToPlan required at here
      dsimp only [bind, Except.bind] at here
      rw [back, temporal] at here
      exact ⟨ok, congrArg FetchPlan.hints (Plan.fetch.inj (Except.ok.inj here))⟩
    · rintro ⟨-, hints⟩
      refine ⟨_, rfl, ?_⟩
      unfold protoToPlan required
      dsimp only [bind, Except.bind]
      rw [back, temporal, fieldList_back, orderBy, fetchStrategy_back, hints]
  · rw [failed]
    exact iff_of_false (fun ⟨_, none_, _⟩ => nomatch none_) fun both => no both.1

theorem search_survives_iff (text : FloatText) (p : SearchPlan) :
    Survives (planToProto text) (protoToPlan text) (.search p) ↔ Wireable text (.search p) := by
  have within := Codec.mapM_map_option traverseMatchPlan_back p.within
  have dense : (if p.denseVector.isSome then some (p.denseVector.getD []) else none) = p.denseVector := by
    cases p.denseVector <;> rfl
  have sparse : (if p.sparseVector.isSome then
      some (((p.sparseVector.map fun sv => sv.map sparseEntryToProto).getD []).map fun e => (e.index, e.value))
        else none) = p.sparseVector := by
    cases p.sparseVector with
    | none => rfl
    | some entries => exact congrArg some (sparseEntries_back entries)
  have twoPass : (p.twoPass.map twoPassConfigToProto).map protoToTwoPassConfig = p.twoPass := by
    cases p.twoPass <;> rfl
  rw [Wireable, ← hints_back, Codec.survives_iff, planToProto]
  rcases filter_sent p.filter with ⟨message, sent, back, ok⟩ | ⟨e, failed, no⟩
  · rw [sent]
    rcases preFilter_sent p.preFilter with ⟨pre, sentPre, backPre, okPre⟩ | ⟨e, failed, no⟩
    · rw [sentPre]
      constructor
      · rintro ⟨_, same, here⟩
        cases same
        unfold protoToPlan required at here
        dsimp only [bind, Except.bind] at here
        rw [back, backPre, within] at here
        exact ⟨ok, okPre, congrArg SearchPlan.hints (Plan.search.inj (Except.ok.inj here))⟩
      · rintro ⟨-, -, hints⟩
        refine ⟨_, rfl, ?_⟩
        unfold protoToPlan required
        dsimp only [bind, Except.bind]
        rw [back, backPre, within, fieldList_back, dense, sparse, searchStrategy_back, hints, twoPass]
    · rw [failed]
      exact iff_of_false (fun ⟨_, none_, _⟩ => nomatch none_) fun both => no both.2.1
  · rw [failed]
    exact iff_of_false (fun ⟨_, none_, _⟩ => nomatch none_) fun both => no both.1

theorem join_survives_iff (text : FloatText) (p : JoinPlan) :
    Survives (planToProto text) (protoToPlan text) (.join p) ↔ Wireable text (.join p) := by
  have joins := Codec.mapM_map joinClause_back p.joins
  have orderBy := orderBys_back p.orderBy
  rw [Wireable, ← hints_back, Codec.survives_iff, planToProto]
  rcases filter_sent p.filter with ⟨message, sent, back, ok⟩ | ⟨e, failed, no⟩
  · rw [sent]
    constructor
    · rintro ⟨_, same, here⟩
      cases same
      unfold protoToPlan required at here
      dsimp only [bind, Except.bind] at here
      rw [joins, back] at here
      exact ⟨ok, congrArg JoinPlan.hints (Plan.join.inj (Except.ok.inj here))⟩
    · rintro ⟨-, hints⟩
      refine ⟨_, rfl, ?_⟩
      unfold protoToPlan required
      dsimp only [bind, Except.bind]
      rw [joins, back, joinFieldList_back, orderBy, hints]
  · rw [failed]
    exact iff_of_false (fun ⟨_, none_, _⟩ => nomatch none_) fun both => no both.1

theorem insert_survives_iff (text : FloatText) (p : InsertPlan) :
    Survives (planToProto text) (protoToPlan text) (.insert p) ↔ Wireable text (.insert p) := by
  have vectors := Codec.mapM_map namedVector_back p.vectors
  have values := Codec.mapM_map literal_back p.values
  have back : protoToPlan text (.insert ⟨p.collection, p.fields, p.values.map literalToProto,
      p.vectors.map namedVectorToProto, p.collocateWith.getD [], p.affinityGroup, p.validFrom, p.validTo⟩) =
      .ok (.insert { p with
        collocateWith := if p.collocateWith.getD [] = [] then none else some (p.collocateWith.getD []) }) := by
    unfold protoToPlan
    dsimp only [bind, Except.bind]
    rw [vectors, values]
  refine Iff.trans (b := (if p.collocateWith.getD [] = [] then none else some (p.collocateWith.getD [])) =
    p.collocateWith) ?_ ?_
  · refine Iff.trans (Eq.congr_left back) ?_
    rw [Except.ok.injEq, Plan.insert.injEq]
    obtain ⟨collection, fields, values, vectors, collocateWith, group, validFrom, validTo⟩ := p
    simp
  · rw [Wireable]
    cases p.collocateWith with
    | none => simp
    | some ids =>
      by_cases empty : ids = []
      · simp [empty]
      · simp [empty]

theorem alterCollection_survives_iff (text : FloatText) (p : AlterCollectionPlan) :
    Survives (planToProto text) (protoToPlan text) (.alterCollection p) ↔
      Wireable text (.alterCollection p) := by
  obtain ⟨collection, operation⟩ := p
  cases operation with
  | addRepresentation name dimensions metric sparse fields =>
    have back : planToProto text (.alterCollection ⟨collection,
        .addRepresentation name dimensions metric sparse fields⟩) >>= protoToPlan text =
        .ok (.alterCollection ⟨collection, .addRepresentation name
          (dimensions.map fun d => (UInt32.ofNat d).toNat) metric sparse fields⟩) := by
      have same := metric_back metric
      cases dimensions with
      | none => exact congrArg (fun m => Except.ok (Plan.alterCollection ⟨collection,
          .addRepresentation name none m sparse fields⟩)) same
      | some d => exact congrArg (fun m => Except.ok (Plan.alterCollection ⟨collection,
          .addRepresentation name (some (UInt32.ofNat d).toNat) m sparse fields⟩)) same
    refine (Eq.congr_left back).trans ?_
    rw [Wireable]
    cases dimensions with
    | none => simp
    | some d =>
      have cut : (UInt32.ofNat d).toNat = d % 2 ^ 32 := UInt32.toNat_ofNat
      simp only [Option.map_some, Option.mem_some_iff, forall_eq', Except.ok.injEq, Plan.alterCollection.injEq,
        AlterCollectionPlan.mk.injEq, SchemaAlterOp.addRepresentation.injEq, Option.some.injEq, true_and,
        and_true, cut]
      omega
  | _ => exact iff_of_true rfl trivial

/-- A plan comes back from the wire as it was iff it has only what the messages have room for. -/
theorem plan_survives_iff (text : FloatText) (p : Plan) :
    Survives (planToProto text) (protoToPlan text) p ↔ Wireable text p := by
  induction p with
  | createCollection p => exact createCollection_survives_iff text p
  | insert p => exact insert_survives_iff text p
  | fetch p => exact fetch_survives_iff text p
  | search p => exact search_survives_iff text p
  | join p => exact join_survives_iff text p
  | alterCollection p => exact alterCollection_survives_iff text p
  | explain plan survives =>
    rw [Wireable, ← survives, Codec.survives_iff, Codec.survives_iff, planToProto]
    cases planToProto text plan with
    | error e => exact iff_of_false (fun ⟨_, none_, _⟩ => nomatch none_) fun ⟨_, none_, _⟩ => nomatch none_
    | ok message =>
      constructor
      · rintro ⟨_, same, back⟩
        cases same
        refine ⟨message, rfl, ?_⟩
        rw [protoToPlan] at back
        cases read : protoToPlan text message with
        | error e =>
          rw [read] at back
          cases back
        | ok plan' =>
          rw [read] at back
          cases back
          rfl
      · rintro ⟨_, same, back⟩
        cases same
        refine ⟨_, rfl, ?_⟩
        rw [protoToPlan, back]
        rfl
  | createEdgeType p =>
    have back : planToProto text (.createEdgeType p) >>= protoToPlan text =
        .ok (.createEdgeType { p with inferenceConfig := none }) := by
      obtain ⟨name, fromCollection, toCollection, decayConfig, inferenceConfig⟩ := p
      cases decayConfig with
      | none => rfl
      | some dc => exact congrArg (fun dc => Except.ok (Plan.createEdgeType
          ⟨name, fromCollection, toCollection, some dc, none⟩)) (decayConfig_back dc)
    refine (Eq.congr_left back).trans ?_
    obtain ⟨name, fromCollection, toCollection, decayConfig, inferenceConfig⟩ := p
    simp [Wireable, eq_comm]
  | insertEdge p =>
    have metadata := Codec.mapM_map (assignment_back "missing field value") p.metadata
    refine iff_of_true ?_ trivial
    unfold Survives planToProto
    dsimp only [bind, Except.bind]
    unfold protoToPlan
    dsimp only [bind, Except.bind]
    rw [metadata]
  | updateEntity p =>
    have assignments := Codec.mapM_map (assignment_back "missing assignment value") p.assignments
    refine iff_of_true ?_ trivial
    unfold Survives planToProto
    dsimp only [bind, Except.bind]
    unfold protoToPlan
    dsimp only [bind, Except.bind]
    rw [assignments]
  | upsert p =>
    have vectors := Codec.mapM_map namedVector_back p.vectors
    have values := Codec.mapM_map literal_back p.values
    refine iff_of_true ?_ trivial
    unfold Survives planToProto
    dsimp only [bind, Except.bind]
    unfold protoToPlan
    dsimp only [bind, Except.bind]
    rw [vectors, values]
  | traverseMatch p =>
    refine iff_of_true ?_ trivial
    unfold Survives planToProto
    dsimp only [bind, Except.bind]
    unfold protoToPlan
    dsimp only [bind, Except.bind]
    rw [traverseMatchPlan_back]
  | demote p =>
    refine iff_of_true ?_ trivial
    exact congrArg (fun tier => Except.ok (Plan.demote ⟨p.entityId, p.collection, tier⟩))
      (tierTarget_back p.targetTier)
  | _ => exact iff_of_true rfl trivial

section Examples

/-- A number printed as its bits: no budget is printed in the plans below. -/
def printedBits : FloatText where
  display v := Nat.repr v.bits.toNat
  parse s := (parseDigits s.toList).map fun n =>
    if (F64.mk (UInt64.ofNat n)).isNaN then ⟨0x7FF8000000000000⟩ else ⟨UInt64.ofNat n⟩
  nan := ⟨0x7FF8000000000000⟩
  parse_display v := by
    have chars : (Nat.repr v.bits.toNat).toList = Nat.toDigits 10 v.bits.toNat := by simp
    rw [chars, parseDigits_toDigits, Option.map_some, UInt64.ofNat_toNat]

def elsewhere : Plan :=
  .fetch (planFetch ∅ ⟨"venues", .all, some (.neq "city" (.string "Leeds")), none, [], none, []⟩)

/-- `CREATE COLLECTION venues (FIELD name TEXT, REPRESENTATION named DIMENSIONS 3 FIELDS (name));` -/
def namedVenues : Plan :=
  .createCollection ⟨"venues", [⟨"named", none, some 3, .cosine, false, ["name"]⟩], [⟨"name", .text⟩], [], none⟩

/-- The first conversion panics, the second loses the representation's fields. -/
theorem elsewhere_lost :
    (∀ message, planToProto printedBits elsewhere ≠ .ok message) ∧
      ¬ Survives (planToProto printedBits) (protoToPlan printedBits) elsewhere ∧
      ¬ Survives (planToProto printedBits) (protoToPlan printedBits) namedVenues := by
  refine ⟨nofun, nofun, ?_⟩
  rw [plan_survives_iff]
  intro wireable
  exact absurd (wireable.1 _ List.mem_cons_self) (by decide)

end Examples

end TronDB.Proto
