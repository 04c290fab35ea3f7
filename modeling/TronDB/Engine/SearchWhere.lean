import TronDB.Core.IndexedFetch
import TronDB.Core.SortableKeys
import TronDB.Engine.IndexRuns
import TronDB.Engine.SubgraphPath

/-! Whether the rows of a SEARCH meet its WHERE clause. -/
namespace TronDB.Engine
open TronDB.Core Binary Wal

/-! ### Planning of SEARCH -/

/-- The parser refuses a SEARCH that is near nothing. -/
structure SearchStatement where
  collection : String
  fields : FieldList
  denseVector : Option (List F64)
  sparseVector : Option (List (UInt32 × F32))
  filter : Option WhereClause
  confidence : Option F64
  limit : Option Nat
  queryText : Option String
  usingRepr : Option String
  hints : List QueryHint
  within : Option TraverseMatchPlan
  near : denseVector.isSome ∨ sparseVector.isSome ∨ queryText.isSome

def selectSearchStrategy (hasDense hasSparse hasQueryText : Bool) : SearchStrategy :=
  if hasQueryText then .naturalLanguage
  else match hasDense, hasSparse with
    | true, false => .hnsw
    | false, true => .sparse
    -- with neither the source is unreachable
    | _, _ => .hybrid

/-- The first index that covers the first field of the clause. -/
def selectPreFilter (filter : Option WhereClause) (schema : Option CollectionSchema) :
    Except EngineError (Option PreFilter) :=
  match filter, schema with
  | some clause, some schema =>
    match schema.indexes.find? fun idx => firstFieldInClause clause ∈ idx.fields with
    | some idx => .ok (some ⟨idx.name, clause⟩)
    | none => .error (.fieldNotIndexed (firstFieldInClause clause))
  | _, _ => .ok none

/-- A search for sparse vectors needs a representation for them, if the schema is known. -/
def checkSparse (strategy : SearchStrategy) (collection : String) (schema : Option CollectionSchema) :
    Except EngineError Unit :=
  match strategy, schema with
  | .sparse, some schema | .hybrid, some schema =>
    if schema.representations.any StoredRepresentation.sparse then .ok ()
    else .error (.sparseVectorRequired collection)
  | _, _ => .ok ()

def SearchStatement.choosePreFilter (st : SearchStatement) (schema : Option CollectionSchema) :
    Except EngineError (Option PreFilter) :=
  if QueryHint.noPrefilter ∈ st.hints then .ok none else selectPreFilter st.filter schema

def SearchStatement.strategy (st : SearchStatement) : SearchStrategy :=
  selectSearchStrategy st.denseVector.isSome st.sparseVector.isSome st.queryText.isSome

def SearchStatement.toPlan (st : SearchStatement) (preFilter : Option PreFilter) : SearchPlan where
  collection := st.collection
  fields := st.fields
  denseVector := st.denseVector
  sparseVector := st.sparseVector
  preFilter := preFilter
  k := st.limit.getD 10
  confidenceThreshold := st.confidence.getD .zero
  strategy := st.strategy
  queryText := st.queryText
  usingRepr := st.usingRepr
  twoPass := if 50 ≤ st.limit.getD 10 then some ⟨st.limit.getD 10 * 3, false⟩ else none
  within := st.within

def planSearch (schemas : FinMap String CollectionSchema) (st : SearchStatement) :
    Except EngineError SearchPlan := do
  checkSparse st.strategy st.collection schemas[st.collection]?
  let preFilter ← st.choosePreFilter schemas[st.collection]?
  .ok (st.toPlan preFilter)

section Where
variable (env : SearchEnv) (s : State) (p : SearchPlan)

/-- The entities behind the rows of a SEARCH, with their scores. -/
def State.found : Except EngineError (List (Entity × F32)) := do
  let path ← s.searchPath env p
  let hits ← s.searchAlong env p path
  .ok (s.resolve p hits)

/-- Every row is that of an entity that meets the clause, if there is one. -/
def RespectsWhere (filter : Option WhereClause) : Prop :=
  ∀ result, executeSearch env s p = .ok result → ∃ found, s.found env p = .ok found ∧
    (result.rows = found.map fun e => { entityToRow e.1 p.fields with score := some e.2 }) ∧
      ∀ e ∈ found, ∀ clause ∈ filter, entityMatches e.1 clause = true

/-- The ids a path is confined to. -/
def SearchPath.Allows : SearchPath → LogicalId → Prop
  | .nowhere, _ => False
  | .subgraph candidates, id | .indexes (some candidates), id => candidates.contains id = true
  | .indexes none, _ => True

/-- Every stored entity that the search is confined to meets the clause. -/
def CandidatesMatch (filter : Option WhereClause) : Prop :=
  ∀ path, s.searchPath env p = .ok path → ∀ id e, path.Allows id →
    s.store.get p.collection id = .ok e → ∀ clause ∈ filter, entityMatches e clause = true

/-- The environment with another vector index. -/
def SearchEnv.searching (env : SearchEnv) (search : HnswIndex → List F32 → Nat → Hits) : SearchEnv :=
  { env with env := { env.env with search } }

/-- Neither the literal nor the values of the field hold a null byte or a NaN, and no entity has a
field for its id. -/
structure Filterable (collection field : String) (lit : Literal) : Prop where
  literal : (literalToValue lit).Plain
  values : ∀ id e, s.store.get collection id = .ok e → ∀ v, e.metadata[field]? = some v → v.Plain
  ordinary : ∀ id e, s.store.get collection id = .ok e → e.metadata["id"]? = none

variable {env s p}

/-! ### The candidates of a pre-filter -/

theorem contains_ofList (ids : List LogicalId) (id : LogicalId) :
    (IdSet.ofList ids).contains id = true ↔ id ∈ ids := by
  have grows (set : IdSet) : (ids.foldl (fun set id => set.insert id ()) set).contains id = true ↔
      set.contains id = true ∨ id ∈ ids := by
    induction ids generalizing set with
    | nil => simp
    | cons first rest ih =>
      rw [List.foldl_cons, ih, Std.ExtTreeMap.contains_insert, Bool.or_eq_true, beq_iff_eq,
        Std.LawfulEqCmp.compare_eq_iff_eq, List.mem_cons, eq_comm]
      tauto
  have start : (∅ : IdSet).contains id = false := Std.ExtTreeMap.contains_empty
  rw [IdSet.ofList, grows, start]
  simp

theorem path_within {ids : IdSet} {path : SearchPath} (filtered : s.preFilterIds p = .ok (some ids))
    (chosen : s.searchPath env p = .ok path) (id : LogicalId) (allowed : path.Allows id) :
    ids.contains id = true := by
  unfold State.searchPath at chosen
  split at chosen
  · rw [filtered] at chosen
    dsimp only [Bind.bind, Except.bind] at chosen
    cases within : p.within with
    | none =>
      rw [within] at chosen
      cases chosen
      exact allowed
    | some plan =>
      rw [within] at chosen
      dsimp only at chosen
      have narrower : ∀ id, (ids.filter fun id _ => (s.withinIds env plan).contains id).contains id = true →
          ids.contains id = true := by
        intro id there
        rw [Std.ExtTreeMap.contains_eq_isSome_getElem?, FinMap.get_filter] at there
        rw [Std.ExtTreeMap.contains_eq_isSome_getElem?]
        cases found : ids[id]? with
        | none => rw [found] at there; cases there
        | some mark => rfl
      split at chosen
      · cases chosen
        exact allowed.elim
      · split at chosen
        · cases chosen
          exact narrower id allowed
        · cases chosen
          exact narrower id allowed
  · cases chosen

theorem matched_allowed {path : SearchPath} {matched : Hits}
    (found : s.matched env p path = .ok matched) : ∀ hit ∈ matched, path.Allows hit.1 := by
  intro hit listed
  cases path with
  | nowhere =>
    cases found
    cases listed
  | indexes allowed =>
    cases allowed with
    | none => trivial
    | some candidates =>
      unfold State.matched at found
      dsimp only at found
      cases walked : s.strategyHits env p (p.fetchK (some candidates)) with
      | error e =>
        rw [walked] at found
        cases found
      | ok hits =>
        rw [walked] at found
        cases found
        exact (List.mem_filter.mp listed).2
  | subgraph candidates =>
    unfold State.matched at found
    dsimp only at found
    cases named : p.usingRepr with
    | none =>
      rw [named] at found
      cases found
    | some reprName =>
      rw [named] at found
      dsimp only [required, bind, Except.bind] at found
      cases asked : subgraphQuery env p reprName with
      | error e =>
        rw [asked] at found
        cases found
      | ok query =>
        rw [asked] at found
        dsimp only at found
        split at found
        · cases found
        · cases found
          obtain ⟨id, candidate, scored⟩ := List.mem_filterMap.mp ((mem_byScore _ _).mp listed)
          rw [← subgraphMatch_id s p reprName query id hit scored]
          exact (mem_candidates id).mp candidate

theorem hits_allowed {path : SearchPath} {hits : Hits}
    (searched : s.searchAlong env p path = .ok hits) : ∀ hit ∈ hits, path.Allows hit.1 := by
  intro hit listed
  obtain ⟨e, -, refused⟩ | ⟨matched, hits', found, ok, trims⟩ := along_cases env s p s.location path
  · cases refused.symm.trans searched
  · cases ok.symm.trans searched
    exact matched_allowed found hit (trims.found hit listed).1

/-! ### What an index lists -/

theorem lookup_single {partition : FinMap (List UInt8) LogicalId} {types : List (String × FieldType)}
    {v : Value} {ids : List LogicalId} (found : FieldIndex.lookupEq ⟨partition, types⟩ [v] = .ok ids) :
    ∃ f t start, types = [(f, t)] ∧ encodeSortable v t = .ok start ∧
      ∀ id ∈ ids, ∃ key, partition[key]? = some id ∧ start <+: key := by
  unfold FieldIndex.lookupEq FieldIndex.types at found
  split at found
  · cases found
  · rename_i single
    obtain ⟨⟨f, t⟩, rfl⟩ : ∃ field, types = [field] :=
      List.length_eq_one_iff.mp (not_not.mp single).symm
    rw [List.map_cons, List.map_nil, encodeCompoundKey_single] at found
    cases encoded : encodeSortable v t with
    | error e =>
      rw [encoded] at found
      cases found
    | ok start =>
      rw [encoded] at found
      cases found
      refine ⟨f, t, start, rfl, encoded, fun id listed => ?_⟩
      obtain ⟨⟨key, id'⟩, there, rfl⟩ := List.mem_map.mp listed
      obtain ⟨entry, starts⟩ := List.mem_filter.mp there
      refine ⟨key, (FinMap.mem_toList _ _ _).mp entry, ?_⟩
      exact List.isPrefixOf_iff_prefix.mp starts

theorem entryKey_single {f : String} {t : FieldType} {e : Entity} {key : List UInt8}
    (keyed : entryKey [(f, t)] e = some key) :
    ∃ w whole, e.metadata[f]? = some w ∧ encodeSortable w t = .ok whole ∧
      key = whole ++ 0 :: utf8 e.id := by
  obtain ⟨w, whole, tail, value, encoded, rest, rfl⟩ := (entryKey_cons _ _ _ _ _).mp keyed
  cases rest
  exact ⟨w, whole, value, encoded, rfl⟩

/-- An entity that is listed under a literal has it as the value of the field. -/
theorem listed_matches (up : Upkept s) {collection field : String} {lit : Literal}
    {schema : CollectionSchema} {idx : StoredIndex} {types : List (String × FieldType)}
    {ids : List LogicalId} (known : s.schemas[collection]? = some schema)
    (declared : idx ∈ schema.indexes) (covers : field ∈ idx.fields)
    (open_ : s.fieldIndexes[(collection, idx.name)]? = some types)
    (found : FieldIndex.lookupEq ⟨s.store.indexPartition collection idx.name, types⟩
      [literalToValue lit] = .ok ids)
    (filterable : Filterable s collection field lit) :
    ∀ id ∈ ids, ∀ e, s.store.get collection id = .ok e → entityMatches e (.eq field lit) = true := by
  intro id listed e got
  obtain ⟨types', typed, open'⟩ := up.current collection schema known idx declared
  cases open_.symm.trans open'
  obtain ⟨f, t, start, rfl, encoded, entries⟩ := lookup_single found
  have fields := (declaredTypes_some typed).2
  rw [← fields] at covers
  cases List.mem_singleton.mp covers
  obtain ⟨key, entry, starts⟩ := entries id listed
  have keyed := (up.exact collection schema known idx declared key id).mp entry
  have stored : s.store.entities[(collection, id)]? = some e :=
    (get_ok (up.present known) id e).mp (by rw [got]; rfl)
  rw [State.keyOf, stored, Option.bind_some, listedKey, typed, Option.bind_some] at keyed
  obtain ⟨w, whole, value, encoded', rfl⟩ := entryKey_single keyed
  have same := eq_of_encoded filterable.literal (filterable.values id e got w value) encoded encoded'
    starts
  have missing := filterable.ordinary id e got
  unfold entityMatches
  split
  · rename_i own
    have own : f = "id" := own
    rw [own, missing] at value
    cases value
  · rw [Entity.fieldIs, value, ← same]
    exact filterable.literal.same

/-! ### What is planned -/

theorem planSearch_ok {schemas : FinMap String CollectionSchema} {st : SearchStatement} :
    planSearch schemas st = .ok p ↔ checkSparse st.strategy st.collection schemas[st.collection]? = .ok () ∧
      st.choosePreFilter schemas[st.collection]? = .ok p.preFilter ∧ p = st.toPlan p.preFilter := by
  unfold planSearch
  cases checkSparse st.strategy st.collection schemas[st.collection]? with
  | error e => simp [Bind.bind, Except.bind]
  | ok checked =>
    cases st.choosePreFilter schemas[st.collection]? with
    | error e => simp [Bind.bind, Except.bind]
    | ok preFilter =>
      simp only [Bind.bind, Except.bind, Except.ok.injEq, true_and]
      constructor
      · rintro rfl
        exact ⟨rfl, rfl⟩
      · rintro ⟨rfl, same⟩
        exact same.symm

theorem planned_preFilter {schemas : FinMap String CollectionSchema} {st : SearchStatement}
    {pf : PreFilter} (planned : planSearch schemas st = .ok p) (taken : p.preFilter = some pf) :
    st.filter = some pf.clause ∧ ∃ schema, schemas[st.collection]? = some schema ∧
      ∃ idx ∈ schema.indexes, firstFieldInClause pf.clause ∈ idx.fields ∧ pf.indexName = idx.name := by
  obtain ⟨-, selected, -⟩ := planSearch_ok.mp planned
  rw [taken] at selected
  unfold SearchStatement.choosePreFilter selectPreFilter at selected
  split at selected
  · cases selected
  · split at selected
    · rename_i clause schema filter known
      split at selected
      · rename_i idx chosen
        cases selected
        exact ⟨filter, schema, known, idx, List.mem_of_find?_eq_some chosen,
          by simpa using List.find?_some chosen, rfl⟩
      · cases selected
    · cases selected

/-! ### The rows -/

/-- A search that gets to a path has looked up the literal of its pre-filter. -/
theorem preFilter_looked_up {pf : PreFilter} {path : SearchPath} (taken : p.preFilter = some pf)
    (chosen : s.searchPath env p = .ok path) : ∃ field lit types ids,
      pf.clause = .eq field lit ∧ s.fieldIndexes[(p.collection, pf.indexName)]? = some types ∧
        FieldIndex.lookupEq ⟨s.store.indexPartition p.collection pf.indexName, types⟩
          [literalToValue lit] = .ok ids ∧ s.preFilterIds p = .ok (some (.ofList ids)) := by
  cases filtered : s.preFilterIds p with
  | error e =>
    unfold State.searchPath at chosen
    rw [filtered] at chosen
    split at chosen <;> cases chosen
  | ok found =>
    have filtered_ := filtered
    unfold State.preFilterIds at filtered
    rw [taken] at filtered
    dsimp only at filtered
    cases open_ : s.fieldIndexes[(p.collection, pf.indexName)]? with
    | none =>
      rw [open_] at filtered
      cases filtered
    | some types =>
      rw [open_] at filtered
      cases clause : pf.clause with
      | eq field lit =>
        rw [clause] at filtered
        dsimp only [Bind.bind, Except.bind] at filtered
        cases looked : FieldIndex.lookupEq ⟨s.store.indexPartition p.collection pf.indexName, types⟩
            [literalToValue lit] with
        | error e =>
          rw [looked] at filtered
          cases filtered
        | ok ids =>
          rw [looked] at filtered
          exact ⟨field, lit, types, ids, rfl, rfl, looked, filtered.symm⟩
      | _ =>
        rw [clause] at filtered
        cases filtered

/-- Where the indexes are upkept, the candidates of a pre-filter meet its clause. -/
theorem preFilter_candidates {st : SearchStatement} {pf : PreFilter} (up : Upkept s)
    (planned : planSearch s.schemas st = .ok p) (taken : p.preFilter = some pf)
    (filterable : ∀ field lit, st.filter = some (.eq field lit) →
      Filterable s st.collection field lit) : CandidatesMatch env s p st.filter := by
  intro path chosen id e allowed got clause' filter'
  have collection : p.collection = st.collection := congrArg SearchPlan.collection
    (planSearch_ok.mp planned).2.2
  obtain ⟨filter, schema, known, idx, declared, covers, named⟩ := planned_preFilter planned taken
  obtain ⟨field, lit, types, ids, clause, open_, looked, filtered⟩ := preFilter_looked_up taken chosen
  cases filter.symm.trans filter'
  rw [clause] at covers filter ⊢
  rw [named] at open_ looked
  rw [collection] at open_ looked got
  exact listed_matches up known declared covers open_ looked (filterable field lit filter) id
    ((contains_ofList ids id).mp (path_within filtered chosen id allowed)) _ got

theorem found_rows {result : QueryResult} (done : executeSearch env s p = .ok result) :
    ∃ path hits, s.searchPath env p = .ok path ∧ s.searchAlong env p path = .ok hits ∧
      s.found env p = .ok (s.resolve p hits) ∧
        result.rows = (s.resolve p hits).map fun e => { entityToRow e.1 p.fields with score := some e.2 } := by
  obtain ⟨path, hits, chosen, searched, rows⟩ := rows_searched env s p done
  refine ⟨path, hits, chosen, searched, ?_, rows⟩
  unfold State.found
  rw [chosen]
  change (s.searchAlong env p path >>= fun hits => .ok (s.resolve p hits)) = _
  rw [searched]
  rfl

theorem mem_resolve {hits : Hits} {found : Entity × F32} (listed : found ∈ s.resolve p hits) :
    ∃ hit ∈ hits, s.store.get p.collection hit.1 = .ok found.1 := by
  obtain ⟨hit, among, read⟩ := List.mem_filterMap.mp listed
  refine ⟨hit, among, ?_⟩
  cases got : s.store.get p.collection hit.1 with
  | error e =>
    rw [got] at read
    cases read
  | ok e =>
    rw [got] at read
    cases read
    rfl

theorem candidates_respect {filter : Option WhereClause} (match_ : CandidatesMatch env s p filter) :
    RespectsWhere env s p filter := by
  intro result done
  obtain ⟨path, hits, chosen, searched, found, rows⟩ := found_rows done
  refine ⟨_, found, rows, fun e listed clause filter => ?_⟩
  obtain ⟨hit, among, got⟩ := mem_resolve listed
  exact match_ path chosen hit.1 e.1 (hits_allowed searched hit among) got clause filter

/-! ### An index that answers with any one entity -/

theorem dense_of_hnsw {dense sparse text : Bool}
    (chosen : selectSearchStrategy dense sparse text = .hnsw) : dense = true := by
  revert chosen
  cases dense <;> cases sparse <;> cases text <;> decide

def infinite : F32 := ⟨0x7F800000⟩

def answering (id : LogicalId) : HnswIndex → List F32 → Nat → Hits := fun _ _ _ => [(id, infinite)]

theorem confident_infinite (id : LogicalId) :
    p.confident [(id, infinite)] = [(id, infinite)] := by
  unfold SearchPlan.confident
  split
  · rename_i above
    have number : p.confidenceThreshold.isNaN = false := by
      simp only [F64.gt, F64.lt, Bool.and_eq_true, Bool.not_eq_true'] at above
      exact above.1.2
    have top : infinite.toF64 = ⟨0x7FF0000000000000⟩ := by decide
    have least : infinite.toF64.ge p.confidenceThreshold = true := by
      rw [top]
      have key : F64.key ⟨0x7FF0000000000000⟩ = 0x7FF * 2 ^ 52 := by decide
      have own : F64.isNaN ⟨0x7FF0000000000000⟩ = false := by decide
      simp only [F64.ge, own, number, key, Bool.not_false, Bool.true_and, decide_eq_true_eq]
      have small : p.confidenceThreshold.magnitude ≤ 0x7FF * 2 ^ 52 := by
        simpa [F64.isNaN] using number
      unfold F64.key
      split <;> omega
    simp [least]
  · rfl

theorem strategyHits_answering {id : LogicalId} {query : List F64} {fetchK : Nat}
    (walks : p.strategy = .hnsw) (asked : p.denseVector = some query) (positive : 0 < p.k)
    (indexed : (s.firstDense env p).isSome = true) :
    s.strategyHits (env.searching (answering id)) p fetchK = .ok [(id, infinite)] := by
  obtain ⟨hnsw, first⟩ := Option.isSome_iff_exists.mp indexed
  have first : s.firstDense (env.searching (answering id)) p = some hnsw := first
  unfold State.strategyHits
  rw [walks]
  dsimp only
  rw [asked, first]
  have hits : p.searchDense (env.searching (answering id)) hnsw.2 (query.map F64.toF32) fetchK =
      [(id, infinite)] := by
    unfold SearchPlan.searchDense
    split
    · exact List.take_of_length_le positive
    · rfl
  exact congrArg Except.ok ((congrArg p.confident hits).trans (confident_infinite id))

theorem found_answering {id : LogicalId} {e : Entity} {allowed : Option IdSet}
    {query : List F64} (walks : p.strategy = .hnsw) (asked : p.denseVector = some query)
    (positive : 0 < p.k) (indexed : (s.firstDense env p).isSome = true)
    (chosen : s.searchPath env p = .ok (.indexes allowed))
    (allows : SearchPath.Allows (.indexes allowed) id) (got : s.store.get p.collection id = .ok e)
    (fresh : ∀ i ∈ s.searchedReprIdx env p, s.location.stale (id, i) = false) :
    ∃ result, executeSearch (env.searching (answering id)) s p = .ok result ∧
      s.found (env.searching (answering id)) p = .ok [(e, infinite)] := by
  have chosen' : s.searchPath (env.searching (answering id)) p = .ok (.indexes allowed) := chosen
  have kept : s.withoutStale (s.searchedReprIdx (env.searching (answering id)) p) [(id, infinite)] =
      [(id, infinite)] := by
    have same : s.searchedReprIdx (env.searching (answering id)) p = s.searchedReprIdx env p := rfl
    rw [same]
    cases searched : s.searchedReprIdx env p with
    | none => rfl
    | some i =>
      have clean := fresh i searched
      simp [State.withoutStale, clean]
  have passes : onlyAllowed allowed [(id, infinite)] = [(id, infinite)] := by
    cases allowed with
    | none => rfl
    | some ids =>
      have there : ids.contains id = true := allows
      simp [onlyAllowed, there]
  have searched : s.searchAlong (env.searching (answering id)) p (.indexes allowed) =
      .ok [(id, infinite)] := by
    unfold State.searchAlong State.searchIndexes
    dsimp only
    rw [strategyHits_answering walks asked positive indexed]
    dsimp only [Bind.bind, Except.bind]
    rw [kept, passes, List.take_of_length_le positive]
  have resolved : s.resolve p [(id, infinite)] = [(e, infinite)] := by
    simp [State.resolve, got, Except.toOption]
  constructor
  · constructor
    · unfold executeSearch
      rw [chosen']
      dsimp only [Bind.bind, Except.bind]
      rw [searched]
    · unfold State.found
      rw [chosen']
      dsimp only [Bind.bind, Except.bind]
      rw [searched]
      dsimp only
      rw [resolved]

variable (env s p)

/-- A SEARCH respects its WHERE clause if all that it is confined to meets the clause; and a search
by a vector respects it whatever the index answers only if all of that meets it whose entries are
not stale. -/
theorem respects_where (st : SearchStatement) (planned : planSearch s.schemas st = .ok p) :
    (CandidatesMatch env s p st.filter → RespectsWhere env s p st.filter) ∧
      (p.strategy = .hnsw → 0 < p.k → (s.firstDense env p).isSome = true →
        (∀ search, RespectsWhere (env.searching search) s p st.filter) →
          ∀ allowed, s.searchPath env p = .ok (.indexes allowed) → ∀ id e,
            SearchPath.Allows (.indexes allowed) id → s.store.get p.collection id = .ok e →
              (∀ i ∈ s.searchedReprIdx env p, s.location.stale (id, i) = false) →
                ∀ clause ∈ st.filter, entityMatches e clause = true) := by
  refine ⟨candidates_respect, ?_⟩
  intro walks positive indexed always allowed chosen id e allows got fresh clause filter
  have planned_ := (planSearch_ok.mp planned).2.2
  have strategy : p.strategy = st.strategy := congrArg SearchPlan.strategy planned_
  have vector : p.denseVector = st.denseVector := congrArg SearchPlan.denseVector planned_
  obtain ⟨query, asked⟩ := Option.isSome_iff_exists.mp (dense_of_hnsw (strategy.symm.trans walks))
  rw [← vector] at asked
  obtain ⟨result, done, found⟩ :=
    found_answering walks asked positive indexed chosen allows got fresh
  obtain ⟨found', same, -, all⟩ := always (answering id) result done
  cases found.symm.trans same
  exact all _ (List.mem_singleton_self _) clause filter

variable {env s p}

theorem mem_of_get {collection : String} {id : LogicalId} {e : Entity}
    (got : s.store.get collection id = .ok e) : ((collection, id), e) ∈ s.store.entities.toList :=
  (FinMap.mem_toList _ _ _).mpr ((s.store.get_eq_ok ..).mp got).2

theorem filterable_of_listed {collection field : String} {lit : Literal}
    (literal : (literalToValue lit).Plain)
    (listed : ∀ kv ∈ s.store.entities.toList,
      (∀ v ∈ kv.2.metadata[field]?, v.Plain) ∧ kv.2.metadata["id"]? = none) :
    Filterable s collection field lit := by
  exact ⟨literal, fun id e got => (listed _ (mem_of_get got)).1,
    fun id e got => (listed _ (mem_of_get got)).2⟩

end Where

/-! ### A hint that drops the clause -/

section Examples
attribute [local instance] headerOnly

def twoPlaces : State :=
  (perform .idle (perform .idle (perform .idle (.init default) (.createCollection places)).2
    (place "a" "x" [.one, .zero])).2 (place "e" "y" [.zero, .one])).2

/-- SEARCH places NEAR VECTOR [1.0, 0.0] WHERE city = 'y' LIMIT 1, with hints. -/
def nearWhere (hints : List QueryHint) : SearchStatement where
  collection := "places"
  fields := .all
  denseVector := some [.one, .zero]
  sparseVector := none
  filter := some (.eq "city" (.string "y"))
  confidence := none
  limit := some 1
  queryText := none
  usingRepr := none
  hints := hints
  within := none
  near := .inl rfl

theorem twoPlaces_upkept : Upkept twoPlaces := by
  refine upkept_perform _ _ (upkept_perform _ _ (upkept_perform _ _ (upkept_init default) ?_) ?_) ?_
  · have declared : ∀ idx ∈ places.indexes, ∀ f ∈ idx.fields,
        f ∈ places.fields.map StoredField.name := by decide
    exact declared
  · refine keepsIndexes_insert ?_ ?_
    · decide
    · decide
  · refine keepsIndexes_insert ?_ ?_
    · decide
    · decide

theorem twoPlaces_schema : twoPlaces.schemas["places"]? = some (buildCollectionSchema places) := by
  decide

theorem planned_where : planSearch twoPlaces.schemas (nearWhere []) = .ok (nearestIn 1) := by
  have known : twoPlaces.schemas[(nearWhere []).collection]? = some (buildCollectionSchema places) :=
    twoPlaces_schema
  rw [planSearch_ok, known]
  exact ⟨rfl, rfl, rfl⟩

theorem two_places_respected :
    RespectsWhere scanning twoPlaces (nearestIn 1) (nearWhere []).filter := by
  have filterable (field : String) (lit : Literal) (filter : (nearWhere []).filter = some (.eq field lit)) :
      Filterable twoPlaces "places" field lit := by
    cases filter
    exact filterable_of_listed (by decide) (by decide)
  exact (respects_where scanning twoPlaces (nearestIn 1) (nearWhere []) planned_where).1
    (preFilter_candidates twoPlaces_upkept planned_where rfl filterable)

/-- The hint leaves the clause out, and the nearest place is in another city. -/
theorem hint_drops_where :
    planSearch twoPlaces.schemas (nearWhere [.noPrefilter]) =
        .ok { nearestIn 1 with preFilter := none } ∧
      ¬ RespectsWhere scanning twoPlaces { nearestIn 1 with preFilter := none }
        (nearWhere [.noPrefilter]).filter := by
  constructor
  · have known : twoPlaces.schemas[(nearWhere [.noPrefilter]).collection]? =
        some (buildCollectionSchema places) := twoPlaces_schema
    rw [planSearch_ok, known]
    exact ⟨rfl, rfl, rfl⟩
  · intro respects
    have returned : (executeSearch scanning twoPlaces { nearestIn 1 with preFilter := none }).toOption.map
        (fun r => r.rows.map fun row => row.values["id"]?) = some [some (.string "a")] := by
      decide +kernel
    obtain ⟨result, done, rows⟩ := ok_of_map returned
    obtain ⟨found, there, same, all⟩ := respects result done
    have ids : (twoPlaces.found scanning { nearestIn 1 with preFilter := none }).toOption.map
        (fun found => found.map fun e => entityMatches e.1 (.eq "city" (.string "y"))) =
          some [false] := by decide +kernel
    obtain ⟨found', there', matches_⟩ := ok_of_map ids
    cases there.symm.trans there'
    obtain ⟨e, listed, fails⟩ : ∃ e ∈ found, entityMatches e.1 (.eq "city" (.string "y")) = false := by
      refine List.mem_map.mp ?_
      rw [matches_]
      exact List.mem_cons_self
    have meets := all e listed _ rfl
    rw [fails] at meets
    cases meets

end Examples
end TronDB.Engine
