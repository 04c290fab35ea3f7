import TronDB.Engine.SearchFresh
import TronDB.Lib.Ranked

/-! Whether a SEARCH finds the best of what its filter allows: the index is asked for more than
the limit, and what it answers is filtered afterwards. -/
namespace TronDB.Engine
open TronDB.Core Binary Wal Ranked

/-! ### Exact search -/

def similarity (query v : List F32) : F32 :=
  if (norm query).isZero || (norm v).isZero then ⟨0⟩
  else (dot query v).div ((norm query).mul (norm v))

namespace HnswIndex
variable (h : HnswIndex) (query : List F32)

def livePoints : Hits :=
  h.inner.filterMap fun point =>
    match h.idxToId[point.2]? with
    | none => none
    | some id =>
      if h.tombstones.contains id then none else some (id, similarity query point.1)

def exactScan (k : Nat) : Hits := (byScore (h.livePoints query)).take k

end HnswIndex

def Better (a b : LogicalId × F32) : Prop := b.2.lt a.2 = true

section OverFetch
variable (env : SearchEnv) (s : State) (p : SearchPlan)

/-- The HNSW index that a SEARCH walks, and the query. -/
def State.walked : Option (HnswIndex × List F32) :=
  match p.strategy with
  | .hnsw =>
    match p.denseVector, s.firstDense env p with
    | some query, some index => some (index.2, query.map F64.toF32)
    | _, _ => none
  | .naturalLanguage =>
    match p.queryText, s.textRepr p with
    | some text, .ok reprName =>
      match encodeQueryText env p reprName text, s.indexes[(p.collection, reprName)]? with
      | .ok (.dense v), some index => if s.usesSparse p then none else some (index, v)
      | _, _ => none
    | _, _ => none
  | _ => none

/-- The walk returns the points nearest to the query, as many as it is asked for, and they are
points of stored entities. -/
structure ExactWalk (index : HnswIndex) (query : List F32) (ranked : Hits) : Prop where
  walk : ∀ k, env.env.search index query k = ranked.take k
  nearest : Ranking Better ranked
  live : ∀ hit ∈ ranked, ∃ e, s.store.get p.collection hit.1 = .ok e

/-- How many points are looked at: in two passes no more than the limit. -/
def SearchPlan.depth : Nat :=
  match p.twoPass with
  | some twoPass => min p.k twoPass.firstPassK
  | none => p.k * 4

/-- At or over the confidence threshold, if there is one. -/
def SearchPlan.passes (hit : LogicalId × F32) : Bool :=
  !p.confidenceThreshold.gt .zero || hit.2.toF64.ge p.confidenceThreshold

/-- A hit that has a clean entry and is one of the candidates. -/
def State.qualifies (allowed : IdSet) (hit : LogicalId × F32) : Bool :=
  p.passes hit &&
    !((s.searchedReprIdx env p).any fun i => s.location.stale (hit.1, i)) && allowed.contains hit.1

/-- A row for each of the k best that qualify, or for all of them if they are fewer. -/
def KeepsMatches (allowed : IdSet) (ranked : Hits) : Prop :=
  ∃ chosen, executeSearch env s p = .ok (p.result chosen.length (s.resolve p chosen)) ∧
    (s.resolve p chosen).length = chosen.length ∧
      Best Better p.k (ranked.filter (s.qualifies env p allowed)) chosen

variable {env s p} {index : HnswIndex} {query : List F32} {ranked : Hits} {allowed : IdSet}

theorem confident_eq (hits : Hits) : p.confident hits = hits.filter p.passes := by
  unfold SearchPlan.confident SearchPlan.passes
  cases p.confidenceThreshold.gt .zero with
  | true => rfl
  | false =>
    rw [if_neg Bool.false_ne_true]
    exact (List.filter_eq_self.mpr fun _ _ => rfl).symm

theorem withoutStale_eq (reprIdx : Option Nat) (hits : Hits) :
    s.withoutStale reprIdx hits =
      hits.filter fun hit => !reprIdx.any fun i => s.location.stale (hit.1, i) := by
  cases reprIdx with
  | none => exact (List.filter_eq_self.mpr fun _ _ => rfl).symm
  | some i => rfl

/-- A SEARCH that walks an HNSW index cuts what it finds at its confidence threshold. -/
theorem strategyHits_walked (walked : s.walked env p = some (index, query)) (fetchK : Nat) :
    s.strategyHits env p fetchK = .ok (p.confident (p.searchDense env index query fetchK)) := by
  unfold State.walked at walked
  cases strategy : p.strategy with
  | hnsw =>
    rw [strategy] at walked
    dsimp only at walked
    cases vector : p.denseVector with
    | none => rw [vector] at walked; cases walked
    | some v =>
      cases first : s.firstDense env p with
      | none => rw [vector, first] at walked; cases walked
      | some e =>
        rw [vector, first] at walked
        cases walked
        simp only [State.strategyHits, strategy, vector, first, required]
        rfl
  | naturalLanguage =>
    rw [strategy] at walked
    dsimp only at walked
    cases text : p.queryText with
    | none => rw [text] at walked; cases walked
    | some t =>
      cases named : s.textRepr p with
      | error e => rw [text, named] at walked; cases walked
      | ok reprName =>
        rw [text, named] at walked
        dsimp only at walked
        split at walked
        · rename_i v index' encoded found
          split at walked
          · cases walked
          · rename_i dense
            cases walked
            simp only [State.strategyHits, strategy, State.searchText, text, named, required, encoded,
              found, Bind.bind, Except.bind, if_neg dense]
        · cases walked
  | sparse =>
    rw [strategy] at walked
    cases walked
  | hybrid =>
    rw [strategy] at walked
    cases walked

theorem searchDense_depth (exact_ : ExactWalk env s p index query ranked) :
    p.searchDense env index query (p.fetchK (some allowed)) = ranked.take p.depth := by
  unfold SearchPlan.searchDense SearchPlan.depth
  cases p.twoPass with
  | none => exact exact_.walk _
  | some twoPass =>
    dsimp only
    rw [exact_.walk, List.take_take]

theorem searchIndexes_walked (walked : s.walked env p = some (index, query))
    (exact_ : ExactWalk env s p index query ranked) :
    s.searchIndexes env p (some allowed) =
      .ok (((ranked.take p.depth).filter (s.qualifies env p allowed)).take p.k) := by
  unfold State.searchIndexes
  rw [strategyHits_walked walked, searchDense_depth exact_]
  simp only [Bind.bind, Except.bind, onlyAllowed, withoutStale_eq, confident_eq, List.filter_filter]
  refine congrArg (fun keep => Except.ok (((ranked.take p.depth).filter keep).take p.k)) ?_
  funext hit
  unfold State.qualifies
  cases p.passes hit <;> cases allowed.contains hit.1 <;> simp

theorem resolve_live (exact_ : ExactWalk env s p index query ranked) {hits : Hits}
    (among : ∀ hit ∈ hits, hit ∈ ranked) : (s.resolve p hits).length = hits.length := by
  induction hits with
  | nil => rfl
  | cons hit rest ih =>
    obtain ⟨e, stored⟩ := exact_.live hit (among hit (List.mem_cons_self ..))
    have others := ih fun other there => among other (List.mem_cons_of_mem _ there)
    have first : s.resolve p (hit :: rest) = (e, hit.2) :: s.resolve p rest := by
      simp [State.resolve, stored, Except.toOption]
    rw [first, List.length_cons, List.length_cons, others]

variable (env s p)

/-- A SEARCH with a filter is answered by the best of what qualifies iff enough of it is among
the points that are looked at. -/
theorem keeps_matches_iff (index : HnswIndex) (query : List F32) (ranked : Hits) (allowed : IdSet)
    (path : s.searchPath env p = .ok (.indexes (some allowed)))
    (walked : s.walked env p = some (index, query))
    (exact_ : ExactWalk env s p index query ranked) :
    KeepsMatches env s p allowed ranked ↔
      min p.k (ranked.filter (s.qualifies env p allowed)).length ≤
        ((ranked.take p.depth).filter (s.qualifies env p allowed)).length := by
  have runs : executeSearch env s p = .ok (p.result
      (((ranked.take p.depth).filter (s.qualifies env p allowed)).take p.k).length
      (s.resolve p (((ranked.take p.depth).filter (s.qualifies env p allowed)).take p.k))) := by
    unfold executeSearch
    rw [path]
    simp only [Bind.bind, Except.bind, State.searchAlong, searchIndexes_walked walked exact_]
  have among : ∀ hit ∈ ((ranked.take p.depth).filter (s.qualifies env p allowed)).take p.k,
      hit ∈ ranked := fun hit there =>
    List.mem_of_mem_take (List.mem_of_mem_filter (List.mem_of_mem_take there))
  constructor
  · rintro ⟨chosen, answer, rows, best⟩
    have same := congrArg (fun result => result.rows.length) (Except.ok.inj (runs.symm.trans answer))
    simp only [SearchPlan.result, List.length_map, rows, resolve_live exact_ among] at same
    have count := best.count
    rw [List.length_take] at same
    omega
  · intro enough
    exact ⟨_, runs, resolve_live exact_ among, (best_cut_iff exact_.nearest _ _ _).mpr enough⟩

end OverFetch

/-! ### Four places nearer than the only match -/

section Examples
attribute [local instance] headerOnly

def places : CreateCollectionPlan where
  name := "places"
  representations := [⟨"at", none, some 2, .cosine, false, []⟩]
  fields := [⟨"city", .text⟩]
  indexes := [⟨"by_city", ["city"], none⟩]
  vectoriserConfig := none

def place (id city : String) (at_ : List F64) : Write :=
  .insert ⟨"places", ["id", "city"], [.string id, .string city], [("at", .dense at_)], none, none⟩

/-- Four places in one direction, and one in another city in another direction. -/
def town : State :=
  ([.createCollection places, place "a" "x" [.one, .zero], place "b" "x" [.one, .zero],
    place "c" "x" [.one, .zero], place "d" "x" [.one, .zero],
    place "e" "y" [.zero, .one]].map fun w => (Env.idle, w)).foldl State.step (.init default)

def scanning : SearchEnv where
  env := { Env.idle with search := HnswIndex.exactScan }
  read := ⟨id, fun _ _ _ => 0, .insertionOrder _⟩
  encodeQuery _ _ _ := .error ""
  display _ := ""
  sparseOrder := .insertionOrder _
  scoreOrder := .insertionOrder _
  candidateOrder := .insertionOrder _

/-- SEARCH places NEAR VECTOR [1.0, 0.0] WHERE city = 'y' LIMIT k -/
def nearestIn (k : Nat) : SearchPlan where
  collection := "places"
  fields := .all
  denseVector := some [.one, .zero]
  sparseVector := none
  preFilter := some ⟨"by_city", .eq "city" (.string "y")⟩
  k := k
  confidenceThreshold := .zero
  strategy := .hnsw
  queryText := none
  usingRepr := none
  twoPass := none
  within := none

def townIndex : HnswIndex := town.indexes[("places", "at")]?.getD (.new 2)

def ranking : Hits := [("a", .one), ("b", .one), ("c", .one), ("d", .one), ("e", ⟨0⟩)]

theorem town_path (k : Nat) :
    town.searchPath scanning (nearestIn k) = .ok (.indexes (some (.ofList ["e"]))) := by
  have present : town.store.hasCollection "places" = true := by decide
  have types : town.fieldIndexes[("places", "by_city")]? = some [("city", .text)] := by
    decide
  have listed : (FieldIndex.lookupEq ⟨town.store.indexPartition "places" "by_city",
      [("city", .text)]⟩ [.string "y"]).toOption.map id = some ["e"] := by decide
  obtain ⟨ids, found, rfl⟩ := ok_of_map listed
  have filtered : town.preFilterIds (nearestIn k) = .ok (some (.ofList ["e"])) := by
    simp only [State.preFilterIds, nearestIn, types, literalToValue, Bind.bind, Except.bind, found]
  have present : town.store.hasCollection (nearestIn k).collection = true := present
  rw [State.searchPath, if_pos present, filtered]
  rfl

theorem town_walked (k : Nat) :
    town.walked scanning (nearestIn k) = some (townIndex, [.one, ⟨0⟩]) := by
  have first : town.firstDense scanning (nearestIn 0) = some ("at", townIndex) := by
    decide
  have first : town.firstDense scanning (nearestIn k) = some ("at", townIndex) := first
  have query : [F64.one, .zero].map F64.toF32 = [.one, ⟨0⟩] := by decide
  simp only [State.walked, first]
  exact congrArg (fun v => some (townIndex, v)) query

theorem town_exact (k : Nat) :
    ExactWalk scanning town (nearestIn k) townIndex [.one, ⟨0⟩] ranking := by
  have points : byScore (townIndex.livePoints [.one, ⟨0⟩]) = ranking := by decide +kernel
  have stored : ∀ hit ∈ ranking, (town.store.get "places" hit.1).isOk = true := by decide +kernel
  have nearest : Ranking Better ranking := by
    unfold Ranking Better
    decide
  refine ⟨fun k => congrArg (List.take k) points, nearest, fun hit there => ?_⟩
  have found := stored hit there
  cases got : town.store.get "places" hit.1 with
  | error e => rw [got] at found; cases found
  | ok e => exact ⟨e, got⟩

/-- With a limit of two, eight points are looked at, and that is all there are. -/
theorem two_places_kept :
    KeepsMatches scanning town (nearestIn 2) (.ofList ["e"]) ranking :=
  (keeps_matches_iff scanning town (nearestIn 2) townIndex _ ranking _ (town_path 2)
    (town_walked 2) (town_exact 2)).mpr (by decide)

/-- With a limit of one, the four places that are nearer are all that is looked at. -/
theorem match_lost :
    town.searchPath scanning (nearestIn 1) = .ok (.indexes (some (.ofList ["e"]))) ∧
      town.walked scanning (nearestIn 1) = some (townIndex, [.one, ⟨0⟩]) ∧
        ExactWalk scanning town (nearestIn 1) townIndex [.one, ⟨0⟩] ranking ∧
          ¬ KeepsMatches scanning town (nearestIn 1) (.ofList ["e"]) ranking := by
  refine ⟨town_path 1, town_walked 1, town_exact 1, ?_⟩
  rintro ⟨chosen, answer, rows, best⟩
  have found : (executeSearch scanning town (nearestIn 1)).toOption.map (fun r => r.rows.length) =
      some 0 := by decide +kernel
  have pool : (ranking.filter (town.qualifies scanning (nearestIn 1) (.ofList ["e"]))).length = 1 := by
    decide +kernel
  have count := best.count
  rw [pool, ← rows] at count
  rw [answer] at found
  simp only [Except.toOption, Option.map_some, SearchPlan.result, List.length_map, count] at found
  cases found

end Examples
end TronDB.Engine
