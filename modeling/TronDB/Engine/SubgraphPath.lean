import TronDB.Engine.OverFetch
import TronDB.Engine.VectorIndex
import TronDB.Lib.Comparator
import TronDB.Lib.Widening

/-! The search of a small subgraph against the search of the index over the same candidates. -/
namespace TronDB.Engine
open TronDB.Core Binary Wal Ranked Comparator

/-! ### Sorting by score -/

def Scored (hit : LogicalId × F32) : Prop := hit.2.isNaN = false

def compareScores (a b : LogicalId × F32) : Ordering :=
  if b.2.lt a.2 then .lt else if a.2.lt b.2 then .gt else .eq

theorem lt_number {x y : F32} (number : x.isNaN = false) (number' : y.isNaN = false) :
    x.lt y = decide (x.key < y.key) := by
  simp [F32.lt, number, number']

theorem compareScores_preorder : PreorderOn Scored compareScores := by
  have keys : PreorderOn (fun hit : LogicalId × F32 => (fun _ : Int => True) hit.2.key)
      fun a b => compare a.2.key b.2.key :=
    (PreorderOn.of_trans (compare : Int → Int → Ordering) fun _ => True).comap
      fun hit : LogicalId × F32 => hit.2.key
  refine ((keys.reverse).mono fun _ _ => trivial).congr fun a b number number' => ?_
  unfold compareScores
  rw [lt_number number number', lt_number number' number]
  rcases Int.lt_trichotomy a.2.key b.2.key with below | same | above
  · have other : ¬ b.2.key < a.2.key := by omega
    simp [other, below, compare_lt_iff_lt.mpr below]
  · simp [same]
  · have other : compare a.2.key b.2.key = .gt := compare_gt_iff_gt.mpr above
    simp [above, other]

theorem compareScores_iff (a b : LogicalId × F32) :
    compareScores a b ≠ .gt ↔ (!a.2.lt b.2) = true := by
  have once : ¬ (a.2.lt b.2 = true ∧ b.2.lt a.2 = true) := by
    simp only [F32.lt, Bool.and_eq_true, decide_eq_true_eq]
    omega
  unfold compareScores
  cases forth : a.2.lt b.2 <;> cases back : b.2.lt a.2 <;> simp_all

theorem byScore_ranking {hits : Hits} (scored : ∀ hit ∈ hits, Scored hit) :
    Ranking Better (byScore hits) := by
  have sorted := compareScores_preorder.sorted hits scored
  have same : byScore hits = hits.insertionSort fun a b => compareScores a b ≠ .gt := by
    unfold byScore
    simp only [compareScores_iff]
  rw [same]
  refine sorted.imp fun {a b} ordered => ?_
  rw [compareScores_iff] at ordered
  simpa [Better] using ordered

/-! ### The two searches -/

section Paths
variable (env : SearchEnv) (s : State) (p : SearchPlan) (reprName : String) (h : HnswIndex)
  (query : List F32) (candidates : IdSet)

/-- A candidate whose entry in the location table is not stale. -/
def State.cleanCandidate (id : LogicalId) : Bool :=
  !((s.schemaPosition p reprName).any fun i => s.location.stale (id, i)) && candidates.contains id

/-- What an exact search of the index finds among the candidates: over the threshold, not
stale, and no more than the limit. -/
def State.indexPool : Hits :=
  (h.livePoints query).filter fun hit =>
    p.passes hit && s.cleanCandidate p reprName candidates hit.1

def State.subgraphPool : Hits :=
  (env.candidateOrder.order (candidates.toList.map Prod.fst)).filterMap
    (s.subgraphHit p reprName query)

/-- The dense vector of an entity's representation, unless that is marked itself. -/
def State.subgraphVector (id : LogicalId) : Option (List F32) :=
  match s.cleanRepr p reprName id with
  | none => none
  | some r =>
    match r.vector with
    | .dense v => some v
    | .sparse _ => none

/-- The index holds the vectors of the clean candidates as the store has them, none is zero and
every score is a number. -/
structure Comparable : Prop where
  wellFormed : h.WellFormed
  vectors : ∀ id v, s.cleanCandidate p reprName candidates id = true →
    (h.Scores id v ↔ s.subgraphVector p reprName id = some v)
  nonzero : ∀ id v, s.cleanCandidate p reprName candidates id = true →
    h.Scores id v → (norm v).isZero = false
  numbers : ∀ id v, s.cleanCandidate p reprName candidates id = true →
    h.Scores id v → (similarity query v).isNaN = false

/-- The subgraph is searched with the answer of the index, up to ties. -/
def SameAnswer : Prop :=
  ∃ hits, s.searchSubgraph env p candidates = .ok hits ∧
    Best Better p.k (s.indexPool p reprName h query candidates) hits

variable {env s p reprName h query candidates}

theorem mem_livePoints {id : LogicalId} {score : F32} :
    (id, score) ∈ h.livePoints query ↔ ∃ v, h.Scores id v ∧ score = similarity query v := by
  unfold HnswIndex.livePoints HnswIndex.Scores
  rw [List.mem_filterMap]
  constructor
  · rintro ⟨⟨v, idx⟩, there, found⟩
    dsimp only at found
    cases owner : h.idxToId[idx]? with
    | none => rw [owner] at found; cases found
    | some id' =>
      rw [owner] at found
      dsimp only at found
      split at found
      · cases found
      · rename_i kept
        cases found
        exact ⟨v, ⟨idx, there, owner, Bool.eq_false_iff.mpr kept⟩, rfl⟩
  · rintro ⟨v, ⟨idx, there, owner, kept⟩, rfl⟩
    exact ⟨(v, idx), there, by simp [owner, kept]⟩

theorem livePoint_owner {point : List F32 × Nat} {id : LogicalId}
    (found : (match h.idxToId[point.2]? with
      | none => none
      | some id => if h.tombstones.contains id then none
        else some (id, similarity query point.1)).map Prod.fst = some id) :
    h.idxToId[point.2]? = some id := by
  cases owner : h.idxToId[point.2]? with
  | none => rw [owner] at found; cases found
  | some id' =>
    rw [owner] at found
    dsimp only at found
    split at found
    · cases found
    · exact found

theorem nodup_livePoints (wf : h.WellFormed) : ((h.livePoints query).map Prod.fst).Nodup := by
  have numbers : (h.inner.map Prod.snd).Nodup := by
    rw [wf.numbered]
    exact List.nodup_range
  rw [HnswIndex.livePoints, List.map_filterMap]
  rw [List.Nodup, List.pairwise_map] at numbers
  refine List.Pairwise.filterMap _ ?_ numbers
  intro point point' different id found id' found' same
  have place := (wf.ids id point.2).mpr (livePoint_owner found)
  have place' := (wf.ids id' point'.2).mpr (livePoint_owner found')
  rw [same, place'] at place
  exact different (Option.some.inj place).symm

theorem cosine_eq {v : List F32} (nonzero : (norm query).isZero = false) :
    cosine query (.dense v) = (if (norm v).isZero then none else some (similarity query v)) := by
  unfold cosine similarity
  dsimp only
  rw [nonzero, Bool.false_or]
  split
  · rfl
  · rfl

theorem subgraphHit_iff_vector (nonzero : (norm query).isZero = false) {id : LogicalId}
    {hit : LogicalId × F32} : s.subgraphHit p reprName query id = some hit ↔
      ((s.schemaPosition p reprName).any fun i => s.location.stale (id, i)) = false ∧
        ∃ v, s.subgraphVector p reprName id = some v ∧ (norm v).isZero = false ∧
          hit = (id, similarity query v) := by
  unfold State.subgraphHit State.subgraphVector
  cases s.cleanRepr p reprName id with
  | none => simp
  | some r =>
    dsimp only
    cases stale : (s.schemaPosition p reprName).any fun i => s.location.stale (id, i) with
    | true => simp
    | false =>
      cases r.vector with
      | sparse pairs => simp [cosine]
      | dense v =>
        rw [cosine_eq nonzero]
        cases zero : (norm v).isZero with
        | true => simp [zero]
        | false =>
          simp only [Bool.false_eq_true, if_false, Option.map_some, Option.some.injEq, true_and]
          constructor
          · rintro rfl
            exact ⟨v, rfl, zero, rfl⟩
          · rintro ⟨v', rfl, -, rfl⟩
            rfl

theorem mem_candidates (id : LogicalId) :
    id ∈ env.candidateOrder.order (candidates.toList.map Prod.fst) ↔ candidates.contains id = true := by
  rw [(env.candidateOrder.perm _).mem_iff, FinMap.mem_keys]

theorem nodup_subgraphPool (nonzero : (norm query).isZero = false) :
    (s.subgraphPool env p reprName query candidates).Nodup := by
  have ids : (env.candidateOrder.order (candidates.toList.map Prod.fst)).Nodup :=
    (env.candidateOrder.perm _).nodup_iff.mpr (FinMap.nodup_toList candidates)
  refine List.Pairwise.filterMap _ ?_ ids
  intro id id' different hit found hit' found' same
  obtain ⟨-, v, -, -, rfl⟩ := (subgraphHit_iff_vector nonzero).mp found
  obtain ⟨-, v', -, -, rfl⟩ := (subgraphHit_iff_vector nonzero).mp found'
  exact different (Prod.mk.inj same).1

theorem mem_subgraphPool (nonzero : (norm query).isZero = false) {id : LogicalId} {score : F32} :
    (id, score) ∈ s.subgraphPool env p reprName query candidates ↔
      s.cleanCandidate p reprName candidates id = true ∧
        ∃ v, s.subgraphVector p reprName id = some v ∧ (norm v).isZero = false ∧
          score = similarity query v := by
  unfold State.subgraphPool State.cleanCandidate
  rw [List.mem_filterMap, Bool.and_eq_true, Bool.not_eq_true']
  constructor
  · rintro ⟨id', listed, found⟩
    obtain ⟨clean, v, stored, some_, same⟩ := (subgraphHit_iff_vector nonzero).mp found
    cases same
    exact ⟨⟨clean, (mem_candidates id).mp listed⟩, v, stored, some_, rfl⟩
  · rintro ⟨⟨clean, listed⟩, v, stored, some_, rfl⟩
    exact ⟨id, (mem_candidates id).mpr listed,
      (subgraphHit_iff_vector nonzero).mpr ⟨clean, v, stored, some_, rfl⟩⟩

theorem pools_perm (comparable : Comparable s p reprName h query candidates)
    (nonzero : (norm query).isZero = false) :
    (s.subgraphPool env p reprName query candidates).Perm
      ((h.livePoints query).filter fun hit => s.cleanCandidate p reprName candidates hit.1) := by
  have distinct : ((h.livePoints query).filter fun hit =>
      s.cleanCandidate p reprName candidates hit.1).Nodup :=
    ((nodup_livePoints comparable.wellFormed).of_map _).filter _
  rw [List.perm_ext_iff_of_nodup (nodup_subgraphPool nonzero) distinct]
  rintro ⟨id, score⟩
  rw [mem_subgraphPool nonzero, List.mem_filter, mem_livePoints, and_comm]
  constructor
  · rintro ⟨⟨v, stored, -, rfl⟩, clean⟩
    exact ⟨⟨v, (comparable.vectors id v clean).mpr stored, rfl⟩, clean⟩
  · rintro ⟨⟨v, scores, rfl⟩, clean⟩
    exact ⟨⟨v, (comparable.vectors id v clean).mp scores, comparable.nonzero id v clean scores, rfl⟩,
      clean⟩

theorem passes_upward {a b : LogicalId × F32} (scored : Scored a) (scored' : Scored b)
    (passes : p.passes b = true) (noWorse : ¬ Better b a) : p.passes a = true := by
  unfold SearchPlan.passes at passes ⊢
  cases positive : p.confidenceThreshold.gt .zero with
  | false => rfl
  | true =>
    rw [positive] at passes
    have above : b.2.key ≤ a.2.key := by
      rw [Better, lt_number scored scored', decide_eq_true_eq] at noWorse
      omega
    have wide := F32.toF64_mono scored' scored above
    simp only [Bool.not_true, Bool.false_or, F64.ge, Bool.and_eq_true, decide_eq_true_eq] at passes ⊢
    have number := F32.toF64_number scored
    exact ⟨⟨by simp [number], passes.1.2⟩, by omega⟩

theorem scored_subgraphPool (comparable : Comparable s p reprName h query candidates)
    (nonzero : (norm query).isZero = false) :
    ∀ hit ∈ s.subgraphPool env p reprName query candidates, Scored hit := by
  rintro ⟨id, score⟩ there
  obtain ⟨clean, v, stored, -, rfl⟩ := (mem_subgraphPool nonzero).mp there
  exact comparable.numbers id v clean ((comparable.vectors id v clean).mpr stored)

theorem subgraph_runs {v : List F64} (named : p.usingRepr = some reprName)
    (dense : p.denseVector = some v) (nonzero : (norm (v.map F64.toF32)).isZero = false) :
    s.searchSubgraph env p candidates =
      .ok ((byScore (s.subgraphPool env p reprName (v.map F64.toF32) candidates)).take p.k) := by
  simp only [State.searchSubgraph, named, required, subgraphQuery, dense, Bind.bind, Except.bind,
    nonzero, Bool.false_eq_true, if_false, State.subgraphPool]

theorem subgraph_zero {v : List F64} (named : p.usingRepr = some reprName)
    (dense : p.denseVector = some v) (zero : (norm (v.map F64.toF32)).isZero = true) :
    s.searchSubgraph env p candidates = .error (.invalidQuery "zero-norm query vector") := by
  simp only [State.searchSubgraph, named, required, subgraphQuery, dense, Bind.bind, Except.bind,
    zero, if_true]

theorem indexPool_perm (comparable : Comparable s p reprName h query candidates)
    (nonzero : (norm query).isZero = false) :
    ((byScore (s.subgraphPool env p reprName query candidates)).filter p.passes).Perm
      (s.indexPool p reprName h query candidates) := by
  have sorted : (byScore (s.subgraphPool env p reprName query candidates)).Perm
      (s.subgraphPool env p reprName query candidates) := List.perm_insertionSort _ _
  have filtered := (sorted.trans (pools_perm comparable nonzero)).filter p.passes
  rw [List.filter_filter] at filtered
  exact filtered

variable (env s p reprName h candidates)

/-- The subgraph is searched with the answer of the index iff the query is not zero and enough
candidates are over the confidence threshold. -/
theorem same_answer_iff (v : List F64) (named : p.usingRepr = some reprName)
    (dense : p.denseVector = some v)
    (comparable : Comparable s p reprName h (v.map F64.toF32) candidates) :
    SameAnswer env s p reprName h (v.map F64.toF32) candidates ↔
      (norm (v.map F64.toF32)).isZero = false ∧
        min p.k ((h.livePoints (v.map F64.toF32)).filter fun hit =>
            s.cleanCandidate p reprName candidates hit.1).length ≤
          (s.indexPool p reprName h (v.map F64.toF32) candidates).length := by
  cases zero : (norm (v.map F64.toF32)).isZero with
  | true =>
    refine iff_of_false ?_ (fun both => Bool.false_ne_true both.1.symm)
    rintro ⟨hits, answer, -⟩
    rw [subgraph_zero named dense zero] at answer
    cases answer
  | false =>
    have perm := @pools_perm env s p reprName h (v.map F64.toF32) candidates comparable zero
    have filtered := @indexPool_perm env s p reprName h (v.map F64.toF32) candidates comparable zero
    have scored := @scored_subgraphPool env s p reprName h (v.map F64.toF32) candidates comparable zero
    have ranked := byScore_ranking scored
    have upward : Upward Better p.passes
        (byScore (s.subgraphPool env p reprName (v.map F64.toF32) candidates)) := by
      intro a here b there passes noWorse
      rw [byScore, List.mem_insertionSort] at here there
      exact passes_upward (scored a here) (scored b there) passes noWorse
    have limit := best_unfiltered_iff ranked upward p.k
    have size : (byScore (s.subgraphPool env p reprName (v.map F64.toF32) candidates)).length =
        ((h.livePoints (v.map F64.toF32)).filter fun hit =>
          s.cleanCandidate p reprName candidates hit.1).length := by
      rw [byScore, List.length_insertionSort, perm.length_eq]
    rw [size, filtered.length_eq] at limit
    simp only [true_and]
    rw [← limit]
    constructor
    · rintro ⟨hits, answer, best⟩
      rw [subgraph_runs named dense zero] at answer
      cases answer
      exact best.perm filtered.symm
    · intro best
      exact ⟨_, subgraph_runs named dense zero, best.perm filtered⟩

end Paths

/-! ### A place at a right angle -/

section Examples
attribute [local instance] headerOnly

/-- SEARCH places NEAR VECTOR [1.0, 0.0] USING at CONFIDENCE > threshold LIMIT 1 -/
def nearestAt (threshold : F64) : SearchPlan :=
  { nearestIn 1 with preFilter := none, usingRepr := some "at", confidenceThreshold := threshold }

theorem townIndex_wellFormed : townIndex.WellFormed := by
  have built : townIndex = (((((HnswIndex.new 2).insert "a" [.one, ⟨0⟩]).insert "b"
      [.one, ⟨0⟩]).insert "c" [.one, ⟨0⟩]).insert "d" [.one, ⟨0⟩]).insert "e" [⟨0⟩, .one] := by
    decide
  rw [built]
  repeat' apply HnswIndex.wellFormed_insert
  exact HnswIndex.wellFormed_new 2

theorem e_comparable (threshold : F64) : Comparable town (nearestAt threshold) "at" townIndex
    ([F64.one, .zero].map F64.toF32) (.ofList ["e"]) := by
  have only (id : LogicalId)
      (clean : town.cleanCandidate (nearestAt threshold) "at" (.ofList ["e"]) id = true) :
      id = "e" := by
    rw [State.cleanCandidate, Bool.and_eq_true] at clean
    have listed := clean.2
    simp only [IdSet.ofList, List.foldl_cons, List.foldl_nil, Std.ExtTreeMap.contains_insert,
      Std.ExtTreeMap.contains_empty, Bool.or_false, beq_iff_eq] at listed
    exact (Std.LawfulEqCmp.eq_of_compare listed).symm
  have slot : townIndex.slot "e" = .live [⟨0⟩, .one] := by decide
  have stored : town.subgraphVector (nearestAt .zero) "at" "e" = some [⟨0⟩, .one] := by
    decide
  have same : town.subgraphVector (nearestAt threshold) "at" "e" =
      town.subgraphVector (nearestAt .zero) "at" "e" := by
    simp only [State.subgraphVector, State.cleanRepr, nearestAt, nearestIn]
  rw [← same] at stored
  have scores (v : List F32) (there : townIndex.Scores "e" v) : v = [⟨0⟩, .one] := by
    rw [HnswIndex.scores_iff townIndex_wellFormed, slot] at there
    exact (Slot.live.inj there).symm
  refine ⟨townIndex_wellFormed, fun id v clean => ?_, fun id v clean there => ?_,
    fun id v clean there => ?_⟩
  · cases only id clean
    rw [HnswIndex.scores_iff townIndex_wellFormed, slot, stored, Slot.live.injEq, Option.some.injEq]
  · cases only id clean
    cases scores v there
    decide +kernel
  · cases only id clean
    cases scores v there
    decide +kernel

theorem e_same_answer : SameAnswer scanning town (nearestAt .zero) "at" townIndex
    ([F64.one, .zero].map F64.toF32) (.ofList ["e"]) :=
  (same_answer_iff scanning town (nearestAt .zero) "at" townIndex (.ofList ["e"]) [.one, .zero]
    rfl rfl (e_comparable .zero)).mpr (by decide +kernel)

/-- The subgraph is searched for a place under the threshold of one half. -/
theorem threshold_forgotten : ¬ SameAnswer scanning town (nearestAt ⟨0x3FE0000000000000⟩) "at"
    townIndex ([F64.one, .zero].map F64.toF32) (.ofList ["e"]) := by
  rintro ⟨hits, answer, best⟩
  have found : (town.searchSubgraph scanning (nearestAt ⟨0x3FE0000000000000⟩)
      (.ofList ["e"])).toOption.map List.length = some 1 := by decide +kernel
  have pool : (town.indexPool (nearestAt ⟨0x3FE0000000000000⟩) "at" townIndex
      ([F64.one, .zero].map F64.toF32) (.ofList ["e"])).length = 0 := by decide +kernel
  have count := best.count
  rw [pool, Nat.min_zero] at count
  rw [answer] at found
  simp only [Except.toOption, Option.map_some, count] at found
  cases found

end Examples
end TronDB.Engine
