import TronDB.Engine.SubgraphPath

/-! Whether the search of a small dense index is complete: the walk of the graph can come back
short, and then the points are scanned. -/
namespace TronDB.Engine
open TronDB.Core Binary Ranked

/-- As many live entries as a search that comes back short may scan. -/
def scanFallbackMaxElements : Nat := 1024

namespace HnswIndex

/-! ### The search -/

def add (h : HnswIndex) (id : LogicalId) (vector : List F32) : HnswIndex :=
  { h with
    inner := h.inner ++ [(vector, h.nextIdx)]
    idToIdx := h.idToIdx.insert id h.nextIdx
    idxToId := h.idxToId.insert h.nextIdx id
    nextIdx := h.nextIdx + 1 }

def rebuild (h : HnswIndex) (liveData : List (LogicalId × List F32)) : HnswIndex :=
  liveData.foldl (fun h entry => h.add entry.1 entry.2) (new h.dimensions)

/-- The neighbours of a walk, with the number of their points and their distance, as hits. -/
def walkHits (h : HnswIndex) (neighbours : List (Nat × F32)) : Hits :=
  neighbours.filterMap fun n =>
    let similarity := F32.one.sub n.2
    match h.idxToId[n.1]? with
    | none => none
    | some id => if h.tombstones.contains id then none else some (id, similarity)

/-- The neighbours are what the graph answers to the query, the points what it is made of, in the
order in which it goes through them. -/
def searchWithEf (h : HnswIndex) (neighbours : List (Nat × F32)) (points : List (List F32 × Nat))
    (query : List F32) (k : Nat) : Hits :=
  if h.isEmpty then []
  else
    let results := h.walkHits neighbours
    let live := h.len
    let expected := min k live
    byScore (if results.length < expected ∧ live ≤ scanFallbackMaxElements then
        { h with inner := points }.exactScan query k
      else results)

/-! ### Reachable indexes -/

/-- What becomes of a new index. An index is saved and restored at any time, so that what is
restored comes from an earlier one. -/
inductive Reachable : HnswIndex → Prop where
  | new (dimensions : Nat) : Reachable (new dimensions)
  | insert {h : HnswIndex} (before : Reachable h) (id : LogicalId) (v : List F32) :
      Reachable (h.insert id v)
  | remove {h : HnswIndex} (before : Reachable h) (id : LogicalId) : Reachable (h.remove id)
  | rebuild {h : HnswIndex} (before : Reachable h) (liveData : List (LogicalId × List F32))
      (distinct : (liveData.map Prod.fst).Nodup) : Reachable (h.rebuild liveData)
  | restore {h : HnswIndex} (saved : Reachable h) : Reachable h.fromSnapshot

def Live (h : HnswIndex) (id : LogicalId) : Prop :=
  h.idToIdx.contains id = true ∧ h.tombstones.contains id = false

def liveIds (h : HnswIndex) : List LogicalId :=
  (h.idToIdx.toList.map Prod.fst).filter fun id => !h.tombstones.contains id

/-- What the walk of a graph can answer: some of its points, at most as many as asked for, each
once and with a distance. -/
structure Walk (h : HnswIndex) (k : Nat) (neighbours : List (Nat × F32)) : Prop where
  stored : ∀ n ∈ neighbours, n.1 ∈ h.inner.map Prod.snd
  distinct : (neighbours.map Prod.fst).Nodup
  atMost : neighbours.length ≤ k
  distances : ∀ n ∈ neighbours, n.2.isNaN = false

/-- As many hits as there are live entries, or as asked for, and the best first. -/
structure Complete (h : HnswIndex) (k : Nat) (hits : Hits) : Prop where
  count : hits.length = min k h.liveIds.length
  distinct : (hits.map Prod.fst).Nodup
  live : ∀ hit ∈ hits, h.Live hit.1
  nonIncreasing : hits.Pairwise fun a b => a.2.ge b.2 = true

/-- The maps and the points belong together, and the tombstones are counted. -/
structure InStep (h : HnswIndex) : Prop where
  wellFormed : h.WellFormed
  counted : h.tombstoneCount = h.tombstones.size

variable {h : HnswIndex}

theorem insert_eq_add {id : LogicalId} (unknown : h.idToIdx.contains id = false) (v : List F32) :
    h.insert id v = h.add id v := by
  unfold insert
  rw [unknown]
  rfl

theorem rebuild_eq (h : HnswIndex) {liveData : List (LogicalId × List F32)}
    (distinct : (liveData.map Prod.fst).Nodup) :
    h.rebuild liveData =
      liveData.foldl (fun h entry => h.insert entry.1 entry.2) (new h.dimensions) := by
  have same (h : HnswIndex) (unknown : ∀ entry ∈ liveData, h.idToIdx.contains entry.1 = false) :
      liveData.foldl (fun h entry => h.add entry.1 entry.2) h =
        liveData.foldl (fun h entry => h.insert entry.1 entry.2) h := by
    induction liveData generalizing h with
    | nil => rfl
    | cons entry rest ih =>
      obtain ⟨here, later⟩ := List.forall_mem_cons.mp unknown
      rw [List.map_cons, List.nodup_cons] at distinct
      rw [List.foldl_cons, List.foldl_cons, insert_eq_add here]
      refine ih distinct.2 _ fun other there => ?_
      have differ : entry.1 ≠ other.1 := fun same =>
        distinct.1 (same ▸ List.mem_map_of_mem there)
      unfold add
      rw [Std.ExtTreeMap.contains_insert, later other there]
      simpa using differ
  exact same _ fun entry _ => by simp [new]

theorem inStep_insert (inStep : h.InStep) (id : LogicalId) (v : List F32) : (h.insert id v).InStep := by
  refine ⟨wellFormed_insert inStep.wellFormed id v, ?_⟩
  unfold insert
  split
  · exact inStep.counted
  · exact inStep.counted

theorem inStep_remove (inStep : h.InStep) (id : LogicalId) : (h.remove id).InStep := by
  refine ⟨wellFormed_remove inStep.wellFormed id, ?_⟩
  unfold remove
  split
  · dsimp only
    rw [Std.ExtTreeMap.size_insert, inStep.counted]
  · exact inStep.counted

theorem Reachable.inStep (reachable : h.Reachable) : h.InStep := by
  induction reachable with
  | new dimensions => exact ⟨wellFormed_new dimensions, rfl⟩
  | insert before id v ih => exact inStep_insert ih id v
  | remove before id ih => exact inStep_remove ih id
  | @rebuild h before liveData distinct ih =>
    rw [rebuild_eq h distinct]
    have all (h : HnswIndex) (inStep : h.InStep) :
        (liveData.foldl (fun h entry => h.insert entry.1 entry.2) h).InStep := by
      clear distinct
      induction liveData generalizing h with
      | nil => exact inStep
      | cons entry rest ih' => exact ih' _ (inStep_insert inStep entry.1 entry.2)
    exact all _ ⟨wellFormed_new _, rfl⟩
  | restore saved ih => exact ⟨⟨ih.wellFormed.numbered, ih.wellFormed.ids, ih.wellFormed.below,
      ih.wellFormed.tombstones⟩, rfl⟩

/-! ### Live entries -/

theorem mem_liveIds (h : HnswIndex) (id : LogicalId) : id ∈ h.liveIds ↔ h.Live id := by
  unfold liveIds Live
  rw [List.mem_filter, Bool.not_eq_true', FinMap.mem_keys]

theorem nodup_liveIds (h : HnswIndex) : h.liveIds.Nodup :=
  (FinMap.nodup_toList h.idToIdx).filter _

theorem InStep.len_eq (inStep : h.InStep) : h.len = h.liveIds.length := by
  have buried : ((h.idToIdx.toList.map Prod.fst).filter fun id => h.tombstones.contains id).Perm
      (h.tombstones.toList.map Prod.fst) := by
    refine (List.perm_ext_iff_of_nodup ((FinMap.nodup_toList h.idToIdx).filter _)
      (FinMap.nodup_toList h.tombstones)).mpr fun id => ?_
    rw [List.mem_filter, FinMap.mem_keys, FinMap.mem_keys]
    exact ⟨And.right, fun there => ⟨inStep.wellFormed.tombstones id there, there⟩⟩
  have parts := List.length_eq_length_filter_add (l := h.idToIdx.toList.map Prod.fst)
    fun id => h.tombstones.contains id
  rw [buried.length_eq, List.length_map, List.length_map, Std.ExtTreeMap.length_toList,
    Std.ExtTreeMap.length_toList] at parts
  unfold len liveIds
  rw [inStep.counted, parts, Nat.add_sub_cancel_left]

theorem WellFormed.scored (wf : h.WellFormed) {id : LogicalId} (live : h.Live id) :
    ∃ v, h.Scores id v := by
  obtain ⟨known, kept⟩ := live
  rw [Std.ExtTreeMap.contains_eq_isSome_getElem?] at known
  obtain ⟨idx, found⟩ := Option.isSome_iff_exists.mp known
  have inside : idx < h.inner.length := wf.length ▸ wf.below id idx found
  have number : (h.inner.map Prod.snd)[idx]? = some idx := by
    rw [wf.numbered, List.getElem?_range (wf.below id idx found)]
  rw [List.getElem?_map, List.getElem?_eq_getElem inside, Option.map_some] at number
  refine ⟨h.inner[idx].1, idx, ?_, (wf.ids id idx).mp found, kept⟩
  have whole : (h.inner[idx].1, idx) = h.inner[idx] := Prod.ext rfl (Option.some.inj number).symm
  rw [whole]
  exact List.getElem_mem inside

theorem Scores.live (wf : h.WellFormed) {id : LogicalId} {v : List F32} (scores : h.Scores id v) :
    h.Live id := by
  obtain ⟨idx, -, owner, kept⟩ := scores
  refine ⟨?_, kept⟩
  rw [Std.ExtTreeMap.contains_eq_isSome_getElem?, (wf.ids id idx).mpr owner]
  rfl

theorem InStep.livePoints_perm (inStep : h.InStep) (query : List F32) :
    ((h.livePoints query).map Prod.fst).Perm h.liveIds := by
  refine (List.perm_ext_iff_of_nodup (nodup_livePoints inStep.wellFormed) h.nodup_liveIds).mpr
    fun id => ?_
  rw [mem_liveIds, List.mem_map]
  constructor
  · rintro ⟨⟨id, score⟩, there, rfl⟩
    obtain ⟨v, scores, -⟩ := mem_livePoints.mp there
    exact scores.live inStep.wellFormed
  · intro live
    obtain ⟨v, scores⟩ := inStep.wellFormed.scored live
    exact ⟨(id, similarity query v), mem_livePoints.mpr ⟨v, scores, rfl⟩, rfl⟩

/-! ### What a walk finds -/

theorem isNaN_one_sub {d : F32} (number : d.isNaN = false) : (F32.one.sub d).isNaN = false := by
  have one : F32.one.toF64 = F64.one := by decide
  unfold F32.sub F64.sub
  rw [one]
  exact F64.isNaN_toF32 (F64.isNaN_add (by decide) (F64.isNaN_neg (F32.toF64_number number)) (by decide))

theorem walkHit_iff {n : Nat × F32} {hit : LogicalId × F32} :
    (match h.idxToId[n.1]? with
      | none => none
      | some id =>
        if h.tombstones.contains id then none else some (id, F32.one.sub n.2)) = some hit ↔
      h.idxToId[n.1]? = some hit.1 ∧ h.tombstones.contains hit.1 = false ∧
        hit.2 = F32.one.sub n.2 := by
  cases owner : h.idxToId[n.1]? with
  | none => simp
  | some id =>
    dsimp only
    constructor
    · intro found
      split at found
      · cases found
      · rename_i kept
        cases found
        exact ⟨rfl, Bool.eq_false_iff.mpr kept, rfl⟩
    · rintro ⟨same, kept, score⟩
      cases same
      rw [kept, ← score]
      rfl

/-- Live entries, each once, and at most as many as asked for. -/
structure Found (h : HnswIndex) (k : Nat) (hits : Hits) : Prop where
  distinct : (hits.map Prod.fst).Nodup
  live : ∀ hit ∈ hits, h.Live hit.1
  atMost : hits.length ≤ k

theorem Walk.found (wf : h.WellFormed) {k : Nat} {neighbours : List (Nat × F32)}
    (walk : h.Walk k neighbours) : h.Found k (h.walkHits neighbours) := by
  constructor
  · have distinct := walk.distinct
    unfold walkHits
    rw [List.Nodup, List.pairwise_map] at distinct ⊢
    refine List.Pairwise.filterMap _ ?_ distinct
    intro n n' different hit found hit' found' same
    have place := (wf.ids _ _).mpr (walkHit_iff.mp found).1
    have place' := (wf.ids _ _).mpr (walkHit_iff.mp found').1
    rw [same, place'] at place
    exact different (Option.some.inj place).symm
  · intro hit there
    obtain ⟨n, listed, found⟩ := List.mem_filterMap.mp there
    obtain ⟨owner, kept, -⟩ := walkHit_iff.mp found
    refine ⟨?_, kept⟩
    rw [Std.ExtTreeMap.contains_eq_isSome_getElem?, (wf.ids _ _).mpr owner]
    rfl
  · exact Nat.le_trans (List.length_filterMap_le _ _) walk.atMost

theorem Walk.scored {k : Nat} {neighbours : List (Nat × F32)} (walk : h.Walk k neighbours) :
    ∀ hit ∈ h.walkHits neighbours, Scored hit := by
  intro hit there
  obtain ⟨n, listed, found⟩ := List.mem_filterMap.mp there
  obtain ⟨-, -, score⟩ := walkHit_iff.mp found
  rw [Scored, score]
  exact isNaN_one_sub (walk.distances n listed)

theorem Found.le_live {k : Nat} {hits : Hits} (found : h.Found k hits) :
    hits.length ≤ min k h.liveIds.length := by
  have among : (hits.map Prod.fst).Subperm h.liveIds :=
    List.subperm_of_subset found.distinct fun id there => by
      obtain ⟨hit, listed, rfl⟩ := List.mem_map.mp there
      exact (mem_liveIds h hit.1).mpr (found.live hit listed)
  have bound := among.length_le
  rw [List.length_map] at bound
  exact Nat.le_min.mpr ⟨found.atMost, bound⟩

/-! ### What the search returns -/

theorem byScore_nonIncreasing {hits : Hits} (scored : ∀ hit ∈ hits, Scored hit) :
    (byScore hits).Pairwise fun a b => a.2.ge b.2 = true := by
  have sorted : (byScore hits).Perm hits := List.perm_insertionSort _ _
  refine (byScore_ranking scored).imp_of_mem fun {a b} here there notBetter => ?_
  have number := scored a (sorted.mem_iff.mp here)
  have number' := scored b (sorted.mem_iff.mp there)
  unfold Better at notBetter
  rw [lt_number number number', decide_eq_true_eq] at notBetter
  unfold F32.ge
  rw [number, number']
  simpa using notBetter

theorem Found.complete {k : Nat} {hits : Hits} (found : h.Found k hits)
    (enough : min k h.liveIds.length ≤ hits.length)
    (orderly : h.liveIds.length ≤ 1 ∨ ∀ hit ∈ hits, Scored hit) : h.Complete k (byScore hits) := by
  have sorted : (byScore hits).Perm hits := List.perm_insertionSort _ _
  have bound := found.le_live
  refine {
    count := sorted.length_eq.trans (Nat.le_antisymm bound enough)
    distinct := (sorted.map Prod.fst).nodup_iff.mpr found.distinct
    live := fun hit there => found.live hit (sorted.mem_iff.mp there)
    nonIncreasing := ?_ }
  rcases orderly with one | scored
  · have short : (byScore hits).length ≤ 1 := by
      have length := sorted.length_eq
      omega
    generalize byScore hits = ranked at short
    rcases ranked with _ | ⟨hit, _ | ⟨hit', rest⟩⟩
    · exact .nil
    · exact List.pairwise_singleton _ _
    · simp at short
  · exact byScore_nonIncreasing scored

section Scan
variable {points : List (List F32 × Nat)} (all : points.Perm h.inner) (query : List F32) (k : Nat)
include all

theorem livePoints_reordered :
    (({ h with inner := points } : HnswIndex).livePoints query).Perm (h.livePoints query) :=
  all.filterMap _

theorem scan_found (inStep : h.InStep) :
    h.Found k (({ h with inner := points } : HnswIndex).exactScan query k) ∧
      (({ h with inner := points } : HnswIndex).exactScan query k).length =
        min k h.liveIds.length := by
  have points_ := livePoints_reordered all query
  have ids := (points_.map Prod.fst).trans (inStep.livePoints_perm query)
  have sorted : (byScore (({ h with inner := points } : HnswIndex).livePoints query)).Perm _ :=
    List.perm_insertionSort _ _
  have count := ids.length_eq
  rw [List.length_map, ← sorted.length_eq] at count
  unfold exactScan
  refine ⟨⟨?_, fun hit there => ?_, ?_⟩, ?_⟩
  · rw [List.map_take]
    refine (List.take_sublist k _).nodup ?_
    exact (sorted.map Prod.fst).nodup_iff.mpr (ids.nodup_iff.mpr h.nodup_liveIds)
  · have listed := sorted.mem_iff.mp (List.mem_of_mem_take there)
    exact (mem_liveIds h hit.1).mp (ids.mem_iff.mp (List.mem_map_of_mem listed))
  · rw [List.length_take]
    exact Nat.min_le_left _ _
  · rw [List.length_take, count]

theorem scan_scored (numbers : ∀ id v, h.Scores id v → (similarity query v).isNaN = false) :
    ∀ hit ∈ ({ h with inner := points } : HnswIndex).exactScan query k, Scored hit := by
  intro hit there
  have sorted : (byScore (({ h with inner := points } : HnswIndex).livePoints query)).Perm _ :=
    List.perm_insertionSort _ _
  have listed := sorted.mem_iff.mp (List.mem_of_mem_take there)
  obtain ⟨v, scores, score⟩ :=
    mem_livePoints.mp ((livePoints_reordered all query).mem_iff.mp listed)
  rw [Scored, score]
  exact numbers hit.1 v scores

end Scan

theorem searchWithEf_complete (inStep : h.InStep)
    (small : h.liveIds.length ≤ scanFallbackMaxElements) {query : List F32}
    (orderly : h.liveIds.length ≤ 1 ∨
      ∀ id v, h.Scores id v → (similarity query v).isNaN = false)
    {k : Nat} {neighbours : List (Nat × F32)} {points : List (List F32 × Nat)}
    (walk : h.Walk k neighbours) (all : points.Perm h.inner) :
    h.Complete k (h.searchWithEf neighbours points query k) := by
  have len := inStep.len_eq
  unfold searchWithEf isEmpty
  by_cases none_ : h.len = 0
  · rw [if_pos (decide_eq_true none_)]
    exact ⟨by rw [← len, none_, Nat.min_zero]; rfl, .nil, nofun, .nil⟩
  · rw [if_neg (by simpa using none_)]
    dsimp only
    rw [len]
    by_cases short : (h.walkHits neighbours).length < min k h.liveIds.length
    · rw [if_pos ⟨short, small⟩]
      obtain ⟨found, count⟩ := scan_found all query k inStep
      exact found.complete (Nat.le_of_eq count.symm)
        (orderly.imp id fun numbers => scan_scored all query k numbers)
    · rw [if_neg fun both => short both.1]
      exact (walk.found inStep.wellFormed).complete (Nat.le_of_not_lt short) (.inr walk.scored)

theorem not_nonIncreasing {hits : Hits} {hit : LogicalId × F32} (there : hit ∈ hits)
    (notNumber : hit.2.isNaN = true) (several : 2 ≤ hits.length) :
    ¬ hits.Pairwise fun a b => a.2.ge b.2 = true := by
  intro ordered
  have never (score : F32) : hit.2.ge score = false ∧ score.ge hit.2 = false := by
    simp [F32.ge, notNumber]
  obtain ⟨front, back, rfl⟩ := List.append_of_mem there
  rw [List.pairwise_append] at ordered
  obtain ⟨-, behind, across⟩ := ordered
  cases front with
  | cons other front =>
    have above := across other (List.mem_cons_self) hit (List.mem_cons_self)
    rw [(never other.2).2] at above
    cases above
  | nil =>
    cases back with
    | nil => simp at several
    | cons other back =>
      have below := List.rel_of_pairwise_cons behind (List.mem_cons_self)
      rw [(never other.2).1] at below
      cases below

/-- Where the walk finds nothing, all points are scanned, also one with no number for a score. -/
theorem not_complete_of_nan (inStep : h.InStep)
    (small : h.liveIds.length ≤ scanFallbackMaxElements) {query : List F32}
    (several : 2 ≤ h.liveIds.length) {id : LogicalId} {v : List F32} (scores : h.Scores id v)
    (notNumber : (similarity query v).isNaN = true) :
    ¬ h.Complete h.liveIds.length (h.searchWithEf [] h.inner query h.liveIds.length) := by
  intro answer
  have len := inStep.len_eq
  have scanned : h.searchWithEf [] h.inner query h.liveIds.length =
      byScore (h.exactScan query h.liveIds.length) := by
    have nonempty : ¬ decide (h.len = 0) = true := by
      rw [decide_eq_true_eq]
      omega
    have short : (h.walkHits []).length < min h.liveIds.length h.len := by
      rw [len, Nat.min_self]
      exact Nat.lt_of_lt_of_le Nat.zero_lt_two several
    unfold searchWithEf isEmpty
    rw [if_neg nonempty]
    exact congrArg byScore (if_pos ⟨short, len ▸ small⟩)
  have sorted : (byScore (h.livePoints query)).Perm (h.livePoints query) :=
    List.perm_insertionSort _ _
  have count := (inStep.livePoints_perm query).length_eq
  rw [List.length_map, ← sorted.length_eq] at count
  have whole : h.exactScan query h.liveIds.length = byScore (h.livePoints query) := by
    unfold exactScan
    rw [← count, List.take_length]
  rw [scanned, whole] at answer
  have resorted : (byScore (byScore (h.livePoints query))).Perm (h.livePoints query) :=
    (List.perm_insertionSort _ _).trans sorted
  have there := resorted.mem_iff.mpr (mem_livePoints.mpr ⟨v, scores, rfl⟩)
  have length := resorted.length_eq.trans sorted.length_eq.symm
  exact not_nonIncreasing there notNumber (by omega) answer.nonIncreasing

/-- The searches of a small index are complete, whatever the graph answers, exactly if at most one
entry is live or the similarity of every live vector to the query is a number. -/
theorem complete_iff (reachable : h.Reachable) (small : h.liveIds.length ≤ scanFallbackMaxElements)
    (query : List F32) :
    (∀ (k : Nat) (neighbours : List (Nat × F32)) (points : List (List F32 × Nat)),
        h.Walk k neighbours → points.Perm h.inner →
          h.Complete k (h.searchWithEf neighbours points query k)) ↔
      h.liveIds.length ≤ 1 ∨ ∀ id v, h.Scores id v → (similarity query v).isNaN = false := by
  have inStep := reachable.inStep
  constructor
  · intro complete
    by_contra neither
    obtain ⟨several, nans⟩ := not_or.mp neither
    simp only [not_forall, Bool.not_eq_false] at nans
    obtain ⟨id, v, scores, notNumber⟩ := nans
    have answer := complete h.liveIds.length [] h.inner ⟨nofun, .nil, Nat.zero_le _, nofun⟩ (.refl _)
    exact not_complete_of_nan inStep small (Nat.lt_of_not_le several) scores notNumber answer
  · intro orderly k neighbours points walk all
    exact searchWithEf_complete inStep small orderly walk all

/-! ### An overflow -/

def twoTo64 : F32 := ⟨0x5F800000⟩

def overflowing : HnswIndex := ((new 1).insert "e1" [twoTo64]).insert "e2" [.one]

theorem overflowing_reachable : overflowing.Reachable := ((Reachable.new 1).insert _ _).insert _ _

theorem overflowing_small : overflowing.liveIds.length ≤ scanFallbackMaxElements := by decide

/-- Against a small query all similarities are numbers. -/
theorem complete_iff_overflowing :
    overflowing.Complete 2 (overflowing.searchWithEf [] overflowing.inner [.one] 2) := by
  have numbers : ∀ id v, overflowing.Scores id v → (similarity [.one] v).isNaN = false := by
    have all : ∀ point ∈ overflowing.inner, (similarity [.one] point.1).isNaN = false := by
      decide +kernel
    rintro id v ⟨idx, there, -⟩
    exact all (v, idx) there
  exact (complete_iff overflowing_reachable overflowing_small [.one]).mpr (.inr numbers) 2 []
    overflowing.inner ⟨nofun, .nil, Nat.zero_le _, nofun⟩ (.refl _)

/-- Against the large component itself, the norms and the product overflow. -/
theorem overflowing_unsorted : ¬ ∀ (h : HnswIndex) (query : List F32) (k : Nat)
    (neighbours : List (Nat × F32)) (points : List (List F32 × Nat)),
    h.Reachable → h.liveIds.length ≤ scanFallbackMaxElements → h.Walk k neighbours →
      points.Perm h.inner → h.Complete k (h.searchWithEf neighbours points query k) := by
  intro always
  have overflow : (similarity [twoTo64] [twoTo64]).isNaN = true := by decide +kernel
  have scores : overflowing.Scores "e1" [twoTo64] := ⟨0, by decide, by decide, by decide⟩
  exact not_complete_of_nan overflowing_reachable.inStep overflowing_small (by decide) scores
    overflow (always overflowing [twoTo64] _ [] overflowing.inner overflowing_reachable
      overflowing_small ⟨nofun, .nil, Nat.zero_le _, nofun⟩ (.refl _))

end HnswIndex
end TronDB.Engine
