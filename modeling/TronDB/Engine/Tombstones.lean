import TronDB.Engine.SmallIndex

/-! What becomes of a search when the walk is exact but counts the points of deleted entities: the
tombstones are filtered out of the k nearest, and are not made up for in a large index. -/
namespace TronDB.Engine
open TronDB.Core Binary Ranked

namespace HnswIndex

def tombstoneRebuildThreshold : F64 := ⟨0x3FB999999999999A⟩

def needsRebuild (h : HnswIndex) : Bool :=
  let ts := h.tombstoneCount
  if ts = 0 then false
  else
    let live := h.idToIdx.size - ts
    if live = 0 then decide (0 < ts)
    else ((F64.ofInt ts).div (.ofInt live)).gt tombstoneRebuildThreshold

/-- The point of this number has an id and no tombstone. -/
def alive (h : HnswIndex) (idx : Nat) : Bool :=
  h.idxToId[idx]?.any fun id => !h.tombstones.contains id

/-- The neighbours are the k nearest of all points, with or without a tombstone, by a distance that
is a number. -/
structure ExactNeighbours (h : HnswIndex) (distance : List F32 → F32) (k : Nat)
    (neighbours : List (Nat × F32)) : Prop where
  cut : ∃ ranked, ranked.Perm (h.inner.map fun point => (point.2, distance point.1)) ∧
    Ranking (fun n n' => n.2.lt n'.2 = true) ranked ∧ neighbours = ranked.take k
  numbers : ∀ point ∈ h.inner, (distance point.1).isNaN = false

/-- As many live entries as asked for, or else all there are, and none left out is nearer. -/
structure Nearest (h : HnswIndex) (nearer : List F32 → List F32 → Prop) (k : Nat) (hits : Hits) :
    Prop where
  count : hits.length = min k h.liveIds.length
  distinct : (hits.map Prod.fst).Nodup
  live : ∀ hit ∈ hits, h.Live hit.1
  nearest : ∀ hit ∈ hits, ∀ v, h.Scores hit.1 v → ∀ id w, h.Scores id w →
    id ∉ hits.map Prod.fst → ¬ nearer w v

/-- The nearest by the distance of the graph, or by the similarity of a scan: each renders the
cosine with roundings of its own. -/
def NearestLive (h : HnswIndex) (distance : List F32 → F32) (query : List F32) (k : Nat)
    (hits : Hits) : Prop :=
  h.Nearest (fun w v => (distance w).lt (distance v) = true) k hits ∨
    h.Nearest (fun w v => (similarity query v).lt (similarity query w) = true) k hits

variable {h : HnswIndex}

/-! ### What the walk leaves -/

theorem length_walkHits (neighbours : List (Nat × F32)) :
    (h.walkHits neighbours).length = (neighbours.filter fun n => h.alive n.1).length := by
  unfold walkHits
  induction neighbours with
  | nil => rfl
  | cons n rest ih =>
    simp only [List.filterMap_cons, List.filter_cons, alive]
    cases h.idxToId[n.1]? with
    | none => simpa [alive] using ih
    | some id =>
      cases buried : h.tombstones.contains id with
      | true => simpa [alive, buried] using ih
      | false => simpa [alive, buried] using ih

variable {distance : List F32 → F32} {k : Nat} {neighbours : List (Nat × F32)}

theorem ExactNeighbours.stored (exact_ : h.ExactNeighbours distance k neighbours) :
    ∀ n ∈ neighbours, ∃ point ∈ h.inner, n = (point.2, distance point.1) := by
  obtain ⟨ranked, all, -, rfl⟩ := exact_.cut
  intro n there
  obtain ⟨point, listed, rfl⟩ := List.mem_map.mp (all.mem_iff.mp (List.mem_of_mem_take there))
  exact ⟨point, listed, rfl⟩

theorem ExactNeighbours.walk (wf : h.WellFormed)
    (exact_ : h.ExactNeighbours distance k neighbours) : h.Walk k neighbours := by
  have stored := exact_.stored
  obtain ⟨ranked, all, -, rfl⟩ := exact_.cut
  refine {
    stored := fun n there => ?_
    distinct := ?_
    atMost := by simp
    distances := fun n there => ?_ }
  · obtain ⟨point, listed, rfl⟩ := stored n there
    exact List.mem_map_of_mem listed
  · have numbers : (ranked.map Prod.fst).Perm (List.range h.nextIdx) := by
      simpa [← wf.numbered, Function.comp_def] using all.map Prod.fst
    have distinct : (ranked.map Prod.fst).Nodup := numbers.nodup_iff.mpr List.nodup_range
    exact ((List.take_sublist k ranked).map Prod.fst).nodup distinct
  · obtain ⟨point, listed, rfl⟩ := stored n there
    exact exact_.numbers point listed

theorem WellFormed.scores_unique (wf : h.WellFormed) {id : LogicalId} {v w : List F32}
    (scores : h.Scores id v) (scores' : h.Scores id w) : v = w := by
  have slot := (scores_iff wf id v).mp scores
  have slot' := (scores_iff wf id w).mp scores'
  rw [slot] at slot'
  cases slot'
  rfl

/-- A live entry that the walk left out is no nearer than one that it found. -/
theorem ExactNeighbours.nearest (wf : h.WellFormed)
    (exact_ : h.ExactNeighbours distance k neighbours) :
    ∀ hit ∈ h.walkHits neighbours, ∀ v, h.Scores hit.1 v → ∀ id w, h.Scores id w →
      id ∉ (h.walkHits neighbours).map Prod.fst → ¬ (distance w).lt (distance v) = true := by
  intro hit there v scores id w scores' left
  have stored := exact_.stored
  obtain ⟨ranked, all, nearest, rfl⟩ := exact_.cut
  obtain ⟨n, listed, found⟩ := List.mem_filterMap.mp there
  obtain ⟨owner, kept, -⟩ := walkHit_iff.mp found
  -- the neighbour is the point of this very vector
  obtain ⟨point, inside, rfl⟩ := stored n listed
  have same : v = point.1 := wf.scores_unique scores ⟨point.2, inside, owner, kept⟩
  obtain ⟨idx, inside', owner', kept'⟩ := scores'
  have ranked' : (idx, distance w) ∈ ranked := all.mem_iff.mpr (List.mem_map_of_mem inside')
  have behind : (idx, distance w) ∉ ranked.take k := by
    intro listed'
    apply left
    exact List.mem_map.mpr ⟨(id, F32.one.sub (distance w)),
      List.mem_filterMap.mpr ⟨(idx, distance w), listed', walkHit_iff.mpr ⟨owner', kept', rfl⟩⟩, rfl⟩
  rw [same]
  exact (nearest.best_take k).best _ listed _ ranked' behind

/-! ### What the search returns -/

theorem Nearest.perm {nearer : List F32 → List F32 → Prop} {hits hits' : Hits}
    (answer : h.Nearest nearer k hits) (same : hits.Perm hits') : h.Nearest nearer k hits' where
  count := by rw [← same.length_eq, answer.count]
  distinct := (same.map Prod.fst).nodup_iff.mp answer.distinct
  live hit there := answer.live hit (same.mem_iff.mpr there)
  nearest hit there v scores id w scores' left :=
    answer.nearest hit (same.mem_iff.mpr there) v scores id w scores' fun listed =>
      left ((same.map Prod.fst).mem_iff.mp listed)

theorem walk_nearest (wf : h.WellFormed) (exact_ : h.ExactNeighbours distance k neighbours)
    (enough : min k h.liveIds.length ≤ (h.walkHits neighbours).length) :
    h.Nearest (fun w v => (distance w).lt (distance v) = true) k (h.walkHits neighbours) := by
  have found := (exact_.walk wf).found wf
  exact ⟨Nat.le_antisymm found.le_live enough, found.distinct, found.live, exact_.nearest wf⟩

/-- A scan goes through all live points and ranks them. -/
theorem scan_nearest (inStep : h.InStep) {query : List F32}
    (numbers : ∀ id v, h.Scores id v → (similarity query v).isNaN = false)
    {points : List (List F32 × Nat)} (all : points.Perm h.inner) :
    h.Nearest (fun w v => (similarity query v).lt (similarity query w) = true) k
      (({ h with inner := points } : HnswIndex).exactScan query k) := by
  obtain ⟨found, count⟩ := scan_found all query k inStep
  refine ⟨count, found.distinct, found.live, fun hit there v scores id w scores' left => ?_⟩
  have listed : ∀ id v, (id, similarity query v) ∈
      ({ h with inner := points } : HnswIndex).livePoints query ↔
        (id, similarity query v) ∈ h.livePoints query :=
    fun id v => (livePoints_reordered all query).mem_iff
  have sorted : (byScore (({ h with inner := points } : HnswIndex).livePoints query)).Perm _ :=
    List.perm_insertionSort _ _
  have ranking : Ranking Better
      (byScore (({ h with inner := points } : HnswIndex).livePoints query)) := by
    apply byScore_ranking
    rintro ⟨id, score⟩ there
    obtain ⟨v, scores, rfl⟩ :=
      mem_livePoints.mp ((livePoints_reordered all query).mem_iff.mp there)
    exact numbers id v scores
  have score : hit.2 = similarity query v := by
    obtain ⟨v', scores', score⟩ := mem_livePoints.mp
      ((livePoints_reordered all query).mem_iff.mp (sorted.mem_iff.mp (List.mem_of_mem_take there)))
    rw [score, inStep.wellFormed.scores_unique scores scores']
  have ranked : (id, similarity query w) ∈
      byScore (({ h with inner := points } : HnswIndex).livePoints query) :=
    sorted.mem_iff.mpr ((listed id w).mpr (mem_livePoints.mpr ⟨w, scores', rfl⟩))
  have behind := (ranking.best_take k).best hit there _ ranked fun listed =>
    left (List.mem_map_of_mem listed)
  simpa [Better, score] using behind

/-- With an exact walk, the search returns the nearest live entries exactly if few enough are live
for a scan, or enough of the k nearest points are alive. -/
theorem nearest_live_iff (reachable : h.Reachable) {query : List F32}
    (exact_ : h.ExactNeighbours distance k neighbours)
    (numbers : ∀ id v, h.Scores id v → (similarity query v).isNaN = false)
    {points : List (List F32 × Nat)} (all : points.Perm h.inner) :
    h.NearestLive distance query k (h.searchWithEf neighbours points query k) ↔
      h.liveIds.length ≤ scanFallbackMaxElements ∨
        min k h.liveIds.length ≤ (neighbours.filter fun n => h.alive n.1).length := by
  have inStep := reachable.inStep
  have len := inStep.len_eq
  rw [← length_walkHits]
  unfold searchWithEf isEmpty
  by_cases none_ : h.len = 0
  · have nothing : h.Nearest (fun w v => (distance w).lt (distance v) = true) k [] :=
      ⟨by simp [← len, none_], .nil, nofun, nofun⟩
    simp only [none_, decide_true, if_true]
    exact ⟨fun _ => .inl (by simp [← len, none_]), fun _ => .inl nothing⟩
  · rw [if_neg (by simpa using none_)]
    dsimp only
    rw [len]
    by_cases short : (h.walkHits neighbours).length < min k h.liveIds.length
    · by_cases small : h.liveIds.length ≤ scanFallbackMaxElements
      · rw [if_pos ⟨short, small⟩]
        have scanned := scan_nearest (k := k) inStep numbers all
        exact ⟨fun _ => .inl small, fun _ =>
          .inr (scanned.perm (List.perm_insertionSort _ _).symm)⟩
      · rw [if_neg fun both => small both.2]
        constructor
        · -- what is missing is not made up for
          intro answer
          have count : (byScore (h.walkHits neighbours)).length = min k h.liveIds.length := by
            rcases answer with answer | answer
            · exact answer.count
            · exact answer.count
          rw [byScore, List.length_insertionSort] at count
          omega
        · rintro (few | enough)
          · exact absurd few small
          · omega
    · rw [if_neg fun both => short both.1]
      have enough := Nat.le_of_not_lt short
      have found := walk_nearest inStep.wellFormed exact_ enough
      exact ⟨fun _ => .inr enough, fun _ =>
        .inl (found.perm (List.perm_insertionSort _ _).symm)⟩

/-! ### One tombstone before all that is live -/

def other (n : Nat) : LogicalId := String.ofList (List.replicate n 'e')

/-- An entity in one direction, and as many as are given in another. -/
def crowd : Nat → HnswIndex
  | 0 => (new 2).insert "gone" [.one, ⟨0⟩]
  | n + 1 => (crowd n).insert (other n) [⟨0⟩, .one]

def crowded (n : Nat) : HnswIndex := (crowd n).remove "gone"

/-- From the first direction, the distance to the other is one. -/
def apart (v : List F32) : F32 := if v = [.one, ⟨0⟩] then ⟨0⟩ else .one

theorem other_injective : Function.Injective other := by
  intro m n same
  have lengths := congrArg (fun s : String => s.toList.length) same
  simpa [other] using lengths

theorem other_ne_gone (n : Nat) : other n ≠ "gone" := by
  intro same
  have letters : List.replicate n 'e' = ['g', 'o', 'n', 'e'] := by
    simpa [other] using congrArg String.toList same
  have first : 'g' ∈ List.replicate n 'e' := letters ▸ List.mem_cons_self
  exact absurd (List.eq_of_mem_replicate first) (by decide)

theorem crowd_reachable (n : Nat) : (crowd n).Reachable := by
  induction n with
  | zero => exact (Reachable.new 2).insert _ _
  | succ n ih => exact ih.insert _ _

/-- The entries of a crowd, none of them deleted. -/
structure Crowd (n : Nat) (h : HnswIndex) : Prop where
  known : ∀ id, h.idToIdx.contains id = true ↔ id = "gone" ∨ ∃ m < n, id = other m
  size : h.idToIdx.size = n + 1
  points : h.inner = ([.one, ⟨0⟩], 0) :: (List.range n).map fun m => ([⟨0⟩, .one], m + 1)
  next : h.nextIdx = n + 1
  first : h.idxToId[0]? = some "gone"
  kept : h.tombstones = ∅

theorem crowd_entries (n : Nat) : Crowd n (crowd n) := by
  induction n with
  | zero =>
    have start : crowd 0 = (new 2).add "gone" [.one, ⟨0⟩] := insert_eq_add (by simp [new]) _
    rw [start]
    exact {
      known := fun id => by
        simp only [add, new, Std.ExtTreeMap.contains_insert]
        simpa using eq_comm
      size := by simp [add, new, Std.ExtTreeMap.size_insert]
      points := rfl
      next := rfl
      first := by simp [add, new]
      kept := rfl }
  | succ n ih =>
    have unknown : (crowd n).idToIdx.contains (other n) = false := by
      apply Bool.eq_false_iff.mpr
      intro known
      rcases (ih.known _).mp known with same | ⟨m, below, same⟩
      · exact other_ne_gone n same
      · exact Nat.ne_of_gt below (other_injective same)
    have grown : crowd (n + 1) = (crowd n).add (other n) [⟨0⟩, .one] := insert_eq_add unknown _
    rw [grown]
    exact {
      known := fun id => by
        simp only [add, Std.ExtTreeMap.contains_insert, Bool.or_eq_true, ih.known, beq_iff_eq,
          Std.compare_eq_iff_eq, Nat.lt_succ_iff_lt_or_eq]
        grind
      size := by simp [add, Std.ExtTreeMap.size_insert, unknown, ih.size]
      points := by simp [add, ih.points, ih.next, List.range_succ]
      next := by simp [add, ih.next]
      first := by simp [add, FinMap.get_insert, ih.next, ih.first]
      kept := by simp [add, ih.kept] }

theorem crowded_eq (n : Nat) : crowded n =
    { crowd n with tombstones := (crowd n).tombstones.insert "gone" ()
                   tombstoneCount := (crowd n).tombstoneCount + 1 } := by
  have entries := crowd_entries n
  have known : (crowd n).idToIdx.contains "gone" = true := (entries.known _).mpr (.inl rfl)
  have kept : (crowd n).tombstones.contains "gone" = false := by simp [entries.kept]
  unfold crowded remove
  simp [known, kept]

theorem crowded_reachable (n : Nat) : (crowded n).Reachable := (crowd_reachable n).remove _

theorem crowded_buried (n : Nat) : (crowded n).tombstoneCount = 1 := by
  have counted := (crowd_reachable n).inStep.counted
  simp [crowded_eq, counted, (crowd_entries n).kept]

theorem crowded_size (n : Nat) : (crowded n).idToIdx.size = n + 1 := by
  simp [crowded_eq, (crowd_entries n).size]

theorem crowded_points (n : Nat) : (crowded n).inner =
    ([.one, ⟨0⟩], 0) :: (List.range n).map fun m => ([⟨0⟩, .one], m + 1) := by
  simp [crowded_eq, (crowd_entries n).points]

theorem crowded_live (n : Nat) : (crowded n).liveIds.length = n := by
  have counted := (crowded_reachable n).inStep.len_eq
  rw [len, crowded_size, crowded_buried, Nat.add_sub_cancel] at counted
  exact counted.symm

theorem crowded_distances (n : Nat) :
    (crowded n).inner.map (fun point => (point.2, apart point.1)) =
      (0, ⟨0⟩) :: (List.range n).map fun m => (m + 1, F32.one) := by
  have far : apart [⟨0⟩, .one] = .one := by decide
  have near : apart [.one, ⟨0⟩] = ⟨0⟩ := by decide
  simp [crowded_points, far, near]

theorem crowded_walk (n : Nat) : (crowded n).ExactNeighbours apart 1 [(0, ⟨0⟩)] where
  cut := by
    refine ⟨_, .refl _, ?_, by simp [crowded_distances]⟩
    rw [crowded_distances]
    apply List.pairwise_cons.mpr
    constructor
    · intro n' there
      obtain ⟨m, -, rfl⟩ := List.mem_map.mp there
      exact (by decide : ¬ F32.one.lt ⟨0⟩ = true)
    · apply List.pairwise_map.mpr
      exact List.pairwise_of_forall fun _ _ => (by decide : ¬ F32.one.lt .one = true)
  numbers := by
    rw [crowded_points]
    intro point there
    rcases List.mem_cons.mp there with rfl | there
    · decide
    · obtain ⟨m, -, rfl⟩ := List.mem_map.mp there
      exact (by decide : (apart [⟨0⟩, .one]).isNaN = false)

theorem crowded_numbers (n : Nat) (id : LogicalId) (v : List F32)
    (scores : (crowded n).Scores id v) : (similarity [.one, ⟨0⟩] v).isNaN = false := by
  obtain ⟨idx, there, -⟩ := scores
  rw [crowded_points] at there
  rcases List.mem_cons.mp there with same | there
  · cases same
    decide +kernel
  · obtain ⟨m, -, same⟩ := List.mem_map.mp there
    cases same
    decide +kernel

theorem crowded_search {n : Nat} (large : scanFallbackMaxElements < n) :
    (crowded n).searchWithEf [(0, ⟨0⟩)] (crowded n).inner [.one, ⟨0⟩] 1 = [] := by
  have len := (crowded_reachable n).inStep.len_eq
  rw [crowded_live] at len
  have owner : (crowded n).idxToId[0]? = some "gone" := by
    simp [crowded_eq, (crowd_entries n).first]
  have buried : (crowded n).tombstones.contains "gone" = true := by simp [crowded_eq]
  have nothing : (crowded n).walkHits [(0, ⟨0⟩)] = [] := by
    unfold walkHits
    simp only [List.filterMap_cons, owner, buried, if_true, List.filterMap_nil]
  unfold searchWithEf isEmpty
  rw [if_neg (by rw [len, decide_eq_true_eq]; omega)]
  dsimp only
  rw [nothing, len, if_neg fun both => absurd both.2 (Nat.not_le_of_lt large)]
  rfl

/-- In a small index, the deleted one costs nothing. -/
theorem nearest_live_iff_small : (crowded 2).NearestLive apart [.one, ⟨0⟩] 1
    ((crowded 2).searchWithEf [(0, ⟨0⟩)] (crowded 2).inner [.one, ⟨0⟩] 1) :=
  (nearest_live_iff (crowded_reachable 2) (crowded_walk 2) (crowded_numbers 2) (.refl _)).mpr
    (.inl (by simp [crowded_live, scanFallbackMaxElements]))

/-- With 1025 live entries, a single deleted one that is the nearest is all the walk finds; no
rebuild is due. -/
theorem crowded_out : ¬ ∀ (h : HnswIndex) (distance : List F32 → F32) (query : List F32) (k : Nat)
    (neighbours : List (Nat × F32)) (points : List (List F32 × Nat)),
    h.Reachable → h.needsRebuild = false → h.ExactNeighbours distance k neighbours →
      (∀ id v, h.Scores id v → (similarity query v).isNaN = false) → points.Perm h.inner →
        h.NearestLive distance query k (h.searchWithEf neighbours points query k) := by
  intro always
  obtain ⟨n, size⟩ : ∃ n, n = 1025 := ⟨_, rfl⟩
  have due : (crowded n).needsRebuild = false := by
    rw [needsRebuild, crowded_buried, crowded_size, size]
    decide +kernel
  have answer := always (crowded n) apart [.one, ⟨0⟩] 1 [(0, ⟨0⟩)] _ (crowded_reachable n) due
    (crowded_walk n) (crowded_numbers n) (.refl _)
  rw [crowded_search (by rw [size]; decide)] at answer
  have count : ([] : Hits).length = min 1 (crowded n).liveIds.length := by
    rcases answer with answer | answer
    · exact answer.count
    · exact answer.count
  rw [crowded_live, size] at count
  cases count

end HnswIndex
end TronDB.Engine
