import TronDB.Engine.SubgraphPath
import TronDB.Engine.Sweeping
import TronDB.Lib.Merging
import TronDB.Lib.Packing
import TronDB.Proto.Plan

/-! INFER: the edges it proposes, and when these are the best there are. -/
namespace TronDB.Engine
open TronDB.Core Binary Wal Ranked

/-! ### The statement -/

abbrev Proposal := String × LogicalId × F32

section Infer
variable (env : Env) (s : State)

/-- The types that are named, or else all that lead out of the collection. -/
def State.applicableEdgeTypes (collection : String) (edgeTypes : List String) :
    Except EngineError (List EdgeType) :=
  if edgeTypes.isEmpty then
    .ok (((env.edgeTypeOrder.order s.edgeTypes.toList).map Prod.snd).filter fun et =>
      et.fromCollection = collection)
  else
    edgeTypes.mapM fun name =>
      match s.edgeTypes[name]? with
      | none => .error (.invalidQuery s!"edge type '{name}' not found")
      | some et =>
        if et.fromCollection = collection then .ok et
        else .error (.invalidQuery
          s!"edge type '{name}' from_collection '{et.fromCollection}' does not match entity collection '{collection}'")

/-- What the search starts from: the vector of the source, and the types. -/
def State.inferSetup (p : Proto.InferPlan) : Except EngineError (List F32 × List EdgeType) := do
  let collection ← required s!"entity '{p.fromId}' not found in any collection"
    s.entityCollections[p.fromId]?
  let source ← s.store.get collection p.fromId
  let vector ← required s!"entity '{p.fromId}' has no dense vector representation"
    (denseVector source)
  let edgeTypes ← s.applicableEdgeTypes env collection p.edgeTypes
  .ok (vector, edgeTypes)

/-- The HNSW index of the target collection that the map hands out first. -/
def State.targetIndex (et : EdgeType) : Option HnswIndex :=
  ((env.denseOrder.order s.indexes.toList).find? fun e => e.1.1 = et.toCollection).map Prod.snd

def globalLimit (p : Proto.InferPlan) : Nat := p.limit.getD 10

def confidenceFloor (p : Proto.InferPlan) : F32 := p.confidenceFloor.getD ⟨0⟩

def searchK (p : Proto.InferPlan) : Nat := globalLimit p * 4 % 2 ^ 64

/-- Not the source, not at the end of an edge of the type, and not under the floor. -/
def State.eligible (p : Proto.InferPlan) (et : EdgeType) (hit : LogicalId × F32) : Bool :=
  hit.1 ≠ p.fromId && hit.1 ∉ (s.adjacency.get p.fromId et.name).map AdjEntry.toId &&
    !hit.2.lt (confidenceFloor p)

def State.proposals (p : Proto.InferPlan) (vector : List F32) (et : EdgeType) : List Proposal :=
  match s.targetIndex env et with
  | none => []
  | some hnsw => ((env.search hnsw vector (searchK p)).filter (s.eligible p et)).map fun hit => (et.name, hit)

def sortProposals (proposals : List Proposal) : List Proposal :=
  proposals.insertionSort fun a b => !a.2.2.lt b.2.2

def proposalRow (p : Proto.InferPlan) (proposal : Proposal) : Row :=
  ⟨((((∅ : FinMap String Value).insert "from_id" (.string p.fromId)).insert "to_id"
    (.string proposal.2.1)).insert "edge_type" (.string proposal.1)).insert "confidence"
      (.float proposal.2.2.toF64), some proposal.2.2⟩

def inferResult (p : Proto.InferPlan) (proposals : List Proposal) : QueryResult :=
  ⟨["from_id", "to_id", "edge_type", "confidence"], proposals.map (proposalRow p), proposals.length,
    .probabilistic, "Ram"⟩

def executeInfer (p : Proto.InferPlan) : Except EngineError QueryResult := do
  let (vector, edgeTypes) ← s.inferSetup env p
  if edgeTypes.isEmpty then .ok (inferResult p [])
  else
    let allCandidates := edgeTypes.flatMap (s.proposals env p vector)
    .ok (inferResult p ((sortProposals allCandidates).take (globalLimit p)))

end Infer

/-! ### Exact searches, and the proposals there are -/

/-- Asked for k points the index answers with the first k of its live points, ranked; points of one
score may stand in any order. -/
structure ExactSearch (env : Env) (hnsw : HnswIndex) (query : List F32) (k : Nat) (ranked : Hits) :
    Prop where
  walk : env.search hnsw query k = ranked.take k
  live : ranked.Perm (hnsw.livePoints query)
  nearest : Ranking Better ranked
  scored : ∀ hit ∈ ranked, Scored hit
  distinct : (ranked.map Prod.fst).Nodup

/-- For each type, the ranking of the index its search walks, if there is one. -/
structure ExactSearches (env : Env) (s : State) (query : List F32) (k : Nat)
    (edgeTypes : List EdgeType) (ranked : EdgeType → Hits) : Prop where
  indexed : ∀ et ∈ edgeTypes, ∀ hnsw, s.targetIndex env et = some hnsw →
    ExactSearch env hnsw query k (ranked et)
  missing : ∀ et ∈ edgeTypes, s.targetIndex env et = none → ranked et = []

def proposalKey (proposal : Proposal) : Int := proposal.2.2.key

section Proposals
variable (s : State) (p : Proto.InferPlan) (ranked : EdgeType → Hits) (edgeTypes : List EdgeType)

def State.eligibleOf (et : EdgeType) (hits : Hits) : List Proposal :=
  (hits.filter (s.eligible p et)).map fun hit => (et.name, hit)

/-- The eligible pairs of the types, each type taken once. -/
def State.eligiblePairs : List Proposal :=
  edgeTypes.dedup.flatMap fun et => s.eligibleOf p et (ranked et)

/-- The eligible pairs among the nearest of each type, as often as it is named. -/
def State.lookedAt : List Proposal :=
  edgeTypes.flatMap fun et => s.eligibleOf p et ((ranked et).take (searchK p))

/-- How many pairs RETURNING asks for: TOP so many, or ALL there are. -/
def State.returning : Nat := p.limit.getD (s.eligiblePairs p ranked edgeTypes).length

/-- INFER answers with the best of the eligible pairs, each once, as many as it is asked for. -/
def InfersBest (env : Env) : Prop :=
  ∃ chosen, executeInfer env s p = .ok (inferResult p chosen) ∧
    (chosen.map fun proposal => (proposal.1, proposal.2.1)).Nodup ∧
      Top proposalKey (s.returning p ranked edgeTypes) (s.eligiblePairs p ranked edgeTypes) chosen

end Proposals

section Best
variable {env : Env} {s : State} {p : Proto.InferPlan} {query : List F32}
  {ranked : EdgeType → Hits} {edgeTypes : List EdgeType} {k : Nat}

theorem proposals_exact (exact_ : ExactSearches env s query (searchK p) edgeTypes ranked) :
    edgeTypes.flatMap (s.proposals env p query) = s.lookedAt p ranked edgeTypes := by
  unfold State.lookedAt
  apply List.flatMap_congr
  intro et listed
  unfold State.proposals State.eligibleOf
  cases index : s.targetIndex env et with
  | none =>
    rw [exact_.missing et listed index, List.take_nil]
    rfl
  | some hnsw =>
    dsimp only
    rw [(exact_.indexed et listed hnsw index).walk]

theorem scored_ranked (exact_ : ExactSearches env s query k edgeTypes ranked) {et : EdgeType}
    (listed : et ∈ edgeTypes) {hit : LogicalId × F32} (there : hit ∈ ranked et) : Scored hit := by
  cases index : s.targetIndex env et with
  | none =>
    rw [exact_.missing et listed index] at there
    cases there
  | some hnsw => exact (exact_.indexed et listed hnsw index).scored hit there

theorem distinct_ranked (exact_ : ExactSearches env s query k edgeTypes ranked) {et : EdgeType}
    (listed : et ∈ edgeTypes) : ((ranked et).map Prod.fst).Nodup := by
  cases index : s.targetIndex env et with
  | none =>
    rw [exact_.missing et listed index]
    exact List.nodup_nil
  | some hnsw => exact (exact_.indexed et listed hnsw index).distinct

theorem mem_lookedAt {proposal : Proposal} (there : proposal ∈ s.lookedAt p ranked edgeTypes) :
    ∃ et ∈ edgeTypes, proposal.2 ∈ ranked et ∧ proposal ∈ s.eligibleOf p et (ranked et) := by
  obtain ⟨et, listed, there⟩ := List.mem_flatMap.mp there
  obtain ⟨hit, kept, rfl⟩ := List.mem_map.mp there
  obtain ⟨near, passes⟩ := List.mem_filter.mp kept
  have found : hit ∈ ranked et := List.mem_of_mem_take near
  exact ⟨et, listed, found, List.mem_map_of_mem (List.mem_filter.mpr ⟨found, passes⟩)⟩

theorem sortProposals_sorted {proposals : List Proposal} (scored : ∀ c ∈ proposals, Scored c.2) :
    sortProposals proposals = sorted proposalKey proposals := by
  have same := List.map_insertionSort (fun a b : Proposal => (!a.2.2.lt b.2.2) = true)
    (fun a b : Proposal => proposalKey b ≤ proposalKey a) id proposals fun a here b there => by
      simp [proposalKey, lt_number (scored a here) (scored b there)]
  rw [List.map_id, List.map_id] at same
  exact same

theorem executeInfer_exact (setup : s.inferSetup env p = .ok (query, edgeTypes))
    (exact_ : ExactSearches env s query (searchK p) edgeTypes ranked) :
    executeInfer env s p = .ok (inferResult p
      ((sorted proposalKey (s.lookedAt p ranked edgeTypes)).take (globalLimit p))) := by
  have scored : ∀ c ∈ s.lookedAt p ranked edgeTypes, Scored c.2 := fun c there => by
    obtain ⟨et, listed, found, -⟩ := mem_lookedAt there
    exact scored_ranked exact_ listed found
  unfold executeInfer
  rw [setup]
  cases edgeTypes with
  | nil =>
    have none_ : (sorted proposalKey (s.lookedAt p ranked [])).take (globalLimit p) = [] := List.take_nil
    rw [none_]
    rfl
  | cons et rest =>
    have all := proposals_exact (p := p) exact_
    rw [← sortProposals_sorted scored, ← all]
    rfl

theorem mem_applicable (synced : Synced s) {collection : String} {names : List String}
    (applicable : s.applicableEdgeTypes env collection names = .ok edgeTypes) {et : EdgeType}
    (listed : et ∈ edgeTypes) : s.edgeTypes[et.name]? = some et := by
  have named (name : String) (there : s.edgeTypes[name]? = some et) : et.name = name := by
    rw [synced.edgeTypes] at there
    exact synced.edgeTypeNamed name et there
  unfold State.applicableEdgeTypes at applicable
  split at applicable
  · cases applicable
    obtain ⟨name, there⟩ := (mem_types env).mp (List.mem_filter.mp listed).1
    exact named name there ▸ there
  · obtain ⟨name, -, here⟩ := Packing.mapM_mem applicable listed
    cases found : s.edgeTypes[name]? with
    | none =>
      rw [found] at here
      cases here
    | some et' =>
      rw [found] at here
      dsimp only at here
      split at here
      · cases here
        exact named name found ▸ found
      · cases here

theorem mem_setup (synced : Synced s) (setup : s.inferSetup env p = .ok (query, edgeTypes))
    {et : EdgeType} (listed : et ∈ edgeTypes) : s.edgeTypes[et.name]? = some et := by
  unfold State.inferSetup at setup
  obtain ⟨collection, -, setup⟩ := Packing.bind_ok.mp setup
  obtain ⟨source, -, setup⟩ := Packing.bind_ok.mp setup
  obtain ⟨vector, -, setup⟩ := Packing.bind_ok.mp setup
  obtain ⟨types, applicable, setup⟩ := Packing.bind_ok.mp setup
  cases setup
  exact mem_applicable synced applicable listed

theorem eligiblePairs_distinct (named : ∀ et ∈ edgeTypes, s.edgeTypes[et.name]? = some et)
    (exact_ : ExactSearches env s query k edgeTypes ranked) :
    ((s.eligiblePairs p ranked edgeTypes).map fun proposal => (proposal.1, proposal.2.1)).Nodup := by
  unfold State.eligiblePairs
  rw [List.map_flatMap, List.nodup_flatMap]
  constructor
  · intro et listed
    have targets : (((ranked et).filter (s.eligible p et)).map Prod.fst).Nodup :=
      (distinct_ranked exact_ (List.mem_dedup.mp listed)).sublist (List.filter_sublist.map _)
    unfold State.eligibleOf
    rw [List.map_map]
    have pairs : ((fun proposal : Proposal => (proposal.1, proposal.2.1)) ∘
        fun hit : LogicalId × F32 => (et.name, hit)) = (fun id => (et.name, id)) ∘ Prod.fst := rfl
    rw [pairs, ← List.map_map]
    exact targets.map fun _ _ same => (Prod.mk.inj same).2
  · refine (List.nodup_dedup edgeTypes).imp_of_mem fun {et et'} listed listed' differ => ?_
    intro pair there there'
    simp only [State.eligibleOf, List.map_map, List.mem_map] at there there'
    obtain ⟨hit, -, rfl⟩ := there
    obtain ⟨hit', -, same⟩ := there'
    apply differ
    have names : et'.name = et.name := (Prod.mk.inj same).1
    have first := named et (List.mem_dedup.mp listed)
    rw [← names, named et' (List.mem_dedup.mp listed')] at first
    exact (Option.some.inj first).symm

theorem proposalRow_values (p : Proto.InferPlan) (proposal : Proposal) :
    (proposalRow p proposal).values["edge_type"]? = some (.string proposal.1) ∧
      (proposalRow p proposal).values["to_id"]? = some (.string proposal.2.1) := by
  unfold proposalRow
  dsimp only
  constructor
  · rw [FinMap.get_insert, if_neg (by decide), FinMap.get_insert, if_pos rfl]
  · rw [FinMap.get_insert, if_neg (by decide), FinMap.get_insert, if_neg (by decide),
      FinMap.get_insert, if_pos rfl]

theorem proposalRow_injective (p : Proto.InferPlan) : Function.Injective (proposalRow p) := by
  rintro ⟨t, id, score⟩ ⟨t', id', score'⟩ same
  obtain ⟨type, target⟩ := proposalRow_values p (t, id, score)
  obtain ⟨type', target'⟩ := proposalRow_values p (t', id', score')
  have scores := Option.some.inj (congrArg Row.score same)
  rw [same, type'] at type
  rw [same, target'] at target
  dsimp only at type target scores
  cases Option.some.inj type
  cases Option.some.inj target
  cases scores
  rfl

theorem top_returning_iff {chosen : List Proposal} (few : chosen.length ≤ globalLimit p) :
    Top proposalKey (s.returning p ranked edgeTypes) (s.eligiblePairs p ranked edgeTypes) chosen ↔
      (p.limit = none → (s.eligiblePairs p ranked edgeTypes).length ≤ 10) ∧
        Top proposalKey (globalLimit p) (s.eligiblePairs p ranked edgeTypes) chosen := by
  unfold State.returning
  unfold globalLimit at few ⊢
  cases limit : p.limit with
  | some k => simp
  | none =>
    simp only [limit, Option.getD_none, true_implies] at few ⊢
    constructor
    · intro top
      have count := top.best.count
      have short : (s.eligiblePairs p ranked edgeTypes).length ≤ 10 := by omega
      exact ⟨short, top.of_count (by omega)⟩
    · rintro ⟨short, top⟩
      exact top.of_count (by omega)

/-- The answer is the best exactly if RETURNING ALL has no more than ten pairs to return, no pair of
a type that is named twice is answered twice, and enough of what is looked at is as good as each pair
that is not looked at. -/
theorem infers_best_iff (synced : Synced s) (setup : s.inferSetup env p = .ok (query, edgeTypes))
    (exact_ : ExactSearches env s query (searchK p) edgeTypes ranked) :
    InfersBest s p ranked edgeTypes env ↔
      (p.limit = none → (s.eligiblePairs p ranked edgeTypes).length ≤ 10) ∧
      RepeatsBehind proposalKey (globalLimit p) (s.lookedAt p ranked edgeTypes) ∧
        ∀ proposal ∈ s.eligiblePairs p ranked edgeTypes, proposal ∉ s.lookedAt p ranked edgeTypes →
          globalLimit p ≤ (s.lookedAt p ranked edgeTypes).countP
            (proposalKey proposal ≤ proposalKey ·) := by
  have pairs := eligiblePairs_distinct (p := p) (fun et listed => mem_setup synced setup listed) exact_
  have looked : ∀ c ∈ s.lookedAt p ranked edgeTypes, c ∈ s.eligiblePairs p ranked edgeTypes := by
    intro c there
    obtain ⟨et, listed, -, eligible⟩ := mem_lookedAt there
    exact List.mem_flatMap.mpr ⟨et, List.mem_dedup.mpr listed, eligible⟩
  have runs := executeInfer_exact setup exact_
  rw [← top_looked_iff pairs.of_map looked, ← top_returning_iff (List.length_take_le ..)]
  constructor
  · rintro ⟨chosen, answer, -, top⟩
    have same := congrArg QueryResult.rows (Except.ok.inj (runs.symm.trans answer))
    have chosen_ := (proposalRow_injective p).list_map same
    exact chosen_ ▸ top
  · intro top
    obtain ⟨_, perm, sub⟩ := top.best.among
    exact ⟨_, runs, (perm.map _).nodup_iff.mp ((sub.map _).nodup pairs), top⟩

end Best

/-! ### Someone who knows all but the last -/

section Examples
attribute [local instance] headerOnly

def knowing (friend : String) : Write := .insertEdge ⟨"knows", "a", friend, [], none, none⟩

def people : CreateCollectionPlan :=
  ⟨"people", [⟨"v", none, some 2, .cosine, false, []⟩], [], [], none⟩

def person (id : String) (x y : Int) : Write :=
  .insert ⟨"people", ["id"], [.string id], [("v", .dense [.ofInt x, .ofInt y])], none, none⟩

/-- Five people, each further from the first than the one before, who knows the next three. -/
def meeting : List Step :=
  ([.createCollection people, .createEdgeType ⟨"knows", "people", "people", none, none⟩,
    person "a" 1 0, person "b" 4 3, person "c" 3 4, person "d" 5 12, person "e" 0 1, knowing "b",
    knowing "c", knowing "d"] : List Write).map fun w => (Env.idle, w)

def met : State := meeting.foldl State.step (.init default)

def scanAll : Env := { Env.idle with search := HnswIndex.exactScan }

/-- INFER EDGES FROM 'a' VIA knows RETURNING TOP limit -/
def whoElse (limit : Nat) : Proto.InferPlan := ⟨"a", ["knows"], some limit, none⟩

def acquaintance : EdgeType := ⟨"knows", "people", "people", default, default⟩

def nearby : Hits := [("a", .one), ("b", ⟨0x3F4CCCCD⟩), ("c", ⟨0x3F19999A⟩), ("d", ⟨0x3EC4EC4F⟩), ("e", ⟨0⟩)]

theorem met_setup (limit : Nat) :
    met.inferSetup scanAll (whoElse limit) = .ok ([.one, ⟨0⟩], [acquaintance]) := by
  have ran : (met.inferSetup scanAll (whoElse 0)).toOption.map id =
      some ([.one, ⟨0⟩], [acquaintance]) := by decide +kernel
  obtain ⟨_, ran, rfl⟩ := ok_of_map ran
  exact ran

theorem met_exact (k : Nat) :
    ExactSearches scanAll met [.one, ⟨0⟩] k [acquaintance] fun _ => nearby := by
  constructor
  · intro et listed hnsw index
    rw [List.mem_singleton] at listed
    subst listed
    have points : (met.targetIndex scanAll acquaintance).map
        (fun h => byScore (h.livePoints [.one, ⟨0⟩])) = some nearby := by decide +kernel
    rw [index] at points
    have same : byScore (hnsw.livePoints [.one, ⟨0⟩]) = nearby := Option.some.inj points
    refine ⟨congrArg (List.take k) same, ?_, ?_, ?_, by decide⟩
    · rw [← same]
      exact List.perm_insertionSort (fun a b : LogicalId × F32 => (!a.2.lt b.2) = true) _
    · unfold Ranking Better
      decide
    · unfold Scored
      decide
  · intro et listed none_
    rw [List.mem_singleton] at listed
    subst listed
    have some_ : (met.targetIndex scanAll acquaintance).isSome = true := by decide +kernel
    rw [none_] at some_
    cases some_

/-- Eight points are looked at, and the fifth is found. -/
theorem fifth_found : InfersBest met (whoElse 2) (fun _ => nearby) [acquaintance] scanAll := by
  refine (infers_best_iff (reached_sound default meeting met (Run.end_visited ..)).1 (met_setup 2)
    (met_exact _)).mpr ⟨fun all => (by cases all), repeatsBehind_of_nodup (by decide +kernel) _, ?_⟩
  decide +kernel

/-- With a limit of one, the source and its friends are all that is looked at. -/
theorem fifth_missed : met.inferSetup scanAll (whoElse 1) = .ok ([.one, ⟨0⟩], [acquaintance]) ∧
    ExactSearches scanAll met [.one, ⟨0⟩] (searchK (whoElse 1)) [acquaintance] (fun _ => nearby) ∧
      ¬ InfersBest met (whoElse 1) (fun _ => nearby) [acquaintance] scanAll := by
  refine ⟨met_setup 1, met_exact _, ?_⟩
  rintro ⟨chosen, answer, -, top⟩
  have rows : (executeInfer scanAll met (whoElse 1)).toOption.map (fun r => r.rows.length) = some 0 := by
    decide +kernel
  have pool : (met.eligiblePairs (whoElse 1) (fun _ => nearby) [acquaintance]).length = 1 := by decide +kernel
  have count := top.best.count
  rw [pool] at count
  rw [answer] at rows
  simp [Except.toOption, inferResult, count, State.returning, whoElse] at rows

end Examples
end TronDB.Engine
