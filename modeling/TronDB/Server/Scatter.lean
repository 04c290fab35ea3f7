import TronDB.Engine.SubgraphPath
import TronDB.Lib.Merging
import TronDB.Proto.Plan

/-! SEARCH on several nodes: the plan is sent to all of them, and their answers are merged. -/
namespace TronDB.Server
open TronDB.Core TronDB.Engine TronDB.Proto Binary Wal Ranked

inductive Status where
  | internal (message : String)
  deriving DecidableEq, Repr

/-- What a node answers to a plan, an error with its text. -/
abbrev NodeHandle := Plan → Except String QueryResult

def extractRowId (row : Row) : Option String :=
  match row.values["id"]? with
  | some (.string s) => some s
  | _ => none

def emptyResult : QueryResult := ⟨[], [], 0, .probabilistic, "scatter-gather"⟩

def firstColumns (results : List QueryResult) : List String :=
  results.foldl (fun columns r => if columns = [] then r.columns else columns) []

/-! ### The dense merge -/

def mergeScore (row : Row) : F32 := row.score.getD .negInfinity

def sortByScore (rows : List Row) : List Row :=
  rows.insertionSort fun a b => !(mergeScore a).lt (mergeScore b)

def mergeDenseResults (results : List QueryResult) (limit : Nat) : QueryResult :=
  if results.isEmpty then emptyResult
  else
    { columns := firstColumns results
      rows := (sortByScore (results.flatMap (·.rows))).take limit
      entitiesScanned := (results.map (·.entitiesScanned)).sum
      mode := .probabilistic
      tier := "scatter-gather" }

/-! ### The hybrid merge -/

def rrfK : F64 := .ofInt 60

structure RrfScores where
  scores : FinMap String (F64 × Row)
  anonCounter : Nat

def RrfScores.add (rrf : RrfScores) (row : Row) (rankIdx : Nat) : RrfScores :=
  let contribution := F64.one.div (rrfK.add (.ofInt (rankIdx + 1)))
  let anonCounter := if (extractRowId row).isSome then rrf.anonCounter else rrf.anonCounter + 1
  let key := (extractRowId row).getD ("__anon_" ++ toString anonCounter)
  let entry := match rrf.scores[key]? with
    | some (score, first) => (score.add contribution, first)
    | none => (contribution, row)
  ⟨rrf.scores.insert key entry, anonCounter⟩

def mergeHybridResults (order : HashOrder (F64 × Row)) (results : List QueryResult) (limit : Nat) :
    QueryResult :=
  if results.isEmpty then emptyResult
  else
    let rrf := results.foldl (fun (rrf : RrfScores) r =>
      r.rows.zipIdx.foldl (fun (rrf : RrfScores) ranked => rrf.add ranked.1 ranked.2) rrf) ⟨∅, 0⟩
    let scored := (order.order (rrf.scores.toList.map Prod.snd)).insertionSort
      fun a b => !a.1.lt b.1
    { columns := firstColumns results
      rows := (scored.take limit).map fun entry => { entry.2 with score := some entry.1.toF32 }
      entitiesScanned := (results.map (·.entitiesScanned)).sum
      mode := .probabilistic
      tier := "scatter-gather" }

/-! ### The orchestration -/

def isHybrid : Plan → Bool
  | .search p => p.strategy = .hybrid
  | _ => false

/-- One node is asked alone, and what it answers is not merged. -/
def scatterGatherSearch (order : HashOrder (F64 × Row)) (nodes : List NodeHandle) (plan : Plan)
    (limit : Nat) : Except Status QueryResult :=
  match nodes with
  | [] => .error (.internal "no nodes available for scatter-gather")
  | [node] =>
    match node plan with
    | .ok result => .ok result
    | .error e => .error (.internal e)
  | nodes =>
    let results := nodes.filterMap fun node => (node plan).toOption
    if results.isEmpty then .error (.internal "all nodes failed during scatter-gather search")
    else if isHybrid plan then .ok (mergeHybridResults order results limit)
    else .ok (mergeDenseResults results limit)

/-! ### The best of all entities -/

def rowId (row : Row) : LogicalId := (extractRowId row).getD ""

def scoreKey (score : LogicalId → F32) (id : LogicalId) : Int := (score id).key

/-- The rows are those of the best entities of a set, the best first. -/
structure AnswersBest (score : LogicalId → F32) (k : Nat) (entities : Finset LogicalId)
    (result : QueryResult) : Prop where
  rows : ∀ row ∈ result.rows, ∃ id, extractRowId row = some id ∧ row.score = some (score id)
  top : Top (scoreKey score) k entities.toList (result.rows.map rowId)

section Nodes
variable (plan : Plan)

def answeredIds (node : NodeHandle) : List LogicalId :=
  match node plan with
  | .ok result => result.rows.map rowId
  | .error _ => []

/-- The entities of each node, with those that it answers. -/
def pools (parts : List (NodeHandle × Finset LogicalId)) :
    List (Finset LogicalId × List LogicalId) :=
  parts.map fun part => (part.2, answeredIds plan part.1)

/-- A single node has no more than the limit, or is asked for no more; of several nodes, each answer
that repeats an entity has at least as many ahead of it as the limit, all with a higher score or
with the same score and earlier. -/
def Separable (score : LogicalId → F32) (k limit : Nat) :
    List (Finset LogicalId × List LogicalId) → Prop
  | [] => False
  | [pool] => limit = k ∨ pool.1.card ≤ limit
  | pools => RepeatsBehind (scoreKey score) limit (answers pools)

end Nodes

variable {score : LogicalId → F32} {k limit : Nat} {plan : Plan}

theorem rowId_of {row : Row} {id : LogicalId} (named : extractRowId row = some id) :
    rowId row = id := by
  simp [rowId, named]

theorem map_sortByScore (numbers : ∀ id, (score id).isNaN = false) {rows : List Row}
    (scored : ∀ row ∈ rows, ∃ id, extractRowId row = some id ∧ row.score = some (score id)) :
    (sortByScore rows).map rowId = sorted (scoreKey score) (rows.map rowId) := by
  apply List.map_insertionSort
  intro a here b there
  obtain ⟨id, named, score_⟩ := scored a here
  obtain ⟨id', named', score_'⟩ := scored b there
  simp [mergeScore, score_, score_', rowId_of named, rowId_of named', scoreKey,
    lt_number (numbers id) (numbers id')]

theorem answered_pools {parts : List (NodeHandle × Finset LogicalId)}
    (answered : ∀ part ∈ parts, ∃ result, part.1 plan = .ok result ∧
      AnswersBest score k part.2 result) :
    Answered (scoreKey score) k (pools plan parts) := by
  intro pool there
  obtain ⟨part, listed, rfl⟩ := List.mem_map.mp there
  obtain ⟨result, ran, answer⟩ := answered part listed
  simpa [answeredIds, ran] using answer.top

/-- What several nodes answer is what is merged. -/
theorem gathered {parts : List (NodeHandle × Finset LogicalId)}
    (answered : ∀ part ∈ parts, ∃ result, part.1 plan = .ok result ∧
      AnswersBest score k part.2 result) :
    ∃ results, (parts.map Prod.fst).filterMap (fun node => (node plan).toOption) = results ∧
      results.length = parts.length ∧
      (∀ row ∈ results.flatMap (·.rows), ∃ id, extractRowId row = some id ∧
        row.score = some (score id)) ∧
      (results.flatMap (·.rows)).map rowId = answers (pools plan parts) := by
  induction parts with
  | nil => exact ⟨[], rfl, rfl, nofun, rfl⟩
  | cons part rest ih =>
    obtain ⟨first, others⟩ := List.forall_mem_cons.mp answered
    obtain ⟨result, ran, answer⟩ := first
    obtain ⟨results, collected, length, scored, ids⟩ := ih others
    have here : (part.1 plan).toOption = some result := by rw [ran]; rfl
    refine ⟨result :: results, ?_, by simp [length], ?_, ?_⟩
    · rw [List.map_cons, List.filterMap_cons, here, collected]
    · intro row there
      rcases List.mem_append.mp (List.flatMap_cons ▸ there) with here | there
      · exact answer.rows row here
      · exact scored row there
    · simp [answers, pools, answeredIds, ran] at ids ⊢
      exact ids

/-- The search on several nodes returns the best of all their entities exactly if the answers can be
told apart by the merge. -/
theorem scatter_top_iff (order : HashOrder (F64 × Row)) (numbers : ∀ id, (score id).isNaN = false)
    (fits : limit ≤ k) (dense : isHybrid plan = false)
    {parts : List (NodeHandle × Finset LogicalId)}
    (answered : ∀ part ∈ parts, ∃ result, part.1 plan = .ok result ∧
      AnswersBest score k part.2 result) :
    (∃ result, scatterGatherSearch order (parts.map Prod.fst) plan limit = .ok result ∧
        AnswersBest score limit (union (pools plan parts)) result) ↔
      Separable score k limit (pools plan parts) := by
  match parts with
  | [] => exact iff_of_false (fun ⟨_, ran, _⟩ => nomatch ran) id
  | [part] =>
    obtain ⟨result, ran, answer⟩ := answered part List.mem_cons_self
    have alone : union (pools plan [part]) = part.2 := by simp [pools, union]
    have fewer := answer.top.fewer_iff fits
    rw [Finset.length_toList] at fewer
    rw [alone]
    simp only [List.map_cons, List.map_nil, scatterGatherSearch, ran, Separable, pools]
    rw [← fewer]
    constructor
    · rintro ⟨_, same, cut⟩
      cases same
      exact cut.top
    · exact fun top => ⟨result, rfl, answer.rows, top⟩
  | first :: second :: rest =>
    obtain ⟨results, collected, length, scored, ids⟩ := gathered answered
    have nonempty : results.isEmpty = false := by
      cases results with
      | nil => cases length
      | cons _ _ => rfl
    have ran : scatterGatherSearch order ((first :: second :: rest).map Prod.fst) plan limit =
        .ok (mergeDenseResults results limit) := by
      unfold scatterGatherSearch
      simp only [List.map_cons] at collected ⊢
      simp [collected, nonempty, dense]
    have rows : (mergeDenseResults results limit).rows =
        (sortByScore (results.flatMap (·.rows))).take limit := by
      simp [mergeDenseResults, nonempty]
    have merged : (mergeDenseResults results limit).rows.map rowId =
        (sorted (scoreKey score) (answers (pools plan (first :: second :: rest)))).take limit := by
      rw [rows, List.map_take, map_sortByScore numbers scored, ids]
    have decided := top_sorted_iff (answered_pools answered) fits
    rw [← merged] at decided
    rw [ran]
    constructor
    · rintro ⟨_, same, answer⟩
      cases same
      exact decided.mp answer.top
    · intro separable
      refine ⟨_, rfl, fun row there => ?_, decided.mpr separable⟩
      rw [rows] at there
      have sorted_ : (sortByScore (results.flatMap (·.rows))).Perm _ := List.perm_insertionSort _ _
      exact scored row (sorted_.mem_iff.mp (List.mem_of_mem_take there))

/-! ### Two nodes -/

section Examples

def half : F32 := ⟨0x3F000000⟩

def scoreOf (id : LogicalId) : F32 := if id = "a" then .one else half

def rowOf (id : LogicalId) : Row :=
  ⟨(∅ : FinMap String Value).insert "id" (.string id), some (scoreOf id)⟩

/-- A node that answers with the rows of these entities. -/
def nodeWith (ids : List LogicalId) : NodeHandle := fun _ =>
  .ok ⟨["id"], ids.map rowOf, ids.length, .probabilistic, "hot"⟩

def nearestTwo : Plan :=
  .search ⟨"places", .all, some [], none, none, none, 2, .zero, .hnsw, none, none, [], none, none⟩

theorem scoreOf_number (id : LogicalId) : (scoreOf id).isNaN = false := by
  unfold scoreOf
  split <;> decide

theorem rowOf_named (id : LogicalId) : extractRowId (rowOf id) = some id := by
  simp [extractRowId, rowOf]

theorem answer_nodeWith {k : Nat} {entities : Finset LogicalId} {ids : List LogicalId}
    (top : Top (scoreKey scoreOf) k entities.toList ids) :
    ∃ result, nodeWith ids nearestTwo = .ok result ∧ AnswersBest scoreOf k entities result := by
  refine ⟨_, rfl, fun row there => ?_, ?_⟩
  · obtain ⟨id, -, rfl⟩ := List.mem_map.mp there
    exact ⟨id, rowOf_named id, rfl⟩
  · have named : rowId ∘ rowOf = id := funext fun id => rowId_of (rowOf_named id)
    simpa [named] using top

theorem top_all {k : Nat} {entities : Finset LogicalId} {ids : List LogicalId}
    (all : ids.Perm entities.toList) (enough : ids.length ≤ k)
    (ordered : Ranking (Higher (scoreKey scoreOf)) ids) :
    Top (scoreKey scoreOf) k entities.toList ids where
  best := ⟨all.subperm, by rw [← all.length_eq, Nat.min_eq_right enough],
    fun _ _ b there left => absurd (all.mem_iff.mpr there) left⟩
  ordered := ordered

theorem answer_apart :
    ∀ part ∈ [(nodeWith ["a"], ({"a"} : Finset LogicalId)), (nodeWith ["b"], {"b"})],
      ∃ result, part.1 nearestTwo = .ok result ∧ AnswersBest scoreOf 2 part.2 result := by
  have single (id : LogicalId) : Top (scoreKey scoreOf) 2 ({id} : Finset LogicalId).toList [id] :=
    top_all (by simp) (by simp) (List.pairwise_singleton _ _)
  simp only [List.forall_mem_cons]
  exact ⟨answer_nodeWith (single "a"), answer_nodeWith (single "b"), nofun⟩

/-- Two nodes with different entities. -/
theorem scatter_top_apart :
    ∃ result,
      scatterGatherSearch (.insertionOrder _) [nodeWith ["a"], nodeWith ["b"]] nearestTwo 2 =
        .ok result ∧ AnswersBest scoreOf 2
        (union (pools nearestTwo [(nodeWith ["a"], {"a"}), (nodeWith ["b"], {"b"})])) result :=
  (scatter_top_iff (.insertionOrder _) scoreOf_number (Nat.le_refl 2) rfl answer_apart).mpr
    (repeatsBehind_of_nodup (by decide) 2)

/-- Two replicas of one node. -/
theorem replicas_twice : ¬ ∀ (order : HashOrder (F64 × Row)) (score : LogicalId → F32)
    (k limit : Nat) (plan : Plan) (parts : List (NodeHandle × Finset LogicalId)),
    (∀ id, (score id).isNaN = false) → limit ≤ k → isHybrid plan = false → parts ≠ [] →
      (∀ part ∈ parts, ∃ result, part.1 plan = .ok result ∧
        AnswersBest score k part.2 result) →
        ∃ result, scatterGatherSearch order (parts.map Prod.fst) plan limit = .ok result ∧
          AnswersBest score limit (union (pools plan parts)) result := by
  intro always
  have both : Top (scoreKey scoreOf) 2 ({"a", "b"} : Finset LogicalId).toList ["a", "b"] := by
    refine top_all ?_ (by simp) ?_
    · apply (List.perm_ext_iff_of_nodup (by decide) (Finset.nodup_toList _)).mpr
      simp
    · unfold Ranking Higher
      decide
  obtain ⟨result, ran, answer⟩ := always (.insertionOrder _) scoreOf 2 2 nearestTwo
    [(nodeWith ["a", "b"], {"a", "b"}), (nodeWith ["a", "b"], {"a", "b"})] scoreOf_number
    (Nat.le_refl 2) rfl nofun (by
      simp only [List.forall_mem_cons]
      exact ⟨answer_nodeWith both, answer_nodeWith both, nofun⟩)
  have twice : (scatterGatherSearch (.insertionOrder _) [nodeWith ["a", "b"], nodeWith ["a", "b"]]
      nearestTwo 2).toOption.map (fun result => result.rows.map rowId) = some ["a", "a"] := by
    decide +kernel
  have rows := congrArg (fun r => r.toOption.map fun result => result.rows.map rowId) ran
  have ids : result.rows.map rowId = ["a", "a"] :=
    Option.some.inj (rows.symm.trans twice)
  obtain ⟨same, perm, sub⟩ := answer.top.best.among
  rw [ids] at perm
  exact absurd (perm.nodup_iff.mp (sub.nodup (Finset.nodup_toList _))) (by decide)

end Examples
end TronDB.Server
