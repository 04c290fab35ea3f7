import TronDB.Engine.Reachability

/-! TRAVERSE against TRAVERSE MATCH over one edge type, from the first hop on. -/
namespace TronDB.Engine
open TronDB.Core Binary Wal

/-! ### Two searches that report the same -/

namespace Search
variable {search search' : Search} {store : Store}

/-- Both look at the same neighbours and stop at the same limit. -/
structure Alike (search search' : Search) (store : Store) : Prop where
  neighbors : search.neighbors = search'.neighbors
  limit : search.limit = search'.limit
  report : search.report store = search'.report store

theorem Alike.visitNeighbors (alike : Alike search search' store) (hop : Nat)
    (arcs : List Neighbor) (r : Round) :
    search.visitNeighbors store hop arcs r = search'.visitNeighbors store hop arcs r := by
  induction arcs generalizing r with
  | nil => rfl
  | cons arc rest ih =>
    simp only [Search.visitNeighbors, alike.limit, alike.report, ih]

theorem Alike.visitFrontier (alike : Alike search search' store) (hop : Nat)
    (frontier : List LogicalId) (r : Round) :
    search.visitFrontier store hop frontier r = search'.visitFrontier store hop frontier r := by
  induction frontier generalizing r with
  | nil => rfl
  | cons node rest ih =>
    simp only [Search.visitFrontier, alike.neighbors, alike.limit, alike.visitNeighbors, ih]

theorem Alike.hops (alike : Alike search search' store) (left hop : Nat)
    (visited frontier : List LogicalId) (found : List Found) :
    search.hops store left hop visited frontier found =
      search'.hops store left hop visited frontier found := by
  induction left generalizing hop visited frontier found with
  | zero => rfl
  | succ left ih =>
    simp only [Search.hops, alike.limit, alike.visitFrontier, ih]

theorem Alike.run (alike : Alike search search' store) (fromId : LogicalId) (maxDepth : Nat) :
    search.run store fromId maxDepth = search'.run store fromId maxDepth :=
  alike.hops (Nat.min maxDepth 10) 0 [fromId] [fromId] []

theorem report_first_hop (neighbors : LogicalId → List Neighbor) (limit : Option Nat) :
    Search.report ⟨neighbors, 0, limit⟩ store = Search.report ⟨neighbors, 1, limit⟩ store := by
  funext hop arc
  have deep : 0 ≤ hop + 1 := Nat.zero_le _
  have deep' : 1 ≤ hop + 1 := Nat.le_add_left 1 hop
  simp only [Search.report, if_pos deep, if_pos deep']

end Search

/-! ### Pruned or admitted -/

theorem ge_of_numbers {x y : F32} (number : x.isNaN = false) (number' : y.isNaN = false) :
    x.ge y = !x.lt y := by
  simp only [F32.ge, F32.lt, number, number']
  by_cases below : x.key < y.key
  · have above : ¬ y.key ≤ x.key := by omega
    simp [below, above]
  · have above : y.key ≤ x.key := by omega
    simp [below, above]

section Agree
variable (env : ReadEnv) (s : State) (et : EdgeType) (p : F64) (x : LogicalId) (d : Nat)
  (limit : Option Nat)

def traversalOf : TraversePlan := ⟨et.name, x, d, limit⟩

/-- TRAVERSE FROM x MATCH (a)-[e:T]->(b) DEPTH 1..d with the threshold of the confidence. -/
def matchingOf : TraverseMatchPlan :=
  ⟨x, ⟨⟨some et.name, .forward⟩⟩, 1, d, some p, none, limit⟩

/-- Nothing that the index has under the edge type is read with a confidence of NaN. -/
def State.Confident : Prop :=
  ∀ node, ∀ entry ∈ s.adjacency.get node et.name, (env.confidence node et entry).isNaN = false

/-- The ids of the entities of a result, in the order of its rows. -/
def entityIds (result : QueryResult) : List (Option Value) :=
  result.rows.map fun row => row.values["id"]?

variable {env s et p x d limit}

theorem matchNeighbors_typed (stored : s.store.getEdgeType et.name = .ok et) (node : LogicalId) :
    s.matchNeighbors env (matchingOf et p x d limit) node =
      s.forwardNeighbors env (matchingOf et p x d limit) node et := by
  have types : s.edgeTypesToCheck env (matchingOf et p x d limit) = [et] := by
    simp only [State.edgeTypesToCheck, matchingOf, stored]
  rw [State.matchNeighbors, types]
  exact List.append_nil _

/-- What TRAVERSE does not prune is what TRAVERSE MATCH admits. -/
theorem traverseNeighbors_eq (pruning : et.decayConfig.pruneThreshold = some p)
    (number : p.toF32.isNaN = false) (confident : s.Confident env et) (node : LogicalId) :
    s.traverseNeighbors env et et.name node =
      s.forwardNeighbors env (matchingOf et p x d limit) node et := by
  unfold State.traverseNeighbors State.forwardNeighbors
  have sure := confident node
  generalize s.adjacency.get node et.name = entries at sure ⊢
  induction entries with
  | nil => rfl
  | cons entry rest ih =>
    have ih := ih fun other there => sure other (List.mem_cons_of_mem _ there)
    have same : (matchingOf et p x d limit).admits env node et entry =
        !pruned et (env.confidence node et entry) := by
      have first := sure entry (List.mem_cons_self ..)
      simp only [TraverseMatchPlan.admits, matchingOf, AdjEntry.visible, pruned, pruning,
        Option.any_some, Option.getD_some, Bool.true_and]
      exact ge_of_numbers first number
    cases low : pruned et (env.confidence node et entry) with
    | true =>
      simp only [List.filterMap_cons, List.filter_cons, same, low, if_true, Bool.not_true]
      exact ih
    | false =>
      simp only [List.filterMap_cons, List.filter_cons, same, low, Bool.not_false, if_true]
      exact congrArg (List.cons _) ih

theorem traverse_found (stored : s.store.getEdgeType et.name = .ok et)
    (pruning : et.decayConfig.pruneThreshold = some p) (number : p.toF32.isNaN = false)
    (confident : s.Confident env et) :
    Search.run ⟨s.traverseNeighbors env et et.name, 0, limit⟩ s.store x d =
      s.matchFound env (matchingOf et p x d limit) := by
  have neighbors : s.traverseNeighbors env et et.name =
      s.matchNeighbors env (matchingOf et p x d limit) := by
    funext node
    rw [matchNeighbors_typed stored, traverseNeighbors_eq pruning number confident]
  rw [neighbors]
  have alike : Search.Alike ⟨s.matchNeighbors env (matchingOf et p x d limit), 0, limit⟩
      ⟨s.matchNeighbors env (matchingOf et p x d limit), 1, limit⟩ s.store :=
    ⟨rfl, rfl, Search.report_first_hop _ limit⟩
  exact alike.run x d

theorem confident_of_listed (listed : ∀ e ∈ s.adjacency.forward.toList, e.1.2 = et.name →
    ∀ entry ∈ e.2, (env.confidence e.1.1 et entry).isNaN = false) : s.Confident env et := by
  intro node entry there
  unfold AdjacencyIndex.get at there
  cases found : s.adjacency.forward[(node, et.name)]? with
  | none =>
    rw [found] at there
    cases there
  | some entries =>
    rw [found] at there
    exact listed _ ((FinMap.mem_toList _ _ _).mpr found) rfl entry there

theorem row_id (plan : TraverseMatchPlan) (found : Found) :
    (plan.row found).values["id"]? = (entityToRow found.entity .all).values["id"]? := by
  unfold TraverseMatchPlan.row
  cases plan.pattern.edge.edgeType with
  | none => simp [FinMap.get_insert]
  | some name => simp [FinMap.get_insert]

variable (env s x d limit)

/-- TRAVERSE and TRAVERSE MATCH return the same entities in the same order, where the threshold
and what it is compared with are numbers. -/
theorem traverse_agrees (et : EdgeType) (p : F64) (stored : s.store.getEdgeType et.name = .ok et)
    (pruning : et.decayConfig.pruneThreshold = some p) (number : p.toF32.isNaN = false)
    (confident : s.Confident env et) :
    ∃ result, executeTraverse env s (traversalOf et x d limit) = .ok result ∧
      entityIds result =
        entityIds (executeTraverseMatchPlan s env (matchingOf et p x d limit)) := by
  have found := @traverse_found env s et p x d limit stored pruning number confident
  have runs : executeTraverse env s (traversalOf et x d limit) =
      .ok (let rows := (s.matchFound env (matchingOf et p x d limit)).map fun f =>
          entityToRow f.entity .all
        ⟨buildColumns rows .all, rows, rows.length, .deterministic, "Ram"⟩) := by
    simp only [executeTraverse, traversalOf, stored, found]
  refine ⟨_, runs, ?_⟩
  simp only [entityIds, executeTraverseMatchPlan, List.map_map]
  exact List.map_congr_left fun f _ => (row_id (matchingOf et p x d limit) f).symm

end Agree

/-! ### A confidence that is not a number -/

/-- An edge of a type that prunes and does not decay, confirmed with some confidence. -/
def confirmed (confidence : F32) : List Step :=
  ([.createCollection ⟨"people", [], [], [], none⟩,
    .insert ⟨"people", ["id"], [.string "a"], [], none, none⟩,
    .insert ⟨"people", ["id"], [.string "b"], [], none, none⟩,
    .createEdgeType ⟨"knows", "people", "people", some ⟨none, none, none, none, some .one⟩, none⟩,
    .confirmEdge ⟨"knows", "a", "b", confidence⟩] : List Write).map fun w => (Env.idle, w)

def knows : EdgeType :=
  buildEdgeType ⟨"knows", "people", "people", some ⟨none, none, none, none, some .one⟩, none⟩

section Examples
attribute [local instance] headerOnly

theorem confirmed_agrees :
    let s := (confirmed .one).foldl State.step (State.init default)
    ∃ result, executeTraverse .idle s (traversalOf knows "a" 3 none) = .ok result ∧
      entityIds result =
        entityIds (executeTraverseMatchPlan s .idle (matchingOf knows .one "a" 3 none)) :=
  traverse_agrees .idle _ "a" 3 none knows .one (by decide) rfl (by decide)
    (confident_of_listed (by decide))

/-- TRAVERSE follows an edge whose confidence is NaN, and TRAVERSE MATCH does not. -/
theorem nan_edge_disagrees :
    let s := (confirmed ⟨0x7FC00000⟩).foldl State.step (State.init default)
    ¬ ∃ result, executeTraverse .idle s (traversalOf knows "a" 1 none) = .ok result ∧
      entityIds result =
        entityIds (executeTraverseMatchPlan s .idle (matchingOf knows .one "a" 1 none)) := by
  have followed : (executeTraverse .idle ((confirmed ⟨0x7FC00000⟩).foldl State.step
      (State.init default)) (traversalOf knows "a" 1 none)).map entityIds =
      .ok [some (.string "b")] := by decide
  have nothing : entityIds (executeTraverseMatchPlan ((confirmed ⟨0x7FC00000⟩).foldl State.step
      (State.init default)) .idle (matchingOf knows .one "a" 1 none)) = [] := by decide
  intro s agree
  obtain ⟨result, runs, same⟩ := agree
  rw [nothing] at same
  rw [runs] at followed
  have found : entityIds result = [some (.string "b")] := Except.ok.inj followed
  rw [found] at same
  cases same

end Examples
end TronDB.Engine
