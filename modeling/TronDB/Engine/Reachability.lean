import TronDB.Engine.Adjacency
import TronDB.Engine.Replayed
import TronDB.Engine.Traverse
import TronDB.Lib.Layers

/-! TRAVERSE MATCH finds what is reachable, at its shortest distance. -/
namespace TronDB.Engine
open TronDB.Core Binary Wal Layers

/-! ### The search without and with LIMIT -/

namespace Search
variable (search : Search) (store : Store)

def unlimited : Search := { search with limit := none }

/-- The arcs by which the rounds from a hop on find entities, as far as they are reported. -/
def reports (hop : Nat) (arcs : List Neighbor) : List Found :=
  arcs.filterMap (search.report store hop)

theorem visitNeighbors_unlimited (hop : Nat) (arcs : List Neighbor) (r : Round) :
    search.unlimited.visitNeighbors store hop arcs r =
      ⟨see r.visited arcs, r.nextFrontier ++ (fresh r.visited arcs).map Prod.fst,
        r.found ++ search.reports store hop (fresh r.visited arcs)⟩ := by
  induction arcs generalizing r with
  | nil => simp [visitNeighbors, see, reports]
  | cons arc rest ih =>
    rw [visitNeighbors, see_cons, fresh]
    by_cases known : arc.1 ∈ r.visited
    · rw [if_pos known, if_pos known, if_pos known]
      exact ih r
    · rw [if_neg known, if_neg known, if_neg known]
      have same : search.unlimited.report store hop arc = search.report store hop arc := rfl
      have open_ (found : List Found) : full search.unlimited.limit found = false := rfl
      dsimp only
      rw [same]
      cases reported : search.report store hop arc with
      | none =>
        dsimp only
        rw [ih]
        simp only [reports, List.filterMap_cons, reported, List.map_cons, List.append_assoc,
          List.singleton_append]
      | some found =>
        dsimp only
        rw [open_, if_neg Bool.false_ne_true, ih]
        simp only [reports, List.filterMap_cons, reported, List.map_cons, List.append_assoc,
          List.singleton_append]

theorem visitFrontier_unlimited (hop : Nat) (frontier : List LogicalId) (r : Round) :
    search.unlimited.visitFrontier store hop frontier r =
      ⟨see r.visited (frontier.flatMap search.neighbors),
        r.nextFrontier ++ (fresh r.visited (frontier.flatMap search.neighbors)).map Prod.fst,
        r.found ++ search.reports store hop
          (fresh r.visited (frontier.flatMap search.neighbors))⟩ := by
  induction frontier generalizing r with
  | nil => simp [visitFrontier, see, reports]
  | cons node rest ih =>
    have open_ (found : List Found) : full search.unlimited.limit found = false := rfl
    have same : search.unlimited.neighbors node = search.neighbors node := rfl
    rw [visitFrontier, open_, if_neg Bool.false_ne_true, ih, same, visitNeighbors_unlimited, List.flatMap_cons,
      fresh_append, see_append]
    simp [reports]

/-- Every round reports the arcs by which it finds the next layer. -/
theorem hops_unlimited (start : LogicalId) (left hop : Nat) (found : List Found) :
    search.unlimited.hops store left hop (front search.neighbors start hop).1
        (layer search.neighbors start hop) found =
      found ++ (List.range' hop left).flatMap fun h =>
        search.reports store h (discovered search.neighbors start h) := by
  induction left generalizing hop found with
  | zero => simp [hops]
  | succ left ih =>
    rw [hops, List.range'_succ, List.flatMap_cons]
    by_cases stop : layer search.neighbors start hop = []
    · rw [if_pos (.inl stop)]
      have nothing : ∀ h ∈ hop :: List.range' (hop + 1) left,
          search.reports store h (discovered search.neighbors start h) = [] := by
        intro h later
        have bound : hop ≤ h := by
          rw [← List.range'_succ, List.mem_range'_1] at later
          exact later.1
        obtain ⟨k, rfl⟩ := Nat.exists_eq_add_of_le bound
        rw [(discovered_nil search.neighbors start stop k).2]
        rfl
      have rest := List.flatMap_eq_nil_iff.mpr fun h later =>
        nothing h (List.mem_cons_of_mem _ later)
      rw [nothing hop (List.mem_cons_self ..), rest, List.append_nil, List.append_nil]
    · have open_ : full search.unlimited.limit found = false := rfl
      rw [if_neg (by rw [open_]; simp [stop]), visitFrontier_unlimited]
      dsimp only
      rw [List.nil_append]
      exact (ih (hop + 1) _).trans (List.append_assoc _ _ _)

def Cut (limit : Nat) (r u : Round) : Prop :=
  r.found = u.found.take limit ∧ (u.found.length < limit → r = u)

variable {search}

theorem full_iff {limit : Nat} (bound : search.limit = some limit) (found : List Found) :
    full search.limit found = true ↔ limit ≤ found.length := by
  rw [full, bound]
  exact decide_eq_true_iff

theorem visitNeighbors_cut {limit : Nat} (bound : search.limit = some limit) (hop : Nat)
    (arcs : List Neighbor) (r : Round) (room : r.found.length < limit) :
    Cut limit (search.visitNeighbors store hop arcs r)
      (search.unlimited.visitNeighbors store hop arcs r) := by
  induction arcs generalizing r with
  | nil => exact ⟨(List.take_of_length_le (Nat.le_of_lt room)).symm, fun _ => rfl⟩
  | cons arc rest ih =>
    rw [visitNeighbors, visitNeighbors]
    by_cases known : arc.1 ∈ r.visited
    · rw [if_pos known, if_pos known]
      exact ih r room
    · rw [if_neg known, if_neg known]
      have same : search.unlimited.report store hop arc = search.report store hop arc := rfl
      have open_ (found : List Found) : full search.unlimited.limit found = false := rfl
      dsimp only
      rw [same]
      cases search.report store hop arc with
      | none => exact ih _ room
      | some found =>
        dsimp only
        rw [open_, if_neg Bool.false_ne_true]
        have grown : (r.found ++ [found]).length = r.found.length + 1 := by simp
        split
        · rename_i reached
          have exact_ : (r.found ++ [found]).length = limit := by
            have := (full_iff bound _).mp reached
            omega
          rw [visitNeighbors_unlimited]
          refine ⟨?_, fun short => absurd short ?_⟩
          · dsimp only
            rw [List.take_append_of_le_length (Nat.le_of_eq exact_.symm),
              List.take_of_length_le (Nat.le_of_eq exact_)]
          · simp only [List.length_append] at exact_ ⊢
            omega
        · rename_i unreached
          have below : ¬ limit ≤ (r.found ++ [found]).length := fun at_ =>
            unreached ((full_iff bound _).mpr at_)
          exact ih _ (by dsimp only; omega)

theorem visitFrontier_cut {limit : Nat} (bound : search.limit = some limit) (hop : Nat)
    (frontier : List LogicalId) (r : Round) (room : r.found.length < limit) :
    Cut limit (search.visitFrontier store hop frontier r)
      (search.unlimited.visitFrontier store hop frontier r) := by
  induction frontier generalizing r with
  | nil => exact ⟨(List.take_of_length_le (Nat.le_of_lt room)).symm, fun _ => rfl⟩
  | cons node rest ih =>
    obtain ⟨cutFound, equal⟩ := visitNeighbors_cut store bound hop (search.neighbors node) r room
    have open_ (found : List Found) : full search.unlimited.limit found = false := rfl
    have same : search.unlimited.neighbors node = search.neighbors node := rfl
    rw [visitFrontier, visitFrontier, open_, if_neg Bool.false_ne_true, same]
    generalize search.visitNeighbors store hop (search.neighbors node) r = cut at cutFound equal
    generalize search.unlimited.visitNeighbors store hop (search.neighbors node) r = whole
      at cutFound equal
    split
    · rename_i reached
      have long : limit ≤ whole.found.length := by
        have := (full_iff bound _).mp reached
        rw [cutFound, List.length_take] at this
        omega
      rw [visitFrontier_unlimited]
      refine ⟨?_, fun short => absurd short ?_⟩
      · dsimp only
        rw [List.take_append_of_le_length long]
        exact cutFound
      · simp only [List.length_append]
        omega
    · rename_i unreached
      have short : whole.found.length < limit := by
        by_contra long
        refine unreached ((full_iff bound _).mpr ?_)
        rw [cutFound, List.length_take]
        omega
      rw [equal short]
      exact ih whole short

theorem hops_full {limit : Nat} (bound : search.limit = some limit) (left hop : Nat)
    (visited frontier : List LogicalId) {found : List Found} (long : limit ≤ found.length) :
    search.hops store left hop visited frontier found = found := by
  cases left with
  | zero => rfl
  | succ left =>
    rw [hops, if_pos (.inr ((full_iff bound found).mpr long))]

theorem found_grows (left hop : Nat) (visited frontier : List LogicalId) (found : List Found) :
    ∃ more, search.unlimited.hops store left hop visited frontier found = found ++ more := by
  induction left generalizing hop visited frontier found with
  | zero => exact ⟨[], by simp [hops]⟩
  | succ left ih =>
    rw [hops]
    split
    · exact ⟨[], by simp⟩
    · dsimp only
      rw [visitFrontier_unlimited]
      obtain ⟨more, grown⟩ := ih (hop + 1) (see visited (frontier.flatMap search.neighbors))
        ([] ++ (fresh visited (frontier.flatMap search.neighbors)).map Prod.fst)
        (found ++ search.reports store hop (fresh visited (frontier.flatMap search.neighbors)))
      exact ⟨_, grown.trans (List.append_assoc _ _ _)⟩

theorem hops_cut {limit : Nat} (bound : search.limit = some limit) (left hop : Nat)
    (visited frontier : List LogicalId) (found : List Found) (room : found.length ≤ limit) :
    search.hops store left hop visited frontier found =
      (search.unlimited.hops store left hop visited frontier found).take limit := by
  induction left generalizing hop visited frontier found with
  | zero => exact (List.take_of_length_le room).symm
  | succ left ih =>
    obtain ⟨more, grown⟩ :=
      @found_grows search store (left + 1) hop visited frontier found
    rcases Nat.lt_or_eq_of_le room with short | filled
    · have open_ : full search.unlimited.limit found = false := rfl
      have unfilled : full search.limit found = false := by
        rw [Bool.eq_false_iff, ne_eq, full_iff bound]
        omega
      rw [hops, hops, open_, unfilled]
      split
      · exact (List.take_of_length_le room).symm
      · obtain ⟨cutFound, equal⟩ :=
          visitFrontier_cut store bound hop frontier ⟨visited, [], found⟩ short
        dsimp only
        generalize search.visitFrontier store hop frontier ⟨visited, [], found⟩ = cut
          at cutFound equal
        generalize search.unlimited.visitFrontier store hop frontier ⟨visited, [], found⟩ = whole
          at cutFound equal
        rcases Nat.lt_or_ge whole.found.length limit with short | long
        · rw [equal short]
          exact ih (hop + 1) whole.visited whole.nextFrontier whole.found (Nat.le_of_lt short)
        · obtain ⟨more, grown⟩ := @found_grows search store left (hop + 1) whole.visited
            whole.nextFrontier whole.found
          rw [hops_full store bound, grown, List.take_append_of_le_length long, cutFound]
          rw [cutFound, List.length_take]
          omega
    · rw [hops_full store bound (left + 1) hop visited frontier (Nat.le_of_eq filled.symm), grown,
        List.take_append_of_le_length (Nat.le_of_eq filled.symm),
        List.take_of_length_le (Nat.le_of_eq filled)]

theorem run_cut {limit : Nat} (bound : search.limit = some limit) (fromId : LogicalId)
    (maxDepth : Nat) :
    search.run store fromId maxDepth = (search.unlimited.run store fromId maxDepth).take limit :=
  hops_cut store bound _ 0 [fromId] [fromId] [] (Nat.zero_le _)

theorem run_unlimited (fromId : LogicalId) (maxDepth : Nat) :
    search.unlimited.run store fromId maxDepth =
      (List.range (min maxDepth 10)).flatMap fun h =>
        search.reports store h (discovered search.neighbors fromId h) := by
  rw [List.range_eq_range']
  exact search.hops_unlimited store fromId (min maxDepth 10) 0 []

end Search
/-! ### Qualifying edges -/

section Edges
variable (s : State) (env : ReadEnv) (p : TraverseMatchPlan)

def State.covers (et : EdgeType) : Prop :=
  match p.pattern.edge.edgeType with
  | some name => s.store.edgeTypes[name]? = some et
  | none => ∃ name : String, s.edgeTypes[name]? = some et

/-- A qualifying edge leads from one entity to another, in the collection its type names. -/
def State.Leads (u v : LogicalId) (collection : String) : Prop :=
  ∃ et, s.covers p et ∧
    (p.pattern.edge.direction ≠ .backward ∧ collection = et.toCollection ∧
        (∃ entry ∈ s.adjacency.get u et.name, entry.toId = v ∧ p.admits env u et entry = true) ∨
      p.pattern.edge.direction ≠ .forward ∧ collection = et.fromCollection ∧
        ∃ entry ∈ s.adjacency.get v et.name, entry.toId = u ∧ p.admits env u et entry = true)

variable {s env p}

theorem mem_edgeTypesToCheck {et : EdgeType} : et ∈ s.edgeTypesToCheck env p ↔ s.covers p et := by
  unfold State.edgeTypesToCheck State.covers Store.getEdgeType
  cases p.pattern.edge.edgeType with
  | none =>
    dsimp only
    rw [((env.edgeTypeOrder.perm _).map _).mem_iff, List.mem_map]
    simp only [Prod.exists, FinMap.mem_toList, exists_eq_right]
  | some name =>
    dsimp only
    cases s.store.edgeTypes[name]? with
    | none => simp
    | some et' => simp [eq_comm]

theorem mem_forwardNeighbors {u v : LogicalId} {collection : String} {et : EdgeType} :
    (∃ confidence, (v, confidence, collection) ∈ s.forwardNeighbors env p u et) ↔
      collection = et.toCollection ∧
        ∃ entry ∈ s.adjacency.get u et.name, entry.toId = v ∧ p.admits env u et entry = true := by
  simp only [State.forwardNeighbors, List.mem_map, List.mem_filter, Prod.mk.injEq]
  constructor
  · rintro ⟨confidence, entry, ⟨there, admitted⟩, target, -, rfl⟩
    exact ⟨rfl, entry, there, target, admitted⟩
  · rintro ⟨rfl, entry, there, target, admitted⟩
    exact ⟨_, entry, ⟨there, admitted⟩, target, rfl, rfl⟩

theorem mem_backwardNeighbors (linked : s.adjacency.Linked) {u v : LogicalId} {collection : String}
    {et : EdgeType} :
    (∃ confidence, (v, confidence, collection) ∈ s.backwardNeighbors env p u et) ↔
      collection = et.fromCollection ∧
        ∃ entry ∈ s.adjacency.get v et.name, entry.toId = u ∧ p.admits env u et entry = true := by
  simp only [State.backwardNeighbors, List.mem_flatMap, List.mem_map, List.mem_filter,
    Prod.mk.injEq, Bool.and_eq_true, decide_eq_true_eq]
  constructor
  · rintro ⟨confidence, source, -, entry, ⟨there, target, admitted⟩, rfl, -, rfl⟩
    exact ⟨rfl, entry, there, target, admitted⟩
  · rintro ⟨rfl, entry, there, target, admitted⟩
    exact ⟨_, v, (linked v et.name u).mpr ⟨entry, there, target⟩, entry, ⟨there, target, admitted⟩,
      rfl, rfl, rfl⟩

theorem leads_iff (linked : s.adjacency.Linked) {u v : LogicalId} {collection : String} :
    s.Leads env p u v collection ↔
      ∃ confidence, (v, confidence, collection) ∈ s.matchNeighbors env p u := by
  simp only [State.Leads, State.matchNeighbors, List.mem_flatMap, mem_edgeTypesToCheck]
  rw [exists_comm]
  refine exists_congr fun et => ?_
  simp only [exists_and_left]
  refine and_congr_right fun _ => ?_
  rw [← mem_forwardNeighbors, ← mem_backwardNeighbors linked]
  cases p.pattern.edge.direction with
  | forward => simp
  | backward => simp
  | undirected => simp [exists_or]

/-! ### Distances -/

variable (s env p)

/-- Length of the shortest path over qualifying edges. -/
def State.AtDistance (depth : Nat) (id : LogicalId) : Prop :=
  Distance (fun u v => ∃ collection, s.Leads env p u v collection) p.fromId depth id

/-- An entity at a distance within the range, stored where the last edge of a shortest path
leads. -/
structure State.Reaches (id : LogicalId) (depth : Nat) : Prop where
  notStart : id ≠ p.fromId
  atLeast : p.minDepth ≤ depth
  atMost : depth ≤ min p.maxDepth 10
  distance : s.AtDistance env p depth id
  stored : ∃ u collection, s.AtDistance env p (depth - 1) u ∧ s.Leads env p u id collection ∧
    ∃ e, s.store.get collection id = .ok e

/-- The result without LIMIT has every entity that is reached, once and with its distance; a
LIMIT cuts it off. -/
structure ShortestDistances : Prop where
  once : ((s.matchFound env { p with limit := none }).map Found.id).Nodup
  entities : ∀ f ∈ s.matchFound env { p with limit := none },
    s.store.get f.collection f.id = .ok f.entity
  exactly : ∀ id depth, (∃ f ∈ s.matchFound env { p with limit := none },
    f.id = id ∧ f.depth = depth) ↔ s.Reaches env p id depth
  rows : (executeTraverseMatchPlan s env p).rows =
    match p.limit with
    | none => (s.matchFound env { p with limit := none }).map p.row
    | some limit => ((s.matchFound env { p with limit := none }).map p.row).take limit

/-- Of the last edges of shortest paths to an entity that some of them finds stored, the one
that is read first finds it stored. -/
def FirstEdgeStored : Prop :=
  ∀ id depth, s.Reaches env p id depth → ∀ arc,
    ((layer (s.matchNeighbors env p) p.fromId (depth - 1)).flatMap (s.matchNeighbors env p)).find?
        (fun a => a.1 = id) = some arc →
      ∃ e, s.store.get arc.2.2 id = .ok e

variable {s env p}

theorem atDistance_iff (linked : s.adjacency.Linked) {depth : Nat} {id : LogicalId} :
    s.AtDistance env p depth id ↔ Distance (Layers.Step (s.matchNeighbors env p)) p.fromId depth id := by
  have same : (fun u v => ∃ collection, s.Leads env p u v collection) =
      Layers.Step (s.matchNeighbors env p) := by
    funext u v
    refine propext ?_
    simp only [leads_iff linked, Layers.Step, Prod.exists]
    exact exists_comm
  rw [State.AtDistance, same]

theorem report_eq_some {search : Search} {store : Store} {hop : Nat} {arc : Neighbor} {f : Found} :
    search.report store hop arc = some f ↔ search.minDepth ≤ hop + 1 ∧
      ∃ e, store.get arc.2.2 arc.1 = .ok e ∧ f = ⟨arc.1, arc.2.2, e, arc.2.1, hop + 1⟩ := by
  unfold Search.report
  by_cases deep : search.minDepth ≤ hop + 1
  · rw [if_pos deep]
    cases store.get arc.2.2 arc.1 with
    | error e => simp
    | ok e => simp [deep, eq_comm]
  · rw [if_neg deep]
    simp [deep]

theorem mem_found (f : Found) : f ∈ s.matchFound env { p with limit := none } ↔
    ∃ hop < min p.maxDepth 10, ∃ arc,
      arc ∈ discovered (s.matchNeighbors env p) p.fromId hop ∧ p.minDepth ≤ hop + 1 ∧
        ∃ e, s.store.get arc.2.2 arc.1 = .ok e ∧ f = ⟨arc.1, arc.2.2, e, arc.2.1, hop + 1⟩ := by
  have whole := @Search.run_unlimited ⟨s.matchNeighbors env p, p.minDepth, none⟩ s.store
    p.fromId p.maxDepth
  have neighbors : s.matchNeighbors env { p with limit := none } = s.matchNeighbors env p := rfl
  rw [State.matchFound, neighbors]
  refine (Eq.to_iff (congrArg (f ∈ ·) whole)).trans ?_
  simp only [List.mem_flatMap, List.mem_range, Search.reports, List.mem_filterMap, report_eq_some]

theorem nodup_found : ((s.matchFound env { p with limit := none }).map Found.id).Nodup := by
  have whole := @Search.run_unlimited ⟨s.matchNeighbors env p, p.minDepth, none⟩ s.store
    p.fromId p.maxDepth
  have ids (hop : Nat) (arcs : List Neighbor) :
      ((Search.reports ⟨s.matchNeighbors env p, p.minDepth, none⟩ s.store hop arcs).map
        Found.id).Sublist (arcs.map Prod.fst) := by
    induction arcs with
    | nil => exact .slnil
    | cons arc rest ih =>
      rw [Search.reports, List.filterMap_cons]
      cases reported : Search.report ⟨s.matchNeighbors env p, p.minDepth, none⟩ s.store hop arc with
      | none => exact ih.cons _
      | some f =>
        obtain ⟨-, e, -, rfl⟩ := report_eq_some.mp reported
        exact ih.cons_cons _
  refine (congrArg (fun found => (found.map Found.id).Nodup) whole).mpr ?_
  rw [List.map_flatMap, List.nodup_flatMap]
  refine ⟨fun hop _ => (nodup_discovered _ _ hop).sublist (ids hop _), ?_⟩
  refine List.nodup_range.imp_of_mem ?_
  intro hop hop' _ _ different id here there
  have depth (h : Nat) (found : id ∈ (Search.reports ⟨s.matchNeighbors env p, p.minDepth, none⟩
      s.store h (discovered (s.matchNeighbors env p) p.fromId h)).map Found.id) :
      Distance (Layers.Step (s.matchNeighbors env p)) p.fromId (h + 1) id := by
    rw [← mem_layer, layer_succ]
    exact (ids h _).subset found
  exact different (Nat.succ.inj ((depth hop here).unique (depth hop' there)))

theorem distances_iff (linked : s.adjacency.Linked) :
    ShortestDistances s env p ↔ FirstEdgeStored s env p := by
  have reached (f : Found) (there : f ∈ s.matchFound env { p with limit := none }) :
      s.Reaches env p f.id f.depth := by
    obtain ⟨hop, below, arc, found, deep, e, stored, rfl⟩ := (mem_found f).mp there
    obtain ⟨distance, first⟩ := mem_discovered _ _ |>.mp found
    obtain ⟨u, layer_, arc_⟩ := List.mem_flatMap.mp (List.mem_of_find?_eq_some first)
    refine ⟨?_, deep, below, (atDistance_iff linked).mpr distance, u, arc.2.2, ?_, ?_, e, stored⟩
    · rintro same
      have zero : Distance (Layers.Step (s.matchNeighbors env p)) p.fromId 0 _ :=
        distance_zero.mpr same
      exact absurd (zero.unique distance) (by simp)
    · exact (atDistance_iff linked).mpr (mem_layer _ _ |>.mp layer_)
    · exact (leads_iff linked).mpr ⟨arc.2.1, arc_⟩
  constructor
  · intro answer id depth reaches arc first
    obtain ⟨f, there, rfl, rfl⟩ := (answer.exactly id depth).mpr reaches
    obtain ⟨hop, -, arc', found, -, e, stored, rfl⟩ := (mem_found f).mp there
    obtain ⟨-, first'⟩ := mem_discovered _ _ |>.mp found
    cases first.symm.trans first'
    exact ⟨e, stored⟩
  · intro firstStored
    refine ⟨nodup_found, ?_, fun id depth => ⟨?_, fun reaches => ?_⟩, ?_⟩
    · intro f there
      obtain ⟨hop, -, arc, -, -, e, stored, rfl⟩ := (mem_found f).mp there
      exact stored
    · rintro ⟨f, there, rfl, rfl⟩
      exact reached f there
    · obtain ⟨u, collection, before, last, -⟩ := reaches.stored
      have positive : 0 < depth := by
        rcases Nat.eq_zero_or_pos depth with zero | positive
        · exact absurd (distance_zero.mp (zero ▸ reaches.distance)) reaches.notStart
        · exact positive
      obtain ⟨hop, rfl⟩ := Nat.exists_eq_add_of_lt positive
      obtain ⟨confidence, neighbor⟩ := (leads_iff linked).mp last
      have listed : (id, confidence, collection) ∈
          (layer (s.matchNeighbors env p) p.fromId (0 + hop + 1 - 1)).flatMap
            (s.matchNeighbors env p) :=
        List.mem_flatMap.mpr ⟨u, mem_layer _ _ |>.mpr ((atDistance_iff linked).mp before), neighbor⟩
      cases first : ((layer (s.matchNeighbors env p) p.fromId (0 + hop + 1 - 1)).flatMap
          (s.matchNeighbors env p)).find? (fun a => a.1 = id) with
      | none => exact absurd (List.find?_eq_none.mp first _ listed) (by simp)
      | some arc =>
        obtain ⟨e, stored⟩ := firstStored id _ reaches arc first
        have target : arc.1 = id := by simpa using List.find?_some first
        subst target
        have atMost := reaches.atMost
        have distance := (atDistance_iff linked).mp reaches.distance
        simp only [Nat.zero_add, Nat.add_sub_cancel] at first distance atMost reaches ⊢
        exact ⟨_, (mem_found _).mpr ⟨hop, atMost, arc, mem_discovered _ _ |>.mpr ⟨distance, first⟩,
          reaches.atLeast, e, stored, rfl⟩, rfl, rfl⟩
    · have neighbors : s.matchNeighbors env { p with limit := none } = s.matchNeighbors env p := rfl
      unfold executeTraverseMatchPlan
      dsimp only
      cases limited : p.limit with
      | none =>
        refine congrArg (List.map p.row) ?_
        rw [State.matchFound, State.matchFound, neighbors, limited]
      | some limit =>
        dsimp only
        rw [← List.map_take]
        refine congrArg (List.map p.row) ?_
        rw [State.matchFound, limited]
        exact @Search.run_cut ⟨s.matchNeighbors env p, p.minDepth, some limit⟩ s.store limit rfl
          p.fromId p.maxDepth

theorem distances_of_stored (linked : s.adjacency.Linked)
    (stored : ∀ u v collection, s.Leads env p u v collection →
      ∃ e, s.store.get collection v = .ok e) : ShortestDistances s env p := by
  refine (distances_iff linked).mpr fun id depth _ arc first => ?_
  obtain ⟨u, -, there⟩ := List.mem_flatMap.mp (List.mem_of_find?_eq_some first)
  have target : arc.1 = id := by simpa using List.find?_some first
  subst target
  exact stored u arc.1 arc.2.2 ((leads_iff linked).mpr ⟨arc.2.1, there⟩)

/-- Whatever the adjacency index has been through, TRAVERSE MATCH returns the entities at
their shortest distances iff the edge that is read first finds the entity stored. -/
theorem traverse_match_iff (s : State) (changes : List AdjacencyIndex.Change) (env : ReadEnv)
    (p : TraverseMatchPlan) :
    ShortestDistances { s with adjacency := .after changes } env p ↔
      FirstEdgeStored { s with adjacency := .after changes } env p :=
  distances_iff (AdjacencyIndex.linked_after changes)

end Edges

/-! ### An edge into a dropped collection -/

/-- Nothing decays and nothing has been created before the epoch. -/
def ReadEnv.idle : ReadEnv := ⟨id, fun _ _ _ => 0, .insertionOrder _⟩

/-- The same id in two collections, an edge to each, and one collection dropped. -/
def dropped : List Step :=
  ([.createCollection ⟨"sources", [], [], [], none⟩, .createCollection ⟨"left", [], [], [], none⟩,
    .createCollection ⟨"right", [], [], [], none⟩,
    .insert ⟨"sources", ["id"], [.string "s"], [], none, none⟩,
    .insert ⟨"left", ["id"], [.string "x"], [], none, none⟩,
    .insert ⟨"right", ["id"], [.string "x"], [], none, none⟩,
    .createEdgeType ⟨"a", "sources", "left", none, none⟩,
    .createEdgeType ⟨"b", "sources", "right", none, none⟩,
    .insertEdge ⟨"a", "s", "x", [], none, none⟩, .insertEdge ⟨"b", "s", "x", [], none, none⟩,
    .dropCollection "left"] : List Write).map fun w => (Env.idle, w)

def oneHop : TraverseMatchPlan := ⟨"s", ⟨⟨none, .forward⟩⟩, 1, 1, none, none, none⟩

section Examples
attribute [local instance] headerOnly

/-- The entity in the other collection is one hop away and is not returned. -/
theorem dangling_edge_hides :
    ¬ ShortestDistances (dropped.foldl State.step (State.init default)) .idle oneHop := by
  intro answer
  have nothing : (dropped.foldl State.step (State.init default)).matchFound .idle oneHop = [] := by
    decide
  have covered : (dropped.foldl State.step (State.init default)).edgeTypes["b"]? =
      some (buildEdgeType ⟨"b", "sources", "right", none, none⟩) := by decide
  have edge : ∃ entry ∈ (dropped.foldl State.step (State.init default)).adjacency.get "s" "b",
      entry.toId = "x" ∧ oneHop.admits .idle "s"
        (buildEdgeType ⟨"b", "sources", "right", none, none⟩) entry = true := by decide +kernel
  have stored : (dropped.foldl State.step (State.init default)).store.get "right" "x" =
      .ok { Entity.new "x" with txTime := 6 } := by decide +kernel
  have leads : (dropped.foldl State.step (State.init default)).Leads .idle oneHop "s" "x" "right" :=
    ⟨_, ⟨"b", covered⟩, .inl ⟨by decide, rfl, edge⟩⟩
  have start : (dropped.foldl State.step (State.init default)).AtDistance .idle oneHop 0 "s" :=
    distance_zero.mpr rfl
  have away : (dropped.foldl State.step (State.init default)).AtDistance .idle oneHop 1 "x" := by
    refine distance_succ.mpr ⟨⟨"s", start, "right", leads⟩, fun m bound near => ?_⟩
    cases Nat.le_zero.mp bound
    exact absurd (distance_zero.mp near) (by decide)
  obtain ⟨f, there, -⟩ := (answer.exactly "x" 1).mpr
    ⟨by decide, by decide, by decide, away, "s", "right", start, leads, _, stored⟩
  rw [show { oneHop with limit := none } = oneHop from rfl, nothing] at there
  cases there

end Examples
end TronDB.Engine
