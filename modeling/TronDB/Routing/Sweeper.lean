import TronDB.Engine.Rooted
import TronDB.Engine.Sweeping
import TronDB.Routing.SweepText

/-! The decay sweeper of the routing layer, which deletes edges by TQL texts, beside the sweep of
the engine, which deletes them by their keys. -/
namespace TronDB.Routing
open TronDB.Core TronDB.Engine Binary Wal

/-! ### The sweeper -/

section Model
variable [WalPayload Payload]

/-- A legacy edge, without the time it was created at, does not decay. -/
def expired (env : Env) (now : Nat) (et : EdgeType) (threshold : F64) (edge : Edge) : Bool :=
  edge.createdAt ≠ 0 &&
    (env.effectiveConfidence edge.confidence (now - edge.createdAt) et.decayConfig).lt
      threshold.toF32

/-- No text of the sweeper is read as another statement. -/
def execute (env : Env) (s : State) : Tql.Statement UInt64 UInt32 → State
  | .deleteEdge d => (deleteEdge env s ⟨d.edgeType, d.fromId, d.toId⟩).2
  | _ => s

/-- A text that is not accepted is passed over; a panic ends the sweep. -/
def sweepEdge (env : Env) (et : EdgeType) (x : Nat × State) (edge : Edge) : Option (Nat × State) :=
  match Tql.parse (sweepText et edge) with
  | .ok stmt => some (x.1 + 1, execute env x.2 stmt)
  | .error (.error _) => some x
  | .error .panic => none

def sweepType (env : Env) (now : Nat) (x : Nat × State) (et : EdgeType) : Option (Nat × State) :=
  match et.decayConfig.pruneThreshold with
  | none => some x
  | some threshold =>
    ((x.2.store.scanEdges et.name).filter (expired env now et threshold)).foldlM (sweepEdge env et) x

def sweepOnce (env : Env) (s : State) : Option (Nat × State) :=
  (s.store.edgeTypes.toList.map Prod.snd).foldlM (sweepType env (env.nowMillis s.wal.nextTx)) (0, s)

/-! ### The sweep of the engine, with what it returns -/

def countingType (env : Env) (now : Nat) (x : Nat × State) (et : EdgeType) : Nat × State :=
  match et.decayConfig.pruneThreshold with
  | none => x
  | some threshold =>
    ((x.2.store.scanEdges et.name).filter (decayed env now et threshold)).foldl
      (fun x edge => (x.1 + 1, x.2.removeEdge env.ts et.name edge.fromId edge.toId)) x

def sweepDecayedEdgesCounting (env : Env) (s : State) : Nat × State :=
  ((env.edgeTypeOrder.order s.edgeTypes.toList).map Prod.snd).foldl
    (countingType env (env.nowMillis s.wal.nextTx)) (0, s)

theorem countingType_snd (env : Env) (now : Nat) (x : Nat × State) (et : EdgeType) :
    (countingType env now x et).2 = sweepEdgeType env now x.2 et := by
  unfold countingType sweepEdgeType
  cases et.decayConfig.pruneThreshold with
  | none => rfl
  | some threshold =>
    dsimp only
    generalize (x.2.store.scanEdges et.name).filter (decayed env now et threshold) = edges
    induction edges generalizing x with
    | nil => rfl
    | cons edge rest ih => exact ih _

theorem sweepDecayedEdgesCounting_snd (env : Env) (s : State) :
    (sweepDecayedEdgesCounting env s).2 = sweepDecayedEdges env s := by
  unfold sweepDecayedEdgesCounting sweepDecayedEdges
  generalize (env.edgeTypeOrder.order s.edgeTypes.toList).map Prod.snd = types
  generalize env.nowMillis s.wal.nextTx = now
  suffices ∀ x : Nat × State, (types.foldl (countingType env now) x).2 =
      types.foldl (sweepEdgeType env now) x.2 from this (0, s)
  induction types with
  | nil => exact fun _ => rfl
  | cons et rest ih =>
    intro x
    rw [List.foldl_cons, ih, countingType_snd]
    rfl

/-! ### Deletions by id -/

def deleteAll (ts : Int) (ids : List EdgeId) (s : State) : State :=
  ids.foldl (fun s e => s.removeEdge ts e.1 e.2.1 e.2.2) s

theorem deleteAll_cons (ts : Int) (e : EdgeId) (ids : List EdgeId) (s : State) :
    deleteAll ts (e :: ids) s = deleteAll ts ids (s.removeEdge ts e.1 e.2.1 e.2.2) := rfl

theorem deleteAll_append (ts : Int) (ids ids' : List EdgeId) (s : State) :
    deleteAll ts (ids ++ ids') s = deleteAll ts ids' (deleteAll ts ids s) := List.foldl_append

theorem edges_removeEdge (s : State) (ts : Int) (e : EdgeId) :
    (s.removeEdge ts e.1 e.2.1 e.2.2).store.edges = s.store.edges.erase (storeKey e) := rfl

theorem adjacency_removeEdge (s : State) (ts : Int) (t : String) (x y : LogicalId) :
    (s.removeEdge ts t x y).adjacency = s.adjacency.remove x t y := rfl

section Deletions
variable {s : State} {ts : Int}

theorem edges_deleteAll (ids : List EdgeId) (s : State) (k : String × String) :
    (deleteAll ts ids s).store.edges[k]? =
      if k ∈ ids.map storeKey then none else s.store.edges[k]? := by
  induction ids generalizing s with
  | nil => rfl
  | cons e rest ih =>
    rw [deleteAll_cons, ih, edges_removeEdge, FinMap.get_erase, List.map_cons]
    by_cases later : k ∈ rest.map storeKey
    · simp [later]
    · simp [later, eq_comm]

theorem listed_deleteAll (ids : List EdgeId) (s : State) :
    (deleteAll ts ids s).store.edges.toList =
      s.store.edges.toList.filter fun kv => kv.1 ∉ ids.map storeKey := by
  induction ids generalizing s with
  | nil => exact (List.filter_eq_self.mpr fun _ _ => decide_eq_true List.not_mem_nil).symm
  | cons e rest ih =>
    rw [deleteAll_cons, ih, edges_removeEdge, FinMap.toList_erase, List.filter_filter]
    apply List.filter_congr
    intro kv _
    rw [List.map_cons]
    by_cases here : kv.1 = storeKey e <;> simp [here]

theorem get_deleteAll (ids : List EdgeId) (s : State) (x : LogicalId) (t : String) :
    (deleteAll ts ids s).adjacency.get x t =
      (s.adjacency.get x t).filter fun entry => (t, x, entry.toId) ∉ ids := by
  induction ids generalizing s with
  | nil => exact (List.filter_eq_self.mpr fun _ _ => decide_eq_true List.not_mem_nil).symm
  | cons e rest ih =>
    obtain ⟨t', x', y'⟩ := e
    rw [deleteAll_cons, ih, adjacency_removeEdge, AdjacencyIndex.get_remove]
    split
    · rename_i here
      obtain ⟨rfl, rfl⟩ := Prod.mk.inj here
      rw [List.filter_filter]
      apply List.filter_congr
      intro entry _
      rw [Bool.and_comm]
      simp
    · rename_i elsewhere
      apply List.filter_congr
      intro entry _
      have other : (t, x, entry.toId) ≠ (t', x', y') := by
        rintro ⟨⟩
        exact elsewhere rfl
      simp [other]

theorem getBackward_deleteAll (ids : List EdgeId) (s : State) (y : LogicalId) (t : String) :
    (deleteAll ts ids s).adjacency.getBackward y t =
      (s.adjacency.getBackward y t).filter fun source => (t, source, y) ∉ ids := by
  induction ids generalizing s with
  | nil => exact (List.filter_eq_self.mpr fun _ _ => decide_eq_true List.not_mem_nil).symm
  | cons e rest ih =>
    obtain ⟨t', x', y'⟩ := e
    rw [deleteAll_cons, ih, adjacency_removeEdge, AdjacencyIndex.getBackward_remove]
    split
    · rename_i here
      obtain ⟨rfl, rfl⟩ := Prod.mk.inj here
      rw [List.filter_filter]
      apply List.filter_congr
      intro source _
      rw [Bool.and_comm]
      simp
    · rename_i elsewhere
      apply List.filter_congr
      intro source _
      have other : (t, source, y) ≠ (t', x', y') := by
        rintro ⟨⟩
        exact elsewhere rfl
      simp [other]

theorem scanEdges_deleteAll (filed : Filed s) (ids : List EdgeId) (t : String) :
    (deleteAll ts ids s).store.scanEdges t =
      (s.store.scanEdges t).filter fun edge => storeKey (edgeId edge) ∉ ids.map storeKey := by
  unfold Store.scanEdges
  rw [listed_deleteAll, List.filter_map, List.filter_filter, List.filter_filter]
  congr 1
  apply List.filter_congr
  rintro ⟨k, edge⟩ listed
  have key := filed k edge ((FinMap.mem_toList _ _ _).mp listed)
  subst key
  rw [Bool.and_comm]
  rfl

/-! ### Runs of deletions -/

def deletedAs (names : Edge → Option (List EdgeId)) (edges : List Edge) : Option (List EdgeId) :=
  (edges.mapM names).map List.flatten

omit [WalPayload Payload] in
theorem deletedAs_cons (names : Edge → Option (List EdgeId)) (edge : Edge) (rest : List Edge) :
    deletedAs names (edge :: rest) =
      (names edge).bind fun here => (deletedAs names rest).map fun later => here ++ later := by
  unfold deletedAs
  rw [List.mapM_cons]
  cases names edge with
  | none => rfl
  | some here => cases rest.mapM names <;> rfl

/-- The scan of a type leaves out what has gone before; the edges that are taken there are deleted
by the ids they are named by. -/
def deletions (taken : EdgeType → List Edge) (names : EdgeType → Edge → Option (List EdgeId)) :
    List EdgeType → List EdgeId → Option (List EdgeId)
  | [], _ => some []
  | et :: rest, gone =>
    (deletedAs (names et) ((taken et).filter fun edge => storeKey (edgeId edge) ∉ gone.map storeKey)).bind
      fun here => (deletions taken names rest (gone ++ here)).map fun later => here ++ later

omit [WalPayload Payload] in
theorem deletions_single (taken : EdgeType → List Edge) (names : EdgeType → Edge → Option (List EdgeId))
    (et : EdgeType) : deletions taken names [et] [] = deletedAs (names et) (taken et) := by
  have all : ((taken et).filter fun edge => storeKey (edgeId edge) ∉ ([] : List EdgeId).map storeKey) =
      taken et := List.filter_eq_self.mpr fun _ _ => decide_eq_true List.not_mem_nil
  rw [deletions, all]
  cases deletedAs (names et) (taken et) with
  | none => rfl
  | some here => exact congrArg some (List.append_nil here)

def deleted (ts : Int) (x : Nat × State) (ids : List EdgeId) : Nat × State :=
  (x.1 + ids.length, deleteAll ts ids x.2)

theorem deleted_append (x : Nat × State) (ids ids' : List EdgeId) :
    deleted ts (deleted ts x ids) ids' = deleted ts x (ids ++ ids') := by
  unfold deleted
  rw [deleteAll_append, List.length_append, Nat.add_assoc]

theorem foldlM_deletes {names : Edge → Option (List EdgeId)}
    {step : Nat × State → Edge → Option (Nat × State)}
    (each : ∀ x edge, step x edge = (names edge).map (deleted ts x)) (edges : List Edge)
    (x : Nat × State) : edges.foldlM step x = (deletedAs names edges).map (deleted ts x) := by
  induction edges generalizing x with
  | nil => rfl
  | cons edge rest ih =>
    rw [List.foldlM_cons, each, deletedAs_cons]
    cases names edge with
    | none => rfl
    | some here =>
      have later := ih (deleted ts x here)
      rw [Option.map_some, Option.bind_eq_bind, Option.bind_some, Option.bind_some, later,
        Option.map_map]
      congr 1
      funext ids
      exact deleted_append x here ids

/-- The edges of a type with a threshold that are gone below it. -/
def takenOf (gone : EdgeType → F64 → Edge → Bool) (s : State) (et : EdgeType) : List Edge :=
  match et.decayConfig.pruneThreshold with
  | none => []
  | some threshold => (s.store.scanEdges et.name).filter (gone et threshold)

theorem takenOf_deleteAll (filed : Filed s) (gone : EdgeType → F64 → Edge → Bool) (ids : List EdgeId)
    (et : EdgeType) : takenOf gone (deleteAll ts ids s) et =
      (takenOf gone s et).filter fun edge => storeKey (edgeId edge) ∉ ids.map storeKey := by
  unfold takenOf
  cases et.decayConfig.pruneThreshold with
  | none => rfl
  | some threshold =>
    dsimp only
    rw [scanEdges_deleteAll filed, List.filter_filter, List.filter_filter]
    congr 1
    funext edge
    exact Bool.and_comm ..

theorem foldlM_types (filed : Filed s) {gone : EdgeType → F64 → Edge → Bool}
    {names : EdgeType → Edge → Option (List EdgeId)}
    {step : Nat × State → EdgeType → Option (Nat × State)}
    (each : ∀ x et, step x et = (deletedAs (names et) (takenOf gone x.2 et)).map (deleted ts x))
    (types : List EdgeType) (n : Nat) (ids : List EdgeId) :
    types.foldlM step (deleted ts (n, s) ids) =
      (deletions (takenOf gone s) names types ids).map fun more => deleted ts (n, s) (ids ++ more) := by
  induction types generalizing ids with
  | nil =>
    unfold deletions
    rw [List.foldlM_nil, Option.map_some, List.append_nil]
    rfl
  | cons et rest ih =>
    have scanned : takenOf gone (deleted ts (n, s) ids).2 et =
        (takenOf gone s et).filter fun edge => storeKey (edgeId edge) ∉ ids.map storeKey :=
      takenOf_deleteAll filed gone ids et
    rw [List.foldlM_cons, each, scanned, deletions]
    cases deletedAs (names et) _ with
    | none => rfl
    | some here =>
      have later := ih (ids ++ here)
      rw [Option.map_some, Option.bind_eq_bind, Option.bind_some, Option.bind_some, deleted_append,
        later, Option.map_map]
      congr 1
      funext more
      exact congrArg (deleted ts (n, s)) (List.append_assoc ..)

end Deletions

/-! ### Both sweeps -/

section Sweeps
variable {s : State}

/-- The ids of the deletion that a text is read as. -/
def named (et : EdgeType) (edge : Edge) : Option (List EdgeId) :=
  match Tql.parse (sweepText et edge) with
  | .ok (.deleteEdge d) => some [(d.edgeType, d.fromId, d.toId)]
  | .error .panic => none
  | _ => some []

omit [WalPayload Payload] in
theorem named_rejected {et : EdgeType} {edge : Edge}
    (rejected : Tql.reading (sweepText et edge).toList = .lexerError) : named et edge = some [] := by
  obtain ⟨e, parsed⟩ := parse_rejected rejected
  unfold named
  rw [parsed]

theorem sweepEdge_deletes (env : Env) (et : EdgeType) (x : Nat × State) (edge : Edge) :
    sweepEdge env et x edge = (named et edge).map (deleted env.ts x) := by
  unfold sweepEdge named
  cases parsed : Tql.parse (sweepText et edge) with
  | ok stmt =>
    obtain ⟨d, rfl⟩ := parse_sweepText parsed
    rfl
  | error failure => cases failure <;> rfl

theorem sweepType_deletes (env : Env) (now : Nat) (x : Nat × State) (et : EdgeType) :
    sweepType env now x et =
      (deletedAs (named et) (takenOf (expired env now) x.2 et)).map (deleted env.ts x) := by
  unfold sweepType takenOf
  cases et.decayConfig.pruneThreshold with
  | none => rfl
  | some threshold => exact foldlM_deletes (sweepEdge_deletes env et) _ x

def byKey (et : EdgeType) (edge : Edge) : Option (List EdgeId) := some [(et.name, edge.fromId, edge.toId)]

theorem countingType_deletes (env : Env) (now : Nat) (x : Nat × State) (et : EdgeType) :
    some (countingType env now x et) =
      (deletedAs (byKey et) (takenOf (decayed env now) x.2 et)).map (deleted env.ts x) := by
  unfold countingType takenOf
  cases et.decayConfig.pruneThreshold with
  | none => rfl
  | some threshold =>
    have each (x : Nat × State) (edge : Edge) :
        some (x.1 + 1, x.2.removeEdge env.ts et.name edge.fromId edge.toId) =
          (byKey et edge).map (deleted env.ts x) := rfl
    dsimp only
    rw [← foldlM_deletes each]
    exact (List.foldlM_pure (m := Option)).symm

theorem sweepOnce_deletes (filed : Filed s) (env : Env) :
    sweepOnce env s = (deletions (takenOf (expired env (env.nowMillis s.wal.nextTx)) s) named
      (s.store.edgeTypes.toList.map Prod.snd) []).map (deleted env.ts (0, s)) :=
  foldlM_types filed (sweepType_deletes env _) _ 0 []

theorem counting_deletes (filed : Filed s) (env : Env) :
    some (sweepDecayedEdgesCounting env s) =
      (deletions (takenOf (decayed env (env.nowMillis s.wal.nextTx)) s) byKey
        ((env.edgeTypeOrder.order s.edgeTypes.toList).map Prod.snd) []).map (deleted env.ts (0, s)) := by
  have run := foldlM_types filed (countingType_deletes env (env.nowMillis s.wal.nextTx))
    ((env.edgeTypeOrder.order s.edgeTypes.toList).map Prod.snd) 0 []
  exact (List.foldlM_pure (m := Option)).symm.trans run

/-! ### The edges of the sweep of the engine -/

omit [WalPayload Payload] in
theorem mem_takenOf (filed : Filed s) {gone : EdgeType → F64 → Edge → Bool} {et : EdgeType} {edge : Edge}
    (taken : edge ∈ takenOf gone s et) : Stored s edge ∧ edge.edgeType = et.name := by
  unfold takenOf at taken
  cases threshold : et.decayConfig.pruneThreshold with
  | none =>
    rw [threshold] at taken
    exact absurd taken List.not_mem_nil
  | some p =>
    rw [threshold] at taken
    exact (mem_scanEdges filed).mp (List.mem_filter.mp taken).1

omit [WalPayload Payload] in
theorem deletedAs_byKey (et : EdgeType) (edges : List Edge) (here : ∀ edge ∈ edges, edge.edgeType = et.name) :
    deletedAs (byKey et) edges = some (edges.map edgeId) := by
  induction edges with
  | nil => rfl
  | cons edge rest ih =>
    obtain ⟨first, later⟩ := List.forall_mem_cons.mp here
    rw [deletedAs_cons, ih later, List.map_cons, edgeId, first]
    rfl

omit [WalPayload Payload] in
theorem deletions_byKey (filed : Filed s) (gone : EdgeType → F64 → Edge → Bool) (types : List EdgeType)
    (distinct : (types.map EdgeType.name).Nodup) (ids : List EdgeId)
    (other : ∀ e ∈ ids, e.1 ∉ types.map EdgeType.name) :
    deletions (takenOf gone s) byKey types ids =
      some (types.flatMap fun et => (takenOf gone s et).map edgeId) := by
  induction types generalizing ids with
  | nil => rfl
  | cons et rest ih =>
    rw [List.map_cons, List.nodup_cons] at distinct
    have here (edge : Edge) (taken : edge ∈ takenOf gone s et) : edge.edgeType = et.name :=
      (mem_takenOf filed taken).2
    have all : ((takenOf gone s et).filter fun edge => storeKey (edgeId edge) ∉ ids.map storeKey) =
        takenOf gone s et := by
      refine List.filter_eq_self.mpr fun edge taken => decide_eq_true fun listed => ?_
      obtain ⟨e, there, same⟩ := List.mem_map.mp listed
      apply other e there
      have type : e.1 = edge.edgeType := (Prod.mk.inj same).1
      rw [type, here edge taken]
      exact List.mem_cons_self ..
    have later := ih distinct.2 (ids ++ (takenOf gone s et).map edgeId) fun e listed => by
      rcases List.mem_append.mp listed with before | now
      · exact fun there => other e before (List.mem_cons_of_mem _ there)
      · obtain ⟨edge, taken, rfl⟩ := List.mem_map.mp now
        exact fun there => distinct.1 (here edge taken ▸ there)
    rw [deletions, all, deletedAs_byKey et _ here, Option.bind_some, later, List.flatMap_cons]
    rfl

def decayedIds (env : Env) (s : State) : List EdgeId :=
  (s.store.edgeTypes.toList.map Prod.snd).flatMap fun et =>
    (takenOf (decayed env (env.nowMillis s.wal.nextTx)) s et).map edgeId

section Scanned
omit [WalPayload Payload]

theorem mem_decayedIds (filed : Filed s) {env : Env} {e : EdgeId} (listed : e ∈ decayedIds env s) :
    ∃ edge, Stored s edge ∧ edgeId edge = e := by
  obtain ⟨et, -, there⟩ := List.mem_flatMap.mp listed
  obtain ⟨edge, taken, rfl⟩ := List.mem_map.mp there
  exact ⟨edge, (mem_takenOf filed taken).1, rfl⟩

theorem names_distinct (synced : Synced s) :
    ((s.store.edgeTypes.toList.map Prod.snd).map EdgeType.name).Nodup := by
  have keys : (s.store.edgeTypes.toList.map Prod.snd).map EdgeType.name =
      s.store.edgeTypes.toList.map Prod.fst := by
    rw [List.map_map]
    apply List.map_congr_left
    rintro ⟨name, et⟩ listed
    exact synced.edgeTypeNamed name et ((FinMap.mem_toList _ _ _).mp listed)
  rw [keys]
  exact FinMap.nodup_toList _

theorem rows_scanEdges (filed : Filed s) (t : String) :
    (s.store.scanEdges t).map (storeKey ∘ edgeId) =
      (s.store.edges.toList.filter fun kv => kv.1.1 = t).map Prod.fst := by
  unfold Store.scanEdges
  rw [List.map_map]
  apply List.map_congr_left
  rintro ⟨k, edge⟩ listed
  exact (filed k edge ((FinMap.mem_toList _ _ _).mp (List.mem_filter.mp listed).1)).symm

theorem rows_decayedIds (synced : Synced s) (filed : Filed s) (env : Env) :
    ((decayedIds env s).map storeKey).Nodup := by
  unfold decayedIds
  rw [List.map_flatMap, List.nodup_flatMap]
  constructor
  · intro et _
    have scanned : ((s.store.scanEdges et.name).map (storeKey ∘ edgeId)).Nodup := by
      rw [rows_scanEdges filed]
      exact (FinMap.nodup_toList s.store.edges).sublist (List.filter_sublist.map _)
    rw [List.map_map]
    unfold takenOf
    cases et.decayConfig.pruneThreshold with
    | none => exact List.nodup_nil
    | some threshold => exact scanned.sublist (List.filter_sublist.map _)
  · have apart := names_distinct synced
    rw [List.Nodup, List.pairwise_map] at apart
    refine apart.imp fun {et et'} differ => ?_
    -- rows of different types differ in the partition
    rintro k there there'
    simp only [List.mem_map, exists_exists_and_eq_and] at there there'
    obtain ⟨edge, taken, rfl⟩ := there
    obtain ⟨edge', taken', same⟩ := there'
    apply differ
    rw [← (mem_takenOf filed taken).2, ← (mem_takenOf filed taken').2]
    exact (Prod.mk.inj same).1.symm

end Scanned

theorem counting_decayedIds (synced : Synced s) (filed : Filed s) (env : Env) :
    ∃ ids, ids.Perm (decayedIds env s) ∧
      sweepDecayedEdgesCounting env s = deleted env.ts (0, s) ids := by
  have types : ((env.edgeTypeOrder.order s.edgeTypes.toList).map Prod.snd).Perm
      (s.store.edgeTypes.toList.map Prod.snd) := by
    rw [← synced.edgeTypes]
    exact (env.edgeTypeOrder.perm _).map _
  have distinct : (((env.edgeTypeOrder.order s.edgeTypes.toList).map Prod.snd).map EdgeType.name).Nodup :=
    (types.map _).nodup_iff.mpr (names_distinct synced)
  have run := counting_deletes filed env
  rw [deletions_byKey filed _ _ distinct [] fun _ none_ => absurd none_ List.not_mem_nil] at run
  exact ⟨_, types.flatMap_right _, Option.some.inj run⟩

/-! ### When they agree -/

/-- How many edges stored in the first state are not stored in the second. -/
def removed (s s' : State) : Nat :=
  (s.store.edges.toList.filter fun kv => (s'.store.edges[kv.1]?).isNone).length

/-- Both sweeps leave the same edges and index entries, and each returns how many it has removed. -/
structure Agree (s : State) (x x' : Nat × State) : Prop where
  edges : x.2.store.edges = x'.2.store.edges
  forward : ∀ id t, x.2.adjacency.get id t = x'.2.adjacency.get id t
  backward : ∀ id t, x.2.adjacency.getBackward id t = x'.2.adjacency.getBackward id t
  count : x.1 = removed s x.2
  count' : x'.1 = removed s x'.2

def SweepsAgree (env : Env) (s : State) : Prop :=
  ∃ x, sweepOnce env s = some x ∧ Agree s x (sweepDecayedEdgesCounting env s)

/-- The ids stand for the same rows, each of them once, and for the same index entries. -/
structure SameTargets (s : State) (ids ids' : List EdgeId) : Prop where
  rows : (ids.map storeKey).Perm (ids'.map storeKey)
  forward : ∀ e, s.adjacency.Has e → (e ∈ ids ↔ e ∈ ids')
  backward : ∀ e : EdgeId, e.2.1 ∈ s.adjacency.getBackward e.2.2 e.1 → (e ∈ ids ↔ e ∈ ids')

variable {ts : Int} {ids ids' : List EdgeId}

theorem removed_deleteAll (s : State) (ids : List EdgeId) : removed s (deleteAll ts ids s) =
    ((s.store.edges.toList.map Prod.fst).filter fun k => k ∈ ids.map storeKey).length := by
  unfold removed
  rw [List.filter_map, List.length_map]
  congr 1
  apply List.filter_congr
  rintro ⟨k, edge⟩ listed
  dsimp only [Function.comp]
  rw [edges_deleteAll]
  split
  · rename_i there
    rw [decide_eq_true there]
    rfl
  · rename_i other
    rw [decide_eq_false other, (FinMap.mem_toList _ _ _).mp listed]
    rfl

omit [WalPayload Payload] in
theorem length_rows (distinct : (ids.map storeKey).Nodup)
    (stored : ∀ k ∈ ids.map storeKey, k ∈ s.store.edges.toList.map Prod.fst) :
    ((s.store.edges.toList.map Prod.fst).filter fun k => k ∈ ids.map storeKey).length = ids.length := by
  have same : ((s.store.edges.toList.map Prod.fst).filter fun k => k ∈ ids.map storeKey).Perm
      (ids.map storeKey) := by
    rw [List.perm_ext_iff_of_nodup ((FinMap.nodup_toList _).filter _) distinct]
    intro k
    rw [List.mem_filter, decide_eq_true_iff]
    exact and_iff_right_of_imp (stored k)
  rw [same.length_eq, List.length_map]

omit [WalPayload Payload] in
theorem filter_agree {α : Type*} {l : List α} {p q : α → Bool} (same : l.filter p = l.filter q) {a : α}
    (there : a ∈ l) : p a = true ↔ q a = true := by
  have left : a ∈ l.filter p ↔ p a = true := List.mem_filter.trans (and_iff_right there)
  have right : a ∈ l.filter q ↔ q a = true := List.mem_filter.trans (and_iff_right there)
  rw [← left, ← right, same]

theorem deleteAll_agree_iff (distinct : (ids'.map storeKey).Nodup)
    (stored : ∀ k ∈ ids'.map storeKey, k ∈ s.store.edges.toList.map Prod.fst) :
    Agree s (deleted ts (0, s) ids) (deleted ts (0, s) ids') ↔ SameTargets s ids ids' := by
  constructor
  · rintro ⟨edges, forward, backward, count, -⟩
    have same (k : String × String) (there : k ∈ s.store.edges.toList.map Prod.fst) :
        k ∈ ids.map storeKey ↔ k ∈ ids'.map storeKey := by
      obtain ⟨⟨k, edge⟩, listed, rfl⟩ := List.mem_map.mp there
      have lookups := congrArg (fun m : FinMap (String × String) Edge => m[k]?) edges
      dsimp only [deleted] at lookups ⊢
      rw [edges_deleteAll, edges_deleteAll, (FinMap.mem_toList _ _ _).mp listed] at lookups
      split at lookups <;> rename_i left <;> split at lookups <;> rename_i right
      · exact iff_of_true left right
      · cases lookups
      · cases lookups
      · exact iff_of_false left right
    have length : ids.length = ids'.length := by
      have counted : 0 + ids.length = removed s (deleteAll ts ids s) := count
      have filters : ((s.store.edges.toList.map Prod.fst).filter fun k => k ∈ ids.map storeKey) =
          (s.store.edges.toList.map Prod.fst).filter fun k => k ∈ ids'.map storeKey :=
        List.filter_congr fun k there => decide_eq_decide.mpr (same k there)
      rw [removed_deleteAll, filters, length_rows distinct stored, Nat.zero_add] at counted
      exact counted
    constructor
    · have within : ids'.map storeKey ⊆ ids.map storeKey :=
        fun k there => (same k (stored k there)).mpr there
      refine ((List.subperm_of_subset distinct within).perm_of_length_le ?_).symm
      rw [List.length_map, List.length_map, length]
    · rintro e ⟨entry, there, target⟩
      have kept := forward e.2.1 e.1
      dsimp only [deleted] at kept
      rw [get_deleteAll, get_deleteAll] at kept
      have both := filter_agree kept there
      rw [decide_eq_true_iff, decide_eq_true_iff, target] at both
      exact not_iff_not.mp both
    · intro e there
      have kept := backward e.2.2 e.1
      dsimp only [deleted] at kept
      rw [getBackward_deleteAll, getBackward_deleteAll] at kept
      have both := filter_agree kept there
      rw [decide_eq_true_iff, decide_eq_true_iff] at both
      exact not_iff_not.mp both
  · intro same
    have distinct' : (ids.map storeKey).Nodup := same.rows.nodup_iff.mpr distinct
    have stored' (k : String × String) (there : k ∈ ids.map storeKey) :
        k ∈ s.store.edges.toList.map Prod.fst := stored k (same.rows.mem_iff.mp there)
    constructor
    · apply FinMap.ext
      intro k
      dsimp only [deleted]
      rw [edges_deleteAll, edges_deleteAll]
      simp only [same.rows.mem_iff]
    · intro id t
      dsimp only [deleted]
      rw [get_deleteAll, get_deleteAll]
      refine List.filter_congr fun entry there => decide_eq_decide.mpr (not_congr ?_)
      exact same.forward (t, id, entry.toId) ⟨entry, there, rfl⟩
    · intro id t
      dsimp only [deleted]
      rw [getBackward_deleteAll, getBackward_deleteAll]
      refine List.filter_congr fun source there => decide_eq_decide.mpr (not_congr ?_)
      exact same.backward (t, source, id) there
    · dsimp only [deleted]
      rw [removed_deleteAll, length_rows distinct' stored', Nat.zero_add]
    · dsimp only [deleted]
      rw [removed_deleteAll, length_rows distinct stored, Nat.zero_add]

omit [WalPayload Payload] in
theorem sameTargets_perm {some_ : List EdgeId} (perm : ids'.Perm some_) :
    SameTargets s ids ids' ↔ SameTargets s ids some_ := by
  constructor
  · rintro ⟨rows, forward, backward⟩
    exact ⟨rows.trans (perm.map _), fun e has => (forward e has).trans perm.mem_iff,
      fun e has => (backward e has).trans perm.mem_iff⟩
  · rintro ⟨rows, forward, backward⟩
    exact ⟨rows.trans (perm.map _).symm, fun e has => (forward e has).trans perm.mem_iff.symm,
      fun e has => (backward e has).trans perm.mem_iff.symm⟩

theorem sweepsAgree_deletions (env : Env) (synced : Synced s) (filed : Filed s)
    (named_ : deletions (takenOf (expired env (env.nowMillis s.wal.nextTx)) s) named
      (s.store.edgeTypes.toList.map Prod.snd) [] = some ids) :
    SweepsAgree env s ↔ SameTargets s ids (decayedIds env s) := by
  obtain ⟨ids', perm, counting⟩ := counting_decayedIds synced filed env
  have distinct : (ids'.map storeKey).Nodup :=
    (perm.map storeKey).nodup_iff.mpr (rows_decayedIds synced filed env)
  have stored (k : String × String) (there : k ∈ ids'.map storeKey) :
      k ∈ s.store.edges.toList.map Prod.fst := by
    obtain ⟨e, listed, rfl⟩ := List.mem_map.mp there
    obtain ⟨edge, found, rfl⟩ := mem_decayedIds filed (perm.mem_iff.mp listed)
    exact List.mem_map_of_mem ((FinMap.mem_toList _ _ _).mpr found)
  unfold SweepsAgree
  rw [sweepOnce_deletes filed, counting, named_, ← sameTargets_perm perm,
    ← deleteAll_agree_iff distinct stored]
  constructor
  · rintro ⟨x, ran, agree⟩
    cases ran
    exact agree
  · exact fun agree => ⟨_, rfl, agree⟩

/-- The two sweeps agree if and only if none of the texts of the sweeper makes the parser panic, and
those that are accepted stand for the edges the engine takes, each of them once. -/
theorem sweeps_agree_iff (env : Env) (synced : Synced s) (filed : Filed s) :
    SweepsAgree env s ↔ ∃ ids, deletions (takenOf (expired env (env.nowMillis s.wal.nextTx)) s) named
      (s.store.edgeTypes.toList.map Prod.snd) [] = some ids ∧ SameTargets s ids (decayedIds env s) := by
  constructor
  · intro agree
    obtain ⟨x, ran, -⟩ := id agree
    rw [sweepOnce_deletes filed] at ran
    obtain ⟨ids, named_, -⟩ := Option.map_eq_some_iff.mp ran
    exact ⟨ids, named_, (sweepsAgree_deletions env synced filed named_).mp agree⟩
  · rintro ⟨ids, named_, same⟩
    exact (sweepsAgree_deletions env synced filed named_).mpr same

/-! ### Edges on which they agree -/

omit [WalPayload Payload] in
theorem deletedAs_congr {names names' : Edge → Option (List EdgeId)} {edges : List Edge}
    (same : ∀ edge ∈ edges, names edge = names' edge) : deletedAs names edges = deletedAs names' edges := by
  induction edges with
  | nil => rfl
  | cons edge rest ih =>
    obtain ⟨first, later⟩ := List.forall_mem_cons.mp same
    rw [deletedAs_cons, deletedAs_cons, first, ih later]

omit [WalPayload Payload] in
theorem deletions_congr {taken taken' : EdgeType → List Edge}
    {names names' : EdgeType → Edge → Option (List EdgeId)} {types : List EdgeType}
    (same : ∀ et ∈ types, taken et = taken' et ∧ ∀ edge ∈ taken' et, names et edge = names' et edge)
    (gone : List EdgeId) : deletions taken names types gone = deletions taken' names' types gone := by
  induction types generalizing gone with
  | nil => rfl
  | cons et rest ih =>
    obtain ⟨⟨here, names_⟩, later⟩ := List.forall_mem_cons.mp same
    have first (keep : Edge → Bool) : deletedAs (names et) ((taken' et).filter keep) =
        deletedAs (names' et) ((taken' et).filter keep) :=
      deletedAs_congr fun edge kept => names_ edge (List.mem_filter.mp kept).1
    rw [deletions, deletions, here, first]
    congr 1
    funext ids
    rw [ih later]

omit [WalPayload Payload] in
theorem deletions_plain (env : Env) (synced : Synced s) (filed : Filed s)
    (idents : ∀ et ∈ s.store.edgeTypes.toList.map Prod.snd, ReadAsIdent et.name)
    (plain : ∀ edge, Stored s edge → (edge.source = .inferred ∧ edge.createdAt ≠ 0) ∧
      PlainId edge.fromId ∧ PlainId edge.toId) :
    deletions (takenOf (expired env (env.nowMillis s.wal.nextTx)) s) named
      (s.store.edgeTypes.toList.map Prod.snd) [] = some (decayedIds env s) := by
  rw [decayedIds, ← deletions_byKey filed _ _ (names_distinct synced) [] fun _ none_ =>
    absurd none_ List.not_mem_nil]
  refine deletions_congr (fun et listed => ⟨?_, fun edge taken => ?_⟩) []
  · unfold takenOf
    cases et.decayConfig.pruneThreshold with
    | none => rfl
    | some threshold =>
      refine List.filter_congr fun edge scanned => ?_
      obtain ⟨inferred, created⟩ := (plain edge ((mem_scanEdges filed).mp scanned).1).1
      unfold expired decayed
      rw [decide_eq_true inferred, decide_eq_true created]
  · obtain ⟨stored, type⟩ := mem_takenOf filed taken
    obtain ⟨-, from_, to_⟩ := plain edge stored
    unfold named byKey
    rw [parse_plain (idents et listed) from_ to_]

/-- The two sweeps agree wherever every edge is inferred and dated and no id needs quoting. -/
theorem sweeps_agree_plain (env : Env) (synced : Synced s) (filed : Filed s)
    (idents : ∀ et ∈ s.store.edgeTypes.toList.map Prod.snd, ReadAsIdent et.name)
    (plain : ∀ edge, Stored s edge → (edge.source = .inferred ∧ edge.createdAt ≠ 0) ∧
      PlainId edge.fromId ∧ PlainId edge.toId) : SweepsAgree env s :=
  (sweepsAgree_deletions env synced filed (deletions_plain env synced filed idents plain)).mpr
    ⟨.refl _, fun _ _ => .rfl, fun _ _ => .rfl⟩

end Sweeps
end Model

/-! ### A visit whose confidence drops after a second -/

def dropping : DecayConfig := ⟨some .step, some .one, none, none, some ⟨0x3FE0000000000000⟩⟩

/-- The venue is found for a visitor at the first millisecond. -/
def dropVisit (visitor : String) : List Step :=
  ([.createCollection (placed "people"), .createCollection (placed "venues"),
    .createEdgeType ⟨"visited", "people", "venues", some dropping, some ⟨true, ⟨0⟩, 10⟩⟩,
    .insert ⟨"venues", ["id"], [.string "cafe"], [("v", .dense [.one])], none, none⟩,
    .insert ⟨"people", ["id"], [.string visitor], [("v", .dense [.one])], none, none⟩,
    .drainInferenceQueue] : List Write).map fun w => ({ oneVenue with nowMillis := fun _ => 1 }, w)

def muchLater : Env :=
  { Env.idle with nowMillis := fun _ => 3001, effectiveConfidence := effectiveConfidence id }

section Examples
attribute [local instance] headerOnly

theorem plain_visit_swept : let s := (dropVisit "ada").foldl State.step (State.init default)
    (sweepDecayedEdgesCounting muchLater s).1 = 1 ∧ SweepsAgree muchLater s := by
  intro s
  obtain ⟨synced, sound⟩ := reached_sound default (dropVisit "ada") s (Run.end_visited ..)
  refine ⟨by decide +kernel, ?_⟩
  refine (sweeps_agree_iff muchLater synced sound.keyed).mpr ⟨decayedIds muchLater s, ?_, ?_⟩
  · apply deletions_plain muchLater synced sound.keyed
    · have types : s.store.edgeTypes.toList.map Prod.snd = [visitedType dropping] := by decide +kernel
      rw [types, List.forall_mem_singleton]
      exact ⟨'v', "isited".toList, rfl, rfl, by decide +kernel⟩
    · have one : s.store.edges.toList.map (fun kv =>
          (kv.2.source, kv.2.createdAt, kv.2.fromId, kv.2.toId)) = [(.inferred, 1, "ada", "cafe")] := by
        decide +kernel
      intro edge stored
      have there := (FinMap.mem_toList s.store.edges _ edge).mpr stored
      have listed : (edge.source, edge.createdAt, edge.fromId, edge.toId) ∈
          [(EdgeSource.inferred, 1, "ada", "cafe")] := one ▸ List.mem_map.mpr ⟨_, there, rfl⟩
      rw [List.mem_singleton, Prod.mk.injEq, Prod.mk.injEq, Prod.mk.injEq] at listed
      obtain ⟨source, created, visitor, venue⟩ := listed
      rw [source, created, visitor, venue]
      exact ⟨⟨rfl, Nat.one_ne_zero⟩, by simp [PlainId], by simp [PlainId]⟩
  · exact ⟨.refl _, fun _ _ => .rfl, fun _ _ => .rfl⟩

def quotedVisit : Edge := ⟨"o'hara", "cafe", "visited", fullConfidence, ∅, 1, .inferred, none, none⟩

theorem named_quotedVisit : named (visitedType dropping) quotedVisit = some [] := by
  have ident : ReadAsIdent (visitedType dropping).name :=
    ⟨'v', "isited".toList, rfl, rfl, by decide +kernel⟩
  have broken : Tql.reading ('\'' :: (quotedVisit.fromId.toList ++ '\'' :: ' ' ::
      ("TO".toList ++ ' ' :: '\'' :: (quotedVisit.toId.toList ++ ['\'', ';'])))) = .lexerError := by
    decide +kernel
  apply named_rejected
  rw [reading_sweepText ident, broken]
  rfl

/-- The quote in the id of the visitor ends the literal, and the edge stays. -/
theorem quoted_visit_stays : ¬ SweepsAgree muchLater
    ((dropVisit "o'hara").foldl State.step (State.init default)) := by
  rintro ⟨x, ran, agree⟩
  have filed := (reached_sound default (dropVisit "o'hara") _ (Run.end_visited ..)).2.keyed
  have types : ((dropVisit "o'hara").foldl State.step (State.init default)).store.edgeTypes.toList.map
      Prod.snd = [visitedType dropping] := by decide +kernel
  have taken : takenOf (expired muchLater (muchLater.nowMillis
        ((dropVisit "o'hara").foldl State.step (State.init default)).wal.nextTx))
      ((dropVisit "o'hara").foldl State.step (State.init default)) (visitedType dropping) =
        [quotedVisit] := by decide +kernel
  have nothing : deletedAs (named (visitedType dropping)) [quotedVisit] = some [] := by
    rw [deletedAs_cons, named_quotedVisit]
    rfl
  rw [sweepOnce_deletes filed, types, deletions_single, taken, nothing] at ran
  cases ran
  have kept : (((dropVisit "o'hara").foldl State.step
      (State.init default)).store.edges[storeKey (edgeId quotedVisit)]?).isSome = true := by decide +kernel
  have gone : ((sweepDecayedEdgesCounting muchLater ((dropVisit "o'hara").foldl State.step
      (State.init default))).2.store.edges[storeKey (edgeId quotedVisit)]?).isSome = false := by
    decide +kernel
  rw [← agree.edges] at gone
  cases kept.symm.trans gone

end Examples
end TronDB.Routing
