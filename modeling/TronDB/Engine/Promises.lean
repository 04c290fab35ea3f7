import TronDB.Engine.Background
import TronDB.Engine.Structural

/-! The edges that INSERT EDGE and CONFIRM EDGE have acknowledged, while the background tasks go
on between their commits. -/
namespace TronDB.Engine
open TronDB.Core Binary Wal

def edgeId (edge : Edge) : EdgeId := (edge.edgeType, edge.fromId, edge.toId)

/-- The partition and the key an edge is stored under. -/
def storeKey (e : EdgeId) : String × String := (e.1, edgeKey e.2.1 e.2.2)

/-! ### What a step leaves of an edge -/

/-- The edge is stored and indexed in the second state as in the first. -/
structure SameEdge (s s' : State) (e : EdgeId) : Prop where
  stored : s'.store.edges[storeKey e]? = s.store.edges[storeKey e]?
  indexed : ∀ entry : AdjEntry, entry.toId = e.2.2 →
    (entry ∈ s'.adjacency.get e.2.1 e.1 ↔ entry ∈ s.adjacency.get e.2.1 e.1)

theorem SameEdges.at {s s' : State} (same : SameEdges s s') (e : EdgeId) : SameEdge s s' e :=
  ⟨by rw [same.edges], fun _ _ => by rw [same.adjacency]⟩

namespace AdjacencyIndex

variable {e : EdgeId} {x : AdjEntry} (target : x.toId = e.2.2)
include target

theorem mem_insert_other (a : AdjacencyIndex) {fromId : LogicalId} {edgeType : String}
    {entry : AdjEntry} (other : (edgeType, fromId, entry.toId) ≠ e) :
    x ∈ (a.insert fromId edgeType entry).get e.2.1 e.1 ↔ x ∈ a.get e.2.1 e.1 := by
  rw [get_insert]
  split
  · rename_i here
    obtain ⟨source, type⟩ := Prod.mk.inj here
    refine mem_upsert_other _ fun same => other ?_
    rw [type, source, ← same, target]
  · rfl

theorem mem_remove_other (a : AdjacencyIndex) {fromId toId : LogicalId} {edgeType : String}
    (other : (edgeType, fromId, toId) ≠ e) :
    x ∈ (a.remove fromId edgeType toId).get e.2.1 e.1 ↔ x ∈ a.get e.2.1 e.1 := by
  rw [get_remove]
  split
  · rename_i here
    obtain ⟨source, type⟩ := Prod.mk.inj here
    rw [List.mem_filter, decide_eq_true_eq]
    refine and_iff_left fun same => other ?_
    rw [type, source, ← same, target]
  · rfl

theorem mem_removeAll_other (edges : List EdgeId) (a : AdjacencyIndex) (other : e ∉ edges) :
    x ∈ (a.removeAll edges).get e.2.1 e.1 ↔ x ∈ a.get e.2.1 e.1 := by
  induction edges generalizing a with
  | nil => rfl
  | cons removed rest ih =>
    rw [List.mem_cons, not_or] at other
    exact (ih _ other.2).trans (mem_remove_other target a fun same => other.1 same.symm)

end AdjacencyIndex

theorem putEdge_other (s : State) {edge : Edge} {e : EdgeId}
    (other : storeKey e ≠ storeKey (edgeId edge)) : SameEdge s (s.putEdge edge) e where
  stored := by
    have inserted := FinMap.get_insert s.store.edges (storeKey (edgeId edge)) (storeKey e) edge
    rw [if_neg (Ne.symm other)] at inserted
    exact inserted
  indexed := fun _ target => AdjacencyIndex.mem_insert_other target s.adjacency
    fun same => other (congrArg storeKey same).symm

theorem takeEdge_other (s : State) {edgeType : String} {fromId toId : LogicalId} {e : EdgeId}
    (other : storeKey e ≠ storeKey (edgeType, fromId, toId)) :
    SameEdge s (s.takeEdge edgeType fromId toId) e where
  stored := by
    have erased := FinMap.get_erase s.store.edges (storeKey (edgeType, fromId, toId)) (storeKey e)
    rw [if_neg (Ne.symm other)] at erased
    exact erased
  indexed := fun _ target => AdjacencyIndex.mem_remove_other target s.adjacency
    fun same => other (congrArg storeKey same).symm

theorem finishEdge_other (s : State) (pending : PendingEdge) {e : EdgeId}
    (other : storeKey e ≠ storeKey (edgeId pending.edge)) :
    SameEdge s (finishEdge s pending).2 e := by
  unfold finishEdge
  dsimp only
  split
  · have put := putEdge_other (s.unindexEdge pending.edge) other
    refine ⟨put.stored, fun entry target => (put.indexed entry target).trans ?_⟩
    exact AdjacencyIndex.mem_remove_other target s.adjacency
      fun same => other (congrArg storeKey same).symm
  · exact putEdge_other s other

section Runs
variable [WalPayload Payload]

theorem deleteEntity_edges (env : Env) {s : State} {p : DeleteEntityPlan} {old : Entity}
    (found : s.store.get p.collection p.entityId = .ok old) :
    (deleteEntity env s p).2.adjacency =
        s.adjacency.removeAll (s.adjacency.edgesInvolving p.entityId) ∧
      ∀ k, (deleteEntity env s p).2.store.edges[k]? =
        if ∃ e ∈ s.adjacency.edgesInvolving p.entityId, storeKey e = k then none
        else s.store.edges[k]? := by
  obtain ⟨r, s', done, -, adjacency, -⟩ := deleteEntity_found env found
  obtain ⟨-, data⟩ := logs_deleteEntity (p := p) done
  have done : deleteEntity env s p = (.ok r, s') := done
  rw [done]
  refine ⟨adjacency, fun k => ?_⟩
  have edges : s'.store.edges = (cascade (s.adjacency.edgesInvolving p.entityId)
      ((dataOf s.store).eraseEntity p.collection p.entityId)).edges := congrArg Data.edges data
  have before : ((dataOf s.store).eraseEntity p.collection p.entityId).edges = s.store.edges := by
    unfold Data.eraseEntity
    split <;> rfl
  dsimp only
  rw [edges, get_cascade, before]
  rfl

theorem deleteEntity_error (env : Env) {s : State} {p : DeleteEntityPlan} {error : EngineError}
    (missing : s.store.get p.collection p.entityId = .error error) :
    deleteEntity env s p = (.error error, s) := by
  unfold deleteEntity
  rw [missing]

/-! ### Promises -/

/-- The keys a step stores and deletes edges under, apart from those of a dropped edge type. -/
def Busy.touched (x : Busy) : Turn → List (String × String)
  | .statement _ w =>
    match w.1 with
    | .deleteEdge p => [storeKey (p.edgeType, p.fromId, p.toId)]
    | .deleteEntity p =>
      match x.state.store.get p.collection p.entityId with
      | .ok _ => (x.state.adjacency.edgesInvolving p.entityId).map storeKey
      | .error _ => []
    | _ => []
  | .finishEdge i => (x.writes[i]?.map fun pending => storeKey (edgeId pending.edge)).toList
  | .advanceDrain _ i =>
    ((x.drains[i]?.bind Drain.waiting).map fun edge => storeKey (edgeId edge)).toList
  | .advanceSweep _ i => ((x.sweeps[i]?.bind Sweep.waiting).map storeKey).toList
  | _ => []

/-- The edge that INSERT EDGE or CONFIRM EDGE writes in this step. -/
def Busy.writing (x : Busy) : Turn → Option EdgeId
  | .finishEdge i => x.writes[i]?.map fun pending => edgeId pending.edge
  | _ => none

/-- The acknowledged edges with the source and the confidence they were written with. -/
abbrev Promises := EdgeId → Option (EdgeSource × F32)

/-- INSERT EDGE and CONFIRM EDGE promise the edge when they return; deleting it, one of its
ends or its type ends the promise. -/
def promisedAfter (x : Busy) (promised : Promises) : Turn → Promises
  | .finishEdge i =>
    match x.writes[i]? with
    | none => promised
    | some pending => fun e =>
      if e = edgeId pending.edge then some (pending.edge.source, pending.edge.confidence)
      else promised e
  | .statement _ w =>
    match w.1 with
    | .deleteEdge p => fun e => if e = (p.edgeType, p.fromId, p.toId) then none else promised e
    | .deleteEntity p =>
      match x.state.store.get p.collection p.entityId with
      | .ok _ => fun e => if e.2.1 = p.entityId ∨ e.2.2 = p.entityId then none else promised e
      | .error _ => promised
    | .dropEdgeType name => fun e =>
      if x.state.edgeTypes.contains name = true ∧ e.1 = name then none else promised e
    | _ => promised
  | _ => promised

structure Promising where
  busy : Busy
  promised : Promises

namespace Promising

def start (config : WalConfig) : Promising := ⟨.start (.init config), fun _ => none⟩

def step (x : Promising) (a : Turn) : Promising := ⟨x.busy.step a, promisedAfter x.busy x.promised a⟩

end Promising

/-- The edge is stored and indexed with the source and the confidence of the promise, which is
that of a structural or confirmed edge. -/
structure AsPromised (s : State) (e : EdgeId) (promise : EdgeSource × F32) : Prop where
  source : promise.1 = .structural ∨ promise.1 = .confirmed
  stored : ∃ edge, s.store.getEdge e.1 e.2.1 e.2.2 = some edge ∧ edgeId edge = e ∧
    edge.source = promise.1 ∧ edge.confidence = promise.2
  indexed : ∃ entry ∈ s.adjacency.get e.2.1 e.1, entry.toId = e.2.2
  only : ∀ entry ∈ s.adjacency.get e.2.1 e.1, entry.toId = e.2.2 →
    entry.source = promise.1 ∧ entry.confidence = promise.2

def Promising.Keeps (x : Promising) : Prop :=
  ∀ e promise, x.promised e = some promise → AsPromised x.busy.state e promise

/-- The step stores and deletes nothing under the key of an edge that stays promised, unless
this is the edge it writes. -/
def Promising.Clear (x : Promising) (a : Turn) : Prop :=
  ∀ e, promisedAfter x.busy x.promised a e ≠ none → x.busy.writing a ≠ some e →
    storeKey e ∉ x.busy.touched a

omit [WalPayload Payload] in
theorem SameEdge.kept {s s' : State} {e : EdgeId} {promise : EdgeSource × F32}
    (same : SameEdge s s' e) (kept : AsPromised s e promise) : AsPromised s' e promise where
  source := kept.source
  stored := by
    obtain ⟨edge, there, rest⟩ := kept.stored
    exact ⟨edge, same.stored.trans there, rest⟩
  indexed := by
    obtain ⟨entry, there, target⟩ := kept.indexed
    exact ⟨entry, (same.indexed entry target).mpr there, target⟩
  only := fun entry there target => kept.only entry ((same.indexed entry target).mp there) target

omit [WalPayload Payload] in
theorem SameEdge.refl (s : State) (e : EdgeId) : SameEdge s s e := ⟨rfl, fun _ _ => .rfl⟩

/-- An edge type the step takes away with its edges. -/
def Busy.drops (x : Busy) : Turn → Option String
  | .statement _ w =>
    match w.1 with
    | .dropEdgeType name => if x.state.edgeTypes.contains name then some name else none
    | _ => none
  | _ => none

theorem statement_other (env : Env) (x : Busy) (w : Statement) {e : EdgeId}
    (other : storeKey e ∉ x.touched (.statement env w))
    (typed : x.drops (.statement env w) ≠ some e.1) :
    SameEdge x.state (perform env x.state w.1).2 e := by
  obtain ⟨w, atomic⟩ := w
  cases w with
  | createCollection p => exact (sameEdges_createCollection env x.state p).at e
  | dropCollection name => exact (sameEdges_dropCollection env x.state name).at e
  | createEdgeType p => exact (sameEdges_createEdgeType env x.state p).at e
  | alterCollection p => exact (sameEdges_alterCollection env x.state p).at e
  | insert p => exact (sameEdges_insert env x.state p).at e
  | updateEntity p => exact (sameEdges_updateEntity env x.state p).at e
  | importCollection p => exact (sameEdges_importCollection env x.state p).at e
  | dropEdgeType name =>
    simp only [Busy.drops] at typed
    simp only [perform, dropEdgeType]
    split
    · rename_i contained
      rw [if_pos contained] at typed
      have different : e.1 ≠ name := fun same => typed (congrArg some same.symm)
      refine ⟨?_, fun entry _ => ?_⟩
      · have filtered : (x.state.store.edges.filter fun k _ => k.1 ≠ name)[storeKey e]? =
            x.state.store.edges[storeKey e]? := by
          rw [FinMap.get_filter]
          cases x.state.store.edges[storeKey e]? with
          | none => rfl
          | some edge => simp [Option.filter, storeKey, different]
        exact filtered
      · dsimp only
        rw [(AdjacencyIndex.get_removeEdgeType _ name e.2.1 e.1).1, if_neg different]
        rfl
    · exact .refl _ e
  | deleteEntity p =>
    simp only [Busy.touched] at other
    cases found : x.state.store.get p.collection p.entityId with
    | error error =>
      simp only [perform, deleteEntity_error env found]
      exact .refl _ e
    | ok old =>
      rw [found] at other
      obtain ⟨adjacency, edges⟩ := deleteEntity_edges env found
      refine ⟨(edges _).trans (if_neg ?_), fun entry target => ?_⟩
      · rintro ⟨e', there, same⟩
        exact other (same ▸ List.mem_map_of_mem there)
      · have gone : e ∉ x.state.adjacency.edgesInvolving p.entityId := fun there =>
          other (List.mem_map_of_mem there)
        have same := AdjacencyIndex.mem_removeAll_other target _ x.state.adjacency gone
        rw [← adjacency] at same
        exact same
  | deleteEdge p =>
    simp only [Busy.touched, List.mem_singleton] at other
    have same := takeEdge_other (x.state.logTx env.ts p.edgeType
      [(.edgeDelete, .edgeDelete p.edgeType p.fromId p.toId)]) other
    exact ⟨same.stored, same.indexed⟩
  | insertEdge p => cases atomic
  | confirmEdge p => cases atomic
  | sweepDecayedEdges => cases atomic
  | drainInferenceQueue => cases atomic

/-- A step leaves the edges it stores and deletes nothing over. -/
theorem sameEdge_step (x : Busy) (a : Turn) {e : EdgeId} (other : storeKey e ∉ x.touched a)
    (typed : x.drops a ≠ some e.1) : SameEdge x.state (x.step a).state e := by
  cases a with
  | statement env w => exact statement_other env x w other typed
  | beginInsertEdge env p =>
    simp only [Busy.step, Busy.await]
    rcases beginInsertEdge_ends env x.state p with
      ⟨error, failed⟩ | ⟨pending, et, source, target, begun, -⟩
    · rw [failed]
      exact .refl _ e
    · rw [begun]
      exact ⟨rfl, fun _ _ => .rfl⟩
  | beginConfirmEdge env p =>
    simp only [Busy.step, Busy.await]
    rcases beginConfirmEdge_ends env x.state p with ⟨error, failed⟩ | ⟨pending, recordType, begun, -⟩
    · rw [failed]
      exact .refl _ e
    · rw [begun]
      exact ⟨rfl, fun _ _ => .rfl⟩
  | finishEdge i =>
    simp only [Busy.step]
    cases found : x.writes[i]? with
    | none => exact .refl _ e
    | some pending =>
      simp only [Busy.touched, found, Option.map_some, Option.toList_some, List.mem_singleton] at other
      exact finishEdge_other x.state pending other
  | startDrain env => exact .refl _ e
  | advanceDrain env i =>
    simp only [Busy.step]
    cases found : x.drains[i]? with
    | none => exact .refl _ e
    | some d =>
      dsimp only
      simp only [Busy.touched, found, Option.bind_some] at other
      rcases d.advance_ends env x.state with ⟨edge, waits, put, -⟩ | ⟨-, logged | ⟨-, queue, same⟩⟩
      · rw [put]
        rw [waits, Option.map_some, Option.toList_some, List.mem_singleton] at other
        exact putEdge_other x.state other
      · obtain ⟨edge, -, -, logged⟩ := logged
        rw [logged]
        exact ⟨rfl, fun _ _ => .rfl⟩
      · rw [same]
        exact ⟨rfl, fun _ _ => .rfl⟩
  | startSweep env => exact .refl _ e
  | advanceSweep env i =>
    simp only [Busy.step]
    cases found : x.sweeps[i]? with
    | none => exact .refl _ e
    | some w =>
      dsimp only
      simp only [Busy.touched, found, Option.bind_some] at other
      rcases w.advance_ends env x.state with
        ⟨edgeType, fromId, toId, waits, taken⟩ | ⟨-, ⟨edgeType, entries, logged⟩ | same⟩
      · rw [taken]
        rw [waits, Option.map_some, Option.toList_some, List.mem_singleton] at other
        exact takeEdge_other x.state other
      · rw [logged]
        exact ⟨rfl, fun _ _ => .rfl⟩
      · rw [same]
        exact .refl _ e

/-! ### Runs -/

/-- What the statements and tasks in flight wait to write. -/
structure Awaiting (x : Busy) : Prop where
  sound : Sound x.state []
  writes : ∀ pending ∈ x.writes, pending.edge.source = .structural ∨ pending.edge.source = .confirmed
  drains : ∀ d ∈ x.drains, ∀ edge, d.waiting = some edge → edge.source = .inferred

omit [WalPayload Payload] in
theorem sound_putEdge {s : State} (sound : Sound s []) (edge : Edge) : Sound (s.putEdge edge) [] where
  linked := AdjacencyIndex.linked_insert sound.linked _ _ _
  distinct := AdjacencyIndex.distinct_insert sound.distinct _ _ _
  keyed := by
    intro k other there
    rcases get_insertEdge there with ⟨here, rfl⟩ | ⟨-, before⟩
    · exact here
    · exact sound.keyed k other before
  stored := fun _ _ _ none_ => absurd none_ List.not_mem_nil
  full := fun _ none_ => absurd none_ List.not_mem_nil

omit [WalPayload Payload] in
theorem sound_takeEdge {s : State} (sound : Sound s []) (edgeType : String)
    (fromId toId : LogicalId) : Sound (s.takeEdge edgeType fromId toId) [] where
  linked := AdjacencyIndex.linked_remove sound.linked _ _ _
  distinct := AdjacencyIndex.distinct_remove sound.distinct _ _ _
  keyed := fun k edge there => sound.keyed k edge (get_deleteEdge there)
  stored := fun _ _ _ none_ => absurd none_ List.not_mem_nil
  full := fun _ none_ => absurd none_ List.not_mem_nil

omit [WalPayload Payload] in
theorem sound_finishEdge {s : State} (sound : Sound s []) (pending : PendingEdge) :
    Sound (finishEdge s pending).2 [] := by
  have unindexed : Sound (s.unindexEdge pending.edge) [] :=
    ⟨AdjacencyIndex.linked_remove sound.linked _ _ _, AdjacencyIndex.distinct_remove sound.distinct _ _ _,
      sound.keyed, sound.stored, fun _ none_ => absurd none_ List.not_mem_nil⟩
  unfold finishEdge
  dsimp only
  split
  · exact sound_putEdge unindexed _
  · exact sound_putEdge sound _

theorem awaiting_start (config : WalConfig) : Awaiting (.start (.init config)) := by
  refine ⟨⟨AdjacencyIndex.linked_new, AdjacencyIndex.distinct_new, fun k edge there => ?_,
    fun k edge there => ?_, fun e none_ => absurd none_ List.not_mem_nil⟩,
    fun pending none_ => absurd none_ List.not_mem_nil, fun d none_ => absurd none_ List.not_mem_nil⟩
  · simp [Busy.start, State.init, Store.empty] at there
  · simp [Busy.start, State.init, Store.empty] at there

omit [WalPayload Payload] in
theorem awaiting_await {x : Busy} (awaiting : Awaiting x)
    {begun : Except EngineError PendingEdge × State} (same : SameEdges x.state begun.2)
    (source : ∀ pending, begun.1 = .ok pending →
      pending.edge.source = .structural ∨ pending.edge.source = .confirmed) :
    Awaiting (x.await begun) := by
  obtain ⟨error | pending, s⟩ := begun
  · exact ⟨same.sound awaiting.sound, awaiting.writes, awaiting.drains⟩
  · refine ⟨same.sound awaiting.sound, fun other there => ?_, awaiting.drains⟩
    rcases List.mem_append.mp there with there | there
    · exact awaiting.writes other there
    · rw [List.mem_singleton] at there
      exact there ▸ source pending rfl

theorem awaiting_advanceDrain {x : Busy} (awaiting : Awaiting x) (env : Env) (i : Nat) :
    Awaiting (x.step (.advanceDrain env i)) := by
  simp only [Busy.step]
  cases found : x.drains[i]? with
  | none => exact awaiting
  | some d =>
    dsimp only
    have others (d' : Drain) (inferred : ∀ edge, d'.waiting = some edge → edge.source = .inferred) :
        ∀ d'' ∈ x.drains.set i d', ∀ edge, d''.waiting = some edge → edge.source = .inferred := by
      intro d'' there
      rcases List.mem_or_eq_of_mem_set there with there | rfl
      · exact awaiting.drains d'' there
      · exact inferred
    rcases d.advance_ends env x.state with ⟨edge, -, put, next⟩ | ⟨-, logged | ⟨next, queue, same⟩⟩
    · refine ⟨put ▸ sound_putEdge awaiting.sound edge, awaiting.writes, others _ fun edge waits => ?_⟩
      rw [next] at waits
      cases waits
    · obtain ⟨edge, next, inferred, logged⟩ := logged
      have same : SameEdges x.state (d.advance env x.state).1 := by
        rw [logged]
        exact ⟨rfl, rfl⟩
      refine ⟨same.sound awaiting.sound, awaiting.writes, others _ fun edge' waits => ?_⟩
      · rw [next] at waits
        cases waits
        exact inferred
    · have same : SameEdges x.state (d.advance env x.state).1 := by
        rw [same]
        exact ⟨rfl, rfl⟩
      refine ⟨same.sound awaiting.sound, awaiting.writes, others _ fun edge waits => ?_⟩
      · rw [next] at waits
        cases waits

theorem awaiting_advanceSweep {x : Busy} (awaiting : Awaiting x) (env : Env) (i : Nat) :
    Awaiting (x.step (.advanceSweep env i)) := by
  simp only [Busy.step]
  cases found : x.sweeps[i]? with
  | none => exact awaiting
  | some w =>
    dsimp only
    refine ⟨?_, awaiting.writes, awaiting.drains⟩
    rcases w.advance_ends env x.state with
      ⟨edgeType, fromId, toId, -, taken⟩ | ⟨-, ⟨edgeType, entries, logged⟩ | same⟩
    · rw [taken]
      exact sound_takeEdge awaiting.sound edgeType fromId toId
    · have same : SameEdges x.state (w.advance env x.state).1 := by
        rw [logged]
        exact ⟨rfl, rfl⟩
      exact same.sound awaiting.sound
    · rw [same]
      exact awaiting.sound

theorem awaiting_step {x : Busy} (awaiting : Awaiting x) (a : Turn) : Awaiting (x.step a) := by
  cases a with
  | statement env w =>
    refine ⟨?_, awaiting.writes, awaiting.drains⟩
    have kept := sound_step (a := (env, w.1)) awaiting.sound (by
      cases w.1 <;> first | trivial | exact fun none_ => absurd none_ List.not_mem_nil)
    exact kept.mono fun _ none_ => absurd none_ List.not_mem_nil
  | beginInsertEdge env p =>
    refine awaiting_await awaiting ?_ fun pending ok => ?_
    · rcases beginInsertEdge_ends env x.state p with
        ⟨error, failed⟩ | ⟨pending, et, source, target, begun, -⟩
      · rw [failed]
        exact .refl _
      · rw [begun]
        exact ⟨rfl, rfl⟩
    · rcases beginInsertEdge_ends env x.state p with
        ⟨error, failed⟩ | ⟨pending', et, source, target, begun, -, structural, -⟩
      · rw [failed] at ok
        cases ok
      · rw [begun] at ok
        cases ok
        exact .inl structural
  | beginConfirmEdge env p =>
    refine awaiting_await awaiting ?_ fun pending ok => ?_
    · rcases beginConfirmEdge_ends env x.state p with
        ⟨error, failed⟩ | ⟨pending, recordType, begun, -⟩
      · rw [failed]
        exact .refl _
      · rw [begun]
        exact ⟨rfl, rfl⟩
    · rcases beginConfirmEdge_ends env x.state p with
        ⟨error, failed⟩ | ⟨pending', recordType, begun, -, confirmed, -⟩
      · rw [failed] at ok
        cases ok
      · rw [begun] at ok
        cases ok
        exact .inr confirmed
  | finishEdge i =>
    simp only [Busy.step]
    cases found : x.writes[i]? with
    | none => exact awaiting
    | some pending =>
      exact ⟨sound_finishEdge awaiting.sound pending,
        fun other there => awaiting.writes other (List.mem_of_mem_eraseIdx there), awaiting.drains⟩
  | startDrain env =>
    refine ⟨awaiting.sound, awaiting.writes, fun d there edge waits => ?_⟩
    rcases List.mem_append.mp there with there | there
    · exact awaiting.drains d there edge waits
    · rw [List.mem_singleton.mp there] at waits
      cases waits
  | advanceDrain env i => exact awaiting_advanceDrain awaiting env i
  | startSweep env => exact ⟨awaiting.sound, awaiting.writes, awaiting.drains⟩
  | advanceSweep env i => exact awaiting_advanceSweep awaiting env i

omit [WalPayload Payload] in
/-- An edge that is finished is as its statement promises. -/
theorem kept_finishEdge {s : State} (sound : Sound s []) {pending : PendingEdge}
    (source : pending.edge.source = .structural ∨ pending.edge.source = .confirmed) :
    AsPromised (finishEdge s pending).2 (edgeId pending.edge)
      (pending.edge.source, pending.edge.confidence) := by
  have distinct := (sound_finishEdge sound pending).distinct
  have there : adjEntry pending.edge ∈ (finishEdge s pending).2.adjacency.get
      (edgeId pending.edge).2.1 (edgeId pending.edge).1 := by
    have inserted (a : AdjacencyIndex) : adjEntry pending.edge ∈ (a.insert pending.edge.fromId
        pending.edge.edgeType (adjEntry pending.edge)).get pending.edge.fromId
          pending.edge.edgeType := by
      rw [AdjacencyIndex.get_insert, if_pos rfl]
      exact AdjacencyIndex.mem_upsert_self _ _
    unfold finishEdge
    exact inserted _
  refine ⟨source, ⟨pending.edge, ?_, rfl, rfl, rfl⟩, ⟨_, there, rfl⟩, fun entry listed target => ?_⟩
  · have inserted := FinMap.get_insert s.store.edges (storeKey (edgeId pending.edge))
      (storeKey (edgeId pending.edge)) pending.edge
    rw [if_pos rfl] at inserted
    unfold finishEdge
    dsimp only
    split <;> exact inserted
  · rw [distinct.unique listed there target]
    exact ⟨rfl, rfl⟩

omit [WalPayload Payload] in
/-- An edge that is promised after a step is written by it, or it was promised before and its
type stays. -/
theorem promised_before (x : Busy) (promised : Promises) (a : Turn) {e : EdgeId}
    {promise : EdgeSource × F32} (after : promisedAfter x promised a e = some promise) :
    (∃ i pending, a = .finishEdge i ∧ x.writes[i]? = some pending ∧ e = edgeId pending.edge ∧
        promise = (pending.edge.source, pending.edge.confidence)) ∨
      promised e = some promise ∧ x.writing a ≠ some e ∧ x.drops a ≠ some e.1 := by
  cases a with
  | finishEdge i =>
    simp only [promisedAfter] at after
    cases found : x.writes[i]? with
    | none =>
      rw [found] at after
      exact .inr ⟨after, by simp [Busy.writing, found], fun other => (nomatch other)⟩
    | some pending =>
      rw [found] at after
      dsimp only at after
      split at after
      · rename_i here
        exact .inl ⟨i, pending, rfl, found, here, (Option.some.inj after).symm⟩
      · rename_i elsewhere
        refine .inr ⟨after, ?_, fun other => (nomatch other)⟩
        rw [Busy.writing, found]
        exact fun same => elsewhere (Option.some.inj same).symm
  | statement env w =>
    refine .inr ?_
    obtain ⟨w, atomic⟩ := w
    cases w with
    | deleteEdge p =>
      simp only [promisedAfter] at after
      split at after
      · cases after
      · exact ⟨after, fun other => (nomatch other), fun other => (nomatch other)⟩
    | deleteEntity p =>
      simp only [promisedAfter] at after
      cases found : x.state.store.get p.collection p.entityId with
      | error error =>
        rw [found] at after
        exact ⟨after, fun other => (nomatch other), fun other => (nomatch other)⟩
      | ok old =>
        rw [found] at after
        dsimp only at after
        split at after
        · cases after
        · exact ⟨after, fun other => (nomatch other), fun other => (nomatch other)⟩
    | dropEdgeType name =>
      simp only [promisedAfter] at after
      split at after
      · cases after
      · rename_i stays
        refine ⟨after, fun other => (nomatch other), fun dropped => stays ?_⟩
        simp only [Busy.drops] at dropped
        split at dropped
        · rename_i contained
          exact ⟨contained, (Option.some.inj dropped).symm⟩
        · cases dropped
    | _ => exact ⟨after, fun other => (nomatch other), fun other => (nomatch other)⟩
  | _ => exact .inr ⟨after, fun other => (nomatch other), fun other => (nomatch other)⟩

theorem promises_step {x : Promising} (awaiting : Awaiting x.busy) (keeps : x.Keeps) {a : Turn}
    (clear : x.Clear a) : (x.step a).Keeps := by
  intro e promise after
  have after' : promisedAfter x.busy x.promised a e = some promise := after
  rcases promised_before x.busy x.promised a after' with
    ⟨i, pending, rfl, found, rfl, rfl⟩ | ⟨before, notWritten, notDropped⟩
  · have kept := kept_finishEdge awaiting.sound (awaiting.writes pending (List.mem_of_getElem? found))
    simp only [Promising.step, Busy.step, found]
    exact kept
  · have untouched := clear e (by rw [after']; exact Option.some_ne_none promise) notWritten
    exact (sameEdge_step x.busy a untouched notDropped).kept (keeps e promise before)

omit [WalPayload Payload] in
theorem stored_putEdge (s : State) (edge : Edge) :
    (s.putEdge edge).store.edges[storeKey (edgeId edge)]? = some edge := by
  have inserted := FinMap.get_insert s.store.edges (storeKey (edgeId edge))
    (storeKey (edgeId edge)) edge
  rw [if_pos rfl] at inserted
  exact inserted

omit [WalPayload Payload] in
theorem stored_takeEdge (s : State) (edgeType : String) (fromId toId : LogicalId) :
    (s.takeEdge edgeType fromId toId).store.edges[storeKey (edgeType, fromId, toId)]? = none := by
  have erased := FinMap.get_erase s.store.edges (storeKey (edgeType, fromId, toId))
    (storeKey (edgeType, fromId, toId))
  rw [if_pos rfl] at erased
  exact erased

/-- Under the keys a step touches nothing is stored, or the edge it writes, or an inferred one. -/
theorem stored_touched {x : Busy} (awaiting : Awaiting x) {a : Turn} {k : String × String}
    (touched : k ∈ x.touched a) {edge : Edge} (there : (x.step a).state.store.edges[k]? = some edge) :
    x.writing a = some (edgeId edge) ∨ edge.source = .inferred := by
  cases a with
  | statement env w =>
    obtain ⟨w, atomic⟩ := w
    cases w with
    | deleteEdge p =>
      rw [List.mem_singleton.mp touched] at there
      have gone := stored_takeEdge (x.state.logTx env.ts p.edgeType
        [(.edgeDelete, .edgeDelete p.edgeType p.fromId p.toId)]) p.edgeType p.fromId p.toId
      cases gone.symm.trans there
    | deleteEntity p =>
      simp only [Busy.touched] at touched
      cases found : x.state.store.get p.collection p.entityId with
      | error error =>
        rw [found] at touched
        cases touched
      | ok old =>
        rw [found] at touched
        obtain ⟨e, listed, same⟩ := List.mem_map.mp touched
        have gone := (deleteEntity_edges env found).2 k
        rw [if_pos ⟨e, listed, same⟩] at gone
        cases gone.symm.trans there
    | _ => cases touched
  | finishEdge i =>
    simp only [Busy.touched] at touched
    cases found : x.writes[i]? with
    | none =>
      rw [found] at touched
      cases touched
    | some pending =>
      rw [found, Option.map_some, Option.toList_some, List.mem_singleton] at touched
      simp only [Busy.step, found, touched, finishEdge, stored_putEdge, Option.some.injEq] at there
      rw [Busy.writing, found, ← there]
      exact .inl rfl
  | advanceDrain env i =>
    simp only [Busy.touched] at touched
    cases found : x.drains[i]? with
    | none =>
      rw [found] at touched
      cases touched
    | some d =>
      rw [found, Option.bind_some] at touched
      rcases d.advance_ends env x.state with ⟨edge', waits, put, -⟩ | ⟨waits, -⟩
      · rw [waits, Option.map_some, Option.toList_some, List.mem_singleton] at touched
        simp only [Busy.step, found, put, touched, stored_putEdge, Option.some.injEq] at there
        rw [← there]
        exact .inr (awaiting.drains d (List.mem_of_getElem? found) edge' waits)
      · rw [waits] at touched
        cases touched
  | advanceSweep env i =>
    simp only [Busy.touched] at touched
    cases found : x.sweeps[i]? with
    | none =>
      rw [found] at touched
      cases touched
    | some w =>
      rw [found, Option.bind_some] at touched
      rcases w.advance_ends env x.state with ⟨edgeType, fromId, toId, waits, taken⟩ | ⟨waits, -⟩
      · rw [waits, Option.map_some, Option.toList_some, List.mem_singleton] at touched
        simp only [Busy.step, found, taken, touched, stored_takeEdge] at there
        cases there
      · rw [waits] at touched
        cases touched
  | beginInsertEdge env p => cases touched
  | beginConfirmEdge env p => cases touched
  | startDrain env => cases touched
  | startSweep env => cases touched

theorem promises_iff {x : Promising} (awaiting : Awaiting x.busy) (keeps : x.Keeps) (a : Turn) :
    (x.step a).Keeps ↔ x.Clear a := by
  refine ⟨fun kept e after notWritten touched => ?_, fun clear => promises_step awaiting keeps clear⟩
  obtain ⟨promise, after⟩ := Option.ne_none_iff_exists'.mp after
  have kept := kept e promise after
  obtain ⟨edge, there, own, source, -⟩ := kept.stored
  rcases stored_touched awaiting touched there with written | inferred
  · exact notWritten (own ▸ written)
  · rcases kept.source with structural | confirmed
    · rw [source, structural] at inferred
      cases inferred
    · rw [source, confirmed] at inferred
      cases inferred

/-- In every run of statements, edge writes and background tasks that go on in any order, what
INSERT EDGE and CONFIRM EDGE have acknowledged is kept iff no step stores or deletes an edge
under the key of another edge that is promised. -/
theorem promises_kept_iff (config : WalConfig) (turns : List Turn) :
    (∀ x ∈ Run.visited Promising.step (.start config) turns, x.Keeps) ↔
      ∀ p ∈ Run.taken Promising.step (.start config) turns, p.1.Clear p.2 :=
  Run.good_iff_guarded Promising.step (fun x => Awaiting x.busy) Promising.Keeps Promising.Clear turns
    (awaiting_start config) (fun _ _ none_ => nomatch none_)
    (fun _ a awaiting _ _ => awaiting_step awaiting a)
    fun _ a awaiting keeps => promises_iff awaiting keeps a

end Runs

/-! ### A confirmation between the search and the commit -/

def nearBob : Env := { Env.idle with search := fun _ _ _ => [("bob", .one)] }

/-- The drain has logged an edge from ann to bob when that edge is confirmed with 0.5; then
the drain goes on. -/
def confirmedMeanwhile : List Turn :=
  [.statement nearBob ⟨.createCollection ⟨"people", [⟨"likes", none, some 1, .cosine, false, []⟩], [],
      [], none⟩, rfl⟩,
    .statement nearBob ⟨.createEdgeType ⟨"knows", "people", "people", none,
      some ⟨true, ⟨0x3F000000⟩, 10⟩⟩, rfl⟩,
    .statement nearBob ⟨.insert ⟨"people", ["id"], [.string "bob"], [("likes", .dense [.one])], none,
      none⟩, rfl⟩,
    .statement nearBob ⟨.insert ⟨"people", ["id"], [.string "ann"], [("likes", .dense [.one])], none,
      none⟩, rfl⟩,
    .startDrain nearBob, .advanceDrain nearBob 0, .advanceDrain nearBob 0, .advanceDrain nearBob 0,
    .beginConfirmEdge nearBob ⟨"knows", "ann", "bob", ⟨0x3F000000⟩⟩, .finishEdge 0,
    .advanceDrain nearBob 0]

section Examples
attribute [local instance] headerOnly

/-- The confirmed edge is overwritten with the inferred one. -/
theorem confirmed_overwritten :
    ¬ ∀ x ∈ Run.visited Promising.step (.start default) confirmedMeanwhile, x.Keeps := by
  intro kept
  have promised : (confirmedMeanwhile.foldl Promising.step (.start default)).promised
      ("knows", "ann", "bob") = some (.confirmed, ⟨0x3F000000⟩) := by decide
  have overwritten : ((confirmedMeanwhile.foldl Promising.step
      (.start default)).busy.state.store.getEdge "knows" "ann" "bob").map Edge.source =
        some .inferred := by decide
  obtain ⟨edge, there, -, source, -⟩ :=
    (kept _ (Run.end_visited Promising.step _ _) _ _ promised).stored
  rw [there, Option.map_some, source] at overwritten
  cases overwritten

end Examples
end TronDB.Engine
