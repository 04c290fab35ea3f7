import TronDB.Engine.Adjacency
import TronDB.Engine.Isolation
import TronDB.Engine.Join
import TronDB.Engine.Reachability

/-! Edges written by INSERT EDGE: how long they stay, and what confidence their readers see. -/
namespace TronDB.Engine
open TronDB.Core Binary Wal

/-! ### Writes that leave the edges alone -/

structure SameEdges (s s' : State) : Prop where
  adjacency : s'.adjacency = s.adjacency
  edges : s'.store.edges = s.store.edges

section Same
variable [WalPayload Payload]

omit [WalPayload Payload] in
theorem SameEdges.refl (s : State) : SameEdges s s := ⟨rfl, rfl⟩

theorem sameEdges_createCollection (env : Env) (s : State) (p : CreateCollectionPlan) :
    SameEdges s (createCollection env s p).2 := by
  unfold createCollection Store.createCollectionSchema
  split
  · exact .refl s
  · dsimp only
    split
    · exact ⟨rfl, rfl⟩
    · rename_i stored
      split at stored
      · cases stored
      · cases stored
        exact ⟨rfl, rfl⟩

theorem sameEdges_dropCollection (env : Env) (s : State) (name : String) :
    SameEdges s (dropCollection env s name).2 := by
  unfold dropCollection Store.dropCollection
  split
  · dsimp only
    split
    · exact ⟨rfl, rfl⟩
    · rename_i stored
      split at stored
      · cases stored
        exact ⟨rfl, rfl⟩
      · cases stored
  · exact .refl s

theorem sameEdges_createEdgeType (env : Env) (s : State) (p : CreateEdgeTypePlan) :
    SameEdges s (createEdgeType env s p).2 := by
  unfold createEdgeType Store.createEdgeType
  split
  · split
    · dsimp only
      split
      · exact ⟨rfl, rfl⟩
      · rename_i stored
        split at stored
        · cases stored
        · cases stored
          exact ⟨rfl, rfl⟩
    · exact .refl s
  · exact .refl s

omit [WalPayload Payload] in
theorem sameEdges_alterMemory (s : State) (collection : String) (schema : CollectionSchema)
    (entities : List Entity) (op : SchemaAlterOp) :
    SameEdges s (s.alterMemory collection schema entities op) := by
  unfold State.alterMemory
  repeat' split
  all_goals exact ⟨rfl, rfl⟩

omit [WalPayload Payload] in
theorem edges_insertAll (collection : String) (entities : List Entity) (store : Store) :
    (insertAll store collection entities).2.edges = store.edges := by
  induction entities generalizing store with
  | nil => rfl
  | cons e rest ih =>
    unfold insertAll Store.insert
    split
    · rename_i stored
      split at stored
      · cases stored
        exact ih _
      · cases stored
    · rfl

theorem sameEdges_alterCollection (env : Env) (s : State) (p : AlterCollectionPlan) :
    SameEdges s (alterCollection env s p).2 := by
  unfold alterCollection
  split
  · exact .refl s
  · split
    · exact .refl s
    · split
      · exact .refl s
      · rename_i schema _ _ entities _ _ _
        dsimp only
        generalize entities.filterMap (fun e => alterEntity e p.operation) = mutated
        generalize logged : s.logTx env.ts p.collection _ = t
        have same := sameEdges_alterMemory t p.collection schema entities p.operation
        have before : SameEdges s t := logged ▸ ⟨rfl, rfl⟩
        have adjacency := same.adjacency.trans before.adjacency
        have edges := same.edges.trans before.edges
        split
        · exact ⟨adjacency, (edges_insertAll _ _ _).trans edges⟩
        · exact ⟨adjacency, (edges_insertAll _ _ _).trans edges⟩

theorem sameEdges_insert (env : Env) (s : State) (p : InsertPlan) :
    SameEdges s (insert env s p).2 := by
  cases insert_ends env s p with
  | refused error rejected result =>
    rw [result]
    exact .refl s
  | unbuilt schema error known checked built result =>
    rw [result]
    exact ⟨removeOldEntries_adjacency .., removeOldEntries_edges ..⟩
  | unstored schema e known checked built absent result =>
    obtain ⟨error, entries, result⟩ := result
    rw [result]
    exact ⟨removeOldEntries_adjacency .., removeOldEntries_edges ..⟩
  | stored schema e known checked built present wal left =>
    exact ⟨left.adjacency.trans (removeOldEntries_adjacency ..),
      left.edges.trans (removeOldEntries_edges ..)⟩

omit [WalPayload Payload] in
theorem sameEdges_enqueue (s : State) (collection : String) (id : LogicalId) :
    SameEdges s (s.enqueue collection id) := by
  unfold State.enqueue
  split
  · exact ⟨rfl, rfl⟩
  · exact .refl s

theorem sameEdges_updateEntity (env : Env) (s : State) (p : UpdateEntityPlan) :
    SameEdges s (updateEntity env s p).2 := by
  unfold updateEntity Store.insert
  split
  · exact .refl s
  · dsimp only
    split
    · exact ⟨rfl, rfl⟩
    · rename_i stored
      split at stored
      · cases stored
        split
        · exact ⟨rfl, congrArg Data.edges (data_updateFieldEntries _ _ _ _ _)⟩
        · obtain ⟨adjacency, edges⟩ := sameEdges_enqueue _ p.collection p.entityId
          exact ⟨adjacency, edges.trans (congrArg Data.edges (data_updateFieldEntries _ _ _ _ _))⟩
      · cases stored

omit [WalPayload Payload] in
theorem sameEdges_importLoop (env : Env) (collection : String) (txId : Nat)
    (lines : List ImportLine) (imported : Nat) (s : State) :
    SameEdges s (importLoop env collection txId lines imported s).2 :=
  importLoop_invariant env collection txId (fun _ _ same => ⟨same.adjacency, same.edges⟩)
    (fun _ _ _ same => ⟨same.adjacency, same.edges⟩) lines imported (.refl s)

theorem sameEdges_importCollection (env : Env) (s : State) (p : ImportPlan) :
    SameEdges s (importCollection env s p).2 := by
  unfold importCollection
  split
  · exact .refl s
  · split
    · exact .refl s
    · rename_i lines _
      dsimp only
      have same := sameEdges_importLoop env p.collection s.wal.nextTx lines 0
        { s with wal := s.wal.beginTx p.collection env.ts }
      split
      · rename_i ended
        rw [ended] at same
        exact ⟨same.adjacency, same.edges⟩
      · rename_i ended
        rw [ended] at same
        exact ⟨same.adjacency, same.edges⟩

end Same
/-! ### Edges that are there -/

abbrev EdgeId := String × LogicalId × LogicalId

namespace AdjacencyIndex

/-- The entry of the edge is structural, with confidence 1.0. -/
def Full (a : AdjacencyIndex) (e : EdgeId) : Prop :=
  ∃ entry ∈ a.get e.2.1 e.1, entry.toId = e.2.2 ∧ entry.source = .structural ∧
    entry.confidence = .one

variable {a : AdjacencyIndex} {e : EdgeId}

theorem full_insert (full : a.Full e) {fromId : LogicalId} {edgeType : String} (entry : AdjEntry)
    (other : (edgeType, fromId, entry.toId) ≠ e) : (a.insert fromId edgeType entry).Full e := by
  obtain ⟨found, there, target, rest⟩ := full
  refine ⟨found, ?_, target, rest⟩
  rw [get_insert]
  split
  · rename_i key
    obtain ⟨rfl, rfl⟩ := Prod.mk.inj key
    refine (mem_upsert_other _ fun same => other ?_).mpr there
    rw [← same, target]
  · exact there

theorem full_insert_self (a : AdjacencyIndex) (fromId : LogicalId) (edgeType : String)
    (entry : AdjEntry) (structural : entry.source = .structural) (one : entry.confidence = .one) :
    (a.insert fromId edgeType entry).Full (edgeType, fromId, entry.toId) := by
  refine ⟨entry, ?_, rfl, structural, one⟩
  rw [get_insert, if_pos rfl]
  exact mem_upsert_self _ _

theorem not_full_insert (distinct : a.Distinct) {fromId : LogicalId} {edgeType : String}
    {entry : AdjEntry} (other : entry.source ≠ .structural) :
    ¬ (a.insert fromId edgeType entry).Full (edgeType, fromId, entry.toId) := by
  rintro ⟨found, there, target, structural, -⟩
  have here : entry ∈ (a.insert fromId edgeType entry).get fromId edgeType := by
    rw [get_insert, if_pos rfl]
    exact mem_upsert_self _ _
  have same := (distinct_insert distinct fromId edgeType entry).unique there here target
  exact other (same ▸ structural)

theorem full_remove (full : a.Full e) {fromId toId : LogicalId} {edgeType : String}
    (other : (edgeType, fromId, toId) ≠ e) : (a.remove fromId edgeType toId).Full e := by
  obtain ⟨found, there, target, rest⟩ := full
  refine ⟨found, ?_, target, rest⟩
  rw [get_remove]
  split
  · rename_i key
    obtain ⟨rfl, rfl⟩ := Prod.mk.inj key
    refine List.mem_filter.mpr ⟨there, decide_eq_true fun same => other ?_⟩
    rw [← same, target]
  · exact there

theorem full_removeEdgeType (full : a.Full e) {edgeType : String} (other : e.1 ≠ edgeType) :
    (a.removeEdgeType edgeType).Full e := by
  obtain ⟨found, there, rest⟩ := full
  refine ⟨found, ?_, rest⟩
  rw [(get_removeEdgeType a edgeType e.2.1 e.1).1, if_neg other]
  exact there

end AdjacencyIndex

/-! ### The run -/

/-- An engine with the edges that INSERT EDGE has written and nothing has deleted since. -/
structure Watched where
  state : State
  written : List EdgeId

/-- A write, or a reading of the edges. -/
inductive Access where
  | write (a : Step)
  | read (env : ReadEnv)

section Watch
variable [WalPayload Payload]

def writtenAfter (s : State) (a : Step) (written : List EdgeId) : List EdgeId :=
  match a.2 with
  | .insertEdge p =>
    match (insertEdge a.1 s p).1 with
    | .ok _ => (p.edgeType, p.fromId, p.toId) :: written
    | .error _ => written
  | .deleteEdge p => written.filter fun e => e ≠ (p.edgeType, p.fromId, p.toId)
  | .deleteEntity p =>
    match s.store.get p.collection p.entityId with
    | .ok _ => written.filter fun e => e.2.1 ≠ p.entityId && e.2.2 ≠ p.entityId
    | .error _ => written
  | .dropEdgeType name =>
    if s.edgeTypes.contains name then written.filter fun e => e.1 ≠ name else written
  | _ => written

def Watched.step (x : Watched) : Access → Watched
  | .write a => ⟨x.state.step a, writtenAfter x.state a x.written⟩
  | .read _ => x

def Watched.start (config : WalConfig) : Watched := ⟨State.init config, []⟩

omit [WalPayload Payload] in
/-- What holds of the edges of a state all along. -/
structure Sound (s : State) (written : List EdgeId) : Prop where
  linked : s.adjacency.Linked
  distinct : s.adjacency.Distinct
  keyed : ∀ (k : String × String) (edge : Edge), s.store.edges[k]? = some edge →
    k = (edge.edgeType, edgeKey edge.fromId edge.toId)
  stored : ∀ (k : String × String) (edge : Edge), s.store.edges[k]? = some edge →
    (edge.edgeType, edge.fromId, edge.toId) ∈ written → edge.source = .structural
  full : ∀ e ∈ written, s.adjacency.Full e

variable {s s' : State} {written : List EdgeId}

omit [WalPayload Payload] in
theorem SameEdges.sound (same : SameEdges s s') (sound : Sound s written) : Sound s' written where
  linked := same.adjacency ▸ sound.linked
  distinct := same.adjacency ▸ sound.distinct
  keyed := same.edges ▸ sound.keyed
  stored := same.edges ▸ sound.stored
  full := same.adjacency ▸ sound.full

omit [WalPayload Payload] in
theorem Sound.mono {fewer : List EdgeId} (sound : Sound s written)
    (subset : ∀ e ∈ fewer, e ∈ written) : Sound s fewer where
  linked := sound.linked
  distinct := sound.distinct
  keyed := sound.keyed
  stored := fun k edge there listed => sound.stored k edge there (subset _ listed)
  full := fun e listed => sound.full e (subset e listed)

omit [WalPayload Payload] in
theorem get_deleteEdge {store : Store} {edgeType : String} {fromId toId : LogicalId}
    {k : String × String} {edge : Edge}
    (there : (store.deleteEdge edgeType fromId toId).edges[k]? = some edge) :
    store.edges[k]? = some edge := by
  have erased : (store.edges.erase (edgeType, edgeKey fromId toId))[k]? = some edge := there
  rw [FinMap.get_erase] at erased
  split at erased
  · cases erased
  · exact erased

theorem sound_removeEdge (sound : Sound s written) (ts : Int) {edgeType : String}
    {fromId toId : LogicalId} (other : (edgeType, fromId, toId) ∉ written) :
    Sound (s.removeEdge ts edgeType fromId toId) written where
  linked := AdjacencyIndex.linked_remove sound.linked _ _ _
  distinct := AdjacencyIndex.distinct_remove sound.distinct _ _ _
  keyed := fun k edge there => sound.keyed k edge (get_deleteEdge there)
  stored := fun k edge there => sound.stored k edge (get_deleteEdge there)
  full := fun e listed =>
    AdjacencyIndex.full_remove (sound.full e listed) fun same => other (same ▸ listed)

omit [WalPayload Payload] in
theorem get_insertEdge {store : Store} {edge other : Edge} {k : String × String}
    (there : (store.insertEdge edge).edges[k]? = some other) :
    k = (edge.edgeType, edgeKey edge.fromId edge.toId) ∧ other = edge ∨
      k ≠ (edge.edgeType, edgeKey edge.fromId edge.toId) ∧ store.edges[k]? = some other := by
  have inserted : (store.edges.insert (edge.edgeType, edgeKey edge.fromId edge.toId)
      edge)[k]? = some other := there
  rw [FinMap.get_insert] at inserted
  split at inserted
  · rename_i here
    cases inserted
    exact .inl ⟨here.symm, rfl⟩
  · rename_i elsewhere
    exact .inr ⟨fun same => elsewhere same.symm, inserted⟩

theorem sound_insertEdge {edge : Edge} (sound : Sound s written)
    (source : (edge.edgeType, edge.fromId, edge.toId) ∈ written → edge.source = .structural)
    (one : (edge.edgeType, edge.fromId, edge.toId) ∈ written → edge.confidence = .one) (ts : Int)
    (recordType : RecordType) : Sound (s.writeEdge ts recordType edge) written where
  linked := AdjacencyIndex.linked_insert sound.linked _ _ _
  distinct := AdjacencyIndex.distinct_insert sound.distinct _ _ _
  keyed := by
    intro k other there
    rcases get_insertEdge there with ⟨here, rfl⟩ | ⟨-, before⟩
    · exact here
    · exact sound.keyed k other before
  stored := by
    intro k other there listed
    rcases get_insertEdge there with ⟨-, rfl⟩ | ⟨-, before⟩
    · exact source listed
    · exact sound.stored k other before listed
  full := by
    intro e listed
    by_cases here : (edge.edgeType, edge.fromId, edge.toId) = e
    · subst here
      exact AdjacencyIndex.full_insert_self _ _ _ (adjEntry edge) (source listed) (one listed)
    · exact AdjacencyIndex.full_insert (sound.full e listed) (adjEntry edge) here

theorem sound_written {edge : Edge} (sound : Sound s written)
    (structural : edge.source = .structural) (one : edge.confidence = .one) (ts : Int)
    (recordType : RecordType) : Sound (s.writeEdge ts recordType edge)
      ((edge.edgeType, edge.fromId, edge.toId) :: written) := by
  have kept := sound_insertEdge sound (fun _ => structural) (fun _ => one) ts recordType
  refine ⟨kept.linked, kept.distinct, kept.keyed, fun k other there listed => ?_,
    List.forall_mem_cons.mpr ⟨?_, kept.full⟩⟩
  · rcases get_insertEdge there with ⟨-, rfl⟩ | ⟨elsewhere, before⟩
    · exact structural
    · refine sound.stored k other before ((List.mem_cons.mp listed).resolve_left fun same => ?_)
      obtain ⟨edgeType, ends⟩ := Prod.mk.inj same
      obtain ⟨fromId, toId⟩ := Prod.mk.inj ends
      exact elsewhere (by rw [sound.keyed k other before, edgeType, fromId, toId])
  · exact AdjacencyIndex.full_insert_self _ _ _ (adjEntry edge) structural one

/-! ### The background tasks -/

theorem sound_sweepEdgeType (env : Env) (now : Nat) (sound : Sound s written) (et : EdgeType) :
    Sound (sweepEdgeType env now s et) written := by
  unfold sweepEdgeType
  split
  · exact sound
  · rename_i threshold _
    have inferred : ∀ edge ∈ (s.store.scanEdges et.name).filter (decayed env now et threshold),
        (et.name, edge.fromId, edge.toId) ∉ written := by
      intro edge there listed
      obtain ⟨scanned, gone⟩ := List.mem_filter.mp there
      obtain ⟨⟨k, edge'⟩, found, rfl⟩ := List.mem_map.mp scanned
      obtain ⟨found, own⟩ := List.mem_filter.mp found
      have found := (FinMap.mem_toList _ _ _).mp found
      have own : k.1 = et.name := of_decide_eq_true own
      rw [← own, sound.keyed k edge' found] at listed
      have structural := sound.stored k edge' found listed
      unfold decayed at gone
      rw [structural] at gone
      cases gone
    generalize (s.store.scanEdges et.name).filter (decayed env now et threshold) = edges at inferred
    induction edges generalizing s with
    | nil => exact sound
    | cons edge rest ih =>
      rw [List.forall_mem_cons] at inferred
      exact ih (sound_removeEdge sound env.ts inferred.1) inferred.2

theorem sound_sweep (env : Env) (sound : Sound s written) :
    Sound (sweepDecayedEdges env s) written := by
  unfold sweepDecayedEdges
  generalize (env.edgeTypeOrder.order s.edgeTypes.toList).map Prod.snd = types
  generalize env.nowMillis s.wal.nextTx = now
  induction types generalizing s with
  | nil => exact sound
  | cons et rest ih => exact ih (sound_sweepEdgeType env now sound et)

theorem sound_inferLoop (env : Env) (et : EdgeType) (id : LogicalId) (existing : List LogicalId)
    (results : List (LogicalId × F32)) (created : Nat) (sound : Sound s written)
    (known : ∀ target, (et.name, id, target) ∈ written → target ∈ existing) :
    Sound (inferLoop env et id existing results created s) written := by
  induction results generalizing created s with
  | nil => exact sound
  | cons result rest ih =>
    unfold inferLoop
    split
    · exact sound
    · split
      · exact ih created sound
      · rename_i passed
        have new : (et.name, id, result.1) ∉ written := fun listed =>
          passed (by simp [known _ listed])
        exact ih _ (sound_insertEdge sound (fun listed => absurd listed new)
          (fun listed => absurd listed new) _ _)

theorem sound_inferEdgeType (env : Env) (collection : String) (id : LogicalId)
    (sound : Sound s written) (et : EdgeType) :
    Sound (inferEdgeType env collection id s et) written := by
  unfold inferEdgeType
  split
  · exact sound
  · split
    · exact sound
    · split
      · exact sound
      · refine sound_inferLoop env et id _ _ 0 sound fun target listed => ?_
        obtain ⟨entry, there, rfl, -⟩ := sound.full _ listed
        exact List.mem_map.mpr ⟨entry, there, rfl⟩

theorem sound_drainEntity (env : Env) (sound : Sound s written) (id : LogicalId) :
    Sound (drainEntity env s id) written := by
  unfold drainEntity
  dsimp only
  have dequeued : Sound { s with inferenceQueue := s.inferenceQueue.erase id } written :=
    ⟨sound.linked, sound.distinct, sound.keyed, sound.stored, sound.full⟩
  split
  · exact dequeued
  · rename_i collection _
    generalize ((env.edgeTypeOrder.order _).map Prod.snd).filter _ = types
    generalize ({ s with inferenceQueue := s.inferenceQueue.erase id } : State) = t at dequeued
    induction types generalizing t with
    | nil => exact dequeued
    | cons et rest ih => exact ih _ (sound_inferEdgeType env collection id dequeued et)

theorem sound_drain (env : Env) (sound : Sound s written) :
    Sound (drainInferenceQueue env s) written := by
  unfold drainInferenceQueue
  generalize env.queueOrder.order (s.inferenceQueue.toList.map Prod.fst) = ids
  induction ids generalizing s with
  | nil => exact sound
  | cons id rest ih => exact ih (sound_drainEntity env sound id)

/-! ### The statements -/

theorem insertEdge_ends (env : Env) (s : State) (p : InsertEdgePlan) :
    (∃ error, insertEdge env s p = (.error error, s)) ∨
      ∃ result et edge, s.store.edgeTypes[p.edgeType]? = some et ∧
        insertEdge env s p = (.ok result, s.writeEdge env.ts .edgeWrite edge) ∧
        (edge.edgeType, edge.fromId, edge.toId) = (p.edgeType, p.fromId, p.toId) ∧
        edge.source = .structural ∧ edge.confidence = .one := by
  unfold insertEdge
  split
  · exact .inl ⟨_, rfl⟩
  · rename_i et known
    have stored : s.store.edgeTypes[p.edgeType]? = some et := by
      unfold Store.getEdgeType at known
      split at known
      · cases known
        assumption
      · cases known
    split
    · exact .inl ⟨_, rfl⟩
    · split
      · exact .inl ⟨_, rfl⟩
      · split
        · exact .inl ⟨_, rfl⟩
        · split
          · exact .inl ⟨_, rfl⟩
          · exact .inr ⟨_, et, _, stored, rfl, rfl, rfl, rfl⟩

/-- CONFIRM either leaves the state or puts an edge that is not structural; it leaves it
when the stored edge is structural. -/
theorem confirmEdge_ends (env : Env) (s : State) (p : ConfirmEdgePlan) :
    ((∀ et, s.store.edgeTypes[p.edgeType]? = some et → ∃ edge,
        s.store.getEdge p.edgeType p.fromId p.toId = some edge ∧ edge.source = .structural) ∧
        (confirmEdge env s p).2 = s) ∨
      (∀ edge, s.store.getEdge p.edgeType p.fromId p.toId = some edge →
        edge.source ≠ .structural) ∧
      ∃ recordType edge t, (edge.edgeType, edge.fromId, edge.toId) = (p.edgeType, p.fromId, p.toId) ∧
        edge.source = .confirmed ∧ (t = s ∨ t = s.forgetEdge p) ∧
        (confirmEdge env s p).2 = t.writeEdge env.ts recordType edge := by
  unfold confirmEdge Store.getEdgeType
  cases known : s.store.edgeTypes[p.edgeType]? with
  | none => exact .inl ⟨fun et there => (nomatch there), rfl⟩
  | some et =>
    dsimp only
    cases stored : s.store.getEdge p.edgeType p.fromId p.toId with
    | none => exact .inr ⟨fun edge there => (nomatch there), _, _, s, rfl, rfl, .inl rfl, rfl⟩
    | some edge =>
      have only : ∀ edge', some edge = some edge' → edge' = edge := fun _ same =>
        (Option.some.inj same).symm
      dsimp only
      cases source : edge.source with
      | structural => exact .inl ⟨fun _ _ => ⟨edge, rfl, source⟩, rfl⟩
      | inferred =>
        refine .inr ⟨fun edge' there structural => ?_, _, _, _, rfl, rfl, .inr rfl, rfl⟩
        rw [only edge' there, source] at structural
        cases structural
      | confirmed =>
        refine .inr ⟨fun edge' there structural => ?_, _, _, _, rfl, rfl, .inr rfl, rfl⟩
        rw [only edge' there, source] at structural
        cases structural

omit [WalPayload Payload] in
theorem sound_forgetEdge (sound : Sound s written) (p : ConfirmEdgePlan)
    (other : (p.edgeType, p.fromId, p.toId) ∉ written) : Sound (s.forgetEdge p) written where
  linked := AdjacencyIndex.linked_remove sound.linked _ _ _
  distinct := AdjacencyIndex.distinct_remove sound.distinct _ _ _
  keyed := sound.keyed
  stored := sound.stored
  full := fun e listed =>
    AdjacencyIndex.full_remove (sound.full e listed) fun same => other (same ▸ listed)

omit [WalPayload Payload] in
theorem sound_removeAll {a : AdjacencyIndex} (edges : List EdgeId) (linked : a.Linked)
    (distinct : a.Distinct) : (a.removeAll edges).Linked ∧ (a.removeAll edges).Distinct ∧
      ∀ e, a.Full e → e ∉ edges → (a.removeAll edges).Full e := by
  induction edges generalizing a with
  | nil => exact ⟨linked, distinct, fun e full _ => full⟩
  | cons removed rest ih =>
    obtain ⟨linked', distinct', kept⟩ := ih
      (AdjacencyIndex.linked_remove linked removed.2.1 removed.1 removed.2.2)
      (AdjacencyIndex.distinct_remove distinct removed.2.1 removed.1 removed.2.2)
    refine ⟨linked', distinct', fun e full other => ?_⟩
    rw [List.mem_cons, not_or] at other
    exact kept e (AdjacencyIndex.full_remove full fun same => other.1 same.symm) other.2

theorem sound_deleteEntity (env : Env) (sound : Sound s written) (p : DeleteEntityPlan) :
    Sound (deleteEntity env s p).2 (writtenAfter s (env, .deleteEntity p) written) := by
  cases found : s.store.get p.collection p.entityId with
  | error error =>
    have same : deleteEntity env s p = (.error error, s) := by
      unfold deleteEntity
      rw [found]
    rw [same, writtenAfter]
    simp only [found]
    exact sound
  | ok old =>
    obtain ⟨r, s', done, -, adjacency, -⟩ := deleteEntity_found env found
    obtain ⟨-, data⟩ := logs_deleteEntity (p := p) done
    have done : deleteEntity env s p = (.ok r, s') := done
    rw [done, writtenAfter]
    simp only [found]
    have before (k : String × String) (edge : Edge) (there : s'.store.edges[k]? = some edge) :
        s.store.edges[k]? = some edge := by
      have edges : s'.store.edges = (cascade (s.adjacency.edgesInvolving p.entityId)
          ((dataOf s.store).eraseEntity p.collection p.entityId)).edges := congrArg Data.edges data
      rw [edges, get_cascade] at there
      split at there
      · cases there
      · unfold Data.eraseEntity at there
        split at there <;> exact there
    obtain ⟨linked, distinct, kept⟩ := sound_removeAll (s.adjacency.edgesInvolving p.entityId)
      sound.linked sound.distinct
    refine ⟨adjacency ▸ linked, adjacency ▸ distinct, fun k edge there =>
      sound.keyed k edge (before k edge there), fun k edge there listed =>
      sound.stored k edge (before k edge there) (List.mem_filter.mp listed).1, fun e listed => ?_⟩
    obtain ⟨listed, apart⟩ := List.mem_filter.mp listed
    rw [Bool.and_eq_true, decide_eq_true_eq, decide_eq_true_eq] at apart
    rw [adjacency]
    refine kept e (sound.full e listed) fun involved => ?_
    rcases (s.adjacency.mem_edgesInvolving p.entityId e).mp involved with ⟨source, -⟩ | ⟨target, -⟩
    · exact apart.1 source
    · exact apart.2 target

theorem sound_dropEdgeType (env : Env) (sound : Sound s written) (name : String) :
    Sound (dropEdgeType env s name).2 (writtenAfter s (env, .dropEdgeType name) written) := by
  unfold dropEdgeType writtenAfter
  dsimp only
  split
  · have before (k : String × String) (edge : Edge)
        (there : (s.store.dropEdgeType name).edges[k]? = some edge) :
        s.store.edges[k]? = some edge := by
      have filtered : (s.store.edges.filter fun k _ => k.1 ≠ name)[k]? = some edge := there
      rw [FinMap.get_filter, Option.filter_eq_some_iff] at filtered
      exact filtered.1
    refine ⟨AdjacencyIndex.linked_removeEdgeType sound.linked name,
      AdjacencyIndex.distinct_removeEdgeType sound.distinct name,
      fun k edge there => sound.keyed k edge (before k edge there),
      fun k edge there listed => sound.stored k edge (before k edge there)
        (List.mem_filter.mp listed).1, fun e listed => ?_⟩
    obtain ⟨listed, other⟩ := List.mem_filter.mp listed
    exact AdjacencyIndex.full_removeEdgeType (sound.full e listed) (of_decide_eq_true other)
  · exact sound

/-- CONFIRM does not meet an edge that has been written but is not stored as structural. -/
def Confirms (s : State) (written : List EdgeId) : Write → Prop
  | .confirmEdge p => (p.edgeType, p.fromId, p.toId) ∈ written →
      ∃ edge, s.store.getEdge p.edgeType p.fromId p.toId = some edge ∧ edge.source = .structural
  | _ => True

theorem sound_step (sound : Sound s written) {a : Step} (guarded : Confirms s written a.2) :
    Sound (s.step a) (writtenAfter s a written) := by
  obtain ⟨env, w⟩ := a
  cases w with
  | createCollection p => exact (sameEdges_createCollection env s p).sound sound
  | dropCollection name => exact (sameEdges_dropCollection env s name).sound sound
  | createEdgeType p => exact (sameEdges_createEdgeType env s p).sound sound
  | dropEdgeType name => exact sound_dropEdgeType env sound name
  | alterCollection p => exact (sameEdges_alterCollection env s p).sound sound
  | insert p => exact (sameEdges_insert env s p).sound sound
  | updateEntity p => exact (sameEdges_updateEntity env s p).sound sound
  | deleteEntity p => exact sound_deleteEntity env sound p
  | importCollection p => exact (sameEdges_importCollection env s p).sound sound
  | insertEdge p =>
    unfold State.step perform writtenAfter
    rcases insertEdge_ends env s p with ⟨error, failed⟩ | ⟨result, et, edge, -, done, same, structural, one⟩
    · simp only [failed]
      exact sound
    · simp only [done, ← same]
      exact sound_written sound structural one _ _
  | deleteEdge p =>
    refine sound_removeEdge (sound.mono fun e listed => (List.mem_filter.mp listed).1) env.ts ?_
    simp
  | confirmEdge p =>
    unfold State.step perform
    rcases confirmEdge_ends env s p with ⟨-, same⟩ |
      ⟨other, recordType, edge, t, ends, -, from_, after⟩
    · dsimp only
      rw [same]
      exact sound
    · dsimp only
      have new : (p.edgeType, p.fromId, p.toId) ∉ written := fun listed => by
        obtain ⟨edge', there, structural⟩ := guarded listed
        exact other edge' there structural
      have before : Sound t written := by
        rcases from_ with rfl | rfl
        · exact sound
        · exact sound_forgetEdge sound p new
      rw [after]
      exact sound_insertEdge before (fun listed => absurd (ends ▸ listed) new)
        (fun listed => absurd (ends ▸ listed) new) _ _
  | sweepDecayedEdges => exact sound_sweep env sound
  | drainInferenceQueue => exact sound_drain env sound

theorem unconfirmed (sound : Sound s written) {a : Step} (met : ¬ Confirms s written a.2)
    (typed : ∀ e ∈ written, ∃ et, s.store.edgeTypes[e.1]? = some et) :
    ¬ ∀ e ∈ writtenAfter s a written, (s.step a).adjacency.Full e := by
  obtain ⟨env, w⟩ := a
  cases w with
  | confirmEdge p =>
    unfold Confirms at met
    obtain ⟨listed, missing⟩ := Classical.not_imp.mp met
    intro full
    have still := full (p.edgeType, p.fromId, p.toId) listed
    unfold State.step perform at still
    rcases confirmEdge_ends env s p with ⟨structural, -⟩ |
      ⟨-, recordType, edge, t, ends, confirmed, from_, after⟩
    · obtain ⟨et, known⟩ := typed _ listed
      exact missing (structural et known)
    · dsimp only at still
      rw [after, ← ends] at still
      have distinct : t.adjacency.Distinct := by
        rcases from_ with rfl | rfl
        · exact sound.distinct
        · exact AdjacencyIndex.distinct_remove sound.distinct _ _ _
      have other : (adjEntry edge).source ≠ .structural := by
        rw [adjEntry, confirmed]
        simp
      exact AdjacencyIndex.not_full_insert distinct other still
  | _ => exact absurd trivial met

/-! ### The readers -/

omit [WalPayload Payload] in
/-- The readers take the edge at confidence 1.0: TRAVERSE follows it; TRAVERSE MATCH follows it
from both ends, at thresholds up to 1.0, where its temporal clause admits it; a probabilistic
JOIN has it among its candidates at thresholds up to 1.0. -/
structure ReadInFull (s : State) (env : ReadEnv) (e : EdgeId) (et : EdgeType) : Prop where
  traverse : (e.2.2, F32.one, et.toCollection) ∈ s.traverseNeighbors env et e.1 e.2.1
  matchForward : ∀ p : TraverseMatchPlan, s.covers p et → p.pattern.edge.direction ≠ .backward →
    F64.one.ge (p.confidenceThreshold.getD .zero) = true →
    (∀ entry ∈ s.adjacency.get e.2.1 e.1, entry.toId = e.2.2 → entry.visible p.temporal = true) →
    (e.2.2, F32.one, et.toCollection) ∈ s.matchNeighbors env p e.2.1
  matchBackward : ∀ p : TraverseMatchPlan, s.covers p et → p.pattern.edge.direction ≠ .forward →
    F64.one.ge (p.confidenceThreshold.getD .zero) = true →
    (∀ entry ∈ s.adjacency.get e.2.1 e.1, entry.toId = e.2.2 → entry.visible p.temporal = true) →
    (e.2.1, F32.one, et.fromCollection) ∈ s.matchNeighbors env p e.2.2
  join : ∀ (threshold : F64) (target : Entity), F64.one.ge threshold = true →
    s.store.get et.toCollection e.2.2 = .ok target →
    (target, F32.one) ∈
      s.joinCandidates env threshold.toF32 et.fromCollection et.toCollection e.2.1

/-- Nothing of the confidence of the entry has decayed when it is read from either end, and
1.0 is not below the prune threshold. -/
def KeepsConfidence (env : ReadEnv) (e : EdgeId) (et : EdgeType) (entry : AdjEntry) : Prop :=
  pruned et .one = false ∧
    (0 < entry.createdAt → ∀ node, node = e.2.1 ∨ node = e.2.2 →
      Undecayed env.exp (env.nowMillis node e.1 entry - entry.createdAt) et.decayConfig)

omit [WalPayload Payload] in
theorem confidence_iff (env : ReadEnv) (node : LogicalId) (et : EdgeType) {entry : AdjEntry}
    (one : entry.confidence = .one) : env.confidence node et entry = .one ↔
      (0 < entry.createdAt →
        Undecayed env.exp (env.nowMillis node et.name entry - entry.createdAt) et.decayConfig) := by
  unfold ReadEnv.confidence
  rw [one]
  split
  · rename_i created
    exact (effectiveConfidence_one env.exp _ _).trans ⟨fun kept _ => kept, fun kept => kept created⟩
  · rename_i uncreated
    exact iff_of_true rfl fun created => absurd created uncreated

omit [WalPayload Payload] in
theorem readInFull_iff {env : ReadEnv} {e : EdgeId} {et : EdgeType} (synced : Synced s)
    (sound : Sound s written) (listed : e ∈ written) (known : s.store.edgeTypes[e.1]? = some et) :
    ReadInFull s env e et ↔ ∀ entry ∈ s.adjacency.get e.2.1 e.1, entry.toId = e.2.2 →
      KeepsConfidence env e et entry := by
  obtain ⟨entry, there, target, -, one⟩ := sound.full e listed
  have named : et.name = e.1 := synced.edgeTypeNamed _ _ known
  have only : ∀ entry' ∈ s.adjacency.get e.2.1 e.1, entry'.toId = e.2.2 → entry' = entry :=
    fun entry' there' target' => sound.distinct.unique there' there (target'.trans target.symm)
  have source : e.2.1 ∈ s.adjacency.getBackward e.2.2 et.name :=
    (sound.linked _ _ _).mpr ⟨entry, named ▸ there, target⟩
  have confidence (node : LogicalId) := confidence_iff env node et one
  rw [named] at confidence
  constructor
  · intro read entry' there' target'
    cases only entry' there' target'
    have followed := read.traverse
    simp only [State.traverseNeighbors, List.mem_filterMap] at followed
    obtain ⟨first, there'', kept⟩ := followed
    split at kept
    · cases kept
    · rename_i unpruned
      simp only [Option.some.injEq, Prod.mk.injEq, and_true] at kept
      cases only first there'' kept.1
      refine ⟨by rw [← kept.2]; exact Bool.eq_false_iff.mpr unpruned, fun created node either => ?_⟩
      rcases either with rfl | rfl
      · exact (confidence _).mp kept.2 created
      · have met := read.matchBackward ⟨"", ⟨⟨some e.1, .backward⟩⟩, 0, 0, some .one, none, none⟩
          known (by simp) (show F64.one.ge .one = true by decide) fun _ _ _ => rfl
        simp only [State.matchNeighbors, State.edgeTypesToCheck, Store.getEdgeType, known,
          List.flatMap_cons, List.flatMap_nil, List.append_nil, State.backwardNeighbors,
          List.mem_flatMap, List.mem_map, List.mem_filter, Bool.and_eq_true, decide_eq_true_eq,
          Prod.mk.injEq, and_true] at met
        obtain ⟨source', -, second, ⟨there₂, target₂, -⟩, rfl, kept₂⟩ := met
        cases only second (named ▸ there₂) target₂
        exact (confidence _).mp kept₂ created
  · intro keeps
    obtain ⟨unpruned, undecayed⟩ := keeps entry there target
    have near := (confidence e.2.1).mpr fun created => undecayed created _ (.inl rfl)
    have far := (confidence e.2.2).mpr fun created => undecayed created _ (.inr rfl)
    have admitted (p : TraverseMatchPlan) (node : LogicalId)
        (at_ : env.confidence node et entry = .one) (visible : entry.visible p.temporal = true)
        (most : F64.one.ge (p.confidenceThreshold.getD .zero) = true) :
        p.admits env node et entry = true := by
      unfold TraverseMatchPlan.admits
      rw [visible, at_, Bool.true_and]
      exact ge_toF32 most
    refine ⟨?_, fun p covered direction most visible => ?_,
      fun p covered direction most visible => ?_, fun threshold target' most stored => ?_⟩
    · simp only [State.traverseNeighbors, List.mem_filterMap]
      refine ⟨entry, there, ?_⟩
      rw [near, unpruned, if_neg Bool.false_ne_true, target]
    · have forward : (e.2.2, F32.one, et.toCollection) ∈ s.forwardNeighbors env p e.2.1 et :=
        List.mem_map.mpr ⟨entry, List.mem_filter.mpr
          ⟨named ▸ there, admitted p _ near (visible entry there target) most⟩, by rw [target, near]⟩
      refine List.mem_flatMap.mpr ⟨et, mem_edgeTypesToCheck.mpr covered, ?_⟩
      cases pattern : p.pattern.edge.direction with
      | forward => exact forward
      | backward => exact absurd pattern direction
      | undirected => exact List.mem_append_left _ forward
    · have backward : (e.2.1, F32.one, et.fromCollection) ∈ s.backwardNeighbors env p e.2.2 et := by
        refine List.mem_flatMap.mpr ⟨e.2.1, source, List.mem_map.mpr ⟨entry, List.mem_filter.mpr
          ⟨named ▸ there, ?_⟩, by rw [far]⟩⟩
        rw [Bool.and_eq_true, decide_eq_true_eq]
        exact ⟨target, admitted p _ far (visible entry there target) most⟩
      refine List.mem_flatMap.mpr ⟨et, mem_edgeTypesToCheck.mpr covered, ?_⟩
      cases pattern : p.pattern.edge.direction with
      | forward => exact absurd pattern direction
      | backward => exact backward
      | undirected => exact List.mem_append_right _ backward
    · have type : et ∈ (env.edgeTypeOrder.order s.edgeTypes.toList).map Prod.snd := by
        rw [((env.edgeTypeOrder.perm _).map _).mem_iff, synced.edgeTypes]
        exact List.mem_map.mpr ⟨(e.1, et), (FinMap.mem_toList _ _ _).mpr known, rfl⟩
      refine List.mem_flatMap.mpr ⟨et, List.mem_filter.mpr ⟨type, by simp⟩,
        List.mem_filterMap.mpr ⟨entry, List.mem_filter.mpr ⟨named ▸ there, ?_⟩, ?_⟩⟩
      · rw [one]
        exact ge_toF32 most
      · rw [target, stored, one]
        rfl

/-! ### Runs -/

/-- What a write leaves of the edges written so far is structural with confidence 1.0; a
reading takes each of them at confidence 1.0. -/
def Watched.Trusts (x : Watched) : Access → Prop
  | .write a => ∀ e ∈ (x.step (.write a)).written, (x.step (.write a)).state.adjacency.Full e
  | .read env => ∀ e ∈ x.written, ∃ et, x.state.store.edgeTypes[e.1]? = some et ∧
      ReadInFull x.state env e et

/-- No written edge that is stored otherwise is confirmed; none has decayed, or is below its
prune threshold at 1.0, when it is read. -/
def Watched.Steady (x : Watched) : Access → Prop
  | .write a => Confirms x.state x.written a.2
  | .read env => ∀ e ∈ x.written, ∀ et, x.state.store.edgeTypes[e.1]? = some et →
      ∀ entry ∈ x.state.adjacency.get e.2.1 e.1, entry.toId = e.2.2 → KeepsConfidence env e et entry

structure Watchful (x : Watched) : Prop where
  synced : Synced x.state
  sound : Sound x.state x.written
  typed : ∀ e ∈ x.written, ∃ et, x.state.store.edgeTypes[e.1]? = some et

theorem watchful_start (config : WalConfig) : Watchful (.start config) := by
  refine ⟨synced_init config, ⟨AdjacencyIndex.linked_new, AdjacencyIndex.distinct_new,
    fun k edge there => ?_, fun k edge there => ?_, fun e listed => nomatch listed⟩,
    fun e listed => nomatch listed⟩
  · simp [Watched.start, State.init, Store.empty] at there
  · simp [Watched.start, State.init, Store.empty] at there

omit [WalPayload Payload] in
theorem createdType_kept {store store' : Store} {et : EdgeType}
    (created : store.createEdgeType et = .ok store') {name : String} {et' : EdgeType}
    (known : store.edgeTypes[name]? = some et') : store'.edgeTypes[name]? = some et' := by
  unfold Store.createEdgeType Store.hasEdgeType at created
  split at created
  · cases created
  · rename_i new
    cases created
    dsimp only
    rw [FinMap.get_insert]
    split
    · rename_i same
      rw [same, Std.ExtTreeMap.contains_eq_isSome_getElem?, known] at new
      exact absurd rfl new
    · exact known

/-- Only DROP EDGE takes an edge type away. -/
theorem typed_perform (env : Env) (s : State) (w : Write) {name : String} {et : EdgeType}
    (known : s.store.edgeTypes[name]? = some et)
    (kept : w = .dropEdgeType name → s.edgeTypes.contains name = false) :
    (perform env s w).2.store.edgeTypes[name]? = some et := by
  cases w with
  | createCollection p =>
    unfold perform createCollection Store.createCollectionSchema
    dsimp only
    split
    · exact known
    · split
      · exact known
      · rename_i stored
        split at stored
        · cases stored
        · cases stored
          exact known
  | dropCollection other =>
    unfold perform dropCollection Store.dropCollection
    dsimp only
    split
    · split
      · exact known
      · rename_i stored
        split at stored
        · cases stored
          exact known
        · cases stored
    · exact known
  | createEdgeType p =>
    unfold perform createEdgeType
    dsimp only
    split
    · split
      · split
        · exact known
        · rename_i created
          exact createdType_kept created known
      · exact known
    · exact known
  | dropEdgeType other =>
    unfold perform dropEdgeType
    dsimp only
    split
    · rename_i contained
      have different : name ≠ other := fun same => by
        subst same
        rw [kept rfl] at contained
        cases contained
      have erased : (s.store.edgeTypes.erase other)[name]? = some et := by
        rw [FinMap.get_erase, if_neg (Ne.symm different)]
        exact known
      exact erased
    · exact known
  | alterCollection p =>
    unfold perform alterCollection
    dsimp only
    split
    · exact known
    · split
      · exact known
      · split
        · exact known
        · generalize logged : s.logTx env.ts p.collection _ = t
          rename_i schema _ _ entities _ _ _
          have same := sameSchemas_alterMemory t p.collection schema entities p.operation
          have before : t.store.edgeTypes = s.store.edgeTypes := logged ▸ rfl
          split
          · dsimp only
            rw [(metadata_insertAll _ _ _).2, Store.updateCollectionSchema]
            exact (congrArg (·[name]?) (same.storedTypes.trans before)).trans known
          · dsimp only
            rw [(metadata_insertAll _ _ _).2, Store.updateCollectionSchema]
            exact (congrArg (·[name]?) (same.storedTypes.trans before)).trans known
  | insert p => exact (congrArg (·[name]?) (sameSchemas_insert env s p).storedTypes).trans known
  | updateEntity p =>
    exact (congrArg (·[name]?) (sameSchemas_updateEntity env s p).storedTypes).trans known
  | deleteEntity p =>
    exact (congrArg (·[name]?) (sameSchemas_deleteEntity env s p).storedTypes).trans known
  | importCollection p =>
    exact (congrArg (·[name]?) (sameSchemas_importCollection env s p).storedTypes).trans known
  | insertEdge p =>
    exact (congrArg (·[name]?) (sameSchemas_insertEdge env s p).storedTypes).trans known
  | deleteEdge p =>
    exact (congrArg (·[name]?) (sameSchemas_removeEdge _ _ _ _ _).storedTypes).trans known
  | confirmEdge p =>
    exact (congrArg (·[name]?) (sameSchemas_confirmEdge env s p).storedTypes).trans known
  | sweepDecayedEdges =>
    exact (congrArg (·[name]?) (sameSchemas_sweep env s).storedTypes).trans known
  | drainInferenceQueue =>
    exact (congrArg (·[name]?)
      (SameSchemas.foldl _ (sameSchemas_drainEntity env) _ s).storedTypes).trans known

theorem mem_writtenAfter {a : Step} {e : EdgeId} (listed : e ∈ writtenAfter s a written) :
    (e ∈ written ∧ (a.2 = .dropEdgeType e.1 → s.edgeTypes.contains e.1 = false)) ∨
      ∃ et, s.store.edgeTypes[e.1]? = some et ∧ ∃ p, a.2 = .insertEdge p := by
  obtain ⟨env, w⟩ := a
  cases w with
  | insertEdge p =>
    unfold writtenAfter at listed
    rcases insertEdge_ends env s p with ⟨error, failed⟩ | ⟨result, et, edge, known, done, -⟩
    · simp only [failed] at listed
      exact .inl ⟨listed, fun other => nomatch other⟩
    · simp only [done, List.mem_cons] at listed
      rcases listed with rfl | listed
      · exact .inr ⟨et, known, p, rfl⟩
      · exact .inl ⟨listed, fun other => nomatch other⟩
  | dropEdgeType name =>
    unfold writtenAfter at listed
    dsimp only at listed
    split at listed
    · obtain ⟨listed, other⟩ := List.mem_filter.mp listed
      refine .inl ⟨listed, fun same => ?_⟩
      cases same
      simp at other
    · rename_i absent
      refine .inl ⟨listed, fun same => ?_⟩
      cases same
      exact Bool.eq_false_iff.mpr absent
  | deleteEdge p => exact .inl ⟨(List.mem_filter.mp listed).1, fun other => nomatch other⟩
  | deleteEntity p =>
    unfold writtenAfter at listed
    dsimp only at listed
    split at listed
    · exact .inl ⟨(List.mem_filter.mp listed).1, fun other => nomatch other⟩
    · exact .inl ⟨listed, fun other => nomatch other⟩
  | _ => exact .inl ⟨listed, fun other => nomatch other⟩

theorem watchful_step {x : Watched} (watchful : Watchful x) (a : Access) (trusts : x.Trusts a) :
    Watchful (x.step a) := by
  cases a with
  | read env => exact watchful
  | write a =>
    have guarded : Confirms x.state x.written a.2 := by
      by_contra met
      exact unconfirmed watchful.sound met watchful.typed trusts
    refine ⟨synced_perform a.1 x.state a.2 watchful.synced, sound_step watchful.sound guarded,
      fun e listed => ?_⟩
    rcases mem_writtenAfter listed with ⟨before, kept⟩ | ⟨et, known, p, insert⟩
    · obtain ⟨et, known⟩ := watchful.typed e before
      exact ⟨et, typed_perform a.1 x.state a.2 known kept⟩
    · refine ⟨et, typed_perform a.1 x.state a.2 known fun drop => ?_⟩
      rw [insert] at drop
      cases drop

theorem trusts_iff {x : Watched} (watchful : Watchful x) (a : Access) :
    x.Trusts a ↔ x.Steady a := by
  cases a with
  | write a =>
    constructor
    · intro full
      by_contra met
      exact unconfirmed watchful.sound met watchful.typed full
    · exact fun guarded => (sound_step watchful.sound guarded).full
  | read env =>
    refine forall₂_congr fun e listed => ?_
    obtain ⟨et, known⟩ := watchful.typed e listed
    have decides := @readInFull_iff _ _ env _ _ watchful.synced watchful.sound listed known
    constructor
    · rintro ⟨et', known', read⟩ et'' known''
      cases known.symm.trans known'
      cases known.symm.trans known''
      exact decides.mp read
    · exact fun keeps => ⟨et, known, decides.mpr (keeps et known)⟩

/-- In every run of writes and readings at any times, the edges INSERT EDGE has written stay
structural with confidence 1.0, and are read so, until they are deleted, iff CONFIRM meets none
of them stored otherwise and none has decayed when it is read. -/
theorem structural_trusted_iff (config : WalConfig) (as : List Access) :
    (∀ p ∈ Run.taken Watched.step (.start config) as, p.1.Trusts p.2) ↔
      ∀ p ∈ Run.taken Watched.step (.start config) as, p.1.Steady p.2 :=
  Run.each_iff_guarded Watched.step Watchful Watched.Trusts Watched.Steady as
    (watchful_start config) (fun _ a watchful trusts => watchful_step watchful a trusts)
    fun _ a watchful => trusts_iff watchful a

end Watch
/-! ### An edge type with decay -/

def firstSecond : Env := { Env.idle with nowMillis := fun _ => 1000 }

def visits : List Step :=
  ([.createCollection ⟨"people", [], [], [], none⟩,
    .insert ⟨"people", ["id"], [.string "ann"], [], none, none⟩,
    .insert ⟨"people", ["id"], [.string "bob"], [], none, none⟩,
    .createEdgeType ⟨"visited", "people", "people",
      some ⟨some .step, some .one, none, none, none⟩, none⟩,
    .insertEdge ⟨"visited", "ann", "bob", [], none, none⟩] : List Write).map fun w => (firstSecond, w)

def tenthSecond : ReadEnv := ⟨id, fun _ _ _ => 10000, .insertionOrder _⟩

section Examples
attribute [local instance] headerOnly

/-- Nine seconds after it was written, the edge is read with confidence 0. -/
theorem structural_edge_decays :
    ¬ ∀ p ∈ Run.taken Watched.step (.start default)
      (visits.map Access.write ++ [.read tenthSecond]), p.1.Trusts p.2 := by
  intro trusted
  have listed : ("visited", "ann", "bob") ∈
      ((visits.map Access.write).foldl Watched.step (.start default)).written := by decide
  have known : ((visits.map Access.write).foldl Watched.step
      (.start default)).state.store.edgeTypes["visited"]? = some (buildEdgeType ⟨"visited", "people",
        "people", some ⟨some .step, some .one, none, none, none⟩, none⟩) := by decide
  have missed : ("bob", F32.one, "people") ∉ ((visits.map Access.write).foldl Watched.step
      (.start default)).state.matchNeighbors tenthSecond
        ⟨"ann", ⟨⟨none, .forward⟩⟩, 1, 1, some .one, none, none⟩ "ann" := by decide +kernel
  have covered : ∃ name : String, ((visits.map Access.write).foldl Watched.step
      (.start default)).state.edgeTypes[name]? = some (buildEdgeType ⟨"visited", "people",
        "people", some ⟨some .step, some .one, none, none, none⟩, none⟩) :=
    ⟨"visited", by decide⟩
  have taken : ((visits.map Access.write).foldl Watched.step (.start default),
      Access.read tenthSecond) ∈ Run.taken Watched.step (.start default)
        (visits.map Access.write ++ [.read tenthSecond]) := by
    rw [Run.taken_append]
    exact List.mem_append_right _ (List.mem_singleton_self _)
  obtain ⟨et, known', read⟩ := trusted _ taken _ listed
  cases known.symm.trans known'
  exact missed (read.matchForward ⟨"ann", ⟨⟨none, .forward⟩⟩, 1, 1, some .one, none, none⟩ covered
    (by decide) (by decide) fun _ _ _ => rfl)

end Examples
end TronDB.Engine
