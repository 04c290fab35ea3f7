import TronDB.Engine.Anchored

/-! States in which no edge dangles, and the statements and tasks that keep them so. -/
namespace TronDB.Engine
open TronDB.Core Binary Wal

/-! ### Edges of the adjacency index -/

namespace AdjacencyIndex

def Has (a : AdjacencyIndex) (e : EdgeId) : Prop := ∃ entry ∈ a.get e.2.1 e.1, entry.toId = e.2.2

def edgeIds (a : AdjacencyIndex) : List EdgeId :=
  a.forward.toList.flatMap fun kv => kv.2.map fun entry => (kv.1.2, kv.1.1, entry.toId)

theorem mem_edgeIds (a : AdjacencyIndex) (e : EdgeId) : e ∈ a.edgeIds ↔ a.Has e := by
  obtain ⟨t, source, target⟩ := e
  unfold edgeIds Has get
  simp only [List.mem_flatMap, List.mem_map, Prod.exists, FinMap.mem_toList, Prod.mk.injEq]
  constructor
  · rintro ⟨source', t', entries, found, entry, there, rfl, rfl, rfl⟩
    exact ⟨entry, by rwa [found], rfl⟩
  · rintro ⟨entry, there, rfl⟩
    cases found : a.forward[(source, t)]? with
    | none => simp [found] at there
    | some entries =>
      rw [found] at there
      exact ⟨source, t, entries, found, entry, there, rfl, rfl, rfl⟩

theorem has_insert (a : AdjacencyIndex) (fromId : LogicalId) (edgeType : String) (entry : AdjEntry)
    (e : EdgeId) : (a.insert fromId edgeType entry).Has e ↔
      (edgeType, fromId, entry.toId) = e ∨ a.Has e := by
  obtain ⟨t, source, target⟩ := e
  unfold Has
  dsimp only
  rw [get_insert]
  split
  · rename_i here
    obtain ⟨rfl, rfl⟩ := Prod.mk.inj here
    rw [upsert_targets]
    simp
  · rename_i elsewhere
    have other : ¬ (edgeType, fromId, entry.toId) = (t, source, target) := fun same =>
      elsewhere (Prod.ext (Prod.mk.inj (Prod.mk.inj same).2).1 (Prod.mk.inj same).1)
    simp [other]

theorem has_remove (a : AdjacencyIndex) (fromId toId : LogicalId) (edgeType : String) (e : EdgeId) :
    (a.remove fromId edgeType toId).Has e ↔ (edgeType, fromId, toId) ≠ e ∧ a.Has e := by
  by_cases same : (edgeType, fromId, toId) = e
  · subst same
    unfold Has
    dsimp only
    rw [get_remove, if_pos rfl]
    simp
  · have kept : (a.remove fromId edgeType toId).Has e ↔ a.Has e :=
      exists_congr fun entry => and_congr_left fun target => mem_remove_other target a same
    rw [kept]
    exact (and_iff_right same).symm

theorem has_removeAll (edges : List EdgeId) (a : AdjacencyIndex) (e : EdgeId) :
    (a.removeAll edges).Has e ↔ e ∉ edges ∧ a.Has e := by
  induction edges generalizing a with
  | nil => simp [removeAll]
  | cons removed rest ih =>
    have step : a.removeAll (removed :: rest) =
        (a.remove removed.2.1 removed.1 removed.2.2).removeAll rest := rfl
    rw [step, ih, has_remove, List.mem_cons, not_or]
    constructor
    · rintro ⟨later, other, there⟩
      exact ⟨⟨Ne.symm other, later⟩, there⟩
    · rintro ⟨⟨other, later⟩, there⟩
      exact ⟨later, Ne.symm other, there⟩

theorem has_removeEdgeType (a : AdjacencyIndex) (name : String) (e : EdgeId) :
    (a.removeEdgeType name).Has e ↔ e.1 ≠ name ∧ a.Has e := by
  unfold Has
  rw [(get_removeEdgeType a name e.2.1 e.1).1]
  split
  · rename_i here
    simp [here]
  · rename_i elsewhere
    simp [elsewhere]

theorem has_insertAll (edges : List Edge) (a : AdjacencyIndex) (e : EdgeId) :
    (edges.foldl (fun a edge => a.insert edge.fromId edge.edgeType (adjEntry edge)) a).Has e ↔
      (∃ edge ∈ edges, edgeId edge = e) ∨ a.Has e := by
  induction edges generalizing a with
  | nil => simp
  | cons edge rest ih =>
    have here : (edge.edgeType, edge.fromId, (adjEntry edge).toId) = edgeId edge := rfl
    rw [List.foldl_cons, ih, has_insert, here, List.exists_mem_cons_iff, or_assoc]
    exact or_left_comm

theorem linked_insertAll (edges : List Edge) {a : AdjacencyIndex} (linked : a.Linked) :
    (edges.foldl (fun a edge => a.insert edge.fromId edge.edgeType (adjEntry edge)) a).Linked := by
  induction edges generalizing a with
  | nil => exact linked
  | cons edge rest ih => exact ih (linked_insert linked _ _ _)

theorem linked_removeAll (edges : List EdgeId) {a : AdjacencyIndex} (linked : a.Linked) :
    (a.removeAll edges).Linked := by
  induction edges generalizing a with
  | nil => exact linked
  | cons e rest ih => exact ih (linked_remove linked _ _ _)

theorem involved_iff {a : AdjacencyIndex} (linked : a.Linked) (id : LogicalId) (e : EdgeId) :
    e ∈ a.edgesInvolving id ↔ (e.2.1 = id ∨ e.2.2 = id) ∧ a.Has e := by
  rw [mem_edgesInvolving]
  constructor
  · rintro (⟨source, there⟩ | ⟨target, there⟩)
    · rw [← source] at there
      exact ⟨.inl source, there⟩
    · rw [linked, ← target] at there
      exact ⟨.inr target, there⟩
  · rintro ⟨source | target, there⟩
    · exact .inl ⟨source, source ▸ there⟩
    · refine .inr ⟨target, ?_⟩
      rw [linked, ← target]
      exact there

end AdjacencyIndex

/-! ### States without dangling edges -/

/-- The type of the edge is known, and its ends are stored in the collections of the type. -/
def EndsStored (s : State) (e : EdgeId) : Prop :=
  ∃ et, s.store.edgeTypes[e.1]? = some et ∧
    s.store.entities.contains (et.fromCollection, e.2.1) = true ∧
    s.store.entities.contains (et.toCollection, e.2.2) = true

/-- Neither a stored edge nor an entry of the adjacency index dangles. -/
structure NoDangling (s : State) : Prop where
  stored : ∀ (k : String × String) (edge : Edge), s.store.edges[k]? = some edge →
    k.1 = edge.edgeType ∧ EndsStored s (edgeId edge)
  forward : ∀ (source : LogicalId) (edgeType : String), ∀ entry ∈ s.adjacency.get source edgeType,
    EndsStored s (edgeType, source, entry.toId)
  backward : ∀ (target : LogicalId) (edgeType : String),
    ∀ source ∈ s.adjacency.getBackward target edgeType, EndsStored s (edgeType, source, target)

/-- No dangling edges, and every stored edge is in the adjacency index. -/
structure Rooted (s : State) : Prop where
  linked : s.adjacency.Linked
  stored : (dataOf s.store).Anchored
  indexed : ∀ (k : String × String) (edge : Edge), s.store.edges[k]? = some edge →
    s.adjacency.Has (edgeId edge)
  entries : ∀ e, s.adjacency.Has e → (dataOf s.store).anchors e = true

theorem Rooted.noDangling {s : State} (rooted : Rooted s) : NoDangling s where
  stored := fun k edge there => ⟨congrArg Prod.fst (rooted.stored.keyed k edge there),
    (Data.anchors_iff _).mp (rooted.stored.anchored k edge there)⟩
  forward := fun source edgeType entry there =>
    (Data.anchors_iff _).mp (rooted.entries (edgeType, source, entry.toId) ⟨entry, there, rfl⟩)
  backward := fun target edgeType source there => (Data.anchors_iff _).mp
    (rooted.entries (edgeType, source, target) ((rooted.linked source edgeType target).mp there))

theorem Rooted.same {s s' : State} (rooted : Rooted s) (same : SameEdges s s')
    (kept : ∀ e, s.adjacency.Has e → (dataOf s.store).anchors e = true →
      (dataOf s'.store).anchors e = true) : Rooted s' where
  linked := same.adjacency ▸ rooted.linked
  stored := by
    have edges : (dataOf s'.store).edges = s.store.edges := same.edges
    constructor
    · intro k edge there
      rw [edges] at there
      exact rooted.stored.keyed k edge there
    · intro k edge there
      rw [edges] at there
      exact kept _ (rooted.indexed k edge there) (rooted.stored.anchored k edge there)
  indexed := fun k edge there => same.adjacency ▸ rooted.indexed k edge (same.edges ▸ there)
  entries := fun e there => by
    rw [same.adjacency] at there
    exact kept e there (rooted.entries e there)

theorem Rooted.unchanged {s s' : State} (rooted : Rooted s) (adjacency : s'.adjacency = s.adjacency)
    (store : dataOf s'.store = dataOf s.store) : Rooted s' :=
  rooted.same ⟨adjacency, congrArg Data.edges store⟩ fun _ _ anchored => by rwa [store]

theorem rooted_putEdge {s t : State} (rooted : Rooted s) {edge : Edge}
    (ends : (dataOf s.store).anchors (edgeId edge) = true)
    (linked : t.adjacency.Linked) (store : t.store = s.store.insertEdge edge)
    (has : ∀ e, t.adjacency.Has e ↔ edgeId edge = e ∨ s.adjacency.Has e) : Rooted t := by
  have edges (k : String × String) (other : Edge) (there : t.store.edges[k]? = some other) :
      k = storeKey (edgeId edge) ∧ other = edge ∨
        k ≠ storeKey (edgeId edge) ∧ s.store.edges[k]? = some other := by
    rw [store] at there
    exact get_insertEdge there
  have anchors (e : EdgeId) (anchored : (dataOf s.store).anchors e = true) :
      (dataOf t.store).anchors e = true := by
    rw [store]
    exact anchored
  refine ⟨linked, ⟨fun k other there => ?_, fun k other there => ?_⟩, fun k other there => ?_,
    fun e there => ?_⟩
  · rcases edges k other there with ⟨here, rfl⟩ | ⟨-, before⟩
    · exact here
    · exact rooted.stored.keyed k other before
  · rcases edges k other there with ⟨-, rfl⟩ | ⟨-, before⟩
    · exact anchors _ ends
    · exact anchors _ (rooted.stored.anchored k other before)
  · rcases edges k other there with ⟨-, rfl⟩ | ⟨-, before⟩
    · exact (has _).mpr (.inl rfl)
    · exact (has _).mpr (.inr (rooted.indexed k other before))
  · rcases (has e).mp there with here | before
    · exact here ▸ anchors _ ends
    · exact anchors e (rooted.entries e before)

theorem rooted_finishEdge {s : State} (rooted : Rooted s) {pending : PendingEdge}
    (ends : (dataOf s.store).anchors (edgeId pending.edge) = true) :
    Rooted (finishEdge s pending).2 := by
  have linked : (finishEdge s pending).2.adjacency.Linked := by
    unfold finishEdge
    dsimp only
    split
    · exact AdjacencyIndex.linked_insert (AdjacencyIndex.linked_remove rooted.linked _ _ _) _ _ _
    · exact AdjacencyIndex.linked_insert rooted.linked _ _ _
  refine rooted_putEdge rooted ends linked ?_ fun e => ?_
  · unfold finishEdge
    dsimp only
    split <;> rfl
  · have put (a : AdjacencyIndex) := a.has_insert pending.edge.fromId pending.edge.edgeType
      (adjEntry pending.edge) e
    unfold finishEdge
    dsimp only
    split
    · have removed := s.adjacency.has_remove pending.edge.fromId pending.edge.toId
        pending.edge.edgeType e
      refine (put (s.unindexEdge pending.edge).adjacency).trans ?_
      refine (or_congr_right removed).trans ?_
      have here : (pending.edge.edgeType, pending.edge.fromId, (adjEntry pending.edge).toId) =
          edgeId pending.edge := rfl
      have same : (pending.edge.edgeType, pending.edge.fromId, pending.edge.toId) =
          edgeId pending.edge := rfl
      rw [here, same]
      tauto
    · exact put s.adjacency

theorem rooted_takeEdge {s : State} (rooted : Rooted s) (edgeType : String)
    (fromId toId : LogicalId) : Rooted (s.takeEdge edgeType fromId toId) := by
  have before (k : String × String) (edge : Edge)
      (there : (s.takeEdge edgeType fromId toId).store.edges[k]? = some edge) :
      k ≠ storeKey (edgeType, fromId, toId) ∧ s.store.edges[k]? = some edge := by
    refine ⟨fun same => ?_, get_deleteEdge there⟩
    rw [same, stored_takeEdge] at there
    cases there
  have has := s.adjacency.has_remove fromId toId edgeType
  refine ⟨AdjacencyIndex.linked_remove rooted.linked _ _ _,
    ⟨fun k edge there => rooted.stored.keyed k edge (before k edge there).2,
      fun k edge there => rooted.stored.anchored k edge (before k edge there).2⟩,
    fun k edge there => (has _).mpr ⟨fun same => ?_, rooted.indexed k edge (before k edge there).2⟩,
    fun e there => rooted.entries e ((has e).mp there).2⟩
  obtain ⟨other, there⟩ := before k edge there
  rw [rooted.stored.keyed k edge there] at other
  exact other (congrArg storeKey same.symm)

/-! ### The statements -/

section Statements
variable [WalPayload Payload]

section Unwritten
omit [WalPayload Payload]

theorem rows_insertAll (collection : String) (entities : List Entity) (store : Store)
    {k : String × LogicalId} (there : store.entities.contains k = true) :
    (insertAll store collection entities).2.entities.contains k = true := by
  induction entities generalizing store with
  | nil => exact there
  | cons e rest ih =>
    unfold insertAll Store.insert
    split
    · rename_i stored
      split at stored
      · cases stored
        exact ih _ (FinMap.contains_insert _ _ _ _ there)
      · cases stored
    · exact there

theorem rows_alterMemory (s : State) (collection : String) (schema : CollectionSchema)
    (entities : List Entity) (op : SchemaAlterOp) :
    (s.alterMemory collection schema entities op).store.entities = s.store.entities := by
  unfold State.alterMemory
  repeat' split
  all_goals rfl

theorem rows_updateFieldEntries (store : Store) (fieldIndexes : FieldIndexes) (collection : String)
    (old new : Entity) (indexes : List StoredIndex) {k : String × LogicalId}
    (there : store.entities.contains k = true) :
    (updateFieldEntries store fieldIndexes collection old new indexes).2.entities.contains k = true := by
  have same : (updateFieldEntries store fieldIndexes collection old new indexes).2.entities =
      store.entities := congrArg Data.entities (data_updateFieldEntries fieldIndexes old new indexes store)
  rw [same]
  exact there

theorem rows_importLoop (env : Env) (collection : String) (txId : Nat) (lines : List ImportLine)
    (imported : Nat) (s : State) {k : String × LogicalId}
    (there : s.store.entities.contains k = true) :
    (importLoop env collection txId lines imported s).2.store.entities.contains k = true :=
  importLoop_invariant (P := fun t => t.store.entities.contains k = true) env collection txId
    (fun _ _ there => there) (fun _ _ _ there => FinMap.contains_insert _ _ _ _ there) lines imported
    there

end Unwritten

section Rows
variable {k : String × LogicalId}

theorem rows_alterCollection (env : Env) (s : State) (p : AlterCollectionPlan)
    (there : s.store.entities.contains k = true) :
    (alterCollection env s p).2.store.entities.contains k = true := by
  unfold alterCollection
  dsimp only
  split
  · exact there
  · split
    · exact there
    · split
      · exact there
      · generalize logged : s.logTx env.ts p.collection _ = t
        rename_i schema _ _ entities _ _ _
        have before : t.store.entities = s.store.entities := logged ▸ rfl
        have same := (rows_alterMemory t p.collection schema entities p.operation).trans before
        split <;> exact rows_insertAll _ _ _ (same ▸ there)

theorem rows_insert (env : Env) (s : State) (p : InsertPlan)
    (there : s.store.entities.contains k = true) :
    (insert env s p).2.store.entities.contains k = true := by
  cases insert_ends env s p with
  | refused error rejected result =>
    rw [result]
    exact there
  | unbuilt schema error known checked built result =>
    rw [result]
    exact (removeOldEntries_entities env s p.collection (p.target env)).symm ▸ there
  | unstored schema e known checked built absent result =>
    obtain ⟨error, entries, result⟩ := result
    rw [result]
    exact (removeOldEntries_entities env s p.collection (p.target env)).symm ▸ there
  | stored schema e known checked built present wal left =>
    have entities := left.entities
    rw [removeOldEntries_entities] at entities
    exact entities ▸ FinMap.contains_insert _ _ _ _ there

theorem rows_updateEntity (env : Env) (s : State) (p : UpdateEntityPlan)
    (there : s.store.entities.contains k = true) :
    (updateEntity env s p).2.store.entities.contains k = true := by
  unfold updateEntity Store.insert
  dsimp only
  split
  · exact there
  · split
    · exact there
    · rename_i stored
      split at stored
      · cases stored
        split
        · exact rows_updateFieldEntries _ _ _ _ _ _ (FinMap.contains_insert _ _ _ _ there)
        · rw [(enqueue_rest _ _ _).1]
          exact rows_updateFieldEntries _ _ _ _ _ _ (FinMap.contains_insert _ _ _ _ there)
      · cases stored

end Rows

/-- DELETE and DROP COLLECTION are the statements that take entities away. -/
theorem rows_perform (env : Env) (s : State) (w : Write) {k : String × LogicalId}
    (there : s.store.entities.contains k = true) (delete : ∀ p, w ≠ .deleteEntity p)
    (drop : ∀ name, w ≠ .dropCollection name) (atomic : w.waits = false) :
    (perform env s w).2.store.entities.contains k = true := by
  cases w with
  | createCollection p =>
    unfold perform createCollection Store.createCollectionSchema
    dsimp only
    split
    · exact there
    · split
      · exact there
      · rename_i stored
        split at stored
        · cases stored
        · cases stored
          exact there
  | createEdgeType p =>
    unfold perform createEdgeType Store.createEdgeType
    dsimp only
    split
    · split
      · split
        · exact there
        · rename_i stored
          split at stored
          · cases stored
          · cases stored
            exact there
      · exact there
    · exact there
  | dropEdgeType name =>
    unfold perform dropEdgeType
    dsimp only
    split <;> exact there
  | alterCollection p => exact rows_alterCollection env s p there
  | insert p => exact rows_insert env s p there
  | updateEntity p => exact rows_updateEntity env s p there
  | importCollection p =>
    unfold perform importCollection
    dsimp only
    split
    · exact there
    · split
      · exact there
      · rename_i lines _
        have kept := rows_importLoop env p.collection s.wal.nextTx lines 0
          { s with wal := s.wal.beginTx p.collection env.ts } there
        split
        · rename_i ended
          rw [ended] at kept
          exact kept
        · rename_i ended
          rw [ended] at kept
          exact kept
  | deleteEdge p => exact there
  | deleteEntity p => exact absurd rfl (delete p)
  | dropCollection name => exact absurd rfl (drop name)
  | insertEdge p => cases atomic
  | confirmEdge p => cases atomic
  | sweepDecayedEdges => cases atomic
  | drainInferenceQueue => cases atomic

theorem rooted_deleteEntity (env : Env) {s : State} (rooted : Rooted s) (p : DeleteEntityPlan) :
    Rooted (deleteEntity env s p).2 := by
  cases found : s.store.get p.collection p.entityId with
  | error error =>
    rw [deleteEntity_error env found]
    exact rooted
  | ok old =>
    obtain ⟨adjacency, edges⟩ := deleteEntity_edges env found
    obtain ⟨r, s', done, -⟩ := deleteEntity_found env found
    obtain ⟨-, data⟩ := logs_deleteEntity (p := p) done
    have done : deleteEntity env s p = (.ok r, s') := done
    rw [done] at adjacency edges ⊢
    dsimp only at adjacency edges ⊢
    obtain ⟨-, types, rows⟩ := cascade_rest (s.adjacency.edgesInvolving p.entityId)
      ((dataOf s.store).eraseEntity p.collection p.entityId)
    rw [← data] at types rows
    have involved := AdjacencyIndex.involved_iff rooted.linked p.entityId
    -- an edge that stays ends in other entities
    have anchors (e : EdgeId) (stays : e ∉ s.adjacency.edgesInvolving p.entityId)
        (has : s.adjacency.Has e) : (dataOf s'.store).anchors e = true := by
      have apart : e.2.1 ≠ p.entityId ∧ e.2.2 ≠ p.entityId := by
        rw [involved, and_iff_left has, not_or] at stays
        exact stays
      refine Data.anchors_kept (rooted.entries e has) (fun et known => ?_) fun k ends stored => ?_
      · rw [types]
        unfold Data.eraseEntity
        split <;> exact known
      · rw [rows]
        have other : ¬ (p.collection, p.entityId) = k := by
          rintro rfl
          unfold Data.ends at ends
          split at ends
          · cases ends
          · simp only [List.mem_cons, Prod.mk.injEq, List.not_mem_nil, or_false] at ends
            rcases ends with ⟨-, same⟩ | ⟨-, same⟩
            · exact apart.1 same.symm
            · exact apart.2 same.symm
        unfold Data.eraseEntity
        split
        · dsimp only
          rw [Std.ExtTreeMap.contains_eq_isSome_getElem?] at stored ⊢
          rw [FinMap.get_erase, if_neg other]
          exact stored
        · exact stored
    have has := AdjacencyIndex.has_removeAll (s.adjacency.edgesInvolving p.entityId) s.adjacency
    have before (k : String × String) (edge : Edge) (there : s'.store.edges[k]? = some edge) :
        edgeId edge ∉ s.adjacency.edgesInvolving p.entityId ∧ s.store.edges[k]? = some edge := by
      rw [edges] at there
      split at there
      · cases there
      · rename_i stays
        refine ⟨fun listed => stays ⟨_, listed, ?_⟩, there⟩
        exact (rooted.stored.keyed k edge there).symm
    refine ⟨adjacency ▸ AdjacencyIndex.linked_removeAll _ rooted.linked,
      ⟨fun k edge there => rooted.stored.keyed k edge (before k edge there).2, fun k edge there => ?_⟩,
      fun k edge there => ?_, fun e there => ?_⟩
    · obtain ⟨stays, there⟩ := before k edge there
      exact anchors _ stays (rooted.indexed k edge there)
    · obtain ⟨stays, there⟩ := before k edge there
      rw [adjacency, has]
      exact ⟨stays, rooted.indexed k edge there⟩
    · rw [adjacency, has] at there
      exact anchors e there.1 there.2

theorem rooted_dropEdgeType (env : Env) {s : State} (rooted : Rooted s) (name : String) :
    Rooted (dropEdgeType env s name).2 := by
  unfold dropEdgeType
  split
  · have anchored : (dataOf (s.store.dropEdgeType name)).Anchored :=
      Data.anchored_withoutType rooted.stored name
    have has := s.adjacency.has_removeEdgeType name
    have before (k : String × String) (edge : Edge)
        (there : (s.store.dropEdgeType name).edges[k]? = some edge) :
        s.store.edges[k]? = some edge ∧ k.1 ≠ name := by
      have filtered : (s.store.edges.filter fun k _ => k.1 ≠ name)[k]? = some edge := there
      rw [FinMap.get_filter, Option.filter_eq_some_iff] at filtered
      exact ⟨filtered.1, of_decide_eq_true filtered.2⟩
    refine ⟨AdjacencyIndex.linked_removeEdgeType rooted.linked name, anchored, fun k edge there => ?_,
      fun e there => ?_⟩
    · obtain ⟨there, other⟩ := before k edge there
      refine (has _).mpr ⟨fun same => other ?_, rooted.indexed k edge there⟩
      rw [rooted.stored.keyed k edge there]
      exact same
    · obtain ⟨other, there⟩ := (has e).mp there
      refine Data.anchors_kept (rooted.entries e there) (fun et known => ?_) fun _ _ stored => stored
      have erased : (s.store.edgeTypes.erase name)[e.1]? = s.store.edgeTypes[e.1]? := by
        rw [FinMap.get_erase, if_neg (Ne.symm other)]
      exact erased.trans known
  · exact rooted

/-- The edges of a state end in other collections. -/
def State.sparesCollection (s : State) (name : String) : Bool :=
  s.adjacency.edgeIds.all fun e => ((dataOf s.store).ends e).all fun k => k.1 ≠ name

omit [WalPayload Payload] in
theorem sparesCollection_iff (s : State) (name : String) : s.sparesCollection name = true ↔
    ∀ e, s.adjacency.Has e → ∀ k ∈ (dataOf s.store).ends e, k.1 ≠ name := by
  simp only [State.sparesCollection, List.all_eq_true, AdjacencyIndex.mem_edgeIds, decide_eq_true_eq]

theorem rooted_dropCollection (env : Env) {s : State} (rooted : Rooted s) {name : String}
    (spared : s.schemas.contains name = true → s.sparesCollection name = true) :
    Rooted (dropCollection env s name).2 := by
  refine rooted.same (sameEdges_dropCollection env s name) fun e has anchored => ?_
  unfold dropCollection
  split
  · rename_i known
    have spared := (sparesCollection_iff s name).mp (spared known)
    dsimp only
    split
    · exact anchored
    · rename_i store dropped
      unfold Store.dropCollection at dropped
      split at dropped
      · cases dropped
        refine Data.anchors_kept anchored (fun _ known => known) fun k ends stored => ?_
        have kept : (s.store.entities.filter fun k _ => k.1 ≠ name).contains k = true := by
          rw [Std.ExtTreeMap.contains_eq_isSome_getElem?]
          have there : s.store.entities.contains k = true := stored
          rw [Std.ExtTreeMap.contains_eq_isSome_getElem?] at there
          rw [FinMap.get_filterKeys, if_pos (spared e has k ends)]
          exact there
        exact kept
      · cases dropped
  · exact anchored

/-- A turn under which the edges keep their ends: DROP COLLECTION meets no edge of a type from
or to the collection, and an edge is written while both its ends are stored. -/
def Busy.admits (x : Busy) : Turn → Bool
  | .statement _ w =>
    match w.1 with
    | .dropCollection name => !x.state.schemas.contains name || x.state.sparesCollection name
    | _ => true
  | .finishEdge i =>
    match x.writes[i]? with
    | none => true
    | some pending => (dataOf x.state.store).anchors (edgeId pending.edge)
  | .advanceDrain _ i =>
    match x.drains[i]?.bind Drain.waiting with
    | none => true
    | some edge => (dataOf x.state.store).anchors (edgeId edge)
  | _ => true

theorem rooted_statement (env : Env) {x : Busy} (rooted : Rooted x.state) (w : Statement)
    (admitted : x.admits (.statement env w) = true) : Rooted (perform env x.state w.1).2 := by
  obtain ⟨w, atomic⟩ := w
  have grown (same : SameEdges x.state (perform env x.state w).2) (delete : ∀ p, w ≠ .deleteEntity p)
      (drop : ∀ name, w ≠ .dropCollection name) (dropType : ∀ name, w ≠ .dropEdgeType name) :
      Rooted (perform env x.state w).2 := by
    refine rooted.same same fun e _ anchored => Data.anchors_kept anchored (fun et known => ?_)
      fun k _ stored => rows_perform env x.state w stored delete drop atomic
    exact typed_perform env x.state w known fun same => absurd same (dropType _)
  cases w with
  | createCollection p =>
    exact grown (sameEdges_createCollection env x.state p) (fun _ same => (nomatch same))
      (fun _ same => (nomatch same)) fun _ same => (nomatch same)
  | createEdgeType p =>
    exact grown (sameEdges_createEdgeType env x.state p) (fun _ same => (nomatch same))
      (fun _ same => (nomatch same)) fun _ same => (nomatch same)
  | alterCollection p =>
    exact grown (sameEdges_alterCollection env x.state p) (fun _ same => (nomatch same))
      (fun _ same => (nomatch same)) fun _ same => (nomatch same)
  | insert p =>
    exact grown (sameEdges_insert env x.state p) (fun _ same => (nomatch same))
      (fun _ same => (nomatch same)) fun _ same => (nomatch same)
  | updateEntity p =>
    exact grown (sameEdges_updateEntity env x.state p) (fun _ same => (nomatch same))
      (fun _ same => (nomatch same)) fun _ same => (nomatch same)
  | importCollection p =>
    exact grown (sameEdges_importCollection env x.state p) (fun _ same => (nomatch same))
      (fun _ same => (nomatch same)) fun _ same => (nomatch same)
  | deleteEntity p => exact rooted_deleteEntity env rooted p
  | dropCollection name =>
    refine rooted_dropCollection env rooted fun known => ?_
    simp only [Busy.admits, known, Bool.not_true, Bool.false_or] at admitted
    exact admitted
  | dropEdgeType name => exact rooted_dropEdgeType env rooted name
  | deleteEdge p =>
    have logged : Rooted (x.state.logTx env.ts p.edgeType
        [(.edgeDelete, .edgeDelete p.edgeType p.fromId p.toId)]) := rooted.unchanged rfl rfl
    exact rooted_takeEdge logged p.edgeType p.fromId p.toId
  | insertEdge p => cases atomic
  | confirmEdge p => cases atomic
  | sweepDecayedEdges => cases atomic
  | drainInferenceQueue => cases atomic

theorem rooted_turn {x : Busy} (rooted : Rooted x.state) {a : Turn} (admitted : x.admits a = true) :
    Rooted (x.step a).state := by
  cases a with
  | statement env w => exact rooted_statement env rooted w admitted
  | beginInsertEdge env p =>
    simp only [Busy.step, Busy.await]
    rcases beginInsertEdge_ends env x.state p with
      ⟨error, failed⟩ | ⟨pending, et, source, target, begun, -⟩
    · rw [failed]
      exact rooted
    · rw [begun]
      exact rooted.unchanged rfl rfl
  | beginConfirmEdge env p =>
    simp only [Busy.step, Busy.await]
    rcases beginConfirmEdge_ends env x.state p with ⟨error, failed⟩ | ⟨pending, recordType, begun, -⟩
    · rw [failed]
      exact rooted
    · rw [begun]
      exact rooted.unchanged rfl rfl
  | finishEdge i =>
    simp only [Busy.step]
    cases found : x.writes[i]? with
    | none => exact rooted
    | some pending =>
      simp only [Busy.admits, found] at admitted
      exact rooted_finishEdge rooted admitted
  | startDrain env => exact rooted
  | advanceDrain env i =>
    simp only [Busy.step]
    cases found : x.drains[i]? with
    | none => exact rooted
    | some d =>
      dsimp only
      simp only [Busy.admits, found, Option.bind_some] at admitted
      rcases d.advance_ends env x.state with ⟨edge, waits, put, -⟩ | ⟨-, logged | ⟨-, queue, same⟩⟩
      · rw [waits] at admitted
        rw [put]
        exact rooted_putEdge rooted admitted (AdjacencyIndex.linked_insert rooted.linked _ _ _) rfl
          fun e => AdjacencyIndex.has_insert _ _ _ _ e
      · obtain ⟨edge, -, -, logged⟩ := logged
        rw [logged]
        exact rooted.unchanged rfl rfl
      · rw [same]
        exact rooted.unchanged rfl rfl
  | startSweep env => exact rooted
  | advanceSweep env i =>
    simp only [Busy.step]
    cases found : x.sweeps[i]? with
    | none => exact rooted
    | some w =>
      dsimp only
      rcases w.advance_ends env x.state with
        ⟨edgeType, fromId, toId, -, taken⟩ | ⟨-, ⟨edgeType, entries, logged⟩ | same⟩
      · rw [taken]
        exact rooted_takeEdge rooted edgeType fromId toId
      · rw [logged]
        exact rooted.unchanged rfl rfl
      · rw [same]
        exact rooted

/-- INSERT EDGE that nothing comes in between of is admitted. -/
theorem beginInsertEdge_anchors {env : Env} {s s' : State} {p : InsertEdgePlan}
    {pending : PendingEdge} (begun : beginInsertEdge env s p = (.ok pending, s')) :
    (dataOf s'.store).anchors (edgeId pending.edge) = true := by
  rcases beginInsertEdge_ends env s p with
    ⟨error, failed⟩ | ⟨pending', et, source, target, done, own, -, -, known, from_, to_⟩
  · cases failed.symm.trans begun
  · cases done.symm.trans begun
    have own : edgeId pending.edge = (p.edgeType, p.fromId, p.toId) := own
    have stored {collection : String} {id : LogicalId} {e : Entity}
        (found : s.store.get collection id = .ok e) :
        s.store.entities.contains (collection, id) = true := by
      rw [Std.ExtTreeMap.contains_eq_isSome_getElem?, ((s.store.get_eq_ok ..).mp found).2]
      rfl
    rw [own, Data.anchors_iff]
    refine ⟨et, ?_, stored from_, stored to_⟩
    unfold Store.getEdgeType at known
    split at known
    · rename_i there
      cases known
      exact there
    · cases known

end Statements

end TronDB.Engine
