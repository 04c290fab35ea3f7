import TronDB.Engine.Promises

/-! Stored data in which every edge has its ends, and the entries of the log that keep it so. -/
namespace TronDB.Engine
open TronDB.Core Binary Wal

namespace Data

/-- Collection and id of the ends of an edge whose type is known. -/
def ends (d : Data) (e : EdgeId) : List (String × LogicalId) :=
  match d.edgeTypes[e.1]? with
  | none => []
  | some et => [(et.fromCollection, e.2.1), (et.toCollection, e.2.2)]

/-- The type of the edge is known and its ends are stored. -/
def anchors (d : Data) (e : EdgeId) : Bool :=
  d.edgeTypes.contains e.1 && (d.ends e).all fun k => d.entities.contains k

/-- The entry stores an edge only between stored entities, and takes no entity away that an
edge ends in. -/
def admits (d : Data) : Logged → Bool
  | (_, .edgeWrite, .edge edge) | (_, .edgeConfirm, .edge edge)
  | (_, .edgeConfidenceUpdate, .edge edge) | (_, .edgeInferred, .edge edge) =>
    !d.edgeTypes.contains edge.edgeType || d.anchors (edgeId edge)
  | (_, .entityDelete, .entityDelete id collection) =>
    !d.collections.contains collection ||
      d.edges.toList.all fun ke => (d.ends (edgeId ke.2)).all fun k => k ≠ (collection, id)
  | (_, .schemaDropColl, .name name) =>
    !d.collections.contains name ||
      d.edges.toList.all fun ke => (d.ends (edgeId ke.2)).all fun k => k.1 ≠ name
  | _ => true

/-- Every stored edge has its ends. -/
structure Anchored (d : Data) : Prop where
  keyed : ∀ (k : String × String) (edge : Edge), d.edges[k]? = some edge → k = storeKey (edgeId edge)
  anchored : ∀ (k : String × String) (edge : Edge), d.edges[k]? = some edge →
    d.anchors (edgeId edge) = true

variable {d d' : Data}

theorem anchors_iff (e : EdgeId) : d.anchors e = true ↔
    ∃ et, d.edgeTypes[e.1]? = some et ∧ d.entities.contains (et.fromCollection, e.2.1) = true ∧
      d.entities.contains (et.toCollection, e.2.2) = true := by
  unfold anchors ends
  rw [Std.ExtTreeMap.contains_eq_isSome_getElem?]
  cases d.edgeTypes[e.1]? <;> simp

theorem anchors_kept {e : EdgeId} (anchored : d.anchors e = true)
    (types : ∀ et : EdgeType, d.edgeTypes[e.1]? = some et → d'.edgeTypes[e.1]? = some et)
    (entities : ∀ k ∈ d.ends e, d.entities.contains k = true → d'.entities.contains k = true) :
    d'.anchors e = true := by
  obtain ⟨et, known, source, target⟩ := (anchors_iff e).mp anchored
  have ends : d.ends e = [(et.fromCollection, e.2.1), (et.toCollection, e.2.2)] := by
    unfold Data.ends
    rw [known]
  refine (anchors_iff e).mpr ⟨et, types et known, entities _ ?_ source, entities _ ?_ target⟩
  · rw [ends]
    exact List.mem_cons_self ..
  · rw [ends]
    exact List.mem_cons_of_mem _ (List.mem_singleton_self _)

theorem Anchored.extended (anchored : d.Anchored) (edges : d'.edges = d.edges)
    (types : ∀ (name : String) (et : EdgeType), d.edgeTypes[name]? = some et →
      d'.edgeTypes[name]? = some et)
    (entities : ∀ k, d.entities.contains k = true → d'.entities.contains k = true) :
    d'.Anchored where
  keyed := edges ▸ anchored.keyed
  anchored := fun k edge there =>
    anchors_kept (anchored.anchored k edge (edges ▸ there)) (types _) fun k _ => entities k

theorem anchored_putEntity (anchored : d.Anchored) (collection : String) (e : Entity) :
    (d.putEntity collection e).Anchored := by
  unfold putEntity
  split
  · exact anchored.extended rfl (fun _ _ known => known) fun k there => FinMap.contains_insert _ _ k e there
  · exact anchored

theorem anchored_createCollection (anchored : d.Anchored) (schema : CollectionSchema) :
    (d.createCollection schema).Anchored := by
  unfold createCollection
  split
  · exact anchored
  · exact anchored.extended rfl (fun _ _ known => known) fun _ there => there

theorem anchored_alterCollection (anchored : d.Anchored) (collection : String) (op : SchemaAlterOp) :
    (d.alterCollection collection op).Anchored := by
  unfold alterCollection
  split
  · split
    · exact anchored.extended rfl (fun _ _ known => known) fun _ there => there
    · exact anchored
  · exact anchored

theorem anchored_createEdgeType (anchored : d.Anchored) (et : EdgeType) :
    (d.createEdgeType et).Anchored := by
  unfold createEdgeType
  split
  · exact anchored
  · rename_i new
    refine anchored.extended rfl (fun name et' known => ?_) fun _ there => there
    dsimp only
    rw [FinMap.get_insert]
    split
    · rename_i same
      rw [same, Std.ExtTreeMap.contains_eq_isSome_getElem?, known] at new
      exact absurd rfl new
    · exact known

theorem anchored_withoutType (anchored : d.Anchored) (name : String) : Anchored { d with
    edgeTypes := d.edgeTypes.erase name
    edges := d.edges.filter fun k _ => k.1 ≠ name } := by
  have before (k : String × String) (edge : Edge)
      (there : (d.edges.filter fun k _ => k.1 ≠ name)[k]? = some edge) :
      d.edges[k]? = some edge ∧ k.1 ≠ name := by
    rw [FinMap.get_filter, Option.filter_eq_some_iff] at there
    exact ⟨there.1, of_decide_eq_true there.2⟩
  refine ⟨fun k edge there => anchored.keyed k edge (before k edge there).1, fun k edge there => ?_⟩
  obtain ⟨there, other⟩ := before k edge there
  refine anchors_kept (anchored.anchored k edge there) (fun et known => ?_) fun _ _ there => there
  have different : name ≠ (edgeId edge).1 := fun same => other (by
    rw [anchored.keyed k edge there, same]
    rfl)
  dsimp only
  rw [FinMap.get_erase, if_neg different]
  exact known

theorem anchored_dropEdgeType (anchored : d.Anchored) (name : String) :
    (d.dropEdgeType name).Anchored := by
  unfold dropEdgeType
  split
  · exact anchored_withoutType anchored name
  · exact anchored

theorem anchored_putEdge (anchored : d.Anchored) (edge : Edge)
    (ends : d.edgeTypes.contains edge.edgeType = true → d.anchors (edgeId edge) = true) :
    (d.putEdge edge).Anchored := by
  unfold putEdge
  split
  · rename_i known
    have before (k : String × String) (other : Edge) (there : (d.edges.insert
        (storeKey (edgeId edge)) edge)[k]? = some other) :
        k = storeKey (edgeId other) ∧ d.anchors (edgeId other) = true := by
      rw [FinMap.get_insert] at there
      split at there
      · rename_i here
        cases there
        exact ⟨here.symm, ends known⟩
      · exact ⟨anchored.keyed k other there, anchored.anchored k other there⟩
    exact ⟨fun k other there => (before k other there).1, fun k other there => (before k other there).2⟩
  · exact anchored

theorem anchored_eraseEdge (anchored : d.Anchored) (edgeType fromId toId : String) :
    (d.eraseEdge edgeType fromId toId).Anchored := by
  have before (k : String × String) (edge : Edge)
      (there : (d.edges.erase (edgeType, edgeKey fromId toId))[k]? = some edge) :
      d.edges[k]? = some edge := by
    rw [FinMap.get_erase] at there
    split at there
    · cases there
    · exact there
  exact ⟨fun k edge there => anchored.keyed k edge (before k edge there),
    fun k edge there => anchored.anchored k edge (before k edge there)⟩

theorem mem_edges {k : String × String} {edge : Edge} {p : (String × String) × Edge → Bool}
    (all : d.edges.toList.all p = true) (there : d.edges[k]? = some edge) : p (k, edge) = true :=
  List.all_eq_true.mp all _ ((FinMap.mem_toList _ _ _).mpr there)

theorem anchored_eraseEntity (anchored : d.Anchored) (collection : String) (id : LogicalId)
    (spared : d.collections.contains collection = true →
      ∀ (k : String × String) (edge : Edge), d.edges[k]? = some edge → ∀ e ∈ d.ends (edgeId edge), e ≠ (collection, id)) :
    (d.eraseEntity collection id).Anchored := by
  unfold eraseEntity
  split
  · rename_i present
    refine ⟨anchored.keyed, fun k edge there => anchors_kept (anchored.anchored k edge there)
      (fun _ known => known) fun e ends stored => ?_⟩
    dsimp only
    rw [Std.ExtTreeMap.contains_eq_isSome_getElem?] at stored ⊢
    rw [FinMap.get_erase, if_neg fun same => spared present k edge there e ends same.symm]
    exact stored
  · exact anchored

theorem anchored_dropCollection (anchored : d.Anchored) (name : String)
    (spared : d.collections.contains name = true →
      ∀ (k : String × String) (edge : Edge), d.edges[k]? = some edge → ∀ e ∈ d.ends (edgeId edge), e.1 ≠ name) :
    (d.dropCollection name).Anchored := by
  unfold dropCollection
  split
  · rename_i present
    refine ⟨anchored.keyed, fun k edge there => anchors_kept (anchored.anchored k edge there)
      (fun _ known => known) fun e ends stored => ?_⟩
    dsimp only
    rw [Std.ExtTreeMap.contains_eq_isSome_getElem?] at stored ⊢
    rw [FinMap.get_filter]
    obtain ⟨entity, found⟩ := Option.isSome_iff_exists.mp stored
    rw [found]
    simp [Option.filter, spared present k edge there e ends]
  · exact anchored

/-- An admitted entry leaves every edge its ends. -/
theorem anchored_replay (anchored : d.Anchored) {l : Logged} (admitted : d.admits l = true) :
    (d.replay l).Anchored := by
  have edge (e : Edge) (admitted : (!d.edgeTypes.contains e.edgeType || d.anchors (edgeId e)) = true) :
      (d.putEdge e).Anchored := by
    refine anchored_putEdge anchored e fun known => ?_
    rw [known] at admitted
    exact admitted
  unfold replay
  split
  · exact anchored_createCollection anchored _
  · exact anchored_putEntity anchored _ _
  · exact anchored_putEntity anchored _ _
  · refine anchored_eraseEntity anchored _ _ fun present k edge there e ends => ?_
    simp only [admits, present, Bool.not_true, Bool.false_or] at admitted
    exact of_decide_eq_true (List.all_eq_true.mp (mem_edges admitted there) e ends)
  · exact anchored_createEdgeType anchored _
  · exact edge _ admitted
  · exact edge _ admitted
  · exact edge _ admitted
  · exact edge _ admitted
  · exact anchored_eraseEdge anchored _ _ _
  · refine anchored_dropCollection anchored _ fun present k edge there e ends => ?_
    simp only [admits, present, Bool.not_true, Bool.false_or] at admitted
    exact of_decide_eq_true (List.all_eq_true.mp (mem_edges admitted there) e ends)
  · exact anchored_dropEdgeType anchored _
  · exact anchored_alterCollection anchored _ _
  · exact anchored

theorem anchored_foldl (anchored : d.Anchored) (log : List Logged)
    (admitted : ∀ p ∈ Run.taken replay d log, p.1.admits p.2 = true) :
    (log.foldl replay d).Anchored :=
  Run.invariant_under replay (fun d l => d.admits l = true) log anchored admitted
    (fun _ _ anchored admitted => anchored_replay anchored admitted) _ (Run.end_visited ..)

end Data
end TronDB.Engine
