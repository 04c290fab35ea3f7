import TronDB.Engine.Insert
import TronDB.Lib.Slots

/-! What a dense index says of one entity. -/
namespace TronDB.Engine
open TronDB.Core Binary

namespace HnswIndex

/-- The points are numbered in order, and every number has its id. -/
structure WellFormed (h : HnswIndex) : Prop where
  numbered : h.inner.map Prod.snd = List.range h.nextIdx
  ids : ∀ (id : LogicalId) (idx : Nat), h.idToIdx[id]? = some idx ↔ h.idxToId[idx]? = some id
  below : ∀ (id : LogicalId) (idx : Nat), h.idToIdx[id]? = some idx → idx < h.nextIdx
  tombstones : ∀ id : LogicalId, h.tombstones.contains id = true → h.idToIdx.contains id = true

/-- A search that visits every point scores the id by the vector. -/
def Scores (h : HnswIndex) (id : LogicalId) (v : List F32) : Prop :=
  ∃ idx, (v, idx) ∈ h.inner ∧ h.idxToId[idx]? = some id ∧ h.tombstones.contains id = false

def slot (h : HnswIndex) (id : LogicalId) : Slot (List F32) :=
  match h.idToIdx[id]? with
  | none => .unseen
  | some idx =>
    if h.tombstones.contains id then .buried
    else match h.inner[idx]? with
      | some point => .live point.1
      | none => .buried

variable {h : HnswIndex}

theorem contains_iff_slot (h : HnswIndex) (id : LogicalId) :
    h.idToIdx.contains id = true ↔ h.slot id ≠ .unseen := by
  rw [Std.ExtTreeMap.contains_eq_isSome_getElem?]
  unfold slot
  cases h.idToIdx[id]? with
  | none => simp
  | some idx =>
    simp only [Option.isSome_some, true_iff]
    repeat' split
    all_goals simp

theorem WellFormed.place (wf : h.WellFormed) (v : List F32) (idx : Nat) :
    (v, idx) ∈ h.inner ↔ h.inner[idx]? = some (v, idx) := by
  constructor
  · intro there
    obtain ⟨place, at_⟩ := List.mem_iff_getElem?.mp there
    have number : (h.inner.map Prod.snd)[place]? = some idx := by rw [List.getElem?_map, at_]; rfl
    rw [wf.numbered] at number
    obtain ⟨inside, same⟩ := List.getElem?_eq_some_iff.mp number
    rw [List.getElem_range] at same
    rw [← same] at at_ ⊢
    exact at_
  · exact List.mem_of_getElem?

theorem WellFormed.length (wf : h.WellFormed) : h.inner.length = h.nextIdx := by
  have same := congrArg List.length wf.numbered
  rwa [List.length_map, List.length_range] at same

/-- The search finds what the slots say. -/
theorem scores_iff (wf : h.WellFormed) (id : LogicalId) (v : List F32) :
    h.Scores id v ↔ h.slot id = .live v := by
  unfold Scores slot
  constructor
  · rintro ⟨idx, there, owner, kept⟩
    rw [(wf.ids id idx).mpr owner]
    simp only [kept, Bool.false_eq_true, if_false, (wf.place v idx).mp there]
  · intro live
    split at live
    · cases live
    · rename_i idx found
      split at live
      · cases live
      · rename_i kept
        split at live
        · rename_i point at_
          cases live
          have number : (h.inner.map Prod.snd)[idx]? = some point.2 := by
            rw [List.getElem?_map, at_]
            rfl
          rw [wf.numbered] at number
          obtain ⟨inside, same⟩ := List.getElem?_eq_some_iff.mp number
          rw [List.getElem_range] at same
          refine ⟨idx, ?_, (wf.ids id idx).mp found, Bool.eq_false_iff.mpr kept⟩
          have whole : (point.1, idx) = point := Prod.ext rfl same
          rw [whole]
          exact List.mem_of_getElem? at_
        · cases live

theorem scores_stored_iff (wf : h.WellFormed) (stored : LogicalId → Option (List F32)) :
    (∀ id v, h.Scores id v ↔ stored id = some v) ↔ ∀ id, (h.slot id).current = stored id := by
  refine forall_congr' fun id => ?_
  constructor
  · intro each
    refine Option.ext fun v => ?_
    rw [Slot.current_eq_some, ← scores_iff wf]
    exact each v
  · intro same v
    rw [scores_iff wf, ← Slot.current_eq_some, same]

/-! ### The operations -/

theorem wellFormed_new (dimensions : Nat) : (new dimensions).WellFormed where
  numbered := rfl
  ids := by simp [new]
  below := by simp [new]
  tombstones := by simp [new]

@[simp] theorem slot_new (dimensions : Nat) (id : LogicalId) :
    (new dimensions).slot id = .unseen := by
  simp [slot, new]

theorem insert_known {id : LogicalId} (known : h.idToIdx.contains id = true) (v : List F32) :
    h.insert id v = h := if_pos known

theorem insert_insert (h : HnswIndex) (id : LogicalId) (v w : List F32) :
    (h.insert id v).insert id w = h.insert id v := by
  refine insert_known ?_ w
  by_cases known : h.idToIdx.contains id = true
  · rw [insert_known known]
    exact known
  · rw [insert, if_neg known]
    simp

theorem wellFormed_insert (wf : h.WellFormed) (id : LogicalId) (v : List F32) :
    (h.insert id v).WellFormed := by
  unfold insert
  split
  · exact wf
  · rename_i unknown
    have absent : h.idToIdx[id]? = none := by
      rw [Std.ExtTreeMap.contains_eq_isSome_getElem?] at unknown
      exact Option.not_isSome_iff_eq_none.mp unknown
    have unused : h.idxToId[h.nextIdx]? = none := by
      cases owner : h.idxToId[h.nextIdx]? with
      | none => rfl
      | some other => exact absurd (wf.below other _ ((wf.ids other _).mpr owner)) (Nat.lt_irrefl _)
    refine ⟨?_, fun id' idx => ?_, fun id' idx found => ?_, fun id' buried => ?_⟩
    · rw [List.map_append, wf.numbered, List.range_succ]
      rfl
    · rw [FinMap.get_insert, FinMap.get_insert]
      by_cases own : id = id'
      · subst own
        rw [if_pos rfl]
        by_cases this : h.nextIdx = idx
        · rw [if_pos this]
          simp [this]
        · rw [if_neg this, ← wf.ids, absent]
          simp [this]
      · rw [if_neg own]
        by_cases this : h.nextIdx = idx
        · subst this
          rw [if_pos rfl, wf.ids, unused]
          simp [own]
        · rw [if_neg this]
          exact wf.ids id' idx
    · rw [FinMap.get_insert] at found
      split at found
      · cases found
        exact Nat.lt_succ_self _
      · exact Nat.lt_succ_of_lt (wf.below id' idx found)
    · have known := wf.tombstones id' buried
      rw [Std.ExtTreeMap.contains_insert, known, Bool.or_true]

theorem slot_insert (wf : h.WellFormed) (id : LogicalId) (v : List F32) (id' : LogicalId) :
    (h.insert id v).slot id' = if id = id' then (h.slot id').give v else h.slot id' := by
  by_cases known : h.idToIdx.contains id = true
  · rw [insert_known known]
    split
    · rename_i own
      subst own
      have seen := (contains_iff_slot h id).mp known
      cases slot : h.slot id with
      | unseen => exact absurd slot seen
      | live w => rfl
      | buried => rfl
    · rfl
  · have unburied : h.tombstones.contains id = false :=
      Bool.eq_false_iff.mpr fun buried => known (wf.tombstones id buried)
    rw [insert, if_neg known]
    split
    · rename_i own
      subst own
      have unseen : h.slot id = .unseen := by
        by_contra seen
        exact known ((contains_iff_slot h id).mpr seen)
      rw [unseen]
      have last : (h.inner ++ [(v, h.nextIdx)])[h.nextIdx]? = some (v, h.nextIdx) := by
        rw [List.getElem?_append_right (Nat.le_of_eq wf.length), wf.length, Nat.sub_self]
        rfl
      simp only [slot, FinMap.get_insert, if_true, unburied, Bool.false_eq_true, if_false, last]
      rfl
    · rename_i other
      unfold slot
      simp only [FinMap.get_insert, if_neg other]
      cases found : h.idToIdx[id']? with
      | none => rfl
      | some idx =>
        have inside := wf.below id' idx found
        rw [← wf.length] at inside
        dsimp only
        rw [List.getElem?_append_left inside]

theorem wellFormed_remove (wf : h.WellFormed) (id : LogicalId) : (h.remove id).WellFormed := by
  unfold remove
  split
  · rename_i known
    refine ⟨wf.numbered, wf.ids, wf.below, fun id' buried => ?_⟩
    rw [Std.ExtTreeMap.contains_insert, Bool.or_eq_true] at buried
    rcases buried with own | before
    · rw [beq_iff_eq, Std.compare_eq_iff_eq] at own
      exact own ▸ known
    · exact wf.tombstones id' before
  · exact wf

theorem slot_remove (h : HnswIndex) (id id' : LogicalId) :
    (h.remove id).slot id' = if id = id' then (h.slot id').bury else h.slot id' := by
  unfold remove
  split
  · rename_i known
    unfold slot
    simp only [Std.ExtTreeMap.contains_insert]
    by_cases own : id = id'
    · subst own
      rw [if_pos rfl]
      cases found : h.idToIdx[id]? with
      | none => rfl
      | some idx =>
        simp only [Std.compare_self, BEq.rfl, Bool.true_or, if_true]
        repeat' split
        all_goals rfl
    · have apart : (compare id id' == .eq) = false := by simp [own]
      simp only [apart, Bool.false_or, if_neg own]
  · rename_i unknown
    split
    · rename_i own
      subst own
      have unseen : h.slot id = .unseen := by
        by_contra seen
        exact unknown ((contains_iff_slot h id).mpr seen)
      rw [unseen]
      rfl
    · rfl

def offer (h : HnswIndex) (id : LogicalId) (offered : Option (List F32)) : HnswIndex :=
  match offered with
  | some v => h.insert id v
  | none => h

theorem wellFormed_offer (wf : h.WellFormed) (id : LogicalId) (offered : Option (List F32)) :
    (h.offer id offered).WellFormed := by
  cases offered with
  | none => exact wf
  | some v => exact wellFormed_insert wf id v

theorem slot_offer (wf : h.WellFormed) (id : LogicalId) (offered : Option (List F32))
    (id' : LogicalId) :
    (h.offer id offered).slot id' = if id = id' then (h.slot id').offer offered else h.slot id' := by
  cases offered with
  | none => simp [offer, Slot.offer]
  | some v => exact slot_insert wf id v id'

end HnswIndex

def IndexesOk (indexes : FinMap (String × String) HnswIndex) : Prop :=
  ∀ (key : String × String) (h : HnswIndex), indexes[key]? = some h → h.WellFormed

/-! ### The vectors of an entity -/

/-- The first dense vector of a name; the index takes no other. -/
def firstDense (reprs : List Representation) (reprName : String) : Option (List F32) :=
  reprs.findSome? fun repr =>
    match repr.vector with
    | .dense v => if repr.name = reprName then some v else none
    | .sparse _ => none

/-- The vector an entity has for a dense representation. -/
def vectorFor (e : Entity) (reprName : String) : Option (List F32) :=
  firstDense e.representations reprName

/-- The vector the store has for a dense representation of an entity. -/
def storedVector (store : Store) (collection : String) (id : LogicalId) (reprName : String) :
    Option (List F32) :=
  store.entities[(collection, id)]?.bind fun e => vectorFor e reprName

/-- The dense vectors of some representations put into their indexes. -/
def insertPicked (pick : String → Bool) (collection : String) (id : LogicalId)
    (indexes : FinMap (String × String) HnswIndex) (reprs : List Representation) :
    FinMap (String × String) HnswIndex :=
  reprs.foldl (fun indexes repr =>
    match repr.vector with
    | .dense v =>
      if pick repr.name then
        FinMap.adjust indexes (collection, repr.name) fun idx => idx.insert id v
      else indexes
    | .sparse _ => indexes) indexes

/-- Each index that is picked is offered the first vector of its name. -/
theorem get_insertPicked (pick : String → Bool) (collection : String) (id : LogicalId)
    (reprs : List Representation) (indexes : FinMap (String × String) HnswIndex)
    (k : String × String) :
    (insertPicked pick collection id indexes reprs)[k]? =
      if k.1 = collection ∧ pick k.2 = true then
        indexes[k]?.map fun h => h.offer id (firstDense reprs k.2)
      else indexes[k]? := by
  induction reprs generalizing indexes with
  | nil =>
    have same : (fun h : HnswIndex => h.offer id (firstDense [] k.2)) = fun h => h := rfl
    rw [same]
    simp [insertPicked]
  | cons repr rest ih =>
    have step : insertPicked pick collection id indexes (repr :: rest) =
        insertPicked pick collection id (insertPicked pick collection id indexes [repr]) rest := rfl
    rw [step, ih]
    unfold insertPicked
    simp only [List.foldl_cons, List.foldl_nil, firstDense, List.findSome?_cons]
    cases repr.vector with
    | sparse sv => rfl
    | dense v =>
      dsimp only
      by_cases picked : pick repr.name = true
      · rw [if_pos picked, FinMap.get_adjust]
        by_cases this : (collection, repr.name) = k
        · subst this
          simp only [picked, and_self, if_true, Option.map_map]
          refine congrArg (Option.map · _) (funext fun h => ?_)
          -- what the index is offered later finds the id known
          simp only [Function.comp, HnswIndex.offer]
          split
          · exact HnswIndex.insert_insert h id v _
          · rfl
        · rw [if_neg this]
          by_cases own : k.1 = collection ∧ pick k.2 = true
          · have other : ¬ repr.name = k.2 := fun same => this (Prod.ext own.1.symm same)
            simp only [if_pos own, if_neg other]
          · rw [if_neg own, if_neg own]
      · rw [if_neg picked]
        by_cases own : k.1 = collection ∧ pick k.2 = true
        · have other : ¬ repr.name = k.2 := fun same => picked (same ▸ own.2)
          simp only [if_pos own, if_neg other]
        · rw [if_neg own, if_neg own]

theorem insertDense_picked (indexes : FinMap (String × String) HnswIndex) (collection : String)
    (e : Entity) : insertDense indexes collection e =
      insertPicked (fun _ => true) collection e.id indexes e.representations := by
  unfold insertDense insertPicked
  rfl

theorem get_insertDense (indexes : FinMap (String × String) HnswIndex) (collection : String)
    (e : Entity) (k : String × String) :
    (insertDense indexes collection e)[k]? =
      if k.1 = collection then indexes[k]?.map fun h => h.offer e.id (vectorFor e k.2)
      else indexes[k]? := by
  rw [insertDense_picked, get_insertPicked]
  simp only [and_true]
  rfl

end TronDB.Engine
