import TronDB.Engine.Write
import TronDB.Lib.Run

/-! The adjacency index under its operations: what each of them leaves, and that both sides
of the index hold the same edges. -/
namespace TronDB.Engine
open TronDB.Core Binary Wal

namespace AdjacencyIndex

theorem upsert_targets (entry : AdjEntry) (entries : List AdjEntry) (target : LogicalId) :
    (∃ e ∈ upsert entry entries, e.toId = target) ↔
      entry.toId = target ∨ ∃ e ∈ entries, e.toId = target := by
  induction entries with
  | nil => simp [upsert]
  | cons e rest ih =>
    unfold upsert
    split
    · rename_i same
      simp only [List.mem_cons, exists_eq_or_imp, same]
      tauto
    · simp only [List.mem_cons, exists_eq_or_imp, ih]
      tauto

theorem map_upsert (entry : AdjEntry) (entries : List AdjEntry) :
    (upsert entry entries).map AdjEntry.toId =
      if entry.toId ∈ entries.map AdjEntry.toId then entries.map AdjEntry.toId
      else entries.map AdjEntry.toId ++ [entry.toId] := by
  induction entries with
  | nil => rfl
  | cons e rest ih =>
    unfold upsert
    by_cases same : e.toId = entry.toId
    · simp [same]
    · rw [if_neg same, List.map_cons, List.map_cons, ih]
      have other : ¬ entry.toId = e.toId := Ne.symm same
      simp only [List.mem_cons, other, false_or]
      split <;> rfl

theorem mem_upsert_other {entry e : AdjEntry} (entries : List AdjEntry)
    (other : e.toId ≠ entry.toId) : e ∈ upsert entry entries ↔ e ∈ entries := by
  induction entries with
  | nil =>
    have notEntry : e ≠ entry := fun h => other (h ▸ rfl)
    simp [upsert, notEntry]
  | cons head rest ih =>
    unfold upsert
    split
    · rename_i same
      have notEntry : e ≠ entry := fun h => other (h ▸ rfl)
      have notHead : e ≠ head := fun h => other (h ▸ same)
      simp [notEntry, notHead]
    · rw [List.mem_cons, List.mem_cons, ih]

theorem mem_upsert_self (entry : AdjEntry) (entries : List AdjEntry) :
    entry ∈ upsert entry entries := by
  induction entries with
  | nil => simp [upsert]
  | cons head rest ih =>
    unfold upsert
    split
    · exact List.mem_cons_self ..
    · exact List.mem_cons_of_mem _ ih

theorem get_insert (a : AdjacencyIndex) (fromId : LogicalId) (edgeType : String) (entry : AdjEntry)
    (x : LogicalId) (t : String) :
    (a.insert fromId edgeType entry).get x t =
      if (fromId, edgeType) = (x, t) then upsert entry (a.get x t) else a.get x t := by
  unfold get insert
  dsimp only
  rw [FinMap.get_insert]
  split
  · rename_i here
    rw [here]
    rfl
  · rfl

theorem getBackward_insert (a : AdjacencyIndex) (fromId : LogicalId) (edgeType : String)
    (entry : AdjEntry) (x : LogicalId) (t : String) (source : LogicalId) :
    source ∈ (a.insert fromId edgeType entry).getBackward x t ↔
      source ∈ a.getBackward x t ∨ (entry.toId, edgeType) = (x, t) ∧ source = fromId := by
  unfold getBackward insert
  dsimp only
  rw [FinMap.get_insert]
  split
  · rename_i here
    rw [here]
    simp only [Option.getD_some, true_and]
    split
    · rename_i known
      exact ⟨.inl, fun either => either.elim id fun same => same ▸ known⟩
    · rw [List.mem_append, List.mem_singleton]
  · rename_i elsewhere
    exact ⟨.inl, fun either => either.elim id fun both => absurd both.1 elsewhere⟩

theorem retain_get {V : Type} (m : FinMap (LogicalId × String) (List V))
    (key k : LogicalId × String) (keep : V → Bool) :
    (retain m key keep)[k]?.getD [] =
      if key = k then (m[k]?.getD []).filter keep else m[k]?.getD [] := by
  unfold retain
  cases found : m[key]? with
  | none =>
    dsimp only
    split
    · rename_i here
      subst here
      simp [found]
    · rfl
  | some entries =>
    dsimp only
    split
    · rename_i nothing
      rw [FinMap.get_erase]
      split
      · rename_i here
        subst here
        rw [found]
        simpa using nothing
      · rfl
    · rw [FinMap.get_insert]
      split
      · rename_i here
        subst here
        rw [found]
        rfl
      · rfl

theorem get_remove (a : AdjacencyIndex) (fromId : LogicalId) (edgeType : String)
    (toId : LogicalId) (x : LogicalId) (t : String) :
    (a.remove fromId edgeType toId).get x t =
      if (fromId, edgeType) = (x, t) then (a.get x t).filter fun e => e.toId ≠ toId
      else a.get x t :=
  retain_get _ _ _ _

theorem getBackward_remove (a : AdjacencyIndex) (fromId : LogicalId) (edgeType : String)
    (toId : LogicalId) (x : LogicalId) (t : String) :
    (a.remove fromId edgeType toId).getBackward x t =
      if (toId, edgeType) = (x, t) then (a.getBackward x t).filter fun id => id ≠ fromId
      else a.getBackward x t :=
  retain_get _ _ _ _

/-- Edges given by type, source and target removed one after the other. -/
def removeAll (a : AdjacencyIndex) (edges : List (String × LogicalId × LogicalId)) :
    AdjacencyIndex :=
  edges.foldl (fun a e => a.remove e.2.1 e.1 e.2.2) a

theorem removeAll_other (edges : List (String × LogicalId × LogicalId)) (a : AdjacencyIndex)
    (x : LogicalId) (t : String) (other : ∀ e ∈ edges, e.1 ≠ t) :
    (a.removeAll edges).get x t = a.get x t ∧
      (a.removeAll edges).getBackward x t = a.getBackward x t := by
  induction edges generalizing a with
  | nil => exact ⟨rfl, rfl⟩
  | cons e rest ih =>
    rw [List.forall_mem_cons] at other
    have step : a.removeAll (e :: rest) = (a.remove e.2.1 e.1 e.2.2).removeAll rest := rfl
    obtain ⟨forward, backward⟩ := ih (a.remove e.2.1 e.1 e.2.2) other.2
    have forwardKey : ¬ (e.2.1, e.1) = (x, t) := fun same => other.1 (Prod.mk.inj same).2
    have backwardKey : ¬ (e.2.2, e.1) = (x, t) := fun same => other.1 (Prod.mk.inj same).2
    rw [step, forward, backward, get_remove, getBackward_remove, if_neg forwardKey,
      if_neg backwardKey]
    exact ⟨rfl, rfl⟩

theorem removeAll_removes (edges : List (String × LogicalId × LogicalId)) (a : AdjacencyIndex) :
    ∀ e ∈ edges, (∀ adj ∈ (a.removeAll edges).get e.2.1 e.1, adj.toId ≠ e.2.2) ∧
      e.2.1 ∉ (a.removeAll edges).getBackward e.2.2 e.1 := by
  refine Run.foldl_establishes
    (Q := fun e a => (∀ adj ∈ a.get e.2.1 e.1, adj.toId ≠ e.2.2) ∧ e.2.1 ∉ a.getBackward e.2.2 e.1)
    (fun a e => a.remove e.2.1 e.1 e.2.2) (fun a e => ?_) (fun a d e gone => ?_) edges a
  · rw [get_remove, getBackward_remove, if_pos rfl, if_pos rfl]
    exact ⟨fun adj kept => by simpa using (List.mem_filter.mp kept).2,
      fun kept => by simpa using (List.mem_filter.mp kept).2⟩
  · rw [get_remove, getBackward_remove]
    constructor
    · intro adj kept
      split at kept
      · exact gone.1 adj (List.mem_filter.mp kept).1
      · exact gone.1 adj kept
    · intro kept
      split at kept
      · exact gone.2 (List.mem_filter.mp kept).1
      · exact gone.2 kept

theorem mem_under {V : Type} (m : FinMap (LogicalId × String) (List V)) (other : V → LogicalId)
    (id : LogicalId) (t : String) (x : LogicalId) :
    (t, x) ∈ ((m.toList.filter fun kv => kv.1.1 = id).flatMap fun kv =>
        kv.2.map fun v => (kv.1.2, other v)) ↔
      ∃ v ∈ m[(id, t)]?.getD [], other v = x := by
  simp only [List.mem_map, List.mem_flatMap, List.mem_filter, decide_eq_true_eq,
    FinMap.mem_toList, Prod.exists, Prod.mk.injEq]
  constructor
  · rintro ⟨id', t', entries, ⟨found, rfl⟩, v, there, rfl, rfl⟩
    exact ⟨v, by rwa [found], rfl⟩
  · rintro ⟨v, there, rfl⟩
    cases found : m[(id, t)]? with
    | none => simp [found] at there
    | some entries =>
      rw [found] at there
      exact ⟨id, t, entries, ⟨found, rfl⟩, v, there, rfl, rfl⟩

theorem mem_forwardEdges (a : AdjacencyIndex) (id : LogicalId) (t : String) (x : LogicalId) :
    (t, x) ∈ a.forwardEdges id ↔ ∃ adj ∈ a.get id t, adj.toId = x :=
  mem_under a.forward AdjEntry.toId id t x

theorem mem_backwardEdges (a : AdjacencyIndex) (id : LogicalId) (t : String) (x : LogicalId) :
    (t, x) ∈ a.backwardEdges id ↔ x ∈ a.getBackward id t := by
  refine (mem_under a.backward (fun source => source) id t x).trans ?_
  exact ⟨fun ⟨_, there, same⟩ => same ▸ there, fun there => ⟨x, there, rfl⟩⟩

theorem mem_edgesInvolving (a : AdjacencyIndex) (id : LogicalId)
    (e : String × LogicalId × LogicalId) :
    e ∈ a.edgesInvolving id ↔
      e.2.1 = id ∧ (∃ adj ∈ a.get id e.1, adj.toId = e.2.2) ∨
        e.2.2 = id ∧ e.2.1 ∈ a.getBackward id e.1 := by
  obtain ⟨t, f, g⟩ := e
  have forward : (t, f, g) ∈ (a.forwardEdges id).map (fun e => (e.1, id, e.2)) ↔
      f = id ∧ ∃ adj ∈ a.get id t, adj.toId = g := by
    rw [← mem_forwardEdges, List.mem_map]
    constructor
    · rintro ⟨⟨t', x⟩, there, same⟩
      cases same
      exact ⟨rfl, there⟩
    · rintro ⟨rfl, there⟩
      exact ⟨(t, g), there, rfl⟩
  have backward : (t, f, g) ∈ (a.backwardEdges id).map (fun e => (e.1, e.2, id)) ↔
      g = id ∧ f ∈ a.getBackward id t := by
    rw [← mem_backwardEdges, List.mem_map]
    constructor
    · rintro ⟨⟨t', x⟩, there, same⟩
      cases same
      exact ⟨rfl, there⟩
    · rintro ⟨rfl, there⟩
      exact ⟨(t, f), there, rfl⟩
  rw [edgesInvolving, List.mem_append, forward, backward]

/-! ### Both sides hold the same edges -/

theorem get_removeEdgeType (a : AdjacencyIndex) (edgeType : String) (x : LogicalId) (t : String) :
    (a.removeEdgeType edgeType).get x t = (if t = edgeType then [] else a.get x t) ∧
      (a.removeEdgeType edgeType).getBackward x t =
        if t = edgeType then [] else a.getBackward x t := by
  unfold get getBackward removeEdgeType
  dsimp only
  rw [FinMap.get_filter, FinMap.get_filter]
  by_cases here : t = edgeType
  · cases a.forward[(x, t)]? <;> cases a.backward[(x, t)]? <;> simp [here, Option.filter]
  · cases a.forward[(x, t)]? <;> cases a.backward[(x, t)]? <;> simp [here, Option.filter]

/-- The backward side lists exactly the sources the forward side has. -/
def Linked (a : AdjacencyIndex) : Prop :=
  ∀ source edgeType target, source ∈ a.getBackward target edgeType ↔
    ∃ entry ∈ a.get source edgeType, entry.toId = target

theorem linked_new : new.Linked := by
  intro source edgeType target
  simp [getBackward, get, new]

variable {a : AdjacencyIndex}

theorem linked_insert (linked : a.Linked) (fromId : LogicalId) (edgeType : String)
    (entry : AdjEntry) : (a.insert fromId edgeType entry).Linked := by
  intro source t target
  rw [getBackward_insert, linked source t target, get_insert]
  by_cases here : (fromId, edgeType) = (source, t)
  · obtain ⟨rfl, rfl⟩ := Prod.mk.inj here
    rw [if_pos rfl, upsert_targets]
    simp only [Prod.mk.injEq, and_true]
    exact or_comm
  · rw [if_neg here]
    refine ⟨fun either => either.elim id fun both => ?_, .inl⟩
    exact absurd (Prod.ext both.2.symm (Prod.mk.inj both.1).2) here

theorem linked_remove (linked : a.Linked) (fromId : LogicalId) (edgeType : String)
    (toId : LogicalId) : (a.remove fromId edgeType toId).Linked := by
  intro source t target
  rw [get_remove, getBackward_remove]
  have before := linked source t target
  by_cases type : edgeType = t
  · subst type
    by_cases gone : fromId = source ∧ toId = target
    · obtain ⟨rfl, rfl⟩ := gone
      simp
    · by_cases sameSource : fromId = source
      · have otherTarget : toId ≠ target := fun same => gone ⟨sameSource, same⟩
        simp only [sameSource, if_true, Prod.mk.injEq, otherTarget, false_and, if_false, before,
          List.mem_filter, decide_eq_true_eq]
        constructor
        · rintro ⟨e, there, rfl⟩
          exact ⟨e, ⟨there, Ne.symm otherTarget⟩, rfl⟩
        · rintro ⟨e, ⟨there, -⟩, rfl⟩
          exact ⟨e, there, rfl⟩
      · simp only [Prod.mk.injEq, sameSource, false_and, if_false, ← before]
        split
        · simp [Ne.symm sameSource]
        · rfl
  · simp [type, before]

theorem linked_removeEdgeType (linked : a.Linked) (edgeType : String) :
    (a.removeEdgeType edgeType).Linked := by
  intro source t target
  obtain ⟨forward, backward⟩ := get_removeEdgeType a edgeType source t
  rw [forward, (get_removeEdgeType a edgeType target t).2]
  split
  · simp
  · exact linked source t target

/-- A source has at most one entry of a type for a target. -/
def Distinct (a : AdjacencyIndex) : Prop :=
  ∀ source edgeType, ((a.get source edgeType).map AdjEntry.toId).Nodup

theorem Distinct.unique (distinct : a.Distinct) {source : LogicalId} {edgeType : String}
    {e e' : AdjEntry} (here : e ∈ a.get source edgeType) (there : e' ∈ a.get source edgeType)
    (same : e.toId = e'.toId) : e = e' :=
  List.inj_on_of_nodup_map (distinct source edgeType) here there same

theorem distinct_new : new.Distinct := by
  intro source edgeType
  simp [get, new]

theorem distinct_insert (distinct : a.Distinct) (fromId : LogicalId) (edgeType : String)
    (entry : AdjEntry) : (a.insert fromId edgeType entry).Distinct := by
  intro source t
  rw [get_insert]
  split
  · rw [map_upsert]
    split
    · exact distinct source t
    · rename_i new
      rw [List.nodup_append]
      refine ⟨distinct source t, List.nodup_singleton _, fun x there y last => ?_⟩
      rw [List.mem_singleton] at last
      exact fun same => new (last ▸ same ▸ there)
  · exact distinct source t

theorem distinct_remove (distinct : a.Distinct) (fromId : LogicalId) (edgeType : String)
    (toId : LogicalId) : (a.remove fromId edgeType toId).Distinct := by
  intro source t
  rw [get_remove]
  split
  · exact (distinct source t).sublist (List.filter_sublist.map _)
  · exact distinct source t

theorem distinct_removeEdgeType (distinct : a.Distinct) (edgeType : String) :
    (a.removeEdgeType edgeType).Distinct := by
  intro source t
  rw [(get_removeEdgeType a edgeType source t).1]
  split
  · exact List.nodup_nil
  · exact distinct source t

inductive Change where
  | insert (fromId : LogicalId) (edgeType : String) (entry : AdjEntry)
  | remove (fromId : LogicalId) (edgeType : String) (toId : LogicalId)
  | removeEdgeType (edgeType : String)

def apply (a : AdjacencyIndex) : Change → AdjacencyIndex
  | .insert fromId edgeType entry => a.insert fromId edgeType entry
  | .remove fromId edgeType toId => a.remove fromId edgeType toId
  | .removeEdgeType edgeType => a.removeEdgeType edgeType

def after (changes : List Change) : AdjacencyIndex := changes.foldl apply new

theorem linked_after (changes : List Change) : (after changes).Linked := by
  refine Run.invariant apply changes linked_new (fun a change linked => ?_) _ (Run.end_visited ..)
  cases change with
  | insert fromId edgeType entry => exact linked_insert linked fromId edgeType entry
  | remove fromId edgeType toId => exact linked_remove linked fromId edgeType toId
  | removeEdgeType edgeType => exact linked_removeEdgeType linked edgeType

end AdjacencyIndex
end TronDB.Engine
