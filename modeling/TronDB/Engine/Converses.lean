import Mathlib.Data.List.Induction
import TronDB.Engine.Adjacency

/-! The adjacency index after any sequence of its calls: both sides as they follow from the last
insert of each edge. -/
namespace TronDB.Engine
open TronDB.Core Binary Wal

namespace AdjacencyIndex

def Change.entry (held : Option AdjEntry) (source : LogicalId) (t : String) (target : LogicalId) :
    Change → Option AdjEntry
  | insert fromId edgeType entry =>
    if (fromId, edgeType, entry.toId) = (source, t, target) then some entry else held
  | remove fromId edgeType toId =>
    if (fromId, edgeType, toId) = (source, t, target) then none else held
  | removeEdgeType edgeType => if edgeType = t then none else held

/-- The arguments of the last insert of an edge, if it was not removed since. -/
def lastInsert (changes : List Change) (source : LogicalId) (t : String) (target : LogicalId) :
    Option AdjEntry :=
  changes.foldl (fun held change => change.entry held source t target) none

/-- The two sides of an index, and what it says of the edges at an entity. -/
structure Converse (a : AdjacencyIndex) : Prop where
  linked : ∀ source t target, (∃ entry ∈ a.get source t, entry.toId = target) ↔
    source ∈ a.getBackward target t
  forwardOnce : ∀ source t, ((a.get source t).map AdjEntry.toId).Nodup
  backwardOnce : ∀ target t, (a.getBackward target t).Nodup
  forwardFilled : ∀ (k : LogicalId × String) entries, a.forward[k]? = some entries → entries ≠ []
  backwardFilled : ∀ (k : LogicalId × String) sources, a.backward[k]? = some sources → sources ≠ []
  involvingForward : ∀ id t target, (t, target) ∈ a.forwardEdges id ↔
    ∃ entry ∈ a.get id t, entry.toId = target
  involvingBackward : ∀ id t source, (t, source) ∈ a.backwardEdges id ↔ source ∈ a.getBackward id t
  involvingOnce : ∀ id, (a.forwardEdges id).Nodup ∧ (a.backwardEdges id).Nodup

variable {a : AdjacencyIndex}

/-! ### No source twice, no list empty -/

def Sources (a : AdjacencyIndex) : Prop := ∀ target t, (a.getBackward target t).Nodup

def Filled (a : AdjacencyIndex) : Prop :=
  (∀ (k : LogicalId × String) entries, a.forward[k]? = some entries → entries ≠ []) ∧
    ∀ (k : LogicalId × String) sources, a.backward[k]? = some sources → sources ≠ []

theorem sources_apply (sources : a.Sources) (change : Change) : (a.apply change).Sources := by
  intro target t
  cases change with
  | insert fromId edgeType entry =>
    unfold apply insert getBackward
    dsimp only
    rw [FinMap.get_insert]
    split
    · rename_i here
      obtain ⟨rfl, rfl⟩ := Prod.mk.inj here
      rw [Option.getD_some]
      split
      · exact sources entry.toId edgeType
      · rename_i new
        refine List.nodup_append.mpr ⟨sources entry.toId edgeType, List.nodup_singleton _, ?_⟩
        intro x there y last same
        rw [List.mem_singleton] at last
        exact new (last ▸ same ▸ there)
    · exact sources target t
  | remove fromId edgeType toId =>
    have left := getBackward_remove a fromId edgeType toId target t
    unfold apply
    rw [left]
    split
    · exact (sources target t).filter _
    · exact sources target t
  | removeEdgeType edgeType =>
    unfold apply
    rw [(get_removeEdgeType a edgeType target t).2]
    split
    · exact List.nodup_nil
    · exact sources target t

theorem upsert_ne_nil (entry : AdjEntry) (entries : List AdjEntry) : upsert entry entries ≠ [] :=
  List.ne_nil_of_mem (mem_upsert_self entry entries)

theorem filled_retain {V : Type} {m : FinMap (LogicalId × String) (List V)}
    (filled : ∀ (k : LogicalId × String) entries, m[k]? = some entries → entries ≠ [])
    (key : LogicalId × String) (keep : V → Bool) :
    ∀ (k : LogicalId × String) entries, (retain m key keep)[k]? = some entries → entries ≠ [] := by
  intro k entries there
  unfold retain at there
  split at there
  · dsimp only at there
    split at there
    · rw [FinMap.get_erase] at there
      split at there
      · cases there
      · exact filled k entries there
    · rename_i some_
      rw [FinMap.get_insert] at there
      split at there
      · obtain rfl := Option.some.inj there
        exact fun none_ => some_ (List.isEmpty_iff.mpr none_)
      · exact filled k entries there
  · exact filled k entries there

theorem filled_apply (filled : a.Filled) (change : Change) : (a.apply change).Filled := by
  cases change with
  | insert fromId edgeType entry =>
    constructor
    · intro k entries there
      rw [apply, insert, FinMap.get_insert] at there
      split at there
      · obtain rfl := Option.some.inj there
        exact upsert_ne_nil entry _
      · exact filled.1 k entries there
    · intro k sources there
      rw [apply, insert, FinMap.get_insert] at there
      split at there
      · obtain rfl := Option.some.inj there
        split
        · rename_i known
          exact List.ne_nil_of_mem known
        · exact List.concat_ne_nil _ _
      · exact filled.2 k sources there
  | remove fromId edgeType toId => exact ⟨filled_retain filled.1 _ _, filled_retain filled.2 _ _⟩
  | removeEdgeType edgeType =>
    constructor
    · intro k entries there
      rw [apply, removeEdgeType, FinMap.get_filter] at there
      exact filled.1 k entries (Option.filter_eq_some_iff.mp there).1
    · intro k sources there
      rw [apply, removeEdgeType, FinMap.get_filter] at there
      exact filled.2 k sources (Option.filter_eq_some_iff.mp there).1

/-- Where no list under a key of the entity names anything twice, no edge is listed twice. -/
theorem under_once {V : Type} (m : FinMap (LogicalId × String) (List V)) (other : V → LogicalId)
    (id : LogicalId) (once : ∀ t : String, ((m[(id, t)]?.getD []).map other).Nodup) :
    ((m.toList.filter fun kv => kv.1.1 = id).flatMap fun kv =>
      kv.2.map fun v => (kv.1.2, other v)).Nodup := by
  rw [List.nodup_flatMap]
  constructor
  · rintro ⟨⟨id', t⟩, entries⟩ listed
    obtain ⟨there, here⟩ := List.mem_filter.mp listed
    obtain rfl : id' = id := of_decide_eq_true here
    have found := (FinMap.mem_toList _ _ _).mp there
    have block := once t
    rw [found] at block
    refine List.Nodup.of_map Prod.snd ?_
    rw [List.map_map]
    exact block
  · have keys := FinMap.nodup_toList m
    rw [List.Nodup, List.pairwise_map] at keys
    refine (keys.filter _).imp_of_mem ?_
    rintro ⟨⟨id', t⟩, entries⟩ ⟨⟨id'', t'⟩, entries'⟩ listed listed' differ e there there'
    obtain rfl : id' = id := of_decide_eq_true (List.mem_filter.mp listed).2
    obtain rfl : id'' = id' := of_decide_eq_true (List.mem_filter.mp listed').2
    obtain ⟨v, -, rfl⟩ := List.mem_map.mp there
    obtain ⟨v', -, same⟩ := List.mem_map.mp there'
    exact differ (congrArg (Prod.mk id'') (Prod.mk.inj same).1.symm)

/-! ### The entries are those of the last inserts -/

def Holds (a : AdjacencyIndex) (entry : LogicalId → String → LogicalId → Option AdjEntry) : Prop :=
  ∀ source t e, e ∈ a.get source t ↔ entry source t e.toId = some e

theorem mem_get_insert (distinct : a.Distinct) (fromId : LogicalId) (edgeType : String)
    (entry e : AdjEntry) : e ∈ (a.insert fromId edgeType entry).get fromId edgeType ↔
      if entry.toId = e.toId then entry = e else e ∈ a.get fromId edgeType := by
  have after_ := distinct_insert distinct fromId edgeType entry
  have self : entry ∈ (a.insert fromId edgeType entry).get fromId edgeType := by
    rw [get_insert, if_pos rfl]
    exact mem_upsert_self entry _
  split
  · rename_i same
    exact ⟨fun there => after_.unique self there same, fun own => own ▸ self⟩
  · rename_i other
    rw [get_insert, if_pos rfl]
    exact mem_upsert_other _ (Ne.symm other)

theorem holds_apply {entry : LogicalId → String → LogicalId → Option AdjEntry}
    (holds : a.Holds entry) (distinct : a.Distinct) (change : Change) :
    (a.apply change).Holds fun source t target =>
      change.entry (entry source t target) source t target := by
  intro source t e
  have before := holds source t e
  cases change with
  | insert fromId edgeType new =>
    unfold apply Change.entry
    dsimp only
    by_cases here : (fromId, edgeType) = (source, t)
    · obtain ⟨rfl, rfl⟩ := Prod.mk.inj here
      rw [mem_get_insert distinct]
      by_cases same : new.toId = e.toId
      · simp only [same, if_true, Option.some.injEq]
      · simp only [same, Prod.mk.injEq, and_false, if_false]
        exact before
    · have elsewhere : ¬ (fromId, edgeType, new.toId) = (source, t, e.toId) := fun same =>
        here (Prod.ext (Prod.mk.inj same).1 (Prod.mk.inj (Prod.mk.inj same).2).1)
      rw [get_insert, if_neg here, if_neg elsewhere]
      exact before
  | remove fromId edgeType toId =>
    unfold apply Change.entry
    dsimp only
    rw [get_remove]
    by_cases here : (fromId, edgeType) = (source, t)
    · obtain ⟨rfl, rfl⟩ := Prod.mk.inj here
      rw [if_pos rfl, List.mem_filter, decide_eq_true_iff, before]
      by_cases same : toId = e.toId
      · simp [same]
      · simp [same, Ne.symm same]
    · have elsewhere : ¬ (fromId, edgeType, toId) = (source, t, e.toId) := fun same =>
        here (Prod.ext (Prod.mk.inj same).1 (Prod.mk.inj (Prod.mk.inj same).2).1)
      rw [if_neg here, if_neg elsewhere]
      exact before
  | removeEdgeType edgeType =>
    unfold apply Change.entry
    dsimp only
    rw [(get_removeEdgeType a edgeType source t).1]
    by_cases here : t = edgeType
    · simp [here]
    · rw [if_neg here, if_neg (Ne.symm here)]
      exact before

/-! ### Runs -/

/-- What every change keeps. -/
structure Kept (a : AdjacencyIndex) : Prop where
  linked : a.Linked
  distinct : a.Distinct
  sources : a.Sources
  filled : a.Filled

theorem kept_new : new.Kept where
  linked := linked_new
  distinct := distinct_new
  sources := by simp [Sources, getBackward, new]
  filled := by simp [Filled, new]

theorem kept_apply (kept : a.Kept) (change : Change) : (a.apply change).Kept where
  linked := by
    cases change with
    | insert fromId edgeType entry => exact linked_insert kept.linked fromId edgeType entry
    | remove fromId edgeType toId => exact linked_remove kept.linked fromId edgeType toId
    | removeEdgeType edgeType => exact linked_removeEdgeType kept.linked edgeType
  distinct := by
    cases change with
    | insert fromId edgeType entry => exact distinct_insert kept.distinct fromId edgeType entry
    | remove fromId edgeType toId => exact distinct_remove kept.distinct fromId edgeType toId
    | removeEdgeType edgeType => exact distinct_removeEdgeType kept.distinct edgeType
  sources := sources_apply kept.sources change
  filled := filled_apply kept.filled change

theorem kept_after (changes : List Change) : (after changes).Kept :=
  Run.invariant apply changes kept_new (fun _ change kept => kept_apply kept change) _
    (Run.end_visited ..)

theorem Kept.converse (kept : a.Kept) : a.Converse where
  linked source t target := (kept.linked source t target).symm
  forwardOnce := kept.distinct
  backwardOnce := kept.sources
  forwardFilled := kept.filled.1
  backwardFilled := kept.filled.2
  involvingForward := mem_forwardEdges a
  involvingBackward := mem_backwardEdges a
  involvingOnce id := by
    refine ⟨under_once a.forward AdjEntry.toId id (kept.distinct id), ?_⟩
    refine under_once a.backward (fun source => source) id fun t => ?_
    rw [List.map_id']
    exact kept.sources id t

theorem holds_after (changes : List Change) : (after changes).Holds (lastInsert changes) := by
  induction changes using List.reverseRecOn with
  | nil =>
    intro source t e
    simp [after, new, get, lastInsert]
  | append_singleton changes change ih =>
    have step := holds_apply ih (kept_after changes).distinct change
    intro source t e
    unfold after lastInsert
    rw [List.foldl_append, List.foldl_append]
    exact step source t e

theorem adjacency_converse (changes : List Change) : (after changes).Converse ∧
    ∀ source t e, e ∈ (after changes).get source t ↔
      lastInsert changes source t e.toId = some e :=
  ⟨(kept_after changes).converse, holds_after changes⟩

end AdjacencyIndex
end TronDB.Engine
