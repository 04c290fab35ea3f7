import TronDB.Lib.Run
import TronDB.Routing.Tiers

/-! The two maps of the location table. A call changes them one after the other without a common
lock, and the steps of other calls may come in between. -/
namespace TronDB.Engine
open TronDB.Core

/-- What `getEntity` returns. -/
structure EntityLocation where
  id : LogicalId
  representations : FinMap Nat LocationDescriptor

namespace LocationTable

def indices (t : LocationTable) (entityId : LogicalId) : List Nat := t.entityReprs[entityId]?.getD []

def getEntity (t : LocationTable) (entityId : LogicalId) : EntityLocation where
  id := entityId
  representations := (t.indices entityId).foldl (fun representations idx =>
    match t.get (entityId, idx) with
    | some desc => representations.insert idx desc
    | none => representations) ∅

def touch (t : LocationTable) (key : ReprKey) (timestamp : Nat) : LocationTable :=
  { t with
    descriptors := FinMap.adjust t.descriptors key fun desc => { desc with lastAccessed := timestamp } }

/-! ### One map at a time -/

def insertDescriptor (t : LocationTable) (key : ReprKey) (descriptor : LocationDescriptor) :
    LocationTable :=
  { t with descriptors := t.descriptors.insert key descriptor }

/-- The index goes into the list of its entity, under the lock of the entry. -/
def listIndex (t : LocationTable) (key : ReprKey) : LocationTable :=
  let indices := t.indices key.1
  { t with
    entityReprs := t.entityReprs.insert key.1
      (if key.2 ∈ indices then indices else (indices ++ [key.2]).insertionSort (· ≤ ·)) }

def takeList (t : LocationTable) (entityId : LogicalId) : LocationTable :=
  { t with entityReprs := t.entityReprs.erase entityId }

def removeDescriptor (t : LocationTable) (key : ReprKey) : LocationTable :=
  { t with descriptors := t.descriptors.erase key }

def countMutation (t : LocationTable) : LocationTable :=
  { t with mutationCounter := t.mutationCounter + 1 }

end LocationTable

/-! ### Calls and their steps -/

/-- A call that changes the table. -/
inductive LocationCall where
  | register (key : ReprKey) (descriptor : LocationDescriptor)
  | transition (key : ReprKey) (target : LocState)
  | updateTier (key : ReprKey) (tier : Tier) (encoding : Encoding)
  | touch (key : ReprKey) (timestamp : Nat)
  | removeEntity (entityId : LogicalId)

/-- The call as a whole; one that fails changes nothing. -/
def LocationCall.run (t : LocationTable) : LocationCall → LocationTable
  | register key descriptor => t.register key descriptor
  | transition key target => t.tryTransition key target
  | updateTier key tier encoding => (t.updateTier key tier encoding).toOption.getD t
  | touch key timestamp => t.touch key timestamp
  | removeEntity entityId => t.removeEntity entityId

/-- A call between two of its steps. -/
inductive OpenCall where
  /-- A `register` that has put its descriptor. -/
  | listing (key : ReprKey)
  /-- A `remove_entity` that has taken the list, with what it has still to go through. -/
  | removing (entityId : LogicalId) (indices : List Nat)
  /-- A `register` before the mutation counter. -/
  | counting
  deriving DecidableEq

structure SharedTable where
  table : LocationTable
  calls : List OpenCall

/-- The first step of a call. All but `register` and `remove_entity` are done with it: they hold
the lock of their one entry. -/
def LocationCall.begin (t : LocationTable) : LocationCall → LocationTable × Option OpenCall
  | register key descriptor => (t.insertDescriptor key descriptor, some (.listing key))
  | removeEntity entityId => (t.takeList entityId, some (.removing entityId (t.indices entityId)))
  | transition key target => (t.tryTransition key target, none)
  | updateTier key tier encoding => ((t.updateTier key tier encoding).toOption.getD t, none)
  | touch key timestamp => (t.touch key timestamp, none)

def OpenCall.advance (t : LocationTable) : OpenCall → LocationTable × Option OpenCall
  | listing key => (t.listIndex key, some counting)
  | removing entityId (idx :: rest) => (t.removeDescriptor (entityId, idx), some (removing entityId rest))
  | removing _ [] | counting => (t.countMutation, none)

inductive SharedStep where
  | call (c : LocationCall)
  /-- The call at this position of `calls` goes on. -/
  | advance (i : Nat)

def sharedStep (x : SharedTable) : SharedStep → SharedTable
  | .call c =>
    let (table, call) := c.begin x.table
    ⟨table, x.calls ++ call.toList⟩
  | .advance i =>
    match x.calls[i]? with
    | none => x
    | some c =>
      let (table, call) := c.advance x.table
      ⟨table, x.calls.take i ++ call.toList ++ x.calls.drop (i + 1)⟩

def SharedTable.start : SharedTable := ⟨.new, []⟩

/-- No `register` and `remove_entity` of one entity are under way at the same time. -/
def SharedTable.Separate (x : SharedTable) : Prop :=
  ∀ (key : ReprKey) (rest : List Nat), .listing key ∈ x.calls → .removing key.1 rest ∉ x.calls

/-! ### What a step does to each map -/

namespace LocationTable

theorem get_insertDescriptor (t : LocationTable) (key : ReprKey) (d : LocationDescriptor) (k : ReprKey) :
    (t.insertDescriptor key d).get k = if key = k then some d else t.get k :=
  FinMap.get_insert _ _ _ _

theorem get_removeDescriptor (t : LocationTable) (key k : ReprKey) :
    (t.removeDescriptor key).get k = if key = k then none else t.get k :=
  FinMap.get_erase _ _ _

theorem indices_listIndex (t : LocationTable) (key : ReprKey) (e : LogicalId) :
    (t.listIndex key).indices e = if key.1 = e then
      (if key.2 ∈ t.indices e then t.indices e else (t.indices e ++ [key.2]).insertionSort (· ≤ ·))
    else t.indices e := by
  unfold listIndex
  rw [indices, FinMap.get_insert]
  split
  · rename_i own
    rw [own]
    rfl
  · rfl

theorem mem_indices_listIndex (t : LocationTable) (key k : ReprKey) :
    k.2 ∈ (t.listIndex key).indices k.1 ↔ key = k ∨ k.2 ∈ t.indices k.1 := by
  obtain ⟨e, i⟩ := key
  obtain ⟨e', j⟩ := k
  rw [indices_listIndex, Prod.mk.injEq]
  by_cases own : e = e'
  · rw [if_pos own]
    split
    · rename_i there
      refine ⟨.inr, fun either => either.elim (fun same => same.2 ▸ there) id⟩
    · rw [List.mem_insertionSort, List.mem_append, List.mem_singleton]
      refine ⟨fun either => either.elim .inr fun same => .inl ⟨own, same.symm⟩, fun either => ?_⟩
      exact either.elim (fun same => .inr same.2.symm) .inl
  · rw [if_neg own]
    exact ⟨.inr, fun either => either.elim (fun same => absurd same.1 own) id⟩

theorem indices_takeList (t : LocationTable) (entityId e : LogicalId) :
    (t.takeList entityId).indices e = if entityId = e then [] else t.indices e := by
  unfold takeList
  rw [indices, FinMap.get_erase]
  split <;> rfl

/-- The lists are the same, and so are the keys that have a descriptor. -/
structure SameKeys (t t' : LocationTable) : Prop where
  lists : t'.entityReprs = t.entityReprs
  present : ∀ k, (t'.get k).isSome = (t.get k).isSome

theorem SameKeys.rfl {t : LocationTable} : SameKeys t t := ⟨Eq.refl _, fun _ => Eq.refl _⟩

theorem SameKeys.replaced {t : LocationTable} {key : ReprKey} {entry : LocationDescriptor}
    (found : t.get key = some entry) (d : LocationDescriptor) (counter : Nat) :
    SameKeys t ⟨t.descriptors.insert key d, t.entityReprs, counter⟩ := by
  refine ⟨Eq.refl _, fun k => ?_⟩
  have now := get_insertDescriptor t key d k
  refine (congrArg Option.isSome now).trans ?_
  split
  · rename_i here
    rw [← here, found]
    exact Eq.refl _
  · exact Eq.refl _

theorem sameKeys_tryTransition (t : LocationTable) (key : ReprKey) (target : LocState) :
    SameKeys t (t.tryTransition key target) := by
  unfold tryTransition transition
  cases found : t.get key with
  | none => exact .rfl
  | some entry =>
    dsimp only
    by_cases allowed : canTransitionTo entry.state target = true
    · rw [if_pos allowed]
      exact .replaced found _ _
    · rw [if_neg allowed]
      exact .rfl

theorem sameKeys_updateTier (t : LocationTable) (key : ReprKey) (tier : Tier) (encoding : Encoding) :
    SameKeys t ((t.updateTier key tier encoding).toOption.getD t) := by
  unfold updateTier
  cases found : t.get key with
  | none => exact .rfl
  | some entry => exact .replaced found _ _

theorem sameKeys_touch (t : LocationTable) (key : ReprKey) (timestamp : Nat) :
    SameKeys t (t.touch key timestamp) := by
  refine ⟨rfl, fun k => ?_⟩
  unfold touch get
  rw [FinMap.get_adjust]
  split
  · exact Option.isSome_map
  · rfl

end LocationTable

open LocationTable

/-- All that a step can do: the call it takes on before and after, and the table. -/
inductive Moves (t : LocationTable) : Option OpenCall → LocationTable → Option OpenCall → Prop
  | put (key : ReprKey) (d : LocationDescriptor) :
    Moves t none (t.insertDescriptor key d) (some (.listing key))
  | list (key : ReprKey) : Moves t (some (.listing key)) (t.listIndex key) (some .counting)
  | take (e : LogicalId) : Moves t none (t.takeList e) (some (.removing e (t.indices e)))
  | remove (e : LogicalId) (idx : Nat) (rest : List Nat) :
    Moves t (some (.removing e (idx :: rest))) (t.removeDescriptor (e, idx)) (some (.removing e rest))
  | count (c : OpenCall) (last : c = .counting ∨ ∃ e, c = .removing e []) :
    Moves t (some c) t.countMutation none
  | change (t' : LocationTable) (same : SameKeys t t') : Moves t none t' none

theorem begin_moves (t : LocationTable) (c : LocationCall) : Moves t none (c.begin t).1 (c.begin t).2 := by
  cases c with
  | register key d => exact .put key d
  | transition key target => exact .change _ (sameKeys_tryTransition t key target)
  | updateTier key tier encoding => exact .change _ (sameKeys_updateTier t key tier encoding)
  | touch key timestamp => exact .change _ (sameKeys_touch t key timestamp)
  | removeEntity entityId => exact .take entityId

theorem advance_moves (t : LocationTable) (c : OpenCall) :
    Moves t (some c) (c.advance t).1 (c.advance t).2 := by
  cases c with
  | listing key => exact .list key
  | removing entityId indices =>
    cases indices with
    | nil => exact .count _ (.inr ⟨entityId, rfl⟩)
    | cons idx rest => exact .remove entityId idx rest
  | counting => exact .count _ (.inl rfl)

theorem sharedStep_moves (x : SharedTable) (a : SharedStep) :
    sharedStep x a = x ∨ ∃ front back c t' c', x.calls = front ++ c.toList ++ back ∧
      Moves x.table c t' c' ∧ sharedStep x a = ⟨t', front ++ c'.toList ++ back⟩ := by
  cases a with
  | call c =>
    refine .inr ⟨x.calls, [], none, _, _, ?_, begin_moves x.table c, ?_⟩
    · rw [Option.toList_none, List.append_nil, List.append_nil]
    · rw [List.append_nil]
      rfl
  | advance i =>
    cases found : x.calls[i]? with
    | none =>
      refine .inl ?_
      unfold sharedStep
      dsimp only
      rw [found]
    | some c =>
      refine .inr ⟨x.calls.take i, x.calls.drop (i + 1), some c, _, _, ?_, advance_moves x.table c, ?_⟩
      · obtain ⟨below, here⟩ := List.getElem?_eq_some_iff.mp found
        rw [Option.toList_some, ← here, List.append_assoc, List.singleton_append,
          ← List.drop_eq_getElem_cons below, List.take_append_drop]
      · unfold sharedStep
        dsimp only
        rw [found]

/-! ### Lists in order -/

theorem pairwise_lt_insertionSort {α : Type*} [LinearOrder α] {l : List α} {i : α}
    (sorted : l.Pairwise (· < ·)) (new : i ∉ l) :
    ((l ++ [i]).insertionSort (· ≤ ·)).Pairwise (· < ·) := by
  have distinct : (l ++ [i]).Nodup := by
    refine List.nodup_append.mpr ⟨sorted.imp fun less => ne_of_lt less, List.nodup_singleton i, ?_⟩
    rintro j there _ last rfl
    exact new (List.mem_singleton.mp last ▸ there)
  have nodup := (List.perm_insertionSort (· ≤ ·) (l ++ [i])).nodup_iff.mpr distinct
  exact ((List.pairwise_insertionSort (· ≤ ·) (l ++ [i])).and nodup).imp fun both =>
    lt_of_le_of_ne both.1 both.2

namespace LocationTable

/-- Every list is in order, with no index twice, and none is empty. -/
structure Ordered (t : LocationTable) : Prop where
  sorted : ∀ e, (t.indices e).Pairwise (· < ·)
  filled : ∀ e : LogicalId, t.entityReprs[e]? ≠ some []

namespace Ordered

theorem new : LocationTable.new.Ordered := by
  constructor <;> simp [LocationTable.new, indices]

theorem congr {t t' : LocationTable} (ordered : t.Ordered) (same : t'.entityReprs = t.entityReprs) :
    t'.Ordered := by
  have lists (e : LogicalId) : t'.indices e = t.indices e := by rw [indices, same, indices]
  exact ⟨fun e => lists e ▸ ordered.sorted e, fun e => same ▸ ordered.filled e⟩

theorem listIndex {t : LocationTable} (ordered : t.Ordered) (key : ReprKey) :
    (t.listIndex key).Ordered := by
  constructor
  · intro e
    rw [indices_listIndex]
    split
    · split
      · exact ordered.sorted e
      · rename_i new
        exact pairwise_lt_insertionSort (ordered.sorted e) new
    · exact ordered.sorted e
  · intro e empty
    unfold LocationTable.listIndex at empty
    rw [FinMap.get_insert] at empty
    split at empty
    · have none_ := Option.some.inj empty
      split at none_
      · rename_i there
        rw [none_] at there
        exact absurd there List.not_mem_nil
      · have length := congrArg List.length none_
        rw [List.length_insertionSort, List.length_append] at length
        exact absurd length (Nat.succ_ne_zero _)
    · exact ordered.filled e empty

theorem takeList {t : LocationTable} (ordered : t.Ordered) (entityId : LogicalId) :
    (t.takeList entityId).Ordered := by
  constructor
  · intro e
    rw [indices_takeList]
    split
    · exact .nil
    · exact ordered.sorted e
  · intro e
    unfold LocationTable.takeList
    rw [FinMap.get_erase]
    split
    · nofun
    · exact ordered.filled e

end Ordered
end LocationTable

theorem Moves.ordered {t t' : LocationTable} {c c' : Option OpenCall} (moves : Moves t c t' c')
    (ordered : t.Ordered) : t'.Ordered := by
  cases moves with
  | put key d => exact ordered.congr rfl
  | list key => exact ordered.listIndex key
  | take e => exact ordered.takeList e
  | remove e idx rest => exact ordered.congr rfl
  | count c last => exact ordered.congr rfl
  | change t' same => exact ordered.congr same.lists

/-! ### Descriptors are listed -/

/-- The keys a call has still to list, or to take the descriptors of. -/
def OpenCall.Owes : OpenCall → ReprKey → Prop
  | listing key, k => key = k
  | removing entityId indices, k => k.1 = entityId ∧ k.2 ∈ indices
  | counting, _ => False

theorem Moves.covered {t t' : LocationTable} {c c' : Option OpenCall} (moves : Moves t c t' c')
    (others : ReprKey → Prop) (covered : ∀ k, (t.get k).isSome →
      k.2 ∈ t.indices k.1 ∨ others k ∨ ∃ d, c = some d ∧ d.Owes k) (k : ReprKey)
    (present : (t'.get k).isSome) :
    k.2 ∈ t'.indices k.1 ∨ others k ∨ ∃ d, c' = some d ∧ d.Owes k := by
  cases moves with
  | put key d =>
    by_cases here : key = k
    · exact .inr (.inr ⟨_, rfl, here⟩)
    · rw [get_insertDescriptor, if_neg here] at present
      rcases covered k present with listed | other | ⟨_, none_, -⟩
      · exact .inl listed
      · exact .inr (.inl other)
      · cases none_
  | list key =>
    rw [mem_indices_listIndex]
    rcases covered k present with listed | other | ⟨_, own, owes⟩
    · exact .inl (.inr listed)
    · exact .inr (.inl other)
    · cases own
      exact .inl (.inl owes)
  | take e =>
    rw [indices_takeList]
    rcases covered k present with listed | other | ⟨_, none_, -⟩
    · by_cases own : e = k.1
      · exact .inr (.inr ⟨_, rfl, own.symm, own ▸ listed⟩)
      · exact .inl (if_neg own ▸ listed)
    · exact .inr (.inl other)
    · cases none_
  | remove e idx rest =>
    rw [get_removeDescriptor] at present
    split at present
    · cases present
    · rename_i kept
      rcases covered k present with listed | other | ⟨_, taken, owes⟩
      · exact .inl listed
      · exact .inr (.inl other)
      · cases taken
        obtain ⟨own, later⟩ := owes
        refine .inr (.inr ⟨_, rfl, own, (List.mem_cons.mp later).resolve_left fun first => ?_⟩)
        exact kept (Prod.ext own.symm first.symm)
  | count c last =>
    rcases covered k present with listed | other | ⟨_, own, owes⟩
    · exact .inl listed
    · exact .inr (.inl other)
    · cases own
      rcases last with rfl | ⟨e, rfl⟩
      · exact owes.elim
      · exact absurd owes.2 List.not_mem_nil
  | change t' same =>
    rw [same.present] at present
    have lists : t'.indices k.1 = t.indices k.1 := by rw [indices, same.lists, indices]
    rw [lists]
    exact covered k present

theorem mem_around {α : Type*} (front back : List α) (c : Option α) (d : α) :
    d ∈ front ++ c.toList ++ back ↔ d ∈ front ++ back ∨ c = some d := by
  simp only [List.mem_append, Option.mem_toList]
  exact or_right_comm

/-- Every descriptor is listed or owed by a call, and every list is in order. -/
structure SharedTable.Covered (x : SharedTable) : Prop where
  ordered : x.table.Ordered
  covered : ∀ k, (x.table.get k).isSome → k.2 ∈ x.table.indices k.1 ∨ ∃ c ∈ x.calls, c.Owes k

theorem covered_start : SharedTable.start.Covered where
  ordered := .new
  covered := by simp [SharedTable.start, LocationTable.new, LocationTable.get]

theorem covered_step (x : SharedTable) (a : SharedStep) (covered : x.Covered) :
    (sharedStep x a).Covered := by
  rcases sharedStep_moves x a with same | ⟨front, back, c, t', c', calls, moves, next⟩
  · rw [same]
    exact covered
  · have split (call : Option OpenCall) (k : ReprKey) :
        (∃ d ∈ front ++ call.toList ++ back, d.Owes k) ↔
          (∃ d ∈ front ++ back, d.Owes k) ∨ ∃ d, call = some d ∧ d.Owes k := by
      simp only [mem_around, or_and_right, exists_or]
    rw [next]
    refine ⟨moves.ordered covered.ordered, fun k present => ?_⟩
    rw [split]
    refine moves.covered (fun k => ∃ d ∈ front ++ back, d.Owes k) (fun k present => ?_) k present
    rw [← split, ← calls]
    exact covered.covered k present

/-! ### Listed indices have descriptors -/

/-- A `register` under way has its descriptor in the map, and the entity of a `remove_entity` under
way has no list. -/
def OpenCall.Sound (t : LocationTable) : OpenCall → Prop
  | listing key => (t.get key).isSome
  | removing entityId _ => t.indices entityId = []
  | counting => True

/-- Every listed index has its descriptor. -/
structure SharedTable.Backed (x : SharedTable) : Prop where
  present : ∀ k : ReprKey, k.2 ∈ x.table.indices k.1 → (x.table.get k).isSome
  sound : ∀ c ∈ x.calls, c.Sound x.table

theorem backed_start : SharedTable.start.Backed := by
  constructor <;> simp [SharedTable.start, LocationTable.new, indices]

theorem OpenCall.Sound.kept {t t' : LocationTable} {c : OpenCall} (sound : c.Sound t)
    (present : ∀ key, c = .listing key → (t.get key).isSome → (t'.get key).isSome)
    (empty : ∀ e rest, c = .removing e rest → t.indices e = [] → t'.indices e = []) : c.Sound t' := by
  cases c with
  | listing key => exact present key rfl sound
  | removing e rest => exact empty e rest rfl sound
  | counting => trivial

theorem backed_step (x : SharedTable) (a : SharedStep) (backed : x.Backed) (separate : x.Separate) :
    (sharedStep x a).Backed := by
  rcases sharedStep_moves x a with same | ⟨front, back, c, t', c', calls, moves, next⟩
  · rw [same]
    exact backed
  · have before (d : OpenCall) : d ∈ x.calls ↔ d ∈ front ++ back ∨ c = some d := by
      rw [calls, mem_around]
    have others (d : OpenCall) (there : d ∈ front ++ back) : d.Sound x.table :=
      backed.sound d ((before d).mpr (.inl there))
    rw [next]
    suffices after : (∀ k : ReprKey, k.2 ∈ t'.indices k.1 → (t'.get k).isSome) ∧
        (∀ d ∈ front ++ back, d.Sound t') ∧ ∀ d, c' = some d → d.Sound t' by
      refine ⟨after.1, fun d there => ?_⟩
      exact ((mem_around front back c' d).mp there).elim (after.2.1 d) (after.2.2 d)
    cases moves with
    | put key d =>
      have grows (k : ReprKey) (there : (x.table.get k).isSome) :
          ((x.table.insertDescriptor key d).get k).isSome := by
        rw [get_insertDescriptor]
        split
        · rfl
        · exact there
      refine ⟨fun k listed => grows k (backed.present k listed), fun c there => ?_, ?_⟩
      · exact (others c there).kept (fun k _ => grows k) (fun e _ _ none_ => none_)
      · rintro _ ⟨⟩
        show ((x.table.insertDescriptor key d).get key).isSome
        rw [get_insertDescriptor, if_pos rfl]
        rfl
    | list key =>
      have own := (before _).mpr (.inr rfl)
      refine ⟨fun k listed => ?_, fun c there => ?_, ?_⟩
      · rcases (mem_indices_listIndex _ _ _).mp listed with rfl | old
        · exact backed.sound _ own
        · exact backed.present k old
      · refine (others c there).kept (fun k _ some_ => some_) fun e rest removes none_ => ?_
        -- the entity is another one, since the two are under way at the same time
        have other : key.1 ≠ e := by
          rintro rfl
          exact separate key rest own ((before _).mpr (.inl (removes ▸ there)))
        rwa [indices_listIndex, if_neg other]
      · rintro _ ⟨⟩
        trivial
    | take e =>
      refine ⟨fun k listed => ?_, fun c there => ?_, ?_⟩
      · rw [indices_takeList] at listed
        split at listed
        · exact absurd listed List.not_mem_nil
        · exact backed.present k listed
      · refine (others c there).kept (fun k _ some_ => some_) fun e' _ _ none_ => ?_
        rw [indices_takeList]
        split
        · rfl
        · exact none_
      · rintro _ ⟨⟩
        show (x.table.takeList e).indices e = []
        rw [indices_takeList, if_pos rfl]
    | remove e idx rest =>
      have own := (before _).mpr (.inr rfl)
      have empty : x.table.indices e = [] := backed.sound _ own
      have kept (k : ReprKey) (other : k.1 ≠ e) (there : (x.table.get k).isSome) :
          ((x.table.removeDescriptor (e, idx)).get k).isSome := by
        rw [get_removeDescriptor, if_neg fun same => other (congrArg Prod.fst same).symm]
        exact there
      refine ⟨fun k listed => ?_, fun c there => ?_, ?_⟩
      · refine kept k ?_ (backed.present k listed)
        rintro rfl
        exact absurd (empty ▸ listed : k.2 ∈ []) List.not_mem_nil
      · refine (others c there).kept (fun k lists => kept k ?_) fun e' _ _ none_ => none_
        rintro rfl
        exact separate k _ ((before _).mpr (.inl (lists ▸ there))) own
      · rintro _ ⟨⟩
        exact empty
    | count c last => exact ⟨backed.present, others, nofun⟩
    | change t' same =>
      have lists (e : LogicalId) : t'.indices e = x.table.indices e := by rw [indices, same.lists, indices]
      refine ⟨fun k listed => ?_, fun c there => ?_, nofun⟩
      · rw [same.present]
        exact backed.present k (lists k.1 ▸ listed)
      · exact (others c there).kept (fun k _ some_ => (same.present k).trans some_) fun e _ _ none_ =>
          (lists e).trans none_

/-! ### Whole runs -/

theorem covered_run (steps : List SharedStep) : (steps.foldl sharedStep .start).Covered :=
  Run.invariant_end sharedStep steps covered_start covered_step

/-- In no state of the run are a `register` and a `remove_entity` of one entity under way. -/
def Separately (steps : List SharedStep) : Prop :=
  ∀ x ∈ Run.visited sharedStep .start steps, x.Separate

theorem backed_run {steps : List SharedStep} (separately : Separately steps) :
    (steps.foldl sharedStep .start).Backed := by
  refine Run.invariant_under sharedStep (fun x _ => x.Separate) steps backed_start (fun p there => ?_)
    (fun x a => backed_step x a) _ (Run.end_visited sharedStep .start steps)
  exact separately p.1 (Run.visited_of_taken sharedStep .start steps p there)

namespace LocationTable

theorem get_getEntity (t : LocationTable) (k : ReprKey) :
    (t.getEntity k.1).representations[k.2]? = if k.2 ∈ t.indices k.1 then t.get k else none := by
  obtain ⟨e, i⟩ := k
  have each (indices : List Nat) (representations : FinMap Nat LocationDescriptor) :
      (indices.foldl (fun representations idx =>
        match t.get (e, idx) with
        | some desc => representations.insert idx desc
        | none => representations) representations)[i]? =
      if i ∈ indices then (t.get (e, i)).or representations[i]? else representations[i]? := by
    induction indices generalizing representations with
    | nil => simp
    | cons idx rest ih =>
      rw [List.foldl_cons, ih]
      cases found : t.get (e, idx) with
      | none =>
        by_cases here : i = idx
        · rw [← here] at found
          simp [here.symm, found]
        · simp [here]
      | some desc =>
        dsimp only
        rw [FinMap.get_insert]
        by_cases here : idx = i
        · subst here
          simp [found]
        · simp [here, Ne.symm here]
  unfold getEntity
  rw [each]
  simp

/-- What the lists say is what the descriptors say. -/
structure Consistent (t : LocationTable) : Prop extends Ordered t where
  listed_iff : ∀ k : ReprKey, k.2 ∈ t.indices k.1 ↔ (t.get k).isSome

/-- Every descriptor's index is listed once in the sorted list of its entity, is shown with the
entity and goes with it. -/
structure Agree (t : LocationTable) : Prop where
  sorted : ∀ e, (t.indices e).Pairwise (· ≤ ·)
  once : ∀ k, (t.get k).isSome → (t.indices k.1).count k.2 = 1
  shown : ∀ k : ReprKey, (t.getEntity k.1).representations[k.2]? = t.get k
  removed : ∀ e k, (t.removeEntity e).get k = if k.1 = e then none else t.get k

theorem Ordered.agree {t : LocationTable} (ordered : t.Ordered)
    (listed : ∀ k, (t.get k).isSome → k.2 ∈ t.indices k.1) : t.Agree := by
  have absent (k : ReprKey) (not : k.2 ∉ t.indices k.1) : t.get k = none :=
    Option.not_isSome_iff_eq_none.mp fun present => not (listed k present)
  constructor
  · exact fun e => (ordered.sorted e).imp le_of_lt
  · exact fun k present => List.count_eq_one_of_mem ((ordered.sorted k.1).imp ne_of_lt) (listed k present)
  · intro k
    rw [get_getEntity]
    split
    · rfl
    · rename_i not
      exact (absent k not).symm
  · intro e k
    rw [get_removeEntity]
    by_cases own : k.1 = e
    · subst own
      rw [if_pos rfl]
      split
      · rfl
      · rename_i not
        exact absent k fun there => not ⟨rfl, there⟩
    · rw [if_neg own, if_neg fun both => own both.1]

/-- The table has no others than its descriptors' lists. -/
theorem Consistent.lists_eq {t t' : LocationTable} (consistent : t.Consistent)
    (consistent' : t'.Consistent) (same : t'.descriptors = t.descriptors) :
    t'.entityReprs = t.entityReprs := by
  refine FinMap.ext fun e => ?_
  have lists : t'.indices e = t.indices e := by
    refine List.Pairwise.eq_of_mem_iff (consistent'.sorted e) (consistent.sorted e) fun i => ?_
    rw [consistent'.listed_iff (e, i), consistent.listed_iff (e, i), get, get, same]
  have filled := consistent.filled e
  have filled' := consistent'.filled e
  unfold indices at lists
  cases here : t.entityReprs[e]? with
  | none =>
    cases there : t'.entityReprs[e]? with
    | none => rfl
    | some l =>
      rw [here, there] at lists
      cases show l = [] from lists
      exact absurd there filled'
  | some l =>
    cases there : t'.entityReprs[e]? with
    | none =>
      rw [here, there] at lists
      cases show [] = l from lists
      exact absurd here filled
    | some l' =>
      rw [here, there] at lists
      exact congrArg some lists

end LocationTable

theorem ordered_finished {steps : List SharedStep}
    (finished : (steps.foldl sharedStep .start).calls = []) :
    (steps.foldl sharedStep .start).table.Ordered ∧
      ∀ k, ((steps.foldl sharedStep .start).table.get k).isSome →
        k.2 ∈ (steps.foldl sharedStep .start).table.indices k.1 := by
  have covered := covered_run steps
  refine ⟨covered.ordered, fun k present => ?_⟩
  rcases covered.covered k present with listed | ⟨c, there, -⟩
  · exact listed
  · exact absurd (finished ▸ there) List.not_mem_nil

theorem consistent_finished {steps : List SharedStep}
    (finished : (steps.foldl sharedStep .start).calls = []) (separately : Separately steps) :
    (steps.foldl sharedStep .start).table.Consistent := by
  obtain ⟨ordered, listed⟩ := ordered_finished finished
  exact { ordered with listed_iff := fun k => ⟨(backed_run separately).present k, listed k⟩ }

/-! ### One call after the other -/

theorem removeEntity_eq (t : LocationTable) (e : LogicalId) : t.removeEntity e =
    ((t.indices e).foldl (fun t idx => t.removeDescriptor (e, idx)) (t.takeList e)).countMutation := by
  have each (l : List Nat) (t : LocationTable) : l.foldl (fun t idx => t.removeDescriptor (e, idx)) t =
      { t with descriptors := l.foldl (fun ds idx => ds.erase (e, idx)) t.descriptors } := by
    induction l generalizing t with
    | nil => rfl
    | cons idx rest ih => exact ih _
  rw [each]
  rfl

theorem removing_alone (t : LocationTable) (e : LogicalId) (rest : List Nat) :
    (List.replicate (rest.length + 1) (.advance 0)).foldl sharedStep ⟨t, [.removing e rest]⟩ =
      ⟨(rest.foldl (fun t idx => t.removeDescriptor (e, idx)) t).countMutation, []⟩ := by
  induction rest generalizing t with
  | nil => rfl
  | cons idx rest ih => exact ih _

theorem call_alone (t : LocationTable) (c : LocationCall) : ∃ n,
    (.call c :: List.replicate n (.advance 0)).foldl sharedStep ⟨t, []⟩ = ⟨c.run t, []⟩ := by
  cases c with
  | register key d => exact ⟨2, rfl⟩
  | transition key target => exact ⟨0, rfl⟩
  | updateTier key tier encoding => exact ⟨0, rfl⟩
  | touch key timestamp => exact ⟨0, rfl⟩
  | removeEntity e =>
    refine ⟨(t.indices e).length + 1, ?_⟩
    show _ = (⟨t.removeEntity e, []⟩ : SharedTable)
    rw [removeEntity_eq]
    exact removing_alone (t.takeList e) e (t.indices e)

theorem separate_of_few {x : SharedTable} (few : x.calls.length ≤ 1) : x.Separate := by
  intro key rest listing removing
  obtain ⟨i, below, first⟩ := List.getElem_of_mem listing
  obtain ⟨j, below', second⟩ := List.getElem_of_mem removing
  have same : i = j := by omega
  subst same
  cases first.symm.trans second

theorem few_step (x : SharedTable) (i : Nat) (few : x.calls.length ≤ 1) :
    (sharedStep x (.advance i)).calls.length ≤ 1 := by
  unfold sharedStep
  dsimp only
  cases found : x.calls[i]? with
  | none => exact few
  | some c =>
    have below := (List.getElem?_eq_some_iff.mp found).1
    have one : (c.advance x.table).2.toList.length ≤ 1 := by cases (c.advance x.table).2 <;> simp
    dsimp only
    rw [List.length_append, List.length_append, List.length_take, List.length_drop]
    omega

theorem separate_alone (x : SharedTable) (n : Nat) (few : x.calls.length ≤ 1) :
    ∀ y ∈ Run.visited sharedStep x (List.replicate n (.advance 0)), y.Separate := by
  induction n generalizing x with
  | zero => exact List.forall_mem_singleton.mpr (separate_of_few few)
  | succ n ih => exact List.forall_mem_cons.mpr ⟨separate_of_few few, ih _ (few_step x 0 few)⟩

theorem calls_run (cs : List LocationCall) (t : LocationTable) : ∃ steps : List SharedStep,
    steps.foldl sharedStep ⟨t, []⟩ = ⟨cs.foldl LocationCall.run t, []⟩ ∧
      ∀ x ∈ Run.visited sharedStep ⟨t, []⟩ steps, x.Separate := by
  induction cs generalizing t with
  | nil => exact ⟨[], rfl, List.forall_mem_singleton.mpr (separate_of_few (Nat.zero_le 1))⟩
  | cons c rest ih =>
    obtain ⟨n, alone⟩ := call_alone t c
    obtain ⟨steps, ends, separate⟩ := ih (c.run t)
    refine ⟨(.call c :: List.replicate n (.advance 0)) ++ steps, ?_, fun x there => ?_⟩
    · rw [List.foldl_append, alone, ends]
      rfl
    · rw [Run.mem_visited_append, alone] at there
      rcases there with own | later
      · rcases List.mem_cons.mp own with rfl | own
        · exact separate_of_few (Nat.zero_le 1)
        · refine separate_alone _ n ?_ x own
          show ([] ++ (c.begin t).2.toList).length ≤ 1
          cases (c.begin t).2 <;> simp
      · exact separate x later

theorem consistent_calls (cs : List LocationCall) : (cs.foldl LocationCall.run .new).Consistent := by
  obtain ⟨steps, ends, separate⟩ := calls_run cs .new
  have finished : (steps.foldl sharedStep .start).calls = [] := congrArg SharedTable.calls ends
  have consistent := consistent_finished finished separate
  rwa [show (steps.foldl sharedStep .start).table = _ from congrArg SharedTable.table ends] at consistent

end TronDB.Engine
