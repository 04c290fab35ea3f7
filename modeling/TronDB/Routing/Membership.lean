import TronDB.Core.Quantise
import TronDB.Routing.AffinityGroups
import TronDB.Wal.Recovery

/-! Whether the members of the affinity groups and the groups of the entities tell the same, along
any run of calls, promotions of what was seen together among them. -/
namespace TronDB.Routing
open TronDB.Core Binary Wal

/-! ### Co-occurrence -/

structure ColocationConfig where
  learnThreshold : F32
  decayFactor : F32
  maxGroupSize : Nat
  deriving DecidableEq, Repr

/-- The index with the scores of the pairs that were seen together. -/
structure LearningIndex extends AffinityIndex where
  implicit : FinMap (EntityId × EntityId) F32

def canonicalPair (a b : EntityId) : EntityId × EntityId := if a ≤ b then (a, b) else (b, a)

def laterPairs {α : Type} : List α → List (α × α)
  | [] => []
  | a :: rest => rest.map (a, ·) ++ laterPairs rest

def leastScore : F32 := ⟨0x3C23D70A⟩

namespace LearningIndex

def new : LearningIndex := ⟨.new, ∅⟩

def recordCooccurrence (idx : LearningIndex) (results : List EntityId) : LearningIndex :=
  if results.length < 2 then idx
  else
    let increment := F32.one.div (F64.ofInt (results.length - 1)).toF32
    { idx with
      implicit := (laterPairs results).foldl (fun implicit p =>
        let key := canonicalPair p.1 p.2
        implicit.insert key (match implicit[key]? with
          | some s => s.add increment
          | none => increment)) idx.implicit }

/-- The pairs over the threshold, as the map hands them out. -/
def toPromote (idx : LearningIndex) (cfg : ColocationConfig)
    (order : HashOrder ((EntityId × EntityId) × F32)) : List (EntityId × EntityId) :=
  ((order.order idx.implicit.toList).filter fun entry => entry.2.ge cfg.learnThreshold).map Prod.fst

def promoteAndDecay (idx : LearningIndex) (cfg : ColocationConfig)
    (order : HashOrder ((EntityId × EntityId) × F32)) : LearningIndex where
  toAffinityIndex := idx.toAffinityIndex.promoteAndDecay (idx.toPromote cfg order) cfg.maxGroupSize
  implicit := (idx.implicit.map fun _ score => score.mul cfg.decayFactor).filter fun _ score =>
    score.ge leastScore

end LearningIndex

/-- The calls, with the maximal group sizes they are made with. -/
inductive MembershipCall where
  | createGroup (id : AffinityGroupId)
  | addToGroup (entity : EntityId) (groupId : AffinityGroupId) (maxSize : Nat) (pair : 2 ≤ maxSize)
  | removeFromGroup (entity : EntityId)
  | recordCooccurrence (results : List EntityId)
  | promoteAndDecay (cfg : ColocationConfig) (order : HashOrder ((EntityId × EntityId) × F32))
    (pair : 2 ≤ cfg.maxGroupSize)

namespace MembershipCall

def maxSize : MembershipCall → Option Nat
  | .addToGroup _ _ maxSize _ => some maxSize
  | .promoteAndDecay cfg _ _ => some cfg.maxGroupSize
  | _ => none

end MembershipCall

def LearningIndex.step (idx : LearningIndex) : MembershipCall → LearningIndex
  | .createGroup id => { idx with
      toAffinityIndex := (idx.toAffinityIndex.createGroup id).toOption.getD idx.toAffinityIndex }
  | .addToGroup entity groupId maxSize _ => { idx with
      toAffinityIndex :=
        (idx.toAffinityIndex.addToGroup entity groupId maxSize).toOption.getD idx.toAffinityIndex }
  | .removeFromGroup entity => { idx with
      toAffinityIndex := idx.toAffinityIndex.removeFromGroup entity }
  | .recordCooccurrence results => idx.recordCooccurrence results
  | .promoteAndDecay cfg order _ => idx.promoteAndDecay cfg order

/-! ### Consistency -/

namespace AffinityIndex

/-- The members of the groups are the entities placed in them. -/
def Consistent (idx : AffinityIndex) : Prop :=
  ∀ (e : EntityId) (g : AffinityGroupId), idx.has g e = true ↔ idx.explicit[e]? = some g

def size (idx : AffinityIndex) (g : AffinityGroupId) : Nat :=
  match idx.groups[g]? with
  | some group => group.members.size
  | none => 0

def Keeps (idx idx' : AffinityIndex) : Prop :=
  ∀ (g : AffinityGroupId) (e : EntityId), idx.has g e = true → idx'.has g e = true

/-- A group that a promotion would make has no members yet. -/
def Unclaimed (idx : AffinityIndex) (p : EntityId × EntityId) : Prop :=
  idx.explicit[p.1]? = none → idx.explicit[p.2]? = none →
    ∀ e, idx.has (learnedId p.1 p.2) e = false

def withPair (idx : AffinityIndex) (a b : EntityId) : AffinityIndex :=
  let gid := learnedId a b
  { explicit := (idx.explicit.insert a gid).insert b gid
    groups := idx.groups.insert gid ⟨((∅ : FinMap EntityId Unit).insert a ()).insert b (), .learned⟩ }

variable {idx : AffinityIndex}

theorem size_insert (explicit : FinMap EntityId AffinityGroupId) (g : AffinityGroupId)
    (group : AffinityGroup) (g' : AffinityGroupId) :
    size ⟨explicit, idx.groups.insert g group⟩ g' =
      if g = g' then group.members.size else idx.size g' := by
  unfold size
  simp only [FinMap.get_insert]
  by_cases same : g = g' <;> simp [same]

theorem size_insert_le (m : FinMap EntityId Unit) (e : EntityId) :
    (m.insert e ()).size ≤ m.size + 1 := by
  rw [Std.ExtTreeMap.size_insert]
  split <;> omega

/-! #### A member -/

section Member
variable {g : AffinityGroupId} {group : AffinityGroup} (found : idx.groups[g]? = some group)
  (e : EntityId)

@[simp] theorem explicit_withMember (e' : EntityId) :
    (idx.withMember g group e).explicit[e']? = if e = e' then some g else idx.explicit[e']? :=
  FinMap.get_insert _ _ _ _

include found

theorem keeps_withMember : idx.Keeps (idx.withMember g group e) := by
  intro g' e' member
  rw [has_withMember found, member, Bool.or_true]

/-- A member can be put into a group exactly if it is in no other. -/
theorem consistent_withMember_iff (consistent : idx.Consistent) :
    (idx.withMember g group e).Consistent ↔ idx.explicit[e]? = none ∨ idx.explicit[e]? = some g := by
  constructor
  · intro after
    cases placed : idx.explicit[e]? with
    | none => exact .inl rfl
    | some g' =>
      have member := (consistent e g').mpr placed
      have still := (after e g').mp (keeps_withMember found e g' e member)
      simp only [explicit_withMember, if_true] at still
      exact .inr still.symm
  · intro free e' g'
    simp only [has_withMember found, explicit_withMember, Bool.or_eq_true, decide_eq_true_eq,
      consistent e' g']
    by_cases here : e = e'
    · subst here
      simp only [and_true, if_true, Option.some.injEq]
      constructor
      · rintro (same | placed)
        · exact same
        · rcases free with none_ | same
          · simp [none_] at placed
          · exact Option.some.inj (same.symm.trans placed)
      · exact .inl
    · simp [here]

omit found in
theorem size_withMember {maxSize : Nat} (room : group.members.size < maxSize)
    (g' : AffinityGroupId) :
    (idx.withMember g group e).size g' = idx.size g' ∨
      (idx.withMember g group e).size g' ≤ maxSize := by
  unfold withMember
  simp only [size_insert]
  split
  · have grown := size_insert_le group.members e
    exact .inr (by omega)
  · exact .inl rfl

end Member

/-! #### Creation and removal -/

theorem consistent_createGroup (consistent : idx.Consistent) (g : AffinityGroupId) :
    ((idx.createGroup g).toOption.getD idx).Consistent := by
  unfold createGroup
  split
  · exact consistent
  · rename_i absent
    intro e g'
    change has ⟨idx.explicit, idx.groups.insert g ⟨∅, .explicit⟩⟩ g' e = true ↔
      idx.explicit[e]? = some g'
    rw [has_insert]
    split
    · rename_i same
      subst same
      have none_ : idx.has g e = false := by
        have unknown : idx.groups[g]? = none := by simpa using absent
        simp [has, unknown]
      simpa [none_] using consistent e g
    · exact consistent e g'

theorem size_createGroup (g g' : AffinityGroupId) :
    ((idx.createGroup g).toOption.getD idx).size g' ≤ idx.size g' := by
  unfold createGroup
  split
  · exact Nat.le_refl _
  · change size ⟨idx.explicit, idx.groups.insert g ⟨∅, .explicit⟩⟩ g' ≤ _
    rw [size_insert]
    split <;> simp

theorem consistent_remove (consistent : idx.Consistent) (e : EntityId) :
    (idx.removeFromGroup e).Consistent := by
  intro e' g
  rw [has_remove, explicit_remove]
  have before := consistent e' g
  by_cases here : e = e'
  · subst here
    by_cases placed : idx.explicit[e]? = some g
    · simp [groupFor, placed]
    · simp [groupFor, placed, before]
  · simp [here, Ne.symm here, before]

theorem size_remove (e : EntityId) (g : AffinityGroupId) :
    (idx.removeFromGroup e).size g ≤ idx.size g := by
  unfold removeFromGroup
  split
  · exact Nat.le_refl _
  · rename_i g' placed
    unfold size
    dsimp only
    rw [FinMap.get_adjust]
    by_cases same : g' = g
    · rw [if_pos same]
      cases idx.groups[g]? with
      | none => exact Nat.le_refl _
      | some group => exact Std.ExtTreeMap.size_erase_le
    · rw [if_neg same]

/-! #### A pair -/

/-- What a promoted pair leads to: nothing, another member of a group that has room, or a group. -/
theorem createImplicitGroup_cases (idx : AffinityIndex) (p : EntityId × EntityId) (maxSize : Nat) :
    let after := idx.createImplicitGroup p.1 p.2 maxSize
    (¬ (idx.explicit[p.1]? = none ∧ idx.explicit[p.2]? = none) ∧ (after = idx ∨
      ∃ g group e, idx.groups[g]? = some group ∧ idx.explicit[e]? = none ∧
        group.members.size < maxSize ∧ after = idx.withMember g group e)) ∨
    (idx.explicit[p.1]? = none ∧ idx.explicit[p.2]? = none ∧ after = idx.withPair p.1 p.2) := by
  intro after
  have learned (e : EntityId) (g : AffinityGroupId) (free : idx.explicit[e]? = none) :
      idx.learn e g maxSize = idx ∨ ∃ g' group e', idx.groups[g']? = some group ∧
        idx.explicit[e']? = none ∧ group.members.size < maxSize ∧
          idx.learn e g maxSize = idx.withMember g' group e' := by
    unfold learn
    cases found : idx.groups[g]? with
    | none => exact .inl rfl
    | some group =>
      by_cases room : group.members.size < maxSize
      · exact .inr ⟨g, group, e, found, free, room, if_pos room⟩
      · exact .inl (if_neg room)
  cases first : idx.explicit[p.1]? with
  | none =>
    cases second : idx.explicit[p.2]? with
    | none => exact .inr ⟨rfl, rfl, by simp only [after, createImplicitGroup, first, second]; rfl⟩
    | some g =>
      have same : after = idx.learn p.1 g maxSize := by
        simp only [after, createImplicitGroup, first, second]
      exact .inl ⟨by simp, same ▸ learned p.1 g first⟩
  | some g =>
    cases second : idx.explicit[p.2]? with
    | none =>
      have same : after = idx.learn p.2 g maxSize := by
        simp only [after, createImplicitGroup, first, second]
      exact .inl ⟨by simp, same ▸ learned p.2 g second⟩
    | some g' =>
      exact .inl ⟨by simp, .inl (by simp only [after, createImplicitGroup, first, second])⟩

theorem has_withPair (a b : EntityId) (g : AffinityGroupId) (e : EntityId) :
    (idx.withPair a b).has g e =
      if learnedId a b = g then decide (a = e ∨ b = e) else idx.has g e := by
  refine (has_insert idx _ _ _ g e).trans ?_
  by_cases same : learnedId a b = g
  · simp only [same, if_true, Std.ExtTreeMap.contains_eq_isSome_getElem?, FinMap.get_insert]
    by_cases second : b = e <;> by_cases first : a = e <;> simp [first, second]
  · simp [same]

theorem explicit_withPair (a b e : EntityId) :
    (idx.withPair a b).explicit[e]? =
      if a = e ∨ b = e then some (learnedId a b) else idx.explicit[e]? := by
  unfold withPair
  simp only [FinMap.get_insert]
  by_cases second : b = e <;> by_cases first : a = e <;> simp [first, second]

theorem size_withPair (a b : EntityId) {maxSize : Nat} (pair : 2 ≤ maxSize) (g : AffinityGroupId) :
    (idx.withPair a b).size g = idx.size g ∨ (idx.withPair a b).size g ≤ maxSize := by
  unfold withPair
  simp only [size_insert]
  split
  · have first := size_insert_le ∅ a
    have second := size_insert_le ((∅ : FinMap EntityId Unit).insert a ()) b
    have empty : (∅ : FinMap EntityId Unit).size = 0 := rfl
    exact .inr (by omega)
  · exact .inl rfl

section Pair
variable (consistent : idx.Consistent) (p : EntityId × EntityId) (maxSize : Nat)
include consistent

/-- A promotion discards no members exactly if the group it makes has none. -/
theorem keeps_iff_unclaimed :
    idx.Keeps (idx.createImplicitGroup p.1 p.2 maxSize) ↔ idx.Unclaimed p := by
  rcases idx.createImplicitGroup_cases p maxSize with ⟨placed, same | learned⟩ | ⟨free, free', made⟩
  · rw [same]
    exact ⟨fun _ free free' => absurd ⟨free, free'⟩ placed, fun _ _ _ member => member⟩
  · obtain ⟨g, group, e, found, -, -, grown⟩ := learned
    rw [grown]
    exact ⟨fun _ free free' => absurd ⟨free, free'⟩ placed, fun _ => keeps_withMember found e⟩
  · rw [made]
    constructor
    · intro keeps _ _ e
      apply Bool.eq_false_iff.mpr
      intro member
      have still := keeps _ e member
      have placed := (consistent e _).mp member
      rw [has_withPair, if_pos rfl, decide_eq_true_eq] at still
      rcases still with rfl | rfl
      · simp [free] at placed
      · simp [free'] at placed
    · intro unclaimed g e member
      rw [has_withPair]
      split
      · rename_i same
        rw [← same, unclaimed free free' e] at member
        cases member
      · exact member

theorem consistent_create (unclaimed : idx.Unclaimed p) :
    (idx.createImplicitGroup p.1 p.2 maxSize).Consistent := by
  rcases idx.createImplicitGroup_cases p maxSize with ⟨-, same | learned⟩ | ⟨free, free', made⟩
  · rwa [same]
  · obtain ⟨g, group, e, found, unplaced, -, grown⟩ := learned
    rw [grown]
    exact (consistent_withMember_iff found e consistent).mpr (.inl unplaced)
  · rw [made]
    intro e g
    rw [has_withPair, explicit_withPair]
    by_cases own : p.1 = e ∨ p.2 = e
    · have unplaced : idx.explicit[e]? = none := by
        rcases own with rfl | rfl
        · exact free
        · exact free'
      have outside : idx.has g e = false := by simpa [unplaced] using consistent e g
      by_cases same : learnedId p.1 p.2 = g <;> simp [own, same, outside]
    · by_cases same : learnedId p.1 p.2 = g
      · have outside := unclaimed free free' e
        have unplaced := consistent e (learnedId p.1 p.2)
        rw [same] at outside unplaced
        simpa [own, same, outside] using unplaced
      · simpa [own, same] using consistent e g

end Pair

theorem size_create (p : EntityId × EntityId) {maxSize : Nat} (pair : 2 ≤ maxSize)
    (g : AffinityGroupId) :
    (idx.createImplicitGroup p.1 p.2 maxSize).size g = idx.size g ∨
      (idx.createImplicitGroup p.1 p.2 maxSize).size g ≤ maxSize := by
  rcases idx.createImplicitGroup_cases p maxSize with ⟨-, same | learned⟩ | ⟨-, -, made⟩
  · exact .inl (by rw [same])
  · obtain ⟨g', group, e, -, -, room, grown⟩ := learned
    rw [grown]
    exact size_withMember e room g
  · rw [made]
    exact size_withPair p.1 p.2 pair g

end AffinityIndex

/-! ### Runs -/

namespace LearningIndex

/-- Each promoted pair with the index as it is when its turn comes. -/
def promotions (idx : LearningIndex) (cfg : ColocationConfig)
    (order : HashOrder ((EntityId × EntityId) × F32)) :
    List (AffinityIndex × (EntityId × EntityId)) :=
  Run.taken (fun idx p => idx.createImplicitGroup p.1 p.2 cfg.maxGroupSize) idx.toAffinityIndex
    (idx.toPromote cfg order)

/-- What a call should do: a group grows to the maximal size at most, and no members of another
group are discarded for a learned one. -/
structure Sound (idx : LearningIndex) (call : MembershipCall) : Prop where
  consistent : (idx.step call).Consistent
  bounded : ∀ g, idx.size g < (idx.step call).size g →
    ∃ maxSize, call.maxSize = some maxSize ∧ (idx.step call).size g ≤ maxSize
  keeps : ∀ cfg order pair, call = .promoteAndDecay cfg order pair →
    ∀ p ∈ idx.promotions cfg order, p.1.Keeps (p.1.createImplicitGroup p.2.1 p.2.2 cfg.maxGroupSize)

/-- An entity is added to a group while it is in no other, and a group is learned under a name that
no group with members has. -/
def Apart (idx : LearningIndex) : MembershipCall → Prop
  | .addToGroup entity groupId maxSize _ =>
    ∀ group, idx.groups[groupId]? = some group → group.members.size < maxSize →
      idx.explicit[entity]? = none ∨ idx.explicit[entity]? = some groupId
  | .promoteAndDecay cfg order _ => ∀ p ∈ idx.promotions cfg order, p.1.Unclaimed p.2
  | _ => True

variable {idx : LearningIndex}

/-- A call that makes no group larger, and is no promotion, is sound if it keeps the index
consistent. -/
theorem sound_of_smaller {call : MembershipCall} (consistent : (idx.step call).Consistent)
    (smaller : ∀ g, (idx.step call).size g ≤ idx.size g)
    (other : ∀ cfg order pair, call ≠ .promoteAndDecay cfg order pair) : idx.Sound call where
  consistent := consistent
  bounded g grown := absurd grown (Nat.not_lt_of_le (smaller g))
  keeps cfg order pair same := absurd same (other cfg order pair)

theorem sound_addToGroup_iff (consistent : idx.Consistent) (entity : EntityId)
    (groupId : AffinityGroupId) (maxSize : Nat) (pair : 2 ≤ maxSize) :
    idx.Sound (.addToGroup entity groupId maxSize pair) ↔
      idx.Apart (.addToGroup entity groupId maxSize pair) := by
  cases found : idx.groups[groupId]? with
  | none =>
    have same : idx.step (.addToGroup entity groupId maxSize pair) = idx := by
      simp [step, AffinityIndex.addToGroup, found, Except.toOption]
    refine iff_of_true (sound_of_smaller ?_ ?_ nofun) ?_
    · rwa [same]
    · exact fun g => by rw [same]
    · intro group there
      simp [found] at there
  | some group =>
    by_cases room : group.members.size < maxSize
    · have grown : (idx.step (.addToGroup entity groupId maxSize pair)).toAffinityIndex =
          idx.toAffinityIndex.withMember groupId group entity := by
        simp [step, AffinityIndex.addToGroup, found, Except.toOption, Nat.not_le_of_lt room]
        rfl
      have decided := AffinityIndex.consistent_withMember_iff found entity consistent
      constructor
      · intro sound group' there _
        have after := sound.consistent
        rw [grown] at after
        exact decided.mp after
      · intro apart
        refine ⟨?_, fun g more => ⟨maxSize, rfl, ?_⟩, nofun⟩
        · rw [grown]
          exact decided.mpr (apart group found room)
        · rw [grown] at more ⊢
          rcases AffinityIndex.size_withMember entity room g with same | bound
          · exact absurd more (by rw [same]; exact Nat.lt_irrefl _)
          · exact bound
    · have same : idx.step (.addToGroup entity groupId maxSize pair) = idx := by
        simp [step, AffinityIndex.addToGroup, found, Except.toOption, Nat.le_of_not_lt room]
      refine iff_of_true (sound_of_smaller ?_ ?_ nofun) ?_
      · rwa [same]
      · exact fun g => by rw [same]
      · intro group' there room'
        rw [found] at there
        cases there
        exact absurd room' room

/-- The promotions of a call are sound exactly if none of them makes a group that has members. -/
theorem sound_promoteAndDecay_iff (consistent : idx.Consistent) (cfg : ColocationConfig)
    (order : HashOrder ((EntityId × EntityId) × F32)) (pair : 2 ≤ cfg.maxGroupSize) :
    idx.Sound (.promoteAndDecay cfg order pair) ↔ idx.Apart (.promoteAndDecay cfg order pair) := by
  have decided := Run.each_iff_guarded
    (fun (idx : AffinityIndex) p => idx.createImplicitGroup p.1 p.2 cfg.maxGroupSize)
    AffinityIndex.Consistent
    (fun idx p => idx.Keeps (idx.createImplicitGroup p.1 p.2 cfg.maxGroupSize))
    AffinityIndex.Unclaimed (idx.toPromote cfg order) consistent
    (fun _ p consistent keeps => AffinityIndex.consistent_create consistent p _
      ((AffinityIndex.keeps_iff_unclaimed consistent p _).mp keeps))
    (fun _ p consistent => AffinityIndex.keeps_iff_unclaimed consistent p _)
  constructor
  · intro sound
    exact decided.mp (sound.keeps cfg order pair rfl)
  · intro apart
    refine ⟨?_, fun g more => ⟨_, rfl, ?_⟩, ?_⟩
    · exact Run.invariant_under _ AffinityIndex.Unclaimed _ consistent apart
        (fun _ p consistent unclaimed => AffinityIndex.consistent_create consistent p _ unclaimed) _
        (Run.end_visited _ _ _)
    · -- each promotion leaves the size as it is, or within the bound
      have bound : (idx.step (.promoteAndDecay cfg order pair)).size g = idx.size g ∨
          (idx.step (.promoteAndDecay cfg order pair)).size g ≤ cfg.maxGroupSize :=
        @Run.invariant_end _ _ _ (fun idx' : AffinityIndex =>
            idx'.size g = idx.size g ∨ idx'.size g ≤ cfg.maxGroupSize) _ _ (.inl rfl) (by
          intro idx' p before
          rcases AffinityIndex.size_create p pair g with same | bound
          · rwa [same]
          · exact .inr bound)
      exact bound.resolve_left fun same => absurd more (by rw [same]; exact Nat.lt_irrefl _)
    · intro cfg' order' pair' same
      cases same
      exact decided.mpr apart

theorem sound_iff_apart (consistent : idx.Consistent) (call : MembershipCall) :
    idx.Sound call ↔ idx.Apart call := by
  cases call with
  | createGroup id =>
    exact iff_of_true (sound_of_smaller (AffinityIndex.consistent_createGroup consistent id)
      (AffinityIndex.size_createGroup id) nofun) trivial
  | addToGroup entity groupId maxSize pair =>
    exact sound_addToGroup_iff consistent entity groupId maxSize pair
  | removeFromGroup entity =>
    exact iff_of_true (sound_of_smaller (AffinityIndex.consistent_remove consistent entity)
      (AffinityIndex.size_remove entity) nofun) trivial
  | recordCooccurrence results =>
    have same : (idx.step (.recordCooccurrence results)).toAffinityIndex = idx.toAffinityIndex := by
      simp only [step, recordCooccurrence]
      split <;> rfl
    refine iff_of_true (sound_of_smaller ?_ (fun g => ?_) nofun) trivial
    · rwa [same]
    · rw [same]
  | promoteAndDecay cfg order pair => exact sound_promoteAndDecay_iff consistent cfg order pair

theorem consistent_new : new.Consistent := by
  intro e g
  simp [new, AffinityIndex.new, AffinityIndex.has]

/-- Along a run, all calls are sound and all states consistent exactly if entities and names are
kept apart. -/
theorem membership_consistent_iff (calls : List MembershipCall) :
    ((∀ idx ∈ Run.visited step new calls, idx.Consistent) ∧
        ∀ p ∈ Run.taken step new calls, p.1.Sound p.2) ↔
      ∀ p ∈ Run.taken step new calls, p.1.Apart p.2 := by
  have decided := Run.each_iff_guarded step (fun idx : LearningIndex => idx.Consistent) Sound Apart
    calls consistent_new (fun _ _ _ sound => sound.consistent)
    (fun _ call consistent => sound_iff_apart consistent call)
  rw [← decided, Run.forall_visited_iff]
  exact ⟨And.right, fun sound => ⟨⟨consistent_new, fun p there => (sound p there).consistent⟩, sound⟩⟩

/-- Two groups, and an entity added to one and then to the other. -/
def addedTwice : List MembershipCall :=
  [.createGroup "g1", .createGroup "g2", .addToGroup "e" "g1" 2 (by decide),
    .addToGroup "e" "g2" 2 (by decide)]

/-- The entity stays a member of the first. -/
theorem inconsistent_addedTwice : ¬ ∀ calls : List MembershipCall,
    (∀ idx ∈ Run.visited step new calls, idx.Consistent) ∧
      ∀ p ∈ Run.taken step new calls, p.1.Sound p.2 := by
  intro always
  have after := (always addedTwice).1 _ (Run.end_visited _ _ _) "e" "g1"
  revert after
  decide

end LearningIndex
end TronDB.Routing
