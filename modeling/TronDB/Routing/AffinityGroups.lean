import Mathlib.Logic.Function.Basic
import TronDB.Routing.Affinity

/-! The explicit groups of an affinity index, and what each operation does to them. -/
namespace TronDB.Routing
open TronDB.Core

/-! ### Explicit groups as such -/

/-- What the calls are about: groups, the group an entity was last put into, and members. -/
@[ext] structure ExplicitGroups where
  groups : AffinityGroupId → Prop
  placed : EntityId → Option AffinityGroupId
  members : AffinityGroupId → EntityId → Prop

namespace ExplicitGroups

def create (v : ExplicitGroups) (g : AffinityGroupId) : ExplicitGroups :=
  { v with groups := fun g' => g' = g ∨ v.groups g' }

open Classical in
noncomputable def put (v : ExplicitGroups) (g : AffinityGroupId) (e : EntityId) : ExplicitGroups :=
  if v.groups g then
    { v with
      placed := Function.update v.placed e (some g)
      members := fun g' e' => g' = g ∧ e' = e ∨ v.members g' e' }
  else v

def takeOut (v : ExplicitGroups) (e : EntityId) : ExplicitGroups :=
  { v with
    placed := Function.update v.placed e none
    members := fun g' e' => v.members g' e' ∧ ¬ (e' = e ∧ v.placed e = some g') }

noncomputable def record (v : ExplicitGroups) : AffinityRecord → ExplicitGroups
  | .groupCreate g => v.create g
  | .groupMember g e => v.put g e
  | .groupRemove e _ => v.takeOut e

/-- Two records that may change places: of two entities, or of one to the same end. -/
def Independent : AffinityRecord → AffinityRecord → Prop
  | .groupMember g e, .groupMember g' e' => e ≠ e' ∨ g = g'
  | .groupMember _ e, .groupRemove e' _ => e ≠ e'
  | .groupRemove e _, .groupMember _ e' => e ≠ e'
  | _, _ => True

instance (r r' : AffinityRecord) : Decidable (Independent r r') := by
  unfold Independent
  split <;> infer_instance

theorem groups_put (v : ExplicitGroups) (g : AffinityGroupId) (e : EntityId) :
    (v.put g e).groups = v.groups := by
  unfold put
  split <;> rfl

theorem groups_record (v : ExplicitGroups) (r : AffinityRecord) (g : AffinityGroupId) :
    (v.record r).groups g ↔ r = .groupCreate g ∨ v.groups g := by
  cases r with
  | groupCreate g' => simp [record, create, eq_comm]
  | groupMember g' e => simp [record, groups_put]
  | groupRemove e g' => simp [record, takeOut]

theorem groups_fold (v : ExplicitGroups) (rs : List AffinityRecord) (g : AffinityGroupId) :
    (rs.foldl record v).groups g ↔ .groupCreate g ∈ rs ∨ v.groups g := by
  induction rs generalizing v with
  | nil => simp
  | cons r rest ih =>
    rw [List.foldl_cons, ih, groups_record, List.mem_cons, eq_comm (a := r)]
    exact or_left_comm.trans or_assoc.symm

theorem members_record {v : ExplicitGroups} {r : AffinityRecord} {g : AffinityGroupId} {e : EntityId}
    (member : (v.record r).members g e) : r = .groupMember g e ∨ v.members g e := by
  cases r with
  | groupCreate g' => exact .inr member
  | groupMember g' e' =>
    unfold record put at member
    dsimp only at member
    split at member
    · rcases member with ⟨rfl, rfl⟩ | before
      · exact .inl rfl
      · exact .inr before
    · exact .inr member
  | groupRemove e' g' => exact .inr member.1

theorem members_fold {v : ExplicitGroups} (rs : List AffinityRecord) {g : AffinityGroupId}
    {e : EntityId} (member : (rs.foldl record v).members g e) :
    .groupMember g e ∈ rs ∨ v.members g e := by
  induction rs generalizing v with
  | nil => exact .inr member
  | cons r rest ih =>
    rcases ih member with later | here
    · exact .inl (List.mem_cons_of_mem _ later)
    · rcases members_record here with rfl | before
      · exact .inl List.mem_cons_self
      · exact .inr before

section Commute
variable (v : ExplicitGroups)

theorem create_create (g g' : AffinityGroupId) : (v.create g).create g' = (v.create g').create g := by
  ext
  · exact or_left_comm
  · rfl
  · rfl

theorem create_put {g g' : AffinityGroupId} (e : EntityId) (grounded : g = g' → v.groups g) :
    (v.create g).put g' e = (v.put g' e).create g := by
  have known : (v.create g).groups g' ↔ v.groups g' := by
    constructor
    · rintro (same | there)
      · rw [same]
        exact grounded same.symm
      · exact there
    · exact .inr
  unfold put
  by_cases there : v.groups g'
  · rw [if_pos (known.mpr there), if_pos there]
    rfl
  · rw [if_neg fun now => there (known.mp now), if_neg there]

theorem put_put {g g' : AffinityGroupId} {e e' : EntityId} (apart : e ≠ e' ∨ g = g') :
    (v.put g e).put g' e' = (v.put g' e').put g e := by
  by_cases same : e = e'
  · obtain rfl : g = g' := apart.resolve_left fun differ => differ same
    rw [same]
  · by_cases there : v.groups g
    · by_cases there' : v.groups g'
      · simp only [put, there, there', if_true]
        rw [Function.update_comm (Ne.symm same)]
        congr 1
        funext g₁ e₁
        exact propext or_left_comm
      · simp [put, there, there']
    · by_cases there' : v.groups g' <;> simp [put, there, there']

theorem put_takeOut (g : AffinityGroupId) {e e' : EntityId} (apart : e ≠ e') :
    (v.put g e).takeOut e' = (v.takeOut e').put g e := by
  by_cases there : v.groups g
  · have placed : Function.update v.placed e (some g) e' = v.placed e' :=
      Function.update_of_ne (Ne.symm apart) _ _
    simp only [put, takeOut, there, if_true, placed]
    rw [Function.update_comm apart]
    congr 1
    funext g₁ e₁
    refine propext ⟨?_, ?_⟩
    · rintro ⟨here | before, kept⟩
      · exact .inl here
      · exact .inr ⟨before, kept⟩
    · rintro (here | ⟨before, kept⟩)
      · exact ⟨.inl here, fun both => apart (here.2.symm.trans both.1)⟩
      · exact ⟨.inr before, kept⟩
  · simp [put, takeOut, there]

theorem takeOut_takeOut (e e' : EntityId) :
    (v.takeOut e).takeOut e' = (v.takeOut e').takeOut e := by
  by_cases same : e = e'
  · rw [same]
  · unfold takeOut
    rw [Function.update_comm same]
    dsimp only
    rw [Function.update_of_ne (Ne.symm same), Function.update_of_ne same]
    congr 1
    funext g₁ e₁
    exact propext and_right_comm

theorem record_comm {r r' : AffinityRecord} (apart : Independent r r')
    (grounded : ∀ g e, .groupCreate g = r ∧ .groupMember g e = r' ∨
      .groupCreate g = r' ∧ .groupMember g e = r → v.groups g) :
    (v.record r).record r' = (v.record r').record r := by
  cases r with
  | groupCreate g =>
    cases r' with
    | groupCreate g' => exact create_create v g g'
    | groupMember g' e =>
      refine create_put v e fun same => grounded g e (.inl ⟨rfl, ?_⟩)
      rw [same]
    | groupRemove e g' => rfl
  | groupMember g e =>
    cases r' with
    | groupCreate g' =>
      refine (create_put v e fun same => grounded g' e (.inr ⟨rfl, ?_⟩)).symm
      rw [same]
    | groupMember g' e' => exact put_put v apart
    | groupRemove e' g' => exact put_takeOut v g apart
  | groupRemove e g =>
    cases r' with
    | groupCreate g' => rfl
    | groupMember g' e' => exact (put_takeOut v g' (Ne.symm apart)).symm
    | groupRemove e' g' => exact takeOut_takeOut v e e'

end Commute
end ExplicitGroups

/-! ### The explicit groups of an index -/

namespace AffinityIndex
variable (idx : AffinityIndex) (learned : EntityId → AffinityGroupId → Bool)

def shown : ExplicitGroups where
  groups g := idx.isExplicit g = true
  placed e := idx.explicit[e]?.filter fun g => idx.isExplicit g && !learned e g
  members g e := idx.isExplicit g = true ∧ idx.has g e = true ∧ learned e g = false

def Rooted : Prop := ∀ (e : EntityId) (g : AffinityGroupId), idx.explicit[e]? = some g → idx.groups.contains g = true

theorem isExplicit_insert (explicit : FinMap EntityId AffinityGroupId) (g : AffinityGroupId)
    (group : AffinityGroup) (g' : AffinityGroupId) :
    isExplicit ⟨explicit, idx.groups.insert g group⟩ g' =
      if g = g' then decide (group.source = .explicit) else idx.isExplicit g' := by
  unfold isExplicit
  dsimp only
  rw [FinMap.get_insert]
  by_cases same : g = g'
  · rw [if_pos same, if_pos same]
  · rw [if_neg same, if_neg same]

theorem has_insert (explicit : FinMap EntityId AffinityGroupId) (g : AffinityGroupId)
    (group : AffinityGroup) (g' : AffinityGroupId) (e : EntityId) :
    has ⟨explicit, idx.groups.insert g group⟩ g' e =
      if g = g' then group.members.contains e else idx.has g' e := by
  unfold has
  dsimp only
  rw [FinMap.get_insert]
  by_cases same : g = g'
  · rw [if_pos same, if_pos same]
  · rw [if_neg same, if_neg same]

variable {idx}

theorem isExplicit_of {g : AffinityGroupId} {group : AffinityGroup}
    (found : idx.groups[g]? = some group) : idx.isExplicit g = decide (group.source = .explicit) := by
  unfold isExplicit
  rw [found]

theorem has_of {g : AffinityGroupId} {group : AffinityGroup} (found : idx.groups[g]? = some group)
    (e : EntityId) : idx.has g e = group.members.contains e := by
  unfold has
  rw [found]

theorem isExplicit_absent {g : AffinityGroupId} (absent : idx.groups[g]? = none) :
    idx.isExplicit g = false := by
  unfold isExplicit
  rw [absent]

/-- An index with a member put into a group that is there. -/
def withMember (idx : AffinityIndex) (g : AffinityGroupId) (group : AffinityGroup) (e : EntityId) :
    AffinityIndex :=
  { explicit := idx.explicit.insert e g
    groups := idx.groups.insert g { group with members := group.members.insert e () } }

section Member
variable {g : AffinityGroupId} {group : AffinityGroup} (found : idx.groups[g]? = some group)
  (e : EntityId)
include found

theorem isExplicit_withMember (g' : AffinityGroupId) :
    (idx.withMember g group e).isExplicit g' = idx.isExplicit g' := by
  refine (isExplicit_insert idx _ g _ g').trans ?_
  split
  · rename_i same
    rw [← same, isExplicit_of found]
  · rfl

theorem has_withMember (g' : AffinityGroupId) (e' : EntityId) :
    (idx.withMember g group e).has g' e' = (decide (g = g' ∧ e = e') || idx.has g' e') := by
  refine (has_insert idx _ g _ g' e').trans ?_
  split
  · rename_i same
    subst same
    rw [has_of found]
    dsimp only
    rw [Std.ExtTreeMap.contains_eq_isSome_getElem?, Std.ExtTreeMap.contains_eq_isSome_getElem?,
      FinMap.get_insert]
    by_cases here : e = e' <;> simp [here]
  · rename_i differ
    rw [decide_eq_false fun both => differ both.1, Bool.false_or]

omit found in
theorem rooted_withMember (rooted : idx.Rooted) : (idx.withMember g group e).Rooted := by
  intro e' g' placed
  unfold withMember at placed ⊢
  dsimp only at placed ⊢
  rw [FinMap.get_insert] at placed
  rw [Std.ExtTreeMap.contains_insert]
  split at placed
  · cases placed
    simp
  · rw [rooted e' g' placed, Bool.or_true]

end Member

/-! ### What an operation shows -/

section Shown
variable {learned : EntityId → AffinityGroupId → Bool}

theorem shown_ext {idx' : AffinityIndex} {learned' : EntityId → AffinityGroupId → Bool}
    {v : ExplicitGroups} (groups : ∀ g, idx'.isExplicit g = true ↔ v.groups g)
    (placed : ∀ e, (idx'.explicit[e]?.filter fun g => idx'.isExplicit g && !learned' e g) = v.placed e)
    (members : ∀ g e, idx'.isExplicit g = true ∧ idx'.has g e = true ∧ learned' e g = false ↔
      v.members g e) : idx'.shown learned' = v := by
  ext g e
  · exact groups g
  · exact iff_of_eq (congrArg (· = _) (placed g))
  · exact members g e

/-- A group that is made, or is there as an explicit one. -/
theorem shown_createGroup (rooted : idx.Rooted) {g : AffinityGroupId}
    (free : idx.groups.contains g = true → idx.isExplicit g = true) :
    ((idx.createGroup g).toOption.getD idx).shown learned = (idx.shown learned).create g := by
  unfold createGroup
  split
  · rename_i there
    have explicit := free there
    refine shown_ext (fun g' => ?_) (fun e => rfl) (fun g' e => Iff.rfl)
    constructor
    · exact .inr
    · rintro (rfl | shown)
      · exact explicit
      · exact shown
  · rename_i absent
    have none_ : idx.groups[g]? = none := by
      rw [Std.ExtTreeMap.contains_eq_isSome_getElem?] at absent
      exact Option.not_isSome_iff_eq_none.mp absent
    refine shown_ext (fun g' => ?_) (fun e => ?_) (fun g' e => ?_)
    · change isExplicit ⟨idx.explicit, idx.groups.insert g ⟨∅, .explicit⟩⟩ g' = true ↔ _
      rw [isExplicit_insert]
      by_cases same : g = g'
      · rw [if_pos same, same]
        exact iff_of_true rfl (.inl rfl)
      · rw [if_neg same]
        exact ⟨.inr, fun either => either.resolve_left fun here => same here.symm⟩
    · change ((idx.explicit[e]?).filter fun g' => isExplicit ⟨idx.explicit, idx.groups.insert g
        ⟨∅, .explicit⟩⟩ g' && !learned e g') = (idx.explicit[e]?).filter _
      cases placed : idx.explicit[e]? with
      | none => rfl
      | some g' =>
        have differ : g ≠ g' := by
          rintro rfl
          exact absent (rooted e g placed)
        rw [Option.filter_some, Option.filter_some, isExplicit_insert, if_neg differ]
    · change isExplicit ⟨idx.explicit, idx.groups.insert g ⟨∅, .explicit⟩⟩ g' = true ∧
        has ⟨idx.explicit, idx.groups.insert g ⟨∅, .explicit⟩⟩ g' e = true ∧ _ ↔ _
      rw [isExplicit_insert, has_insert]
      by_cases same : g = g'
      · subst same
        rw [if_pos rfl, if_pos rfl]
        constructor
        · rintro ⟨-, member, -⟩
          simp at member
        · rintro ⟨explicit, -, -⟩
          rw [isExplicit_absent none_] at explicit
          cases explicit
      · rw [if_neg same, if_neg same]
        exact Iff.rfl

theorem shown_put {g : AffinityGroupId} {group : AffinityGroup} (found : idx.groups[g]? = some group)
    (e : EntityId) (explicit : idx.isExplicit g = true) :
    (idx.withMember g group e).shown (fun e' g' => learned e' g' && !(e' = e && g' = g)) =
      (idx.shown learned).put g e := by
  have there : (idx.shown learned).groups g := explicit
  unfold ExplicitGroups.put
  rw [if_pos there]
  refine shown_ext (fun g' => ?_) (fun e' => ?_) (fun g' e' => ?_)
  · rw [isExplicit_withMember found]
    exact Iff.rfl
  · simp only [isExplicit_withMember found]
    unfold withMember
    dsimp only
    rw [FinMap.get_insert]
    by_cases here : e = e'
    · subst here
      rw [if_pos rfl, Function.update_self]
      simp [explicit]
    · rw [if_neg here, Function.update_of_ne (Ne.symm here)]
      simp [Ne.symm here, shown]
  · rw [isExplicit_withMember found, has_withMember found]
    by_cases here : g = g' ∧ e = e'
    · obtain ⟨rfl, rfl⟩ := here
      simp [explicit]
    · have other : ¬ (g' = g ∧ e' = e) := fun both => here ⟨both.1.symm, both.2.symm⟩
      have same : (decide (e' = e) && decide (g' = g)) = false := by
        rw [← Bool.decide_and, decide_eq_false fun both => other both.symm]
      simp only [decide_eq_false here, Bool.false_or, same, Bool.not_false, Bool.and_true, shown]
      exact (or_iff_right other).symm

theorem shown_unseen {g : AffinityGroupId} {group : AffinityGroup}
    (found : idx.groups[g]? = some group) {e : EntityId} (unseen : idx.isExplicit g = false)
    (free : (idx.shown learned).placed e = none) {learned' : EntityId → AffinityGroupId → Bool}
    (same : ∀ e' g', g ≠ g' → learned' e' g' = learned e' g') :
    (idx.withMember g group e).shown learned' = idx.shown learned := by
  have differs {g' : AffinityGroupId} (explicit : idx.isExplicit g' = true) : g ≠ g' := by
    rintro rfl
    rw [unseen] at explicit
    cases explicit
  refine shown_ext (fun g' => ?_) (fun e' => ?_) (fun g' e' => ?_)
  · rw [isExplicit_withMember found]
    exact Iff.rfl
  · simp only [isExplicit_withMember found]
    unfold withMember
    dsimp only
    rw [FinMap.get_insert]
    by_cases here : e = e'
    · subst here
      rw [if_pos rfl, free]
      simp [unseen]
    · rw [if_neg here]
      refine congrArg (Option.filter · idx.explicit[e']?) (funext fun g' => ?_)
      cases explicit : idx.isExplicit g' with
      | false => rfl
      | true => rw [same e' g' (differs explicit)]
  · rw [isExplicit_withMember found, has_withMember found]
    refine and_congr_right fun explicit => ?_
    rw [same e' g' (differs explicit), decide_eq_false fun both => differs explicit both.1,
      Bool.false_or]

theorem shown_learned {g : AffinityGroupId} {group : AffinityGroup}
    (found : idx.groups[g]? = some group) {e : EntityId} (new : idx.has g e = false)
    (free : idx.explicit[e]? = none) :
    (idx.withMember g group e).shown (fun e' g' => learned e' g' ||
      ((idx.withMember g group e).has g' e' && !idx.has g' e')) = idx.shown learned := by
  refine shown_ext (fun g' => ?_) (fun e' => ?_) (fun g' e' => ?_)
  · rw [isExplicit_withMember found]
    exact Iff.rfl
  · simp only [isExplicit_withMember found, has_withMember found]
    unfold withMember shown
    dsimp only
    rw [FinMap.get_insert]
    by_cases here : e = e'
    · subst here
      rw [if_pos rfl, free]
      simp [new]
    · rw [if_neg here]
      refine congrArg (Option.filter · idx.explicit[e']?) (funext fun g' => ?_)
      simp [here]
  · rw [isExplicit_withMember found, has_withMember found]
    by_cases here : g = g' ∧ e = e'
    · obtain ⟨rfl, rfl⟩ := here
      simp [new, shown]
    · rw [decide_eq_false here]
      simp [shown]

theorem isExplicit_remove (e : EntityId) (g : AffinityGroupId) :
    (idx.removeFromGroup e).isExplicit g = idx.isExplicit g := by
  unfold removeFromGroup
  split
  · rfl
  · rename_i g' placed
    unfold isExplicit
    dsimp only
    rw [FinMap.get_adjust]
    by_cases same : g' = g
    · rw [if_pos same]
      cases idx.groups[g]? <;> rfl
    · rw [if_neg same]

theorem has_remove (e : EntityId) (g : AffinityGroupId) (e' : EntityId) :
    (idx.removeFromGroup e).has g e' =
      (idx.has g e' && !(e' = e && idx.groupFor e = some g)) := by
  unfold removeFromGroup groupFor
  split
  · rename_i none_
    rw [none_]
    simp
  · rename_i g' placed
    rw [placed]
    unfold has
    dsimp only
    rw [FinMap.get_adjust]
    by_cases same : g' = g
    · rw [if_pos same]
      cases found : idx.groups[g]? with
      | none => rfl
      | some group =>
        dsimp only [Option.map_some]
        rw [Std.ExtTreeMap.contains_eq_isSome_getElem?, Std.ExtTreeMap.contains_eq_isSome_getElem?,
          FinMap.get_erase]
        by_cases here : e = e'
        · simp [here, same]
        · simp [here, Ne.symm here]
    · rw [if_neg same]
      simp [same]

theorem explicit_remove (e e' : EntityId) :
    (idx.removeFromGroup e).explicit[e']? = if e = e' then none else idx.explicit[e']? := by
  unfold removeFromGroup
  split
  · rename_i none_
    split
    · rename_i same
      rw [← same, none_]
    · rfl
  · exact FinMap.get_erase _ _ _

/-- An entity is taken out of the group it was last put into. -/
theorem shown_remove (e : EntityId) :
    (idx.removeFromGroup e).shown (fun e' g => learned e' g && !(e' = e && idx.groupFor e = some g)) =
      (idx.shown learned).takeOut e := by
  refine shown_ext (fun g => ?_) (fun e' => ?_) (fun g e' => ?_)
  · rw [isExplicit_remove]
    exact Iff.rfl
  · simp only [isExplicit_remove]
    rw [explicit_remove]
    unfold ExplicitGroups.takeOut
    dsimp only
    by_cases here : e = e'
    · rw [if_pos here, here, Function.update_self]
      rfl
    · rw [if_neg here, Function.update_of_ne (Ne.symm here)]
      simp [Ne.symm here, shown]
  · rw [isExplicit_remove, has_remove]
    unfold ExplicitGroups.takeOut shown groupFor
    dsimp only
    by_cases out : e' = e ∧ idx.explicit[e]? = some g
    · obtain ⟨rfl, placed⟩ := out
      rw [placed]
      refine iff_of_false (fun shown => ?_) (fun shown => ?_)
      · simp at shown
      · obtain ⟨⟨explicit, -, unlearned⟩, other⟩ := shown
        simp [explicit, unlearned] at other
    · have kept : (decide (e' = e) && decide (idx.explicit[e]? = some g)) = false := by
        rw [← Bool.decide_and, decide_eq_false out]
      rw [kept, Bool.not_false, Bool.and_true, Bool.and_true]
      refine (and_iff_left fun both => out ⟨both.1, ?_⟩).symm
      exact (Option.filter_eq_some_iff.mp both.2).1

/-- Nor is anything shown of a new group of two that were in none. -/
theorem shown_pair {a b : EntityId} {gid : AffinityGroupId} (group : AffinityGroup)
    (source : group.source = .learned) (unseen : idx.isExplicit gid = false)
    (free : idx.explicit[a]? = none) (free' : idx.explicit[b]? = none) :
    (AffinityIndex.mk ((idx.explicit.insert a gid).insert b gid) (idx.groups.insert gid group)).shown
      (fun e g => learned e g || ((AffinityIndex.mk ((idx.explicit.insert a gid).insert b gid)
        (idx.groups.insert gid group)).has g e && !idx.has g e)) = idx.shown learned := by
  have explicit_ (g : AffinityGroupId) : isExplicit ⟨(idx.explicit.insert a gid).insert b gid,
      idx.groups.insert gid group⟩ g = idx.isExplicit g := by
    rw [isExplicit_insert]
    split
    · rename_i same
      rw [← same, unseen, source]
      rfl
    · rfl
  refine shown_ext (fun g => ?_) (fun e => ?_) (fun g e => ?_)
  · rw [explicit_]
    exact Iff.rfl
  · simp only [explicit_, has_insert]
    unfold shown
    dsimp only
    rw [FinMap.get_insert, FinMap.get_insert]
    by_cases atB : b = e
    · rw [if_pos atB, ← atB, free']
      simp [unseen]
    · by_cases atA : a = e
      · rw [if_neg atB, if_pos atA, ← atA, free]
        simp [unseen]
      · rw [if_neg atB, if_neg atA]
        refine congrArg (Option.filter · idx.explicit[e]?) (funext fun g => ?_)
        by_cases same : gid = g
        · rw [← same, unseen]
          rfl
        · simp [same]
  · rw [explicit_, has_insert]
    by_cases same : gid = g
    · subst same
      simp [unseen, shown]
    · rw [if_neg same]
      simp [shown]

end Shown
end AffinityIndex

end TronDB.Routing
