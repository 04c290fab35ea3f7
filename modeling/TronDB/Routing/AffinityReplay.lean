import Mathlib.Data.List.Dedup
import TronDB.Routing.AffinityGroups

/-! When the replay of the log gives the explicit groups of the index. -/
namespace TronDB.Routing
open TronDB.Core

/-! ### The replay -/

section Replay
variable {idx : AffinityIndex}

theorem addToGroup_some {g : AffinityGroupId} {group : AffinityGroup} (e : EntityId) (maxSize : Nat)
    (found : idx.groups[g]? = some group) : idx.addToGroup e g maxSize =
      if group.members.size ≥ maxSize then .error (.affinityGroupFull g maxSize)
      else .ok (idx.withMember g group e) := by
  unfold AffinityIndex.addToGroup
  rw [found]
  rfl

theorem addToGroup_none {g : AffinityGroupId} (e : EntityId) (maxSize : Nat)
    (absent : idx.groups[g]? = none) :
    idx.addToGroup e g maxSize = .error (.affinityGroupNotFound g) := by
  unfold AffinityIndex.addToGroup
  rw [absent]

theorem contains_adjust (m : FinMap AffinityGroupId AffinityGroup) (k a : AffinityGroupId)
    (f : AffinityGroup → AffinityGroup) : (FinMap.adjust m k f).contains a = m.contains a := by
  rw [Std.ExtTreeMap.contains_eq_isSome_getElem?, Std.ExtTreeMap.contains_eq_isSome_getElem?,
    FinMap.get_adjust]
  split
  · exact Option.isSome_map
  · rfl

theorem contains_remove (e : EntityId) (g : AffinityGroupId) :
    (idx.removeFromGroup e).groups.contains g = idx.groups.contains g := by
  unfold AffinityIndex.removeFromGroup
  split
  · rfl
  · exact contains_adjust _ _ _ _

theorem rooted_remove (rooted : idx.Rooted) (e : EntityId) : (idx.removeFromGroup e).Rooted := by
  intro e' g placed
  rw [AffinityIndex.explicit_remove] at placed
  rw [contains_remove]
  split at placed
  · cases placed
  · exact rooted e' g placed

theorem rooted_createGroup (rooted : idx.Rooted) (g : AffinityGroupId) :
    ((idx.createGroup g).toOption.getD idx).Rooted := by
  unfold AffinityIndex.createGroup
  split
  · exact rooted
  · intro e g' placed
    exact FinMap.contains_insert _ _ _ _ (rooted e g' placed)

def Plain (idx : AffinityIndex) : Prop :=
  ∀ g, idx.groups.contains g = true → idx.isExplicit g = true

theorem plain_createGroup (plain : Plain idx) (g : AffinityGroupId) :
    Plain ((idx.createGroup g).toOption.getD idx) := by
  unfold AffinityIndex.createGroup
  split
  · exact plain
  · intro g' there
    change AffinityIndex.isExplicit ⟨idx.explicit, idx.groups.insert g ⟨∅, .explicit⟩⟩ g' = true
    rw [AffinityIndex.isExplicit_insert]
    split
    · rfl
    · rename_i differ
      refine plain g' ?_
      have there' : (idx.groups.insert g ⟨∅, .explicit⟩).contains g' = true := there
      rw [Std.ExtTreeMap.contains_eq_isSome_getElem?, FinMap.get_insert, if_neg differ] at there'
      rwa [Std.ExtTreeMap.contains_eq_isSome_getElem?]

theorem contains_withMember {g : AffinityGroupId} {group : AffinityGroup}
    (found : idx.groups[g]? = some group) (e : EntityId) (g' : AffinityGroupId) :
    (idx.withMember g group e).groups.contains g' = idx.groups.contains g' := by
  unfold AffinityIndex.withMember
  rw [Std.ExtTreeMap.contains_eq_isSome_getElem?, Std.ExtTreeMap.contains_eq_isSome_getElem?,
    FinMap.get_insert]
  split
  · rename_i same
    rw [← same, found]
    rfl
  · rfl

theorem plain_withMember (plain : Plain idx) {g : AffinityGroupId} {group : AffinityGroup}
    (found : idx.groups[g]? = some group) (e : EntityId) : Plain (idx.withMember g group e) := by
  intro g' there
  rw [contains_withMember found] at there
  rw [AffinityIndex.isExplicit_withMember found]
  exact plain g' there

theorem plain_remove (plain : Plain idx) (e : EntityId) : Plain (idx.removeFromGroup e) := by
  intro g there
  rw [contains_remove] at there
  rw [AffinityIndex.isExplicit_remove]
  exact plain g there

def unlearned : EntityId → AffinityGroupId → Bool := fun _ _ => false

/-- A replay of a plain index: rooted, and what it shows. -/
structure Replays (idx : AffinityIndex) (v : ExplicitGroups) : Prop where
  rooted : idx.Rooted
  plain : Plain idx
  shown : idx.shown unlearned = v

/-- A record is replayed at its word where there is room. -/
theorem Replays.record {v : ExplicitGroups} (replays : Replays idx v) {r : AffinityRecord}
    {maxSize : Nat} (room : ∀ g e group, r = .groupMember g e → idx.groups[g]? = some group →
      group.members.size < maxSize) : Replays (idx.replayAffinityRecord maxSize r) (v.record r) := by
  obtain ⟨rooted, plain, rfl⟩ := replays
  cases r with
  | groupCreate g =>
    exact ⟨rooted_createGroup rooted g, plain_createGroup plain g,
      AffinityIndex.shown_createGroup rooted (plain g)⟩
  | groupMember g e =>
    unfold AffinityIndex.replayAffinityRecord
    dsimp only
    cases found : idx.groups[g]? with
    | none =>
      rw [addToGroup_none e maxSize found]
      refine ⟨rooted, plain, (if_neg fun explicit => ?_).symm⟩
      have absent : idx.isExplicit g = true := explicit
      rw [AffinityIndex.isExplicit_absent found] at absent
      cases absent
    | some group =>
      have explicit : idx.isExplicit g = true := by
        refine plain g ?_
        rw [Std.ExtTreeMap.contains_eq_isSome_getElem?, found]
        rfl
      rw [addToGroup_some e maxSize found, if_neg (Nat.not_le.mpr (room g e group rfl found))]
      have shown : _ = (idx.shown unlearned).put g e := AffinityIndex.shown_put found e explicit
      exact ⟨AffinityIndex.rooted_withMember e rooted, plain_withMember plain found e, shown⟩
  | groupRemove e g =>
    have shown : _ = (idx.shown unlearned).takeOut e := AffinityIndex.shown_remove e
    exact ⟨rooted_remove rooted e, plain_remove plain e, shown⟩

end Replay

/-! ### Tasks -/

namespace Affinities

def view (a : Affinities) : ExplicitGroups := a.index.shown a.learned

def listed (a : Affinities) (g : AffinityGroupId) : List EntityId :=
  match a.index.groups[g]? with
  | some group => group.members.keys.filter fun e => !a.learned e g
  | none => []

/-- The entities a call in flight adds to a group. -/
def joining (a : Affinities) (g : AffinityGroupId) : List EntityId :=
  a.inFlight.filterMap fun c =>
    match c.2 with
    | .groupMember g' e => if g' = g then some e else none
    | _ => none

def Fits (a : Affinities) (g : AffinityGroupId) : Prop :=
  (a.listed g ++ a.joining g).dedup.length < replayMaxGroupSize

def Settled (a : Affinities) (g : AffinityGroupId) (e : EntityId) : Prop :=
  a.view.placed e = some g ∧ a.view.members g e

/-- The second check lets the call do what its record says: the group is not full, or the entity is
in it. And an entity that is in an explicit group does not move to a learned one. -/
def Settles (a : Affinities) : AffinityCall → Prop
  | .addToGroupLogged e g maxSize => ∀ group, a.index.groups[g]? = some group →
    if a.index.isExplicit g then group.members.size < maxSize ∨ a.Settled g e
    else group.members.size < maxSize → a.view.placed e = none
  | _ => True

/-- A promotion takes no entity into an explicit group that lists it, and makes no learned group in
the place of an explicit one. -/
def Spares (maxSize : Nat) (a : Affinities) (p : EntityId × EntityId) : Prop :=
  match a.index.explicit[p.1]?, a.index.explicit[p.2]? with
  | some _, some _ => True
  | some g, none => takes g p.2
  | none, some g => takes g p.1
  | none, none => a.index.isExplicit (AffinityIndex.learnedId p.1 p.2) = false ∧
    ∀ c ∈ a.inFlight, c.2 ≠ .groupCreate (AffinityIndex.learnedId p.1 p.2)
where
  takes (g : AffinityGroupId) (e : EntityId) : Prop := ∀ group, a.index.groups[g]? = some group →
    group.members.size < maxSize → a.index.isExplicit g = true → a.index.has g e = false

/-- The step keeps the index and the log together. -/
def Orderly (a : Affinities) : AffinityStep → Prop
  | .start call => ∀ g e, call.check a.index = .ok (some (.groupMember g e)) →
    a.index.isExplicit g = true → a.Fits g
  | .finish i => ∀ call record, a.inFlight[i]? = some (call, record) →
    (∀ earlier ∈ a.inFlight.take i, ExplicitGroups.Independent earlier.2 record) ∧ a.Settles call
  | .promote toPromote maxSize =>
    ∀ p ∈ Run.taken (promotePair maxSize) a toPromote, Spares maxSize p.1 p.2

def Logs : AffinityCall → AffinityRecord → Prop
  | .createGroupLogged id, .groupCreate id' => id' = id
  | .addToGroupLogged e g _, .groupMember g' e' => g' = g ∧ e' = e
  | .removeFromGroupLogged e, .groupRemove e' _ => e' = e
  | _, _ => False

theorem logs_of_check {idx : AffinityIndex} {call : AffinityCall} {record : AffinityRecord}
    (checked : call.check idx = .ok (some record)) : Logs call record := by
  cases call with
  | createGroupLogged id =>
    unfold AffinityCall.check at checked
    dsimp only at checked
    split at checked
    · cases checked
    · cases checked
      rfl
  | addToGroupLogged e g maxSize =>
    unfold AffinityCall.check at checked
    dsimp only at checked
    split at checked
    · cases checked
    · split at checked
      · cases checked
      · cases checked
        exact ⟨rfl, rfl⟩
  | removeFromGroupLogged e =>
    have found : (idx.groupFor e).map (AffinityRecord.groupRemove e) = some record :=
      Except.ok.inj checked
    obtain ⟨g, -, rfl⟩ := Option.map_eq_some_iff.mp found
    rfl

theorem member_there {idx : AffinityIndex} {call : AffinityCall} {g : AffinityGroupId} {e : EntityId}
    (checked : call.check idx = .ok (some (.groupMember g e))) : idx.groups.contains g = true := by
  cases call with
  | createGroupLogged id =>
    unfold AffinityCall.check at checked
    dsimp only at checked
    split at checked <;> cases checked
  | addToGroupLogged e' g' maxSize =>
    unfold AffinityCall.check at checked
    dsimp only at checked
    split at checked
    · cases checked
    · rename_i group found
      split at checked
      · cases checked
      · cases checked
        rw [Std.ExtTreeMap.contains_eq_isSome_getElem?, found]
        rfl
  | removeFromGroupLogged e' =>
    have found : (idx.groupFor e').map (AffinityRecord.groupRemove e') = some (.groupMember g e) :=
      Except.ok.inj checked
    obtain ⟨g', -, same⟩ := Option.map_eq_some_iff.mp found
    cases same

theorem create_absent {idx : AffinityIndex} {call : AffinityCall} {g : AffinityGroupId}
    (checked : call.check idx = .ok (some (.groupCreate g))) : ¬ idx.groups.contains g = true := by
  cases call with
  | createGroupLogged id =>
    unfold AffinityCall.check at checked
    dsimp only at checked
    split at checked
    · cases checked
    · rename_i absent
      cases checked
      exact absent
  | addToGroupLogged e' g' maxSize =>
    unfold AffinityCall.check at checked
    dsimp only at checked
    split at checked
    · cases checked
    · split at checked <;> cases checked
  | removeFromGroupLogged e' =>
    have found : (idx.groupFor e').map (AffinityRecord.groupRemove e') = some (.groupCreate g) :=
      Except.ok.inj checked
    obtain ⟨g', -, same⟩ := Option.map_eq_some_iff.mp found
    cases same

/-- The index and its log: the records, taken at their word, give what the index shows with the
calls in flight done in their order. -/
structure Followed (a : Affinities) : Prop where
  rooted : a.index.Rooted
  follows : a.log.foldl ExplicitGroups.record (AffinityIndex.new.shown unlearned) =
    (a.inFlight.map Prod.snd).foldl ExplicitGroups.record a.view
  replays : Replays (processPendingAffinities a.log .new)
    (a.log.foldl ExplicitGroups.record (AffinityIndex.new.shown unlearned))
  logs : ∀ c ∈ a.inFlight, Logs c.1 c.2
  there : ∀ c ∈ a.inFlight, ∀ g e, c.2 = .groupMember g e → a.index.groups.contains g = true
  own : ∀ c ∈ a.inFlight, ∀ g, c.2 = .groupCreate g → a.index.groups.contains g = true →
    a.index.isExplicit g = true

theorem new_followed : new.Followed where
  rooted e g placed := by
    have none_ : (∅ : FinMap EntityId AffinityGroupId)[e]? = none := Std.ExtTreeMap.getElem?_empty
    rw [show new.index.explicit[e]? = none from none_] at placed
    cases placed
  follows := rfl
  replays := by
    refine ⟨fun e g placed => ?_, fun g there => ?_, rfl⟩
    · have none_ : (∅ : FinMap EntityId AffinityGroupId)[e]? = none := Std.ExtTreeMap.getElem?_empty
      rw [show (processPendingAffinities new.log .new).explicit[e]? = none from none_] at placed
      cases placed
    · have none_ : (∅ : FinMap AffinityGroupId AffinityGroup).contains g = false :=
        Std.ExtTreeMap.contains_empty
      rw [show (processPendingAffinities new.log .new).groups.contains g = false from none_] at there
      cases there
  logs _ none_ := absurd none_ List.not_mem_nil
  there _ none_ := absurd none_ List.not_mem_nil
  own _ none_ := absurd none_ List.not_mem_nil

section Start
variable {a : Affinities}

theorem mem_listed {g : AffinityGroupId} {e : EntityId} (shown : a.view.members g e) :
    e ∈ a.listed g := by
  obtain ⟨-, member, unlearned⟩ := shown
  unfold AffinityIndex.has at member
  unfold listed
  cases found : a.index.groups[g]? with
  | none =>
    rw [found] at member
    cases member
  | some group =>
    rw [found] at member
    exact List.mem_filter.mpr ⟨Std.ExtTreeMap.mem_keys.mpr member, by rw [unlearned]; rfl⟩

theorem mem_joining {g : AffinityGroupId} {e : EntityId}
    (joins : .groupMember g e ∈ a.inFlight.map Prod.snd) : e ∈ a.joining g := by
  obtain ⟨c, among, record⟩ := List.mem_map.mp joins
  refine List.mem_filterMap.mpr ⟨c, among, ?_⟩
  rw [record]
  exact if_pos rfl

theorem size_replayed (followed : a.Followed) {g : AffinityGroupId} {group : AffinityGroup}
    (found : (processPendingAffinities a.log .new).groups[g]? = some group) :
    group.members.size ≤ (a.listed g ++ a.joining g).dedup.length := by
  have explicit := followed.replays.plain g (by
    rw [Std.ExtTreeMap.contains_eq_isSome_getElem?, found]
    rfl)
  rw [← Std.ExtTreeMap.length_keys]
  refine (List.subperm_of_subset Std.ExtTreeMap.nodup_keys fun e listed_ => ?_).length_le
  have member : (processPendingAffinities a.log .new).has g e = true := by
    rw [AffinityIndex.has_of found]
    exact Std.ExtTreeMap.mem_keys.mp listed_
  have shown : ((processPendingAffinities a.log .new).shown unlearned).members g e :=
    ⟨explicit, member, rfl⟩
  rw [followed.replays.shown, followed.follows] at shown
  rw [List.mem_dedup, List.mem_append]
  rcases ExplicitGroups.members_fold _ shown with joins | before
  · exact .inr (mem_joining joins)
  · exact .inl (mem_listed before)

theorem explicit_replayed (followed : a.Followed) {g : AffinityGroupId}
    (explicit : (processPendingAffinities a.log .new).isExplicit g = true)
    (there : a.index.groups.contains g = true) : a.index.isExplicit g = true := by
  have shown : ((processPendingAffinities a.log .new).shown unlearned).groups g := explicit
  rw [followed.replays.shown, followed.follows, ExplicitGroups.groups_fold] at shown
  rcases shown with creates | before
  · obtain ⟨c, among, record⟩ := List.mem_map.mp creates
    exact followed.own c among g record there
  · exact before

theorem start_followed (followed : a.Followed) (call : AffinityCall)
    (orderly : a.Orderly (.start call)) : (a.step (.start call)).Followed := by
  unfold step
  dsimp only
  split
  · rename_i record checked
    have logged : (a.inFlight ++ [(call, record)]).map Prod.snd = a.inFlight.map Prod.snd ++ [record] := by
      rw [List.map_append]
      rfl
    refine ⟨followed.rooted, ?_, ?_, ?_, ?_, ?_⟩
    · dsimp only
      rw [logged, List.foldl_append, List.foldl_append, followed.follows]
      rfl
    · unfold processPendingAffinities
      rw [List.foldl_append, List.foldl_append]
      refine followed.replays.record fun g e group same found => ?_
      subst same
      have there : a.index.groups.contains g = true := member_there checked
      have explicit := explicit_replayed followed (followed.replays.plain g (by
        rw [Std.ExtTreeMap.contains_eq_isSome_getElem?]
        exact congrArg Option.isSome found)) there
      exact Nat.lt_of_le_of_lt (size_replayed followed found) (orderly g e checked explicit)
    · intro c among
      rcases List.mem_append.mp among with old | new_
      · exact followed.logs c old
      · rw [List.mem_singleton.mp new_]
        exact logs_of_check checked
    · intro c among g e same
      rcases List.mem_append.mp among with old | new_
      · exact followed.there c old g e same
      · rw [List.mem_singleton.mp new_] at same
        subst same
        exact member_there checked
    · intro c among g same there
      rcases List.mem_append.mp among with old | new_
      · exact followed.own c old g same there
      · rw [List.mem_singleton.mp new_] at same
        subst same
        exact absurd there (create_absent checked)
  · exact followed

end Start

section Finish
variable {a : Affinities}

theorem put_settled {g : AffinityGroupId} {e : EntityId} (settled : a.Settled g e) :
    a.view.put g e = a.view := by
  unfold ExplicitGroups.put
  split
  · ext g' e'
    · exact Iff.rfl
    · dsimp only
      by_cases same : g' = e
      · rw [same, Function.update_self, settled.1]
      · rw [Function.update_of_ne same]
    · refine ⟨?_, .inr⟩
      rintro (⟨rfl, rfl⟩ | member)
      · exact settled.2
      · exact member
  · rfl

theorem conclude_view (followed : a.Followed) {call : AffinityCall} {record : AffinityRecord}
    (listed_ : (call, record) ∈ a.inFlight) (settles : a.Settles call) :
    (a.conclude call).view = a.view.record record := by
  have logs := followed.logs _ listed_
  unfold conclude
  cases call with
  | createGroupLogged id =>
    cases record with
    | groupCreate id' =>
      obtain rfl : id' = id := logs
      have shown : _ = a.view.create id' :=
        AffinityIndex.shown_createGroup followed.rooted (followed.own _ listed_ id' rfl)
      refine Eq.trans ?_ shown
      unfold AffinityCall.apply
      dsimp only
      cases a.index.createGroup id' <;> rfl
    | groupMember g e => cases logs
    | groupRemove e g => cases logs
  | addToGroupLogged e g maxSize =>
    cases record with
    | groupCreate id => cases logs
    | groupMember g' e' =>
      obtain ⟨rfl, rfl⟩ : g' = g ∧ e' = e := logs
      have there := followed.there _ listed_ g' e' rfl
      rw [Std.ExtTreeMap.contains_eq_isSome_getElem?] at there
      obtain ⟨group, found⟩ := Option.isSome_iff_exists.mp there
      have settled := settles group found
      unfold AffinityCall.apply
      dsimp only
      rw [addToGroup_some e' maxSize found]
      by_cases full : group.members.size ≥ maxSize
      · rw [if_pos full]
        change a.view = a.view.put g' e'
        split at settled
        · exact (put_settled (settled.resolve_left fun room => Nat.not_le.mpr room full)).symm
        · rename_i unseen
          exact (if_neg unseen).symm
      · rw [if_neg full]
        split at settled
        · rename_i explicit
          exact AffinityIndex.shown_put found e' explicit
        · rename_i unseen
          rw [Bool.not_eq_true] at unseen
          have skipped : a.view.record (.groupMember g' e') = a.view := by
            refine if_neg fun explicit => ?_
            have seen : a.index.isExplicit g' = true := explicit
            rw [unseen] at seen
            cases seen
          rw [skipped]
          refine AffinityIndex.shown_unseen found unseen (settled (Nat.not_le.mp full)) ?_
          intro e g differ
          simp [settle, Ne.symm differ]
    | groupRemove e' g' => cases logs
  | removeFromGroupLogged e =>
    cases record with
    | groupCreate id => cases logs
    | groupMember g e' => cases logs
    | groupRemove e' g =>
      obtain rfl : e' = e := logs
      exact AffinityIndex.shown_remove e'

/-- What a call may do to the index. -/
inductive Changes (idx : AffinityIndex) : AffinityIndex → Prop
  | nothing : Changes idx idx
  | created (id : AffinityGroupId) (absent : ¬ idx.groups.contains id = true) :
    Changes idx { idx with groups := idx.groups.insert id ⟨∅, .explicit⟩ }
  | joined (g : AffinityGroupId) (group : AffinityGroup) (e : EntityId)
    (found : idx.groups[g]? = some group) : Changes idx (idx.withMember g group e)
  | removed (e : EntityId) : Changes idx (idx.removeFromGroup e)

theorem conclude_changes (a : Affinities) (call : AffinityCall) :
    Changes a.index (a.conclude call).index := by
  unfold conclude
  cases call with
  | createGroupLogged id =>
    unfold AffinityCall.apply AffinityIndex.createGroup
    dsimp only
    by_cases there : a.index.groups.contains id = true
    · rw [if_pos there]
      exact .nothing
    · rw [if_neg there]
      exact .created id there
  | addToGroupLogged e g maxSize =>
    unfold AffinityCall.apply
    dsimp only
    cases found : a.index.groups[g]? with
    | none =>
      rw [addToGroup_none e maxSize found]
      exact .nothing
    | some group =>
      rw [addToGroup_some e maxSize found]
      by_cases full : group.members.size ≥ maxSize
      · rw [if_pos full]
        exact .nothing
      · rw [if_neg full]
        exact .joined g group e found
  | removeFromGroupLogged e => exact .removed e

section Changed
variable {idx idx' : AffinityIndex} (changes : Changes idx idx')
include changes

theorem Changes.rooted (rooted : idx.Rooted) : idx'.Rooted := by
  cases changes with
  | nothing => exact rooted
  | created id absent =>
    intro e g placed
    exact FinMap.contains_insert _ _ _ _ (rooted e g placed)
  | joined g group e found => exact AffinityIndex.rooted_withMember e rooted
  | removed e => exact rooted_remove rooted e

theorem Changes.there {g : AffinityGroupId} (there : idx.groups.contains g = true) :
    idx'.groups.contains g = true := by
  cases changes with
  | nothing => exact there
  | created id absent => exact FinMap.contains_insert _ _ _ _ there
  | joined g' group e found =>
    rw [contains_withMember found]
    exact there
  | removed e =>
    rw [contains_remove]
    exact there

theorem Changes.explicit {g : AffinityGroupId} (there : idx'.groups.contains g = true)
    (explicit : idx.groups.contains g = true → idx.isExplicit g = true) : idx'.isExplicit g = true := by
  cases changes with
  | nothing => exact explicit there
  | created id absent =>
    rw [AffinityIndex.isExplicit_insert]
    split
    · rfl
    · rename_i differ
      refine explicit ?_
      rw [Std.ExtTreeMap.contains_eq_isSome_getElem?, FinMap.get_insert, if_neg differ] at there
      rwa [Std.ExtTreeMap.contains_eq_isSome_getElem?]
  | joined g' group e found =>
    rw [contains_withMember found] at there
    rw [AffinityIndex.isExplicit_withMember found]
    exact explicit there
  | removed e =>
    rw [contains_remove] at there
    rw [AffinityIndex.isExplicit_remove]
    exact explicit there

end Changed

theorem conclude_log (a : Affinities) (call : AffinityCall) : (a.conclude call).log = a.log := by
  unfold conclude
  split <;> rfl

theorem split_at {α : Type} {xs : List α} {i : Nat} {x : α} (found : xs[i]? = some x) :
    xs = xs.take i ++ x :: xs.drop (i + 1) := by
  obtain ⟨bound, rfl⟩ := List.getElem?_eq_some_iff.mp found
  rw [← List.drop_eq_getElem_cons bound, List.take_append_drop]

theorem finish_followed (followed : a.Followed) (i : Nat) (orderly : a.Orderly (.finish i)) :
    (a.step (.finish i)).Followed := by
  unfold step
  dsimp only
  split
  · exact followed
  · rename_i call record found
    obtain ⟨apart, settles⟩ := orderly call record found
    have listed_ : (call, record) ∈ a.inFlight := List.mem_of_getElem? found
    have changes := conclude_changes a call
    have view : Affinities.view { a.conclude call with inFlight := a.inFlight.eraseIdx i } =
        a.view.record record := conclude_view followed listed_ settles
    have still {c : AffinityCall × AffinityRecord} (among : c ∈ a.inFlight.eraseIdx i) :
        c ∈ a.inFlight := List.mem_of_mem_eraseIdx among
    refine ⟨changes.rooted followed.rooted, ?_, ?_, ?_, ?_, ?_⟩
    · -- the call's record is taken before those of the calls it overtakes
      rw [view]
      dsimp only
      rw [conclude_log, followed.follows, List.eraseIdx_eq_take_drop_succ]
      conv_lhs => rw [split_at found]
      rw [List.map_append, List.map_append, List.map_cons]
      refine Run.foldl_first ExplicitGroups.record (fun v => ∀ c ∈ a.inFlight, ∀ g e,
        c.2 = .groupMember g e → (∃ c' ∈ a.inFlight, c'.2 = .groupCreate g) → v.groups g) record _ _
        ?_ ?_ ?_
      · rintro c among g e same ⟨c', among', same'⟩
        exact followed.own c' among' g same' (followed.there c among g e same)
      · intro r _ v grounded c among g e same created
        exact (ExplicitGroups.groups_record v r g).mpr (.inr (grounded c among g e same created))
      · intro r earlier v grounded
        obtain ⟨c, taken, rfl⟩ := List.mem_map.mp earlier
        have among : c ∈ a.inFlight := List.mem_of_mem_take taken
        refine ExplicitGroups.record_comm v (apart c taken) fun g e either => ?_
        rcases either with ⟨creates, joins⟩ | ⟨creates, joins⟩
        · exact grounded _ listed_ g e joins.symm ⟨c, among, creates.symm⟩
        · exact grounded c among g e joins.symm ⟨_, listed_, creates.symm⟩
    · dsimp only
      rw [conclude_log]
      exact followed.replays
    · exact fun c among => followed.logs c (still among)
    · exact fun c among g e same => changes.there (followed.there c (still among) g e same)
    · exact fun c among g same there =>
        changes.explicit there (followed.own c (still among) g same)

end Finish

section Promote
variable {a : Affinities}

theorem Followed.promoted (followed : a.Followed) {index : AffinityIndex}
    {learned : EntityId → AffinityGroupId → Bool} (rooted : index.Rooted)
    (view : index.shown learned = a.view)
    (there : ∀ g, a.index.groups.contains g = true → index.groups.contains g = true)
    (own : ∀ c ∈ a.inFlight, ∀ g, c.2 = .groupCreate g → index.groups.contains g = true →
      index.isExplicit g = true) : Followed { a with index, learned } where
  rooted := rooted
  follows := followed.follows.trans
    (congrArg (fun v => (a.inFlight.map Prod.snd).foldl ExplicitGroups.record v) view.symm)
  replays := followed.replays
  logs := followed.logs
  there c among g e same := there g (followed.there c among g e same)
  own := own

theorem learned_same (idx : AffinityIndex) (learned : EntityId → AffinityGroupId → Bool) :
    (fun e g => learned e g || (idx.has g e && !idx.has g e)) = learned := by
  funext e g
  cases idx.has g e <;> simp

/-- An entity of no group is taken into one. -/
theorem learn_followed (followed : a.Followed) {g : AffinityGroupId} {e : EntityId} {maxSize : Nat}
    (free : a.index.explicit[e]? = none) (new : Spares.takes maxSize a g e) :
    Followed { a with
      index := a.index.learn e g maxSize
      learned := fun e' g' => a.learned e' g' ||
        ((a.index.learn e g maxSize).has g' e' && !a.index.has g' e') } := by
  unfold AffinityIndex.learn
  cases found : a.index.groups[g]? with
  | none =>
    dsimp only
    rw [learned_same]
    exact followed
  | some group =>
    dsimp only
    by_cases room : group.members.size < maxSize
    · rw [if_pos room]
      refine followed.promoted (AffinityIndex.rooted_withMember e followed.rooted) ?_ ?_ ?_
      · cases explicit : a.index.isExplicit g with
        | true => exact AffinityIndex.shown_learned found (new group found room explicit) free
        | false =>
          have unplaced : (a.index.shown a.learned).placed e = none := by
            unfold AffinityIndex.shown
            dsimp only
            rw [free]
            rfl
          refine AffinityIndex.shown_unseen found explicit unplaced fun e' g' differ => ?_
          have same : (a.index.withMember g group e).has g' e' = a.index.has g' e' := by
            rw [AffinityIndex.has_withMember found, decide_eq_false fun both => differ both.1,
              Bool.false_or]
          change (a.learned e' g' || ((a.index.withMember g group e).has g' e' && _)) = _
          rw [same]
          cases a.index.has g' e' <;> simp
      · intro g' there
        exact (contains_withMember found e g').trans there
      · intro c among g' same there
        have explicit := followed.own c among g' same ((contains_withMember found e g').symm.trans there)
        exact (AffinityIndex.isExplicit_withMember found e g').trans explicit
    · rw [if_neg room, learned_same]
      exact followed

theorem promotePair_followed (followed : a.Followed) {maxSize : Nat} {p : EntityId × EntityId}
    (spares : Spares maxSize a p) : (promotePair maxSize a p).Followed := by
  unfold promotePair AffinityIndex.createImplicitGroup
  unfold Spares at spares
  cases first : a.index.explicit[p.1]? with
  | some g =>
    cases second : a.index.explicit[p.2]? with
    | some g' =>
      dsimp only
      rw [learned_same]
      exact followed
    | none =>
      rw [first, second] at spares
      exact learn_followed followed second spares
  | none =>
    cases second : a.index.explicit[p.2]? with
    | some g =>
      rw [first, second] at spares
      exact learn_followed followed first spares
    | none =>
      rw [first, second] at spares
      obtain ⟨unseen, fresh⟩ := spares
      refine followed.promoted ?_ (AffinityIndex.shown_pair _ rfl unseen first second) ?_ ?_
      · intro e g placed
        dsimp only at placed ⊢
        rw [FinMap.get_insert, FinMap.get_insert] at placed
        rw [Std.ExtTreeMap.contains_eq_isSome_getElem?, FinMap.get_insert]
        by_cases same : AffinityIndex.learnedId p.1 p.2 = g
        · rw [if_pos same]
          rfl
        · rw [if_neg same, ← Std.ExtTreeMap.contains_eq_isSome_getElem?]
          refine followed.rooted e g ?_
          split at placed
          · exact absurd (Option.some.inj placed) same
          · split at placed
            · exact absurd (Option.some.inj placed) same
            · exact placed
      · intro g there
        exact FinMap.contains_insert _ _ _ _ there
      · intro c among g creates there
        have differ : AffinityIndex.learnedId p.1 p.2 ≠ g := by
          rintro rfl
          exact fresh c among creates
        dsimp only at there ⊢
        rw [Std.ExtTreeMap.contains_eq_isSome_getElem?, FinMap.get_insert, if_neg differ,
          ← Std.ExtTreeMap.contains_eq_isSome_getElem?] at there
        rw [AffinityIndex.isExplicit_insert, if_neg differ]
        exact followed.own c among g creates there

theorem promote_followed (followed : a.Followed) (toPromote : List (EntityId × EntityId))
    (maxSize : Nat) (orderly : a.Orderly (.promote toPromote maxSize)) :
    (a.step (.promote toPromote maxSize)).Followed := by
  have all := Run.invariant_under (promotePair maxSize) (fun a p => Spares maxSize a p) toPromote followed
    orderly fun a p followed spares => promotePair_followed followed spares
  exact all _ (Run.end_visited _ _ _)

end Promote

theorem step_followed {a : Affinities} (followed : a.Followed) (step : AffinityStep)
    (orderly : a.Orderly step) : (a.step step).Followed := by
  cases step with
  | start call => exact start_followed followed call orderly
  | finish i => exact finish_followed followed i orderly
  | promote toPromote maxSize => exact promote_followed followed toPromote maxSize orderly

/-- The explicit groups are the same, with the same members, learned ones excepted. -/
def Reproduces (replayed : AffinityIndex) (a : Affinities) : Prop :=
  (∀ g, replayed.groups.contains g = true ↔ a.index.isExplicit g = true) ∧
    ∀ g, a.index.isExplicit g = true → ∀ e,
      replayed.has g e = true ↔ a.index.has g e = true ∧ a.learned e g = false

theorem Followed.reproduces {a : Affinities} (followed : a.Followed) (returned : a.inFlight = []) :
    Reproduces (processPendingAffinities a.log .new) a := by
  have same : (processPendingAffinities a.log .new).shown unlearned = a.view := by
    rw [followed.replays.shown, followed.follows, returned]
    rfl
  have groups (g : AffinityGroupId) : (processPendingAffinities a.log .new).isExplicit g = true ↔
      a.index.isExplicit g = true := iff_of_eq (congrArg (fun v => v.groups g) same)
  refine ⟨fun g => ?_, fun g explicit e => ?_⟩
  · rw [← groups]
    refine ⟨followed.replays.plain g, fun explicit => ?_⟩
    by_contra absent
    have none_ : (processPendingAffinities a.log .new).groups[g]? = none := by
      rw [Std.ExtTreeMap.contains_eq_isSome_getElem?] at absent
      exact Option.not_isSome_iff_eq_none.mp absent
    rw [AffinityIndex.isExplicit_absent none_] at explicit
    cases explicit
  · have members : _ ↔ _ := iff_of_eq (congrArg (fun v => v.members g e) same)
    constructor
    · intro member
      exact (members.mp ⟨(groups g).mpr explicit, member, rfl⟩).2
    · intro both
      exact (members.mpr ⟨explicit, both⟩).2.1

/-- In a run of such steps, whenever no call is in flight the replay of the log gives the explicit
groups of the index. -/
theorem orderly_reproduced (run : List AffinityStep)
    (orderly : ∀ p ∈ Run.taken step new run, Orderly p.1 p.2) :
    ∀ a ∈ Run.visited step new run, a.inFlight = [] →
      Reproduces (processPendingAffinities a.log .new) a := by
  have all := Run.invariant_under step Orderly run new_followed orderly
    fun a step followed orderly => step_followed followed step orderly
  exact fun a reached returned => (all a reached).reproduces returned

section Examples

def oneJoins : List AffinityStep :=
  [.start (.createGroupLogged "g"), .finish 0, .start (.addToGroupLogged "e1" "g" 1), .finish 0]

def oneJoined : Affinities := oneJoins.foldl step new

theorem oneJoined_reproduced : Reproduces (processPendingAffinities oneJoined.log .new) oneJoined := by
  refine orderly_reproduced oneJoins ?_ oneJoined (Run.end_visited _ _ _) (by decide)
  intro p listed
  simp only [oneJoins, Run.taken, List.mem_cons, List.not_mem_nil, or_false] at listed
  rcases listed with rfl | rfl | rfl | rfl
  · intro g e checked
    cases checked
  · intro call record found
    cases found
    exact ⟨fun _ none_ => absurd none_ List.not_mem_nil, trivial⟩
  · intro g e checked _
    obtain ⟨rfl, rfl⟩ := logs_of_check checked
    unfold Fits
    decide
  · intro call record found
    cases found
    refine ⟨fun _ none_ => absurd none_ List.not_mem_nil, fun group there => ?_⟩
    have empty : ((((new.step (.start (.createGroupLogged "g"))).step (.finish 0)).step
        (.start (.addToGroupLogged "e1" "g" 1))).index.groups["g"]?.map fun group =>
          group.members.size) = some 0 := by decide
    rw [there] at empty
    have room : group.members.size < 1 := Nat.lt_one_iff.mpr (Option.some.inj empty)
    split
    · exact .inl room
    · rename_i unseen
      exact absurd (by decide) unseen

/-- A group for one, and two that join it at a time: both are logged, one gets in. -/
def twoJoin : List AffinityStep :=
  [.start (.createGroupLogged "g"), .finish 0, .start (.addToGroupLogged "e1" "g" 1),
    .start (.addToGroupLogged "e2" "g" 1), .finish 0, .finish 0]

theorem refused_member_replayed : ¬ ∀ run : List AffinityStep, ∀ a ∈ Run.visited step new run,
    a.inFlight = [] → Reproduces (processPendingAffinities a.log .new) a := by
  intro all
  have reproduces := all twoJoin _ (Run.end_visited _ _ _) (by decide)
  have explicit : (twoJoin.foldl step new).index.isExplicit "g" = true := by decide
  have replayed : (processPendingAffinities (twoJoin.foldl step new).log .new).has "g" "e2" = true := by
    decide
  have live : (twoJoin.foldl step new).index.has "g" "e2" = false := by decide
  have member := ((reproduces.2 "g" explicit "e2").mp replayed).1
  rw [live] at member
  cases member

end Examples
end Affinities
end TronDB.Routing
