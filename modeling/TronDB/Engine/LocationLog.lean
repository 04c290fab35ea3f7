import TronDB.Engine.Numbering
import TronDB.Engine.Reopened
import TronDB.Engine.Restart

/-! The states in the location table as a fold over the log, and what an engine opens with when
it replays the end of a log onto the data the whole log has led to. -/
namespace TronDB.Engine
open TronDB.Core Binary Wal Journal

/-! ### States in the table -/

namespace LocationTable

def state (t : LocationTable) (k : ReprKey) : Option LocState :=
  (t.get k).map LocationDescriptor.state

@[simp] theorem state_new (k : ReprKey) : LocationTable.new.state k = none := by
  simp [state, get, new]

theorem state_register (t : LocationTable) (key : ReprKey) (d : LocationDescriptor) (k : ReprKey) :
    (t.register key d).state k = if key = k then some d.state else t.state k := by
  unfold state
  rw [get_register]
  split <;> rfl

theorem state_tryTransition (t : LocationTable) (key : ReprKey) (target : LocState) (k : ReprKey) :
    (t.tryTransition key target).state k = if key = k then
      (t.state k).map fun s => if canTransitionTo s target then target else s
    else t.state k := by
  unfold state
  rw [get_tryTransition]
  split
  · rw [Option.map_map, Option.map_map]
    refine congrArg (fun f => Option.map f (t.get k)) (funext fun d => ?_)
    simp only [Function.comp_apply, moved]
    split <;> rfl
  · rfl

theorem get_restore (t : LocationTable) (lsn : Nat) (k : ReprKey) :
    (restore (t.snapshot lsn)).get k = t.get k := by
  have all := get_registerAll t.descriptors.toList .new (FinMap.nodup_toList t.descriptors)
  cases found : t.get k with
  | some d => exact all (k, d) ((FinMap.mem_toList _ _ _).mpr found)
  | none =>
    refine (get_registerAll_absent t.descriptors.toList .new fun listed => ?_).trans
      (by simp [get, new])
    obtain ⟨⟨k', d⟩, there, rfl⟩ := List.mem_map.mp listed
    cases found.symm.trans ((FinMap.mem_toList _ _ _).mp there)

theorem state_restore (t : LocationTable) (lsn : Nat) (k : ReprKey) :
    (restore (t.snapshot lsn)).state k = t.state k := by
  unfold state
  rw [get_restore]

end LocationTable

/-! ### Records -/

def dirtied : LocState → LocState
  | .clean => .dirty
  | s => s

def cleaned : LocState → LocState
  | .dirty | .recomputing => .clean
  | s => s

/-- The state of an entry behind a record, other than one that takes entries away. -/
def entryAfter (k : ReprKey) (state : Option LocState) : Logged → Option LocState
  | (_, .locationUpdate, .location key descriptor) =>
    if key = k then some descriptor.state else state
  | (_, .reprDirty, .reprKey key) => if key = k then state.map dirtied else state
  | (_, .reprWrite, .entity e) =>
    if e.id = k.1 ∧ k.2 < e.representations.length then state.map cleaned else state
  | _ => state

def KeepsEntries (l : Logged) : Prop := l.2.1 ≠ .entityDelete ∧ l.2.1 ≠ .schemaDropColl

theorem state_cleanLocation (t : LocationTable) (key k : ReprKey) :
    (cleanLocation t key).state k = if key = k then (t.state k).map cleaned else t.state k := by
  by_cases here : key = k
  · subst here
    rw [if_pos rfl]
    unfold cleanLocation
    cases found : t.get key with
    | none =>
      have nothing : t.state key = none := by rw [LocationTable.state, found]; rfl
      simp only [nothing, Option.map_none]
    | some d =>
      have now : t.state key = some d.state := by rw [LocationTable.state, found]; rfl
      dsimp only
      cases reached : d.state <;>
        simp [LocationTable.state_tryTransition, now, reached, canTransitionTo, cleaned]
  · rw [if_neg here]
    unfold cleanLocation
    split
    · rfl
    · split <;> simp [LocationTable.state_tryTransition, here]

theorem state_cleanAll (t : LocationTable) (id : LogicalId) (n : Nat) (k : ReprKey) :
    ((List.range n).foldl (fun t idx => cleanLocation t (id, idx)) t).state k =
      if id = k.1 ∧ k.2 < n then (t.state k).map cleaned else t.state k := by
  induction n with
  | zero => simp
  | succ n ih =>
    obtain ⟨id', i⟩ := k
    rw [List.range_succ, List.foldl_append, List.foldl_cons, List.foldl_nil, state_cleanLocation, ih]
    by_cases own : id = id'
    · subst own
      by_cases last : n = i
      · subst last
        simp
      · have before : i < n + 1 ↔ i < n := by omega
        simp [last, before]
    · simp [own]

theorem state_replayRecord (s : State) (r : WalRecord Payload) (keeps : KeepsEntries (toLogged r))
    (k : ReprKey) :
    (replayRecord s r).location.state k = entryAfter k (s.location.state k) (toLogged r) := by
  obtain ⟨lsn, ts, txId, recordType, schemaVer, collection, payload⟩ := r
  cases recordType <;> try rfl
  all_goals cases payload <;> try rfl
  case entityDelete.entityDelete id c => exact absurd rfl keeps.1
  case schemaDropColl.name name => exact absurd rfl keeps.2
  case locationUpdate.location key d => exact LocationTable.state_register _ _ _ _
  case reprWrite.entity e => exact state_cleanAll _ _ _ _
  case reprDirty.reprKey key =>
    refine (LocationTable.state_tryTransition _ _ _ _).trans ?_
    have same : (fun s => if canTransitionTo s .dirty then .dirty else s) = dirtied := by
      funext s
      cases s <;> rfl
    rw [same]
    rfl
  case schemaAlter.schemaAlter c op =>
    have kept : (s.replayIndexes c op).location = s.location := by
      unfold State.replayIndexes
      repeat' split
      all_goals rfl
    unfold replayRecord State.replayMemory
    dsimp only
    split
    · split
      · rw [kept]
        rfl
      · rfl
    · rfl

theorem state_replayed (records : List (WalRecord Payload)) {s s' : State}
    {unhandled : List (WalRecord Payload)} (replayed : replayWalRecords s records = .ok (s', unhandled))
    (keeps : ∀ r ∈ records, KeepsEntries (toLogged r)) (k : ReprKey) :
    s'.location.state k = (records.map toLogged).foldl (entryAfter k) (s.location.state k) := by
  induction records generalizing s unhandled with
  | nil =>
    cases replayed
    rfl
  | cons r rest ih =>
    rw [List.forall_mem_cons] at keeps
    unfold replayWalRecords at replayed
    split at replayed
    · split at replayed
      · cases replayed
      · rename_i done
        cases replayed
        rw [ih done keeps.2, List.map_cons, List.foldl_cons]
        congr 1
        split
        · exact state_replayRecord s r keeps.1 k
        · rename_i unhandled
          rw [Bool.not_eq_true] at unhandled
          obtain ⟨lsn, ts, txId, recordType, schemaVer, collection, payload⟩ := r
          cases recordType <;> first | rfl | cases unhandled
    · cases replayed

/-! ### Logs that set, dirty and clean entries -/

/-- Every record of the log that gives an entry a state gives it Clean, and none takes an entry
away or renames a field. -/
def Plain : Logged → Prop
  | (_, .locationUpdate, .location _ descriptor) => descriptor.state = .clean
  | (_, .entityDelete, _) | (_, .schemaDropColl, _) => False
  | (_, .schemaAlter, .schemaAlter _ op) => ∀ fields, alterFields fields op = fields
  | _ => True

/-- Behind the record the entry is Clean, if it is there. -/
def covers (k : ReprKey) : Logged → Bool
  | (_, .locationUpdate, .location key _) => key = k
  | (_, .reprWrite, .entity e) => e.id = k.1 && k.2 < e.representations.length
  | _ => false

theorem Plain.keepsEntries {l : Logged} (plain : Plain l) : KeepsEntries l := by
  obtain ⟨collection, recordType, payload⟩ := l
  constructor
  · rintro rfl
    exact plain
  · rintro rfl
    exact plain

theorem entryAfter_cases {l : Logged} (plain : Plain l) (k : ReprKey) :
    covers k l = true ∧ ((∀ s, entryAfter k s l = some .clean) ∨
        ∀ s, entryAfter k s l = s.map cleaned) ∨
      covers k l = false ∧ ((∀ s, entryAfter k s l = s.map dirtied) ∨ ∀ s, entryAfter k s l = s) := by
  obtain ⟨collection, recordType, payload⟩ := l
  cases recordType <;> try exact .inr ⟨rfl, .inr fun _ => rfl⟩
  all_goals cases payload <;> try exact .inr ⟨rfl, .inr fun _ => rfl⟩
  case locationUpdate.location key descriptor =>
    have clean : descriptor.state = .clean := plain
    by_cases here : key = k
    · simp [covers, entryAfter, here, clean]
    · simp [covers, entryAfter, here]
  case reprWrite.entity e =>
    by_cases here : e.id = k.1 ∧ k.2 < e.representations.length
    · simp [covers, entryAfter, here]
    · have other : (decide (e.id = k.1) && decide (k.2 < e.representations.length)) = false := by
        rw [← Bool.decide_and]
        exact decide_eq_false here
      simp only [covers, entryAfter, here, other]
      simp
  case reprDirty.reprKey key =>
    by_cases here : key = k
    · simp [covers, entryAfter, here]
    · simp [covers, entryAfter, here]

section Told
variable {log : List Logged} (plain : ∀ l ∈ log, Plain l) (k : ReprKey)
include plain

theorem rests_told {s : Option LocState} (rests : s ≠ some .recomputing ∧ s ≠ some .migrating) :
    log.foldl (entryAfter k) s ≠ some .recomputing ∧ log.foldl (entryAfter k) s ≠ some .migrating := by
  induction log generalizing s with
  | nil => exact rests
  | cons l rest ih =>
    rw [List.forall_mem_cons] at plain
    refine ih plain.2 ?_
    obtain ⟨-, does | does⟩ | ⟨-, does | does⟩ := entryAfter_cases plain.1 k <;> rw [does]
    · simp
    all_goals
      rcases s with _ | (_ | _ | _ | _) <;> simp [cleaned, dirtied] at rests ⊢

/-- Behind a record that covers an entry, all entries that are there are told the same. -/
theorem told_covered (covered : log.any (covers k) = true) {s t : LocState} (s_ : s ≠ .migrating)
    (t_ : t ≠ .migrating) :
    log.foldl (entryAfter k) (some s) = log.foldl (entryAfter k) (some t) := by
  induction log generalizing s t with
  | nil => cases covered
  | cons l rest ih =>
    rw [List.forall_mem_cons] at plain
    rw [List.any_cons, Bool.or_eq_true] at covered
    rw [List.foldl_cons, List.foldl_cons]
    obtain ⟨here, does | does⟩ | ⟨elsewhere, does | does⟩ := entryAfter_cases plain.1 k
    · rw [does, does]
    · have same (u : LocState) (u_ : u ≠ .migrating) : cleaned u = .clean := by
        cases u <;> first | rfl | exact absurd rfl u_
      rw [does, does, Option.map_some, Option.map_some, same s s_, same t t_]
    · have later := covered.resolve_left (by simp [elsewhere])
      rw [does, does]
      refine ih plain.2 later ?_ ?_
      · cases s <;> simp [dirtied] at s_ ⊢
      · cases t <;> simp [dirtied] at t_ ⊢
    · have later := covered.resolve_left (by simp [elsewhere])
      rw [does, does]
      exact ih plain.2 later s_ t_

theorem told_uncovered (uncovered : log.any (covers k) = false) :
    log.foldl (entryAfter k) (some .recomputing) = some .recomputing := by
  induction log with
  | nil => rfl
  | cons l rest ih =>
    rw [List.forall_mem_cons] at plain
    rw [List.any_cons, Bool.or_eq_false_iff] at uncovered
    have later := ih plain.2 uncovered.2
    obtain ⟨here, -⟩ | ⟨-, does | does⟩ := entryAfter_cases plain.1 k
    · cases here.symm.trans uncovered.1
    all_goals
      rw [List.foldl_cons, does]
      exact later

/-- A log that leaves an entry Dirty does so when it finds it Dirty already, and also when it
finds it Clean, if it is told of the entry itself. -/
theorem told_dirty {s : Option LocState} (s_ : s ≠ some .migrating)
    (dirty : log.foldl (entryAfter k) s = some .dirty) :
    log.foldl (entryAfter k) (some .dirty) = some .dirty ∧
      (s = none → log.foldl (entryAfter k) (some .clean) = some .dirty) := by
  induction log generalizing s with
  | nil =>
    refine ⟨rfl, ?_⟩
    rintro rfl
    cases dirty
  | cons l rest ih =>
    rw [List.forall_mem_cons] at plain
    rw [List.foldl_cons] at dirty
    rw [List.foldl_cons, List.foldl_cons]
    obtain ⟨-, does | does⟩ | ⟨-, does | does⟩ := entryAfter_cases plain.1 k <;> rw [does] at dirty <;>
      rw [does, does]
    · exact ⟨dirty, fun _ => dirty⟩
    · rcases s with _ | (_ | _ | _ | _)
      · have told := (ih plain.2 (by simp) dirty).2 rfl
        exact ⟨told, fun _ => told⟩
      case some.migrating => exact absurd rfl s_
      all_goals exact ⟨dirty, fun none_ => by cases none_⟩
    · rcases s with _ | (_ | _ | _ | _)
      case some.migrating => exact absurd rfl s_
      all_goals
        have told := (ih plain.2 (by simp [dirtied]) dirty).1
        exact ⟨told, fun _ => told⟩
    · exact ih plain.2 s_ dirty

end Told

/-! ### The end of a log replayed again -/

theorem replay_end_again {d : Data} (owned : d.Owned) {log : List Logged} (legal : LegalAll d log)
    (plain : ∀ l ∈ log, Plain l) :
    log.foldl Data.replay (log.foldl Data.replay d) = log.foldl Data.replay d := by
  have after : (log.foldl Data.replay d).Owned := Data.owned_foldl log owned
  refine Data.ext_parts (fun name => ?_) fun name => ?_
  · rw [Data.collection_foldl name log after, Data.collection_foldl name log owned]
    refine replay_again_from (owned.collections name) (legalAll_collection owned legal name)
      fun h permitted => (reapplyAll_again permitted).mpr (settled_of_kept fun op listed fields => ?_)
    obtain ⟨l, there, made⟩ := List.mem_filterMap.mp (mem_of_alters listed)
    obtain ⟨filed, schema, -, -, same⟩ | ⟨e, -, same⟩ | ⟨filed, id, -, same⟩ | ⟨filed, -, same⟩ |
      ⟨filed, a, rfl, same⟩ := collectionOp_cases made <;> cases same
    exact plain _ there fields
  · rw [Data.edgeType_foldl name log after, Data.edgeType_foldl name log owned]
    refine replay_again_from (owned.edgeTypes name) (legalAll_edgeType owned legal name) fun h _ => ?_
    cases alters (log.filterMap (edgeTypeOp name)) with
    | nil => rfl
    | cons a rest => exact nomatch a

/-! ### Opening -/

theorem replayRecord_wal (s : State) (r : WalRecord Payload) : (replayRecord s r).wal = s.wal := by
  have kept (c : String) (op : SchemaAlterOp) : (s.replayIndexes c op).wal = s.wal := by
    unfold State.replayIndexes
    repeat' split
    all_goals rfl
  unfold replayRecord State.replayMemory
  dsimp only
  split <;> try rfl
  split <;> try rfl
  split
  · exact kept _ _
  · rfl

theorem replayed_wal (records : List (WalRecord Payload)) {s s' : State}
    {unhandled : List (WalRecord Payload)}
    (replayed : replayWalRecords s records = .ok (s', unhandled)) : s'.wal = s.wal :=
  replay_invariant (P := fun t => t.wal = s.wal) (fun t r same => (replayRecord_wal t r).trans same)
    records rfl replayed

theorem rebuild_location (s : State) (snapshots : HnswSnapshots) (records : List (WalRecord Payload)) :
    (s.rebuild snapshots records).location = s.location := by
  have entities (collection : String) (es : List Entity) (o : Opening) :
      (es.foldl (Opening.rebuildEntity collection) o).state.location = o.state.location := by
    induction es generalizing o with
    | nil => rfl
    | cons e rest ih => exact ih (o.rebuildEntity collection e)
  have opened (o : Opening) (collection : String) :
      (openCollection snapshots o collection).state.location = o.state.location := by
    have indexes : (o.openIndexes snapshots collection).state.location = o.state.location := by
      unfold Opening.openIndexes
      split <;> rfl
    unfold openCollection
    dsimp only
    split
    · rw [entities, indexes]
    · exact indexes
  have collections (names : List String) (o : Opening) :
      (names.foldl (openCollection snapshots) o).state.location = o.state.location := by
    induction names generalizing o with
    | nil => rfl
    | cons name rest ih => exact (ih _).trans (opened o name)
  have types (ets : List EdgeType) (t : State) :
      (ets.foldl State.rebuildEdgeType t).location = t.location := by
    induction ets generalizing t with
    | nil => rfl
    | cons et rest ih => exact ih (t.rebuildEdgeType et)
  unfold State.rebuild
  dsimp only
  rw [types]
  exact collections _ _

end TronDB.Engine
