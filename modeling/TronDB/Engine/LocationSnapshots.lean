import TronDB.Engine.LocationLog
import TronDB.Engine.LocationMaps

/-! The bytes of a location snapshot, and what a table that calls have left comes back as. -/
namespace TronDB.Engine
open TronDB.Core Bytes Wal.MessagePack

/-- What rmp_serde does with the entries of a location table. -/
structure RmpLocations where
  toVecNamed : List (ReprKey × LocationDescriptor) → Except String (List UInt8)
  fromSlice : List UInt8 → Except String (List (ReprKey × LocationDescriptor))

def RmpLocations.Inverts (m : RmpLocations) (entries : List (ReprKey × LocationDescriptor)) : Prop :=
  ∃ body, m.toVecNamed entries = .ok body ∧ m.fromSlice body = .ok entries

namespace LocationTable

def snapshotMagic : List UInt8 := [0x54, 0x52, 0x4F, 0x4E, 0x4C, 0x4F, 0x43, 0x31]

/-- The bytes of a snapshot, with the descriptors in the order in which the map is iterated. -/
def snapshotBytes (m : RmpLocations) (entries : List (ReprKey × LocationDescriptor))
    (walHeadLsn : UInt64) : Except EngineError (List UInt8) :=
  match m.toVecNamed entries with
  | .error e => .error (.storage e)
  | .ok body =>
    let count := UInt64.ofNat entries.length
    .ok (snapshotMagic ++ (beBytes 8 walHeadLsn.toNat ++ (beBytes 8 count.toNat ++ body)))

def restoreBytes (m : RmpLocations) (bytes : List UInt8) : Except EngineError (LocationTable × UInt64) :=
  if bytes.length < 24 then .error (.storage "snapshot too short")
  else if bytes.take 8 ≠ snapshotMagic then .error (.storage "invalid snapshot magic")
  else
    let walHeadLsn := UInt64.ofNat (fromBE ((bytes.drop 8).take 8))
    let count := UInt64.ofNat (fromBE ((bytes.drop 16).take 8))
    match m.fromSlice (bytes.drop 24) with
    | .error e => .error (.storage e)
    | .ok entries =>
      if UInt64.ofNat entries.length ≠ count then
        .error (.storage s!"snapshot count mismatch: header says {count}, body has {entries.length}")
      else .ok (restore ⟨entries, walHeadLsn.toNat⟩, walHeadLsn)

theorem fromBE_word (n : UInt64) : UInt64.ofNat (fromBE (beBytes 8 n.toNat)) = n := by
  rw [fromBE_beBytes 8 n.toNat n.toNat_lt, UInt64.ofNat_toNat]

theorem header_parts {a b c : List UInt8} (first : a.length = 8) (second : b.length = 8)
    (third : c.length = 8) (body : List UInt8) :
    let bytes := a ++ (b ++ (c ++ body))
    ¬ bytes.length < 24 ∧ bytes.take 8 = a ∧ (bytes.drop 8).take 8 = b ∧
      (bytes.drop 16).take 8 = c ∧ bytes.drop 24 = body := by
  dsimp only
  have one : (a ++ (b ++ (c ++ body))).drop 8 = b ++ (c ++ body) := List.drop_left' first
  have two : (a ++ (b ++ (c ++ body))).drop 16 = c ++ body := by
    have step : (b ++ (c ++ body)).drop 8 = c ++ body := List.drop_left' second
    rwa [← one, List.drop_drop] at step
  have three : (a ++ (b ++ (c ++ body))).drop 24 = body := by
    have step : (c ++ body).drop 8 = body := List.drop_left' third
    rwa [← two, List.drop_drop] at step
  refine ⟨?_, List.take_left' first, ?_, ?_, three⟩
  · rw [List.length_append, List.length_append, List.length_append]
    omega
  · rw [one, List.take_left' second]
  · rw [two, List.take_left' third]

theorem restoreBytes_snapshotBytes {m : RmpLocations} {entries : List (ReprKey × LocationDescriptor)}
    (inverts : m.Inverts entries) (walHeadLsn : UInt64) :
    ∃ bytes, snapshotBytes m entries walHeadLsn = .ok bytes ∧
      restoreBytes m bytes = .ok (restore ⟨entries, walHeadLsn.toNat⟩, walHeadLsn) := by
  obtain ⟨body, written, read⟩ := inverts
  refine ⟨_, by rw [snapshotBytes, written], ?_⟩
  obtain ⟨long, magic, lsn, count, rest⟩ := header_parts (show snapshotMagic.length = 8 from rfl)
    (length_beBytes 8 walHeadLsn.toNat) (length_beBytes 8 (UInt64.ofNat entries.length).toNat) body
  unfold restoreBytes
  rw [if_neg long, if_neg (not_not.mpr magic), lsn, count, rest, read, fromBE_word, fromBE_word]
  exact if_neg (not_not.mpr rfl)

end LocationTable

/-! ### Restored tables -/

namespace LocationTable

/-- A table with the descriptors of another one, and of each of its lists the indices that have a
descriptor; so the lists are the same exactly if all have one. -/
structure RestoredFrom (t t' : LocationTable) : Prop where
  descriptors : t'.descriptors = t.descriptors
  lists : ∀ e, t'.indices e = (t.indices e).filter fun i => (t.get (e, i)).isSome
  same_iff : t'.entityReprs = t.entityReprs ↔ ∀ k : ReprKey, k.2 ∈ t.indices k.1 → (t.get k).isSome

theorem consistent_restore (entries : List (ReprKey × LocationDescriptor)) (lsn : Nat) :
    (restore ⟨entries, lsn⟩).Consistent := by
  have calls := consistent_calls (entries.map fun kd => .register kd.1 kd.2)
  rwa [List.foldl_map] at calls

theorem descriptors_restore {t : LocationTable} {entries : List (ReprKey × LocationDescriptor)}
    (iterated : entries.Perm t.descriptors.toList) (lsn : Nat) :
    (restore ⟨entries, lsn⟩).descriptors = t.descriptors := by
  have distinct : (entries.map Prod.fst).Nodup :=
    (iterated.map Prod.fst).nodup_iff.mpr (FinMap.nodup_toList t.descriptors)
  have all : (restore ⟨entries, lsn⟩).descriptors = FinMap.insertAll ∅ entries :=
    registerAll_descriptors .new entries
  rw [all]
  refine FinMap.ext fun k => ?_
  cases found : t.descriptors[k]? with
  | some d =>
    have there := iterated.mem_iff.mpr ((FinMap.mem_toList _ _ _).mpr found)
    exact FinMap.get_insertAll entries ∅ distinct (k, d) there
  | none =>
    rw [FinMap.get_insertAll_absent]
    · exact Std.ExtTreeMap.getElem?_empty
    · intro listed
      obtain ⟨⟨k, d⟩, there, rfl⟩ := List.mem_map.mp listed
      cases found.symm.trans ((FinMap.mem_toList _ _ _).mp (iterated.mem_iff.mp there))

theorem Consistent.restored {t : LocationTable} (consistent : t.Consistent)
    {entries : List (ReprKey × LocationDescriptor)} (iterated : entries.Perm t.descriptors.toList)
    (lsn : Nat) : (restore ⟨entries, lsn⟩).entityReprs = t.entityReprs :=
  consistent.lists_eq (consistent_restore entries lsn) (descriptors_restore iterated lsn)

theorem Ordered.restored {t : LocationTable} (ordered : t.Ordered)
    (listed : ∀ k, (t.get k).isSome → k.2 ∈ t.indices k.1)
    {entries : List (ReprKey × LocationDescriptor)} (iterated : entries.Perm t.descriptors.toList)
    (lsn : Nat) : t.RestoredFrom (restore ⟨entries, lsn⟩) := by
  have same := descriptors_restore iterated lsn
  have consistent := consistent_restore entries lsn
  have present (k : ReprKey) : k.2 ∈ (restore ⟨entries, lsn⟩).indices k.1 ↔ (t.get k).isSome := by
    rw [consistent.listed_iff, get, same]
    rfl
  refine ⟨same, fun e => ?_, fun lists k there => ?_, fun backed => ?_⟩
  · refine List.Pairwise.eq_of_mem_iff (consistent.sorted e) ((ordered.sorted e).filter _) fun i => ?_
    rw [present (e, i), List.mem_filter]
    exact ⟨fun some_ => ⟨listed (e, i) some_, some_⟩, fun both => both.2⟩
  · rw [← present, indices, lists]
    exact there
  · exact Consistent.restored ⟨ordered, fun k => ⟨backed k, listed k⟩⟩ iterated lsn

/-- Whichever way the descriptors are iterated, their snapshot restores its LSN and a table with
the property. -/
def Restores (t : LocationTable) (m : RmpLocations) (lsn : UInt64) (P : LocationTable → Prop) : Prop :=
  ∀ entries : List (ReprKey × LocationDescriptor), entries.Perm t.descriptors.toList →
    m.Inverts entries → ∃ bytes t', snapshotBytes m entries lsn = .ok bytes ∧
      restoreBytes m bytes = .ok (t', lsn) ∧ P t'

theorem restores_of {t : LocationTable} {m : RmpLocations} {lsn : UInt64} {P : LocationTable → Prop}
    (restored : ∀ entries : List (ReprKey × LocationDescriptor),
      entries.Perm t.descriptors.toList → P (restore ⟨entries, lsn.toNat⟩)) : t.Restores m lsn P := by
  intro entries iterated inverts
  obtain ⟨bytes, written, read⟩ := restoreBytes_snapshotBytes inverts lsn
  exact ⟨bytes, _, written, read, restored entries iterated⟩

def SameMaps (t t' : LocationTable) : Prop :=
  t'.descriptors = t.descriptors ∧ t'.entityReprs = t.entityReprs

theorem Consistent.restores {t : LocationTable} (consistent : t.Consistent) (m : RmpLocations)
    (lsn : UInt64) : t.Restores m lsn t.SameMaps :=
  restores_of fun _ iterated =>
    ⟨descriptors_restore iterated lsn.toNat, consistent.restored iterated lsn.toNat⟩

end LocationTable

open LocationTable

/-- Calls one after the other leave two maps that agree and come back from a snapshot. Steps of
calls in any order leave every descriptor in its list, and lists that come back where no
`register` and `remove_entity` of one entity have met. -/
theorem location_maps_agree (m : RmpLocations) (lsn : UInt64) :
    (∀ cs : List LocationCall,
      (cs.foldl LocationCall.run .new).Agree ∧
      (cs.foldl LocationCall.run .new).Restores m lsn (cs.foldl LocationCall.run .new).SameMaps) ∧
    ∀ steps : List SharedStep, (steps.foldl sharedStep .start).calls = [] →
      (steps.foldl sharedStep .start).table.Agree ∧
      (steps.foldl sharedStep .start).table.Restores m lsn
        (steps.foldl sharedStep .start).table.RestoredFrom ∧
      (Separately steps → (steps.foldl sharedStep .start).table.Restores m lsn
        (steps.foldl sharedStep .start).table.SameMaps) := by
  refine ⟨fun cs => ?_, fun steps finished => ⟨?_, ?_, fun separately => ?_⟩⟩
  · have consistent := consistent_calls cs
    exact ⟨consistent.toOrdered.agree fun k => (consistent.listed_iff k).mpr, consistent.restores m lsn⟩
  · obtain ⟨ordered, listed⟩ := ordered_finished finished
    exact ordered.agree listed
  · obtain ⟨ordered, listed⟩ := ordered_finished finished
    exact restores_of fun _ iterated => ordered.restored listed iterated lsn.toNat
  · exact (consistent_finished finished separately).restores m lsn

/-! ### A call inside another one -/

def tierName : Tier → String
  | .ram => "Ram" | .fjall => "Fjall" | .nvme => "NVMe" | .archive => "Archive"

def stateName : LocState → String
  | .clean => "Clean" | .dirty => "Dirty" | .recomputing => "Recomputing" | .migrating => "Migrating"

def encodingName : Encoding → String
  | .float32 => "Float32" | .int8 => "Int8" | .binary => "Binary" | .sparse => "Sparse"
  | .polarQuant => "PolarQuant"

def entryBytes (kd : ReprKey × LocationDescriptor) : List UInt8 :=
  array
    [fixmap [("entity_id", str kd.1.1), ("repr_index", uint kd.1.2)],
      fixmap
        [("tier", str (tierName kd.2.tier)),
          ("node_address",
            fixmap [("host", str kd.2.nodeAddress.host), ("port", uint kd.2.nodeAddress.port)]),
          ("state", str (stateName kd.2.state)), ("version", uint kd.2.version),
          ("encoding", str (encodingName kd.2.encoding)), ("last_accessed", uint kd.2.lastAccessed)]]

/-- A codec with the layout of rmp_serde that reads back the bytes of these entries only. -/
def readingBack (entries : List (ReprKey × LocationDescriptor)) : RmpLocations where
  toVecNamed es := .ok (array (es.map entryBytes))
  fromSlice bytes := if bytes = array (entries.map entryBytes) then .ok entries else .error "invalid"

theorem readingBack_inverts (entries : List (ReprKey × LocationDescriptor)) :
    (readingBack entries).Inverts entries :=
  ⟨_, rfl, if_pos rfl⟩

def museumDescriptor : LocationDescriptor := ⟨.fjall, .localhost, .clean, 1, .float32, 0⟩

def museumRegister : SharedStep := .call (.register ("museum", 0) museumDescriptor)

/-- The museum is registered, and later once more while it is removed: the list is taken before
the second `register` looks at it, and the descriptor after. -/
def museumSteps : List SharedStep :=
  [museumRegister, .advance 0, .advance 0, museumRegister, .call (.removeEntity "museum"),
    .advance 0, .advance 0, .advance 0, .advance 0]

theorem museum_finished : (museumSteps.foldl sharedStep .start).calls = [] := by decide +kernel

theorem museum_descriptors : (museumSteps.foldl sharedStep .start).table.descriptors.toList = [] := by
  decide +kernel

theorem museum_agrees :
    ((museumSteps.foldl sharedStep .start).table.Agree ∧
      ∃ bytes t', snapshotBytes (readingBack []) [] 42 = .ok bytes ∧
        restoreBytes (readingBack []) bytes = .ok (t', 42) ∧
        (museumSteps.foldl sharedStep .start).table.RestoredFrom t') ∧
      ∃ bytes t',
        snapshotBytes (readingBack [(("museum", 0), museumDescriptor)])
          [(("museum", 0), museumDescriptor)] 42 = .ok bytes ∧
        restoreBytes (readingBack [(("museum", 0), museumDescriptor)]) bytes = .ok (t', 42) ∧
        SameMaps (LocationTable.new.register ("museum", 0) museumDescriptor) t' := by
  obtain ⟨agree, restores, -⟩ := (location_maps_agree (readingBack []) 42).2 museumSteps museum_finished
  obtain ⟨-, alone⟩ := (location_maps_agree (readingBack [(("museum", 0), museumDescriptor)]) 42).1
    [.register ("museum", 0) museumDescriptor]
  refine ⟨⟨agree, restores [] (museum_descriptors ▸ .nil) (readingBack_inverts [])⟩, ?_⟩
  refine alone _ (List.Perm.of_eq ?_) (readingBack_inverts _)
  decide +kernel

/-- The museum has no descriptor and is listed all the same, which its snapshot does not bring back. -/
theorem museum_list_lost : (museumSteps.foldl sharedStep .start).calls = [] ∧
    ¬ (museumSteps.foldl sharedStep .start).table.Restores (readingBack []) 42
      (museumSteps.foldl sharedStep .start).table.SameMaps := by
  refine ⟨museum_finished, fun restores => ?_⟩
  obtain ⟨bytes, t', written, read, -, lists⟩ :=
    restores [] (museum_descriptors ▸ .nil) (readingBack_inverts [])
  obtain ⟨_, written', read'⟩ := restoreBytes_snapshotBytes (readingBack_inverts []) 42
  cases written.symm.trans written'
  cases read.symm.trans read'
  have listed : (museumSteps.foldl sharedStep .start).table.indices "museum" = [0] := by decide +kernel
  rw [indices, ← lists] at listed
  exact absurd listed (by decide +kernel)

end TronDB.Engine
