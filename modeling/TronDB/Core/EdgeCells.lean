import TronDB.Core.Namespaces
import TronDB.Lib.LastWrite

/-! The edges of the store: the cells they are kept in, and when these are a map from pairs of ids. -/
namespace TronDB.Core

namespace FjallStore

def getEdge {F : Fjall} (ks : FjallStore F) (edgeType : String) (fromId toId : LogicalId) :
    Except EngineError (Option Edge) :=
  match ks.cell (edgesPartitionName edgeType) (edgeRecordKey fromId toId) with
  | some (.edge edge) => .ok (some edge)
  | some _ => .error (.storage "invalid edge")
  | none => .ok none

def scanEdges (ks : FjallStore Disk.fjall) (edgeType : String) : List Edge :=
  (Disk.partition ks (edgesPartitionName edgeType)).toList.filterMap fun kv =>
    if (utf8 edgePrefix).isPrefixOf kv.1 then
      match kv.2 with
      | .edge edge => some edge
      | _ => none
    else none

end FjallStore

inductive EdgeCall where
  | insertEdge (edge : Edge)
  | deleteEdge (edgeType : String) (fromId toId : LogicalId)

namespace EdgeCall

def run (ks : FjallStore Disk.fjall) : EdgeCall → FjallStore Disk.fjall
  | insertEdge edge => ks.insertEdge edge
  | deleteEdge edgeType fromId toId => ks.deleteEdge edgeType fromId toId

def after (calls : List EdgeCall) : FjallStore Disk.fjall := calls.foldl run Disk.fresh

/-! ### What the store is to be -/

abbrev Pair := LogicalId × LogicalId

/-- The call as a write to a pair of ids, if it is about the edge type. -/
def write (edgeType : String) : EdgeCall → Option (Write Pair Edge)
  | insertEdge edge =>
    if edge.edgeType = edgeType then some (.set (edge.fromId, edge.toId) edge) else none
  | deleteEdge edgeType' fromId toId =>
    if edgeType' = edgeType then some (.unset (fromId, toId)) else none

/-- The edge of the last insert for exactly the pair, if the pair was not deleted since. -/
def lastEdge (edgeType : String) (calls : List EdgeCall) (pair : Pair) : Option Edge :=
  Write.held (calls.filterMap (write edgeType)) pair

structure MapAfter (edgeType : String) (calls : List EdgeCall) : Prop where
  get : ∀ fromId toId, (after calls).getEdge edgeType fromId toId =
    .ok (lastEdge edgeType calls (fromId, toId))
  scan : ∀ edge, edge ∈ (after calls).scanEdges edgeType ↔
    ∃ pair, lastEdge edgeType calls pair = some edge
  once : (((after calls).scanEdges edgeType).map fun edge => (edge.fromId, edge.toId)).Nodup

def concerns (edgeType : String) (fromId toId : LogicalId) : EdgeCall → Prop
  | insertEdge edge => edge.edgeType = edgeType ∧ edge.fromId = fromId ∧ edge.toId = toId
  | deleteEdge edgeType' fromId' toId' => edgeType' = edgeType ∧ fromId' = fromId ∧ toId' = toId

/-- All along the calls the edges of the type are a map from pairs of ids, and a call about
another pair leaves what is read of a pair. -/
def EdgesAreMap (edgeType : String) (calls : List EdgeCall) : Prop :=
  (∀ before, before <+: calls → MapAfter edgeType before) ∧
    ∀ before call, before ++ [call] <+: calls → ∀ fromId toId,
      ¬ call.concerns edgeType fromId toId →
        (after (before ++ [call])).getEdge edgeType fromId toId =
          (after before).getEdge edgeType fromId toId

/-! ### The cells -/

def recordKey (pair : Pair) : List UInt8 := edgeRecordKey pair.1 pair.2

variable {edgeType : String} {calls : List EdgeCall}

theorem after_snoc (calls : List EdgeCall) (call : EdgeCall) :
    after (calls ++ [call]) = call.run (after calls) := by
  unfold after
  rw [List.foldl_append]
  rfl

theorem edgesPartitionName_injective {t t' : String}
    (same : edgesPartitionName t = edgesPartitionName t') : t = t' := append_cancel _ same

/-- The calls about the edge type as writes to the cells of its partition. -/
def cellWrites (edgeType : String) (calls : List EdgeCall) : List (Write (List UInt8) Edge) :=
  (calls.filterMap (write edgeType)).map (.rekey recordKey)

theorem cellWrites_snoc (calls : List EdgeCall) {call : EdgeCall} {w : Write Pair Edge}
    (writes : write edgeType call = some w) :
    cellWrites edgeType (calls ++ [call]) = cellWrites edgeType calls ++ [w.rekey recordKey] := by
  unfold cellWrites
  rw [List.filterMap_append, List.map_append]
  simp [writes]

theorem cellWrites_other (calls : List EdgeCall) {call : EdgeCall}
    (silent : write edgeType call = none) :
    cellWrites edgeType (calls ++ [call]) = cellWrites edgeType calls := by
  unfold cellWrites
  rw [List.filterMap_append, List.map_append]
  simp [silent]

/-- What lies under a key is what the last write to the key left, whatever its pair. -/
theorem cell_after (edgeType : String) (calls : List EdgeCall) (key : List UInt8) :
    (after calls).cell (edgesPartitionName edgeType) key =
      (Write.held (cellWrites edgeType calls) key).map .edge := by
  induction calls using List.reverseRecOn with
  | nil =>
    unfold after
    rw [List.foldl_nil, Disk.cell_fresh]
    rfl
  | append_singleton calls call ih =>
    rw [after_snoc]
    cases call with
    | insertEdge edge =>
      unfold run FjallStore.insertEdge
      rw [FjallStore.cell_put, ih]
      by_cases here : edge.edgeType = edgeType
      · have writes : write edgeType (insertEdge edge) = some (.set (edge.fromId, edge.toId) edge) :=
          if_pos here
        rw [cellWrites_snoc calls writes, Write.held_snoc, here]
        simp only [true_and, Write.rekey, Write.step, recordKey]
        split <;> rfl
      · have silent : write edgeType (insertEdge edge) = none := if_neg here
        rw [cellWrites_other calls silent]
        exact if_neg fun both => here (edgesPartitionName_injective both.1)
    | deleteEdge t f g =>
      unfold run FjallStore.deleteEdge
      rw [FjallStore.cell_remove, ih]
      by_cases here : t = edgeType
      · have writes : write edgeType (deleteEdge t f g) = some (.unset (f, g)) := if_pos here
        rw [cellWrites_snoc calls writes, Write.held_snoc, here]
        simp only [true_and, Write.rekey, Write.step, recordKey]
        split <;> rfl
      · have silent : write edgeType (deleteEdge t f g) = none := if_neg here
        rw [cellWrites_other calls silent]
        exact if_neg fun both => here (edgesPartitionName_injective both.1)

theorem getEdge_after (edgeType : String) (calls : List EdgeCall) (fromId toId : LogicalId) :
    (after calls).getEdge edgeType fromId toId =
      .ok (Write.held (cellWrites edgeType calls) (recordKey (fromId, toId))) := by
  unfold FjallStore.getEdge
  have cell := cell_after edgeType calls (recordKey (fromId, toId))
  unfold recordKey at cell ⊢
  rw [cell]
  cases Write.held (cellWrites edgeType calls) (edgeRecordKey fromId toId) <;> rfl

theorem write_own {call : EdgeCall} {pair : Pair} {edge : Edge}
    (writes : write edgeType call = some (.set pair edge)) :
    call = insertEdge edge ∧ edge.edgeType = edgeType ∧ pair = (edge.fromId, edge.toId) := by
  cases call with
  | insertEdge e =>
    by_cases here : e.edgeType = edgeType
    · rw [write, if_pos here] at writes
      cases writes
      exact ⟨rfl, here, rfl⟩
    · rw [write, if_neg here] at writes
      cases writes
  | deleteEdge t f g =>
    by_cases here : t = edgeType
    · rw [write, if_pos here] at writes
      cases writes
    · rw [write, if_neg here] at writes
      cases writes

theorem inserted_of_last {pair : Pair} {edge : Edge}
    (last : lastEdge edgeType calls pair = some edge) :
    insertEdge edge ∈ calls ∧ edge.edgeType = edgeType ∧ pair = (edge.fromId, edge.toId) := by
  obtain ⟨call, among, writes⟩ := List.mem_filterMap.mp (Write.set_of_held last)
  obtain ⟨rfl, own⟩ := write_own writes
  exact ⟨among, own⟩

theorem own_key {key : List UInt8} {edge : Edge}
    (there : Write.held (cellWrites edgeType calls) key = some edge) :
    key = recordKey (edge.fromId, edge.toId) := by
  obtain ⟨w, among, rekeyed⟩ := List.mem_map.mp (Write.set_of_held there)
  obtain ⟨call, -, writes⟩ := List.mem_filterMap.mp among
  cases w with
  | set pair e =>
    cases rekeyed
    obtain ⟨-, -, rfl⟩ := write_own writes
    rfl
  | unset pair => cases rekeyed

theorem prefix_recordKey (pair : Pair) : (utf8 edgePrefix).isPrefixOf (recordKey pair) = true := by
  rw [List.isPrefixOf_iff_prefix]
  refine ⟨utf8 (pair.1 ++ ":" ++ pair.2), ?_⟩
  unfold recordKey edgeRecordKey utf8
  simp

theorem scanned {key : List UInt8} {cell : Cell}
    (listed : (key, cell) ∈ (Disk.partition (after calls) (edgesPartitionName edgeType)).toList) :
    ∃ edge, cell = .edge edge ∧ key = recordKey (edge.fromId, edge.toId) ∧
      Write.held (cellWrites edgeType calls) key = some edge := by
  have there := (FinMap.mem_toList _ key cell).mp listed
  have held := cell_after edgeType calls key
  have stored : (after calls).cell (edgesPartitionName edgeType) key = some cell := there
  rw [stored] at held
  obtain ⟨edge, last, rfl⟩ := Option.map_eq_some_iff.mp held.symm
  exact ⟨edge, rfl, own_key last, last⟩

theorem mem_scanEdges {edge : Edge} : edge ∈ (after calls).scanEdges edgeType ↔
    Write.held (cellWrites edgeType calls) (recordKey (edge.fromId, edge.toId)) = some edge := by
  unfold FjallStore.scanEdges
  rw [List.mem_filterMap]
  constructor
  · rintro ⟨⟨key, cell⟩, listed, read⟩
    obtain ⟨e, rfl, rfl, last⟩ := scanned listed
    rw [if_pos (prefix_recordKey _)] at read
    obtain rfl := Option.some.inj read
    exact last
  · intro last
    have held := cell_after edgeType calls (recordKey (edge.fromId, edge.toId))
    rw [last] at held
    refine ⟨(recordKey (edge.fromId, edge.toId), .edge edge), (FinMap.mem_toList _ _ _).mpr held, ?_⟩
    exact if_pos (prefix_recordKey _)

theorem scanEdges_once (edgeType : String) (calls : List EdgeCall) :
    (((after calls).scanEdges edgeType).map fun edge => (edge.fromId, edge.toId)).Nodup := by
  have keys := FinMap.nodup_toList (Disk.partition (after calls) (edgesPartitionName edgeType))
  unfold FjallStore.scanEdges
  rw [List.Nodup, List.pairwise_map] at keys ⊢
  rw [List.pairwise_filterMap]
  refine keys.imp_of_mem fun {a b} listed listed' differ e read e' read' same => differ ?_
  obtain ⟨key, cell⟩ := a
  obtain ⟨key', cell'⟩ := b
  obtain ⟨edge, rfl, rfl, -⟩ := scanned listed
  obtain ⟨edge', rfl, rfl, -⟩ := scanned listed'
  rw [if_pos (prefix_recordKey _)] at read read'
  obtain rfl := Option.some.inj read
  obtain rfl := Option.some.inj read'
  exact congrArg recordKey same

/-! ### Keys that pairs share -/

theorem recordKey_eq_iff {pair pair' : Pair} : recordKey pair = recordKey pair' ↔
    pair.1.toList ++ ':' :: pair.2.toList = pair'.1.toList ++ ':' :: pair'.2.toList := by
  have chars (pair : Pair) :
      (pair.1 ++ ":" ++ pair.2).toList = pair.1.toList ++ ':' :: pair.2.toList := by
    rw [String.toList_append, String.toList_append, List.append_assoc]
    rfl
  rw [← chars, ← chars]
  constructor
  · intro same
    have texts := append_cancel _ (utf8_injective same)
    rw [texts]
  · intro same
    have texts := String.toList_injective same
    unfold recordKey edgeRecordKey
    rw [texts]

def Plain (pair : Pair) : Prop := ':' ∉ pair.1.toList ∧ ':' ∉ pair.2.toList

theorem plain_alone {pair pair' : Pair} (plain : Plain pair) (same : recordKey pair' = recordKey pair) :
    pair' = pair := by
  have chars := (recordKey_eq_iff.mp same).symm
  obtain ⟨first, -, second⟩ := (List.append_cons_inj_of_notMem plain.1 plain.2).mp chars
  exact Prod.ext (String.toList_injective first.symm) (String.toList_injective second.symm)

theorem shared_of_colon {pair : Pair} (colon : ¬ Plain pair) :
    ∃ pair', pair' ≠ pair ∧ recordKey pair' = recordKey pair := by
  obtain ⟨fromId, toId⟩ := pair
  unfold Plain at colon
  rw [not_and_or, not_not, not_not] at colon
  rcases colon with inFrom | inTo
  · obtain ⟨before, behind, chars⟩ := List.append_of_mem inFrom
    dsimp only at chars
    refine ⟨(String.ofList before, String.ofList (behind ++ ':' :: toId.toList)), fun same => ?_, ?_⟩
    · have shorter := congrArg (fun pair : Pair => pair.1.toList.length) same
      simp only [String.toList_ofList, chars, List.length_append, List.length_cons] at shorter
      omega
    · rw [recordKey_eq_iff]
      simp [chars]
  · obtain ⟨before, behind, chars⟩ := List.append_of_mem inTo
    dsimp only at chars
    refine ⟨(String.ofList (fromId.toList ++ ':' :: before), String.ofList behind), fun same => ?_, ?_⟩
    · have shorter := congrArg (fun pair : Pair => pair.2.toList.length) same
      simp only [String.toList_ofList, chars, List.length_append, List.length_cons] at shorter
      omega
    · rw [recordKey_eq_iff]
      simp [chars]

/-! ### When the edges are a map -/

theorem held_cells (plain : ∀ edge, insertEdge edge ∈ calls → edge.edgeType = edgeType →
    Plain (edge.fromId, edge.toId)) (pair : Pair) :
    Write.held (cellWrites edgeType calls) (recordKey pair) = lastEdge edgeType calls pair := by
  refine Write.held_rekey recordKey _ (fun pair edge set pair' same => ?_) pair
  obtain ⟨call, among, writes⟩ := List.mem_filterMap.mp set
  obtain ⟨rfl, typed, rfl⟩ := write_own writes
  exact plain_alone (plain edge among typed) same

theorem mapAfter_of_plain (plain : ∀ edge, insertEdge edge ∈ calls → edge.edgeType = edgeType →
    Plain (edge.fromId, edge.toId)) : MapAfter edgeType calls where
  get fromId toId := by rw [getEdge_after, held_cells plain]
  scan edge := by
    rw [mem_scanEdges, held_cells plain]
    constructor
    · exact fun last => ⟨_, last⟩
    · rintro ⟨pair, last⟩
      obtain ⟨-, -, rfl⟩ := inserted_of_last last
      exact last
  once := scanEdges_once edgeType calls

theorem lastEdge_unconcerned {call : EdgeCall} {fromId toId : LogicalId}
    (other : ¬ call.concerns edgeType fromId toId) :
    lastEdge edgeType (calls ++ [call]) (fromId, toId) = lastEdge edgeType calls (fromId, toId) := by
  unfold lastEdge
  rw [List.filterMap_append]
  cases writes : write edgeType call with
  | none => simp [writes]
  | some w =>
    simp only [List.filterMap_cons, writes, List.filterMap_nil, Write.held_snoc]
    cases call with
    | insertEdge edge =>
      by_cases here : edge.edgeType = edgeType
      · obtain rfl := Option.some.inj ((if_pos here).symm.trans writes)
        exact if_neg fun same => other ⟨here, (Prod.mk.inj same).1, (Prod.mk.inj same).2⟩
      · cases (if_neg here).symm.trans writes
    | deleteEdge t f g =>
      by_cases here : t = edgeType
      · obtain rfl := Option.some.inj ((if_pos here).symm.trans writes)
        exact if_neg fun same => other ⟨here, (Prod.mk.inj same).1, (Prod.mk.inj same).2⟩
      · cases (if_neg here).symm.trans writes

theorem edges_map_iff (edgeType : String) (calls : List EdgeCall) :
    EdgesAreMap edgeType calls ↔ ∀ edge, insertEdge edge ∈ calls → edge.edgeType = edgeType →
      ':' ∉ edge.fromId.toList ∧ ':' ∉ edge.toId.toList := by
  constructor
  · intro isMap edge among typed
    obtain ⟨before, behind, rfl⟩ := List.append_of_mem among
    have now := isMap.1 (before ++ [insertEdge edge]) ⟨behind, by simp⟩
    by_contra colon
    have colon : ¬ Plain (edge.fromId, edge.toId) := colon
    obtain ⟨⟨fromId, toId⟩, other, shared⟩ := shared_of_colon colon
    have read := now.get fromId toId
    have writes : write edgeType (insertEdge edge) = some (.set (edge.fromId, edge.toId) edge) :=
      if_pos typed
    rw [getEdge_after, cellWrites_snoc before writes, shared] at read
    unfold Write.rekey at read
    rw [Write.held_set] at read
    obtain ⟨-, -, own⟩ := inserted_of_last (Except.ok.inj read).symm
    exact other own
  · intro plain
    have each (before : List EdgeCall) (first : before <+: calls) : MapAfter edgeType before :=
      mapAfter_of_plain fun edge among => plain edge (first.mem among)
    refine ⟨each, fun before call first fromId toId other => ?_⟩
    have prior : before <+: calls := (List.prefix_append before [call]).trans first
    rw [(each _ first).get, (each _ prior).get, lastEdge_unconcerned other]

def colonEdge : Edge := ⟨"a:b", "c", "knows", ⟨0⟩, ∅, 0, .structural, none, none⟩

/-- It is read as the edge from `a` to `b:c`, too. -/
theorem colon_edge_shared : ¬ EdgesAreMap "knows" [insertEdge colonEdge] := by
  intro isMap
  have read := (isMap.1 [insertEdge colonEdge] List.prefix_rfl).get "a" "b:c"
  revert read
  decide

end EdgeCall
end TronDB.Core
