import TronDB.Engine.Replayed

/-! What a statement that fails leaves behind. -/
namespace TronDB.Engine
open TronDB.Core Binary Wal

section Failure
variable [WalPayload Payload]

/-- The mutation records whose transaction has a commit record among them. -/
def committedAmong (disk : List (WalRecord Payload)) : List (WalRecord Payload) :=
  disk.filter fun r => r.isMutation && commits disk r.txId

def State.committedRecords (s : State) : List (WalRecord Payload) := committedAmong s.wal.disk

/-- Nothing that is stored, indexed, located or committed differs. -/
structure NoTrace (s s' : State) : Prop where
  entities : s'.store.entities = s.store.entities
  collections : s'.store.collections = s.store.collections
  edgeTypes : s'.store.edgeTypes = s.store.edgeTypes
  schemas : s'.schemas = s.schemas
  fieldIndexes : s'.fieldIndexes = s.fieldIndexes
  partitions : ∀ collection index,
    s'.store.indexPartition collection index = s.store.indexPartition collection index
  sparseIndexes : s'.sparseIndexes = s.sparseIndexes
  indexes : s'.indexes = s.indexes
  location : s'.location = s.location
  committed : s'.committedRecords = s.committedRecords

theorem NoTrace.refl (s : State) : NoTrace s s :=
  ⟨rfl, rfl, rfl, rfl, rfl, fun _ _ => rfl, rfl, rfl, rfl, rfl⟩

omit [WalPayload Payload] in
theorem committed_grows (disk extra : List (WalRecord Payload)) (r : WalRecord Payload)
    (added : r ∈ extra) (mutation : r.isMutation = true) (closed : commits extra r.txId = true) :
    (committedAmong disk).length < (committedAmong (disk ++ extra)).length := by
  have more (txId : Nat) : commits disk txId = true → commits (disk ++ extra) txId = true := by
    rw [commits, commits, List.any_append, Bool.or_eq_true]
    exact Or.inl
  have last : r ∈ extra.filter fun r => r.isMutation && commits (disk ++ extra) r.txId := by
    refine List.mem_filter.mpr ⟨added, ?_⟩
    rw [mutation, Bool.true_and, commits, List.any_append, Bool.or_eq_true]
    exact .inr closed
  have kept : (committedAmong disk).length ≤
      (disk.filter fun r => r.isMutation && commits (disk ++ extra) r.txId).length := by
    refine (List.monotone_filter_right disk fun r => ?_).length_le
    rw [Bool.and_eq_true, Bool.and_eq_true]
    exact fun both => ⟨both.1, more r.txId both.2⟩
  rw [committedAmong.eq_def (disk ++ extra), List.filter_append, List.length_append]
  have := List.length_pos_of_mem last
  omega

theorem committed_transaction (w : WalWriter (WalSegment Payload) Payload) (collection : String)
    (ts : Int) (entry : Entry Payload) (rest : List (Entry Payload))
    (mutating : entry.1.isControl = false) :
    (committedAmong w.disk).length <
      (committedAmong (w.transaction collection ts (entry :: rest)).disk).length := by
  obtain ⟨disk, buffer, -, -⟩ := WalWriter.appendAll_spec (entry :: rest)
    (w.beginTx collection ts) collection w.nextTx ts
  have grown := WalWriter.disk_commit
    ((w.beginTx collection ts).appendAll collection w.nextTx ts (entry :: rest)) w.nextTx ts
  rw [disk] at grown
  refine grown ▸ committed_grows w.disk _ ⟨(w.beginTx collection ts).nextLsn, ts, w.nextTx,
    entry.1, 1, collection, entry.2⟩ ?_ ?_ ?_
  · rw [buffer]
    simp [entryRecords]
  · simp [WalRecord.isMutation, mutating]
  · simp [commits, WalWriter.commitRecord]

theorem traced {s s' : State} (ts : Int) (collection : String) {entry : Entry Payload}
    {rest : List (Entry Payload)}
    (wal : s'.wal = s.wal.transaction collection ts (entry :: rest))
    (mutating : entry.1.isControl = false) : ¬ NoTrace s s' := by
  intro none
  have longer := committed_transaction s.wal collection ts entry rest mutating
  have same := none.committed
  rw [State.committedRecords, State.committedRecords, wal] at same
  rw [same] at longer
  exact Nat.lt_irrefl _ longer

end Failure

/-! ### What an overwritten entity had in the indexes -/

section Sparse
variable {id : LogicalId}

def Unposted (id : LogicalId) (idx : SparseIndex) (dim : UInt32) : Prop :=
  ∀ entries, idx.postings[dim]? = some entries → entries ≠ [] ∧ ∀ e ∈ entries, e.1 ≠ id

def unpost (id : LogicalId) (postings : FinMap UInt32 (List (LogicalId × F32)))
    (entry : UInt32 × F32) : FinMap UInt32 (List (LogicalId × F32)) :=
  match postings[entry.1]? with
  | some entries =>
    let kept := entries.filter fun e => e.1 ≠ id
    if kept = [] then postings.erase entry.1 else postings.insert entry.1 kept
  | none => postings

theorem remove_eq_foldl (idx : SparseIndex) (v : List (UInt32 × F32)) :
    idx.remove id v = ⟨v.foldl (unpost id) idx.postings⟩ := rfl

theorem unposted_unpost (postings : FinMap UInt32 (List (LogicalId × F32)))
    (entry : UInt32 × F32) : Unposted id ⟨unpost id postings entry⟩ entry.1 := by
  intro entries found
  unfold unpost at found
  cases old : postings[entry.1]? with
  | none => simp [old] at found
  | some before =>
    rw [old] at found
    dsimp only at found
    split at found
    · rw [FinMap.get_erase, if_pos rfl] at found
      cases found
    · rename_i some
      rw [FinMap.get_insert, if_pos rfl] at found
      cases found
      exact ⟨some, fun e there => by simpa using (List.mem_filter.mp there).2⟩

theorem unposted_kept {postings : FinMap UInt32 (List (LogicalId × F32))} {dim : UInt32}
    (clear : Unposted id ⟨postings⟩ dim) (entry : UInt32 × F32) :
    Unposted id ⟨unpost id postings entry⟩ dim := by
  by_cases here : entry.1 = dim
  · exact here ▸ unposted_unpost postings entry
  · intro entries found
    refine clear entries ?_
    unfold unpost at found
    split at found
    · dsimp only at found
      split at found
      · rwa [FinMap.get_erase, if_neg here] at found
      · rwa [FinMap.get_insert, if_neg here] at found
    · exact found

theorem unpost_unposted {postings : FinMap UInt32 (List (LogicalId × F32))}
    {entry : UInt32 × F32} (clear : Unposted id ⟨postings⟩ entry.1) :
    unpost id postings entry = postings := by
  unfold unpost
  split
  · rename_i entries found
    obtain ⟨some, others⟩ := clear entries found
    have all : entries.filter (fun e => e.1 ≠ id) = entries :=
      List.filter_eq_self.mpr fun e there => decide_eq_true (others e there)
    dsimp only
    rw [all, if_neg some]
    refine FinMap.ext fun k => ?_
    rw [FinMap.get_insert]
    split
    · rename_i here
      rw [← here, found]
    · rfl
  · rfl

theorem remove_unposted {idx : SparseIndex} {v : List (UInt32 × F32)}
    (clear : ∀ entry ∈ v, Unposted id idx entry.1) : idx.remove id v = idx := by
  rw [remove_eq_foldl, Run.foldl_unchanged _ _ _ fun entry there => unpost_unposted (clear entry there)]

/-- The entity has no posting under its own dimensions. -/
def SparseClear (sparseIndexes : FinMap (String × String) SparseIndex) (collection : String)
    (id : LogicalId) (repr : Representation) : Prop :=
  ∀ v idx, repr.vector = .sparse v → sparseIndexes[(collection, repr.name)]? = some idx →
    ∀ entry ∈ v, Unposted id idx entry.1

theorem unposted_remove {idx : SparseIndex} {dim : UInt32} (clear : Unposted id idx dim)
    (v : List (UInt32 × F32)) : Unposted id (idx.remove id v) dim := by
  obtain ⟨postings⟩ := idx
  rw [remove_eq_foldl]
  induction v generalizing postings with
  | nil => exact clear
  | cons entry rest ih => exact ih _ (unposted_kept clear entry)

theorem remove_clears (idx : SparseIndex) (v : List (UInt32 × F32)) :
    ∀ entry ∈ v, Unposted id (idx.remove id v) entry.1 := by
  rw [remove_eq_foldl]
  exact Run.foldl_establishes (Q := fun entry postings => Unposted id ⟨postings⟩ entry.1) (unpost id)
    unposted_unpost (fun postings a b clear => unposted_kept clear a) v idx.postings

def removeRepr (collection : String) (id : LogicalId)
    (sparseIndexes : FinMap (String × String) SparseIndex) (repr : Representation) :
    FinMap (String × String) SparseIndex :=
  match repr.vector with
  | .sparse v => FinMap.adjust sparseIndexes (collection, repr.name) fun idx => idx.remove id v
  | .dense _ => sparseIndexes

/-- Exactly the postings that are there make a difference. -/
theorem removeSparse_eq_iff (sparseIndexes : FinMap (String × String) SparseIndex)
    (collection : String) (e : Entity) :
    removeSparse sparseIndexes collection e = sparseIndexes ↔
      ∀ repr ∈ e.representations, SparseClear sparseIndexes collection e.id repr := by
  have steps : removeSparse sparseIndexes collection e =
      e.representations.foldl (removeRepr collection e.id) sparseIndexes := rfl
  constructor
  · intro same
    rw [← same, steps]
    refine Run.foldl_establishes (Q := fun repr m => SparseClear m collection e.id repr)
      (removeRepr collection e.id) (fun m repr v idx vector found => ?_)
      (fun m a repr clear v idx vector found => ?_) e.representations sparseIndexes
    · rw [removeRepr, vector] at found
      dsimp only at found
      rw [FinMap.get_adjust, if_pos rfl] at found
      obtain ⟨old, -, rfl⟩ := Option.map_eq_some_iff.mp found
      exact remove_clears old v
    · intro entry there
      unfold removeRepr at found
      split at found
      · rw [FinMap.get_adjust] at found
        split at found
        · obtain ⟨old, before, rfl⟩ := Option.map_eq_some_iff.mp found
          exact unposted_remove (clear v old vector before entry there) _
        · exact clear v idx vector found entry there
      · exact clear v idx vector found entry there
  · intro clear
    rw [steps]
    refine Run.foldl_unchanged _ _ _ fun repr there => ?_
    unfold removeRepr
    split
    · rename_i v vector
      exact FinMap.adjust_same fun idx found => remove_unposted (clear repr there v idx vector found)
    · rfl

end Sparse

section Fields
variable {collection : String}

theorem indexPartition_set (store : Store) (c index c' index' : String)
    (partition : FinMap (List UInt8) LogicalId) :
    (store.setIndexPartition c index partition).indexPartition c' index' =
      if (c, index) = (c', index') then partition else store.indexPartition c' index' := by
  rw [Store.indexPartition, Store.setIndexPartition, FinMap.get_insert]
  split <;> rfl

theorem indexPartition_removeEntry (store : Store) (c index : String)
    (types : List (String × FieldType)) (id : LogicalId) (values : List Value) (c' index' : String)
    (k : List UInt8) :
    ((removeEntry store c index types id values).indexPartition c' index')[k]? =
      if (c, index) = (c', index') ∧ fullKey (types.map Prod.snd) id values = .ok k then none
      else (store.indexPartition c' index')[k]? := by
  unfold removeEntry FieldIndex.remove FieldIndex.types
  cases encoded : fullKey (types.map Prod.snd) id values with
  | error e => simp
  | ok key =>
    dsimp only
    rw [indexPartition_set]
    by_cases here : (c, index) = (c', index')
    · cases here
      rw [if_pos rfl, FinMap.get_erase]
      simp
    · rw [if_neg here, if_neg fun both => here both.1]

/-- The entity is not listed under the key of its values. -/
def Unlisted (store : Store) (collection : String) (e : Entity)
    (idx : String × List (String × FieldType)) : Prop :=
  ∀ key, entryKey idx.2 e = some key → (store.indexPartition collection idx.1)[key]? = none

theorem entryKey_some {types : List (String × FieldType)} {e : Entity} {key : List UInt8} :
    entryKey types e = some key ↔ (indexedValues types e).length = types.length ∧
      fullKey (types.map Prod.snd) e.id (indexedValues types e) = .ok key := by
  unfold entryKey
  dsimp only
  split
  · rename_i full
    cases encoded : fullKey (types.map Prod.snd) e.id (indexedValues types e) <;>
      simp [Except.toOption, full]
  · rename_i partly
    simp [partly]

def removeFieldEntry (collection : String) (e : Entity) (store : Store)
    (idx : String × List (String × FieldType)) : Store :=
  let values := indexedValues idx.2 e
  if values.length = idx.2.length then removeEntry store collection idx.1 idx.2 e.id values
  else store

theorem indexPartition_removeFieldEntry (store : Store) (e : Entity)
    (idx : String × List (String × FieldType)) (c' index' : String) (k : List UInt8) :
    ((removeFieldEntry collection e store idx).indexPartition c' index')[k]? =
      if (collection, idx.1) = (c', index') ∧ entryKey idx.2 e = some k then none
      else (store.indexPartition c' index')[k]? := by
  unfold removeFieldEntry
  dsimp only
  simp only [entryKey_some]
  split
  · rename_i full
    rw [indexPartition_removeEntry]
    simp only [full, true_and]
  · rename_i partly
    simp [partly]

theorem removeFieldEntries_same_iff (store : Store) (e : Entity)
    (indexes : List (String × List (String × FieldType))) :
    (∀ c' index', (removeFieldEntries store collection e indexes).indexPartition c' index' =
        store.indexPartition c' index') ↔ ∀ idx ∈ indexes, Unlisted store collection e idx := by
  have steps : removeFieldEntries store collection e indexes =
      indexes.foldl (removeFieldEntry collection e) store := rfl
  rw [steps]
  constructor
  · intro same idx there key encoded
    rw [← same]
    refine Run.foldl_establishes (Q := fun idx store => Unlisted store collection e idx)
      (removeFieldEntry collection e) (fun store idx key encoded => ?_)
      (fun store idx other clear key encoded => ?_) indexes store idx there key encoded
    · rw [indexPartition_removeFieldEntry, if_pos ⟨rfl, encoded⟩]
    · rw [indexPartition_removeFieldEntry]
      split
      · rfl
      · exact clear key encoded
  · intro clear c' index'
    refine FinMap.ext fun k => ?_
    induction indexes generalizing store with
    | nil => rfl
    | cons idx rest ih =>
      rw [List.forall_mem_cons] at clear
      have first (c' index' : String) (k : List UInt8) :
          ((removeFieldEntry collection e store idx).indexPartition c' index')[k]? =
            (store.indexPartition c' index')[k]? := by
        rw [indexPartition_removeFieldEntry]
        split
        · rename_i here
          obtain ⟨own, encoded⟩ := here
          cases own
          exact (clear.1 k encoded).symm
        · rfl
      rw [List.foldl_cons, ih _ rfl fun other there key encoded => ?_, first]
      rw [first]
      exact clear.2 other there key encoded

end Fields

/-- The entity under the id has nothing in the sparse and the field indexes. -/
def NothingIndexed (s : State) (env : Env) (collection : String) (id : LogicalId) : Prop :=
  ∀ old, s.store.get collection id = .ok old →
    (∀ repr ∈ old.representations, SparseClear s.sparseIndexes collection old.id repr) ∧
      ∀ idx ∈ s.fieldIndexesOf env collection, Unlisted s.store collection old idx

/-- Exactly then the overwrite that fails leaves no trace. -/
theorem removeOldEntries_noTrace [WalPayload Payload] (env : Env) (s : State) (collection : String)
    (id : LogicalId) : NoTrace s (s.removeOldEntries env collection id) ↔
      NothingIndexed s env collection id := by
  unfold State.removeOldEntries NothingIndexed
  split
  · rename_i missing
    refine iff_of_true (.refl s) fun old found => ?_
    cases missing.symm.trans found
  · rename_i old found
    have data := @data_removeFieldEntries collection old
      (s.fieldIndexesOf env collection) s.store
    constructor
    · intro none old' found'
      cases found.symm.trans found'
      exact ⟨(removeSparse_eq_iff _ _ _).mp none.sparseIndexes,
        (removeFieldEntries_same_iff _ _ _).mp none.partitions⟩
    · intro nothing
      obtain ⟨sparse, fields⟩ := nothing old found
      exact ⟨congrArg Data.entities data, congrArg Data.collections data,
        congrArg Data.edgeTypes data, rfl, rfl, (removeFieldEntries_same_iff _ _ _).mpr fields,
        (removeSparse_eq_iff _ _ _).mpr sparse, rfl, rfl, rfl⟩

/-! ### Statements -/

def Encodes (types : List (String × FieldType)) (id : LogicalId) (values : List Value) : Prop :=
  ∃ key, fullKey (types.map Prod.snd) id values = .ok key

theorem insertEntry_encodes (store : Store) (collection index : String)
    (types : List (String × FieldType)) (id : LogicalId) (values : List Value) :
    (∃ store', insertEntry store collection index types id values = .ok store') ↔
      Encodes types id values := by
  unfold insertEntry FieldIndex.insert FieldIndex.types Encodes
  cases fullKey (types.map Prod.snd) id values <;> simp

/-- The entity can be put into every index it has all values for. -/
def EntriesEncode (indexes : List (String × List (String × FieldType))) (e : Entity) : Prop :=
  ∀ idx ∈ indexes, (indexedValues idx.2 e).length = idx.2.length →
    Encodes idx.2 e.id (indexedValues idx.2 e)

theorem insertFieldEntries_ok_iff (collection : String) (e : Entity)
    (indexes : List (String × List (String × FieldType))) (store : Store) :
    (insertFieldEntries store collection e indexes).1 = .ok () ↔ EntriesEncode indexes e := by
  induction indexes generalizing store with
  | nil => simp [insertFieldEntries, EntriesEncode]
  | cons idx rest ih =>
    have step : EntriesEncode (idx :: rest) e ↔ ((indexedValues idx.2 e).length = idx.2.length →
        Encodes idx.2 e.id (indexedValues idx.2 e)) ∧ EntriesEncode rest e := List.forall_mem_cons
    rw [step, insertFieldEntries]
    split
    · rename_i full
      have encodes := insertEntry_encodes store collection idx.1 idx.2 e.id (indexedValues idx.2 e)
      split
      · rename_i store' inserted
        rw [ih, ← encodes]
        exact ⟨fun later => ⟨fun _ => ⟨store', inserted⟩, later⟩, fun both => both.2⟩
      · rename_i failed
        refine iff_of_false (fun same => by cases same) fun both => ?_
        obtain ⟨store', inserted⟩ := encodes.mpr (both.1 full)
        cases failed.symm.trans inserted
    · rename_i partly
      rw [ih]
      exact ⟨fun later => ⟨fun full => absurd full partly, later⟩, fun both => both.2⟩

/-- The new values, missing ones as NULL, can be put into every declared index. -/
def DeclaredEncode (fieldIndexes : FieldIndexes) (collection : String) (e : Entity)
    (indexes : List StoredIndex) : Prop :=
  ∀ idx ∈ indexes, ∀ types, fieldIndexes[(collection, idx.name)]? = some types →
    (valuesOrNull idx e).length = types.length → Encodes types e.id (valuesOrNull idx e)

theorem updateFieldEntries_ok_iff (fieldIndexes : FieldIndexes) (collection : String)
    (old new : Entity) (indexes : List StoredIndex) (store : Store) :
    (updateFieldEntries store fieldIndexes collection old new indexes).1 = .ok () ↔
      DeclaredEncode fieldIndexes collection new indexes := by
  induction indexes generalizing store with
  | nil => simp [updateFieldEntries, DeclaredEncode]
  | cons idx rest ih =>
    have step : DeclaredEncode fieldIndexes collection new (idx :: rest) ↔
        (∀ types, fieldIndexes[(collection, idx.name)]? = some types →
          (valuesOrNull idx new).length = types.length →
            Encodes types new.id (valuesOrNull idx new)) ∧
          DeclaredEncode fieldIndexes collection new rest := List.forall_mem_cons
    rw [step, updateFieldEntries]
    cases known : fieldIndexes[(collection, idx.name)]? with
    | none =>
      rw [ih]
      refine ⟨fun later => ⟨fun types same => ?_, later⟩, fun both => both.2⟩
      cases same
    | some types =>
      dsimp only
      generalize removeEntry store collection idx.name types new.id (valuesOrNull idx old) = cleared
      have encodes :=
        insertEntry_encodes cleared collection idx.name types new.id (valuesOrNull idx new)
      split
      · rename_i full
        split
        · rename_i store' inserted
          rw [ih]
          refine ⟨fun later => ⟨fun types' same _ => ?_, later⟩, fun both => both.2⟩
          cases same
          exact encodes.mp ⟨store', inserted⟩
        · rename_i failed
          refine iff_of_false (fun same => by cases same) fun both => ?_
          obtain ⟨store', inserted⟩ := encodes.mpr (both.1 types rfl full)
          cases failed.symm.trans inserted
      · rename_i partly
        rw [ih]
        refine ⟨fun later => ⟨fun types' same full => ?_, later⟩, fun both => both.2⟩
        cases same
        exact absurd full partly

section Statements
variable [WalPayload Payload]

def LeavesNoTrace (env : Env) (s : State) (w : Write) : Prop :=
  ¬ succeeds env s w → NoTrace s (perform env s w).2

omit [WalPayload Payload] in
/-- The checks behind the commit all pass, or one before it fails while nothing has been
changed. -/
def FailsEarly (env : Env) (s : State) : Write → Prop
  | .createCollection p => checkDuplicates p ≠ .ok () ∨ s.store.hasCollection p.name = false
  | .createEdgeType p => s.store.hasCollection p.fromCollection = false ∨
      s.store.hasCollection p.toCollection = false ∨ s.store.hasEdgeType p.name = false
  | .insert p => ∀ schema, s.schemas[p.collection]? = some schema →
      checkVectors schema p.collection p.vectors = .ok () →
      let id := (findIdInFields p.fields p.values).getD (env.freshId 0)
      match buildEntity env schema p id with
      | .error _ => NothingIndexed s env p.collection id
      | .ok e => s.store.hasCollection p.collection = true ∧
          EntriesEncode (s.fieldIndexesOf env p.collection) e
  | .updateEntity p => ∀ old, s.store.get p.collection p.entityId = .ok old →
      DeclaredEncode s.fieldIndexes p.collection (assign old p.assignments)
        ((s.schemas[p.collection]?.map CollectionSchema.indexes).getD [])
  | _ => True

theorem leavesNoTrace_iff {env : Env} {s : State} {w : Write} {o : Outcome} {early : Prop}
    (answer : perform env s w = (o.1.map fun _ => (), o.2))
    (ends : (∃ r, o.1 = .ok r) ∧ early ∨ NoTrace s o.2 ∧ early ∨
      (∃ e, o.1 = .error e) ∧ ¬ NoTrace s o.2 ∧ ¬ early) :
    LeavesNoTrace env s w ↔ early := by
  rw [LeavesNoTrace, succeeds, answer]
  obtain ⟨⟨r, ok⟩, holds⟩ | ⟨none, holds⟩ | ⟨⟨e, failed⟩, traced, not⟩ := ends
  · exact iff_of_true (fun failed => absurd (by rw [ok]; rfl) failed) holds
  · exact iff_of_true (fun _ => none) holds
  · exact iff_of_false (fun leaves => traced (leaves (by rw [failed]; nofun))) not

theorem createCollection_traces (env : Env) (s : State) (p : CreateCollectionPlan) :
    LeavesNoTrace env s (.createCollection p) ↔ FailsEarly env s (.createCollection p) := by
  refine leavesNoTrace_iff (o := createCollection env s p) rfl ?_
  unfold createCollection Store.createCollectionSchema FailsEarly
  cases checked : checkDuplicates p with
  | error e => exact .inr (.inl ⟨.refl s, .inl (by rw [checked]; nofun)⟩)
  | ok done =>
    dsimp only
    cases present : s.store.hasCollection (buildCollectionSchema p).name with
    | false =>
      have absent : ¬ (s.logTx env.ts p.name
          [(.schemaCreateColl, .schema (buildCollectionSchema p))]).store.hasCollection
          (buildCollectionSchema p).name = true := by simp [present]
      rw [if_neg absent]
      exact .inl ⟨⟨_, rfl⟩, .inr present⟩
    | true =>
      have there : (s.logTx env.ts p.name
          [(.schemaCreateColl, .schema (buildCollectionSchema p))]).store.hasCollection
          (buildCollectionSchema p).name = true := present
      rw [if_pos there]
      refine .inr (.inr ⟨⟨_, rfl⟩, traced env.ts p.name rfl rfl, ?_⟩)
      have present' : s.store.hasCollection p.name = true := present
      simp [present', checked]

theorem createEdgeType_traces (env : Env) (s : State) (p : CreateEdgeTypePlan) :
    LeavesNoTrace env s (.createEdgeType p) ↔ FailsEarly env s (.createEdgeType p) := by
  refine leavesNoTrace_iff (o := createEdgeType env s p) rfl ?_
  unfold createEdgeType Store.createEdgeType FailsEarly
  by_cases source : s.store.hasCollection p.fromCollection = true
  · rw [if_pos source]
    by_cases target : s.store.hasCollection p.toCollection = true
    · rw [if_pos target]
      dsimp only
      by_cases present : (s.logTx env.ts p.name
          [(.schemaCreateEdgeType, .edgeType (buildEdgeType p))]).store.hasEdgeType
          (buildEdgeType p).name = true
      · rw [if_pos present]
        refine .inr (.inr ⟨⟨_, rfl⟩, traced env.ts p.name rfl rfl, ?_⟩)
        have present' : s.store.hasEdgeType p.name = true := present
        simp [present', source, target]
      · rw [if_neg present]
        exact .inl ⟨⟨_, rfl⟩, .inr (.inr (Bool.not_eq_true _ ▸ present))⟩
    · rw [if_neg target]
      exact .inr (.inl ⟨.refl s, .inr (.inl (Bool.not_eq_true _ ▸ target))⟩)
  · rw [if_neg source]
    exact .inr (.inl ⟨.refl s, .inl (Bool.not_eq_true _ ▸ source)⟩)

theorem applyInsert_ends {env : Env} {s t : State} {ts : Int} {collection : String} {e : Entity}
    {rest : List (Entry Payload)}
    (wal : t.wal = s.wal.transaction collection ts (entityWrite e :: rest)) :
    let early := t.store.hasCollection collection = true ∧
      EntriesEncode (t.fieldIndexesOf env collection) e
    (∃ r, (t.applyInsert env collection e).1 = .ok r) ∧ early ∨
      (∃ err, (t.applyInsert env collection e).1 = .error err) ∧
        ¬ NoTrace s (t.applyInsert env collection e).2 ∧ ¬ early := by
  intro early
  unfold State.applyInsert Store.insert
  cases present : t.store.hasCollection collection with
  | false =>
    refine .inr ⟨⟨_, rfl⟩, traced ts collection wal rfl, ?_⟩
    simp [early, present]
  | true =>
    simp only [if_true]
    have encodes := insertFieldEntries_ok_iff collection e (t.fieldIndexesOf env collection)
      (t.store.putEntity collection e)
    split
    · rename_i failed
      refine .inr ⟨⟨_, rfl⟩, traced ts collection wal rfl, fun both => ?_⟩
      cases failed.symm.trans (encodes.mpr both.2)
    · rename_i done
      exact .inl ⟨⟨_, rfl⟩, present, encodes.mp done⟩

omit [WalPayload Payload] in
theorem failsEarly_insert {env : Env} {s : State} {p : InsertPlan} {schema : CollectionSchema}
    (known : s.schemas[p.collection]? = some schema)
    (checked : checkVectors schema p.collection p.vectors = .ok ()) :
    FailsEarly env s (.insert p) ↔
      match buildEntity env schema p ((findIdInFields p.fields p.values).getD (env.freshId 0)) with
      | .error _ => NothingIndexed s env p.collection
          ((findIdInFields p.fields p.values).getD (env.freshId 0))
      | .ok e => s.store.hasCollection p.collection = true ∧
          EntriesEncode (s.fieldIndexesOf env p.collection) e := by
  constructor
  · exact fun early => early schema known checked
  · intro holds schema' known' _
    cases known.symm.trans known'
    exact holds

theorem insert_traces (env : Env) (s : State) (p : InsertPlan) :
    LeavesNoTrace env s (.insert p) ↔ FailsEarly env s (.insert p) := by
  refine leavesNoTrace_iff (o := insert env s p) rfl ?_
  unfold insert
  cases known : s.schemas[p.collection]? with
  | none =>
    refine .inr (.inl ⟨.refl s, fun schema there => ?_⟩)
    cases known.symm.trans there
  | some schema =>
    dsimp only
    cases checked : checkVectors schema p.collection p.vectors with
    | error e =>
      refine .inr (.inl ⟨.refl s, fun schema' there ok => ?_⟩)
      cases known.symm.trans there
      cases checked.symm.trans ok
    | ok done =>
      rw [failsEarly_insert known checked]
      dsimp only
      generalize (findIdInFields p.fields p.values).getD (env.freshId 0) = id
      have cleared := removeOldEntries_noTrace env s p.collection id
      obtain ⟨data, log⟩ := removeOldEntries_rest env s p.collection id
      have kept : (s.removeOldEntries env p.collection id).fieldIndexesOf env p.collection =
          s.fieldIndexesOf env p.collection := by
        unfold State.removeOldEntries
        split <;> rfl
      have stored : (s.removeOldEntries env p.collection id).store.hasCollection p.collection =
          s.store.hasCollection p.collection := congrArg (·.collections.contains p.collection) data
      cases buildEntity env schema p id with
      | error e =>
        by_cases nothing : NothingIndexed s env p.collection id
        · exact .inr (.inl ⟨cleared.mpr nothing, nothing⟩)
        · exact .inr (.inr ⟨⟨e, rfl⟩, fun none => nothing (cleared.mp none), nothing⟩)
      | ok e =>
        dsimp only
        rw [← stored, ← kept]
        generalize s.removeOldEntries env p.collection id = t at log
        have ends := @applyInsert_ends _ env s
          (t.logTx env.ts p.collection (entityWrite { e with txTime := t.wal.nextTx } ::
            (locationEntries { e with txTime := t.wal.nextTx }).map fun kd =>
              (.locationUpdate, .location kd.1 kd.2)))
          env.ts p.collection { e with txTime := t.wal.nextTx } _ (by rw [State.logTx, log])
        exact ends.imp_right .inr

theorem updateEntity_traces (env : Env) (s : State) (p : UpdateEntityPlan) :
    LeavesNoTrace env s (.updateEntity p) ↔ FailsEarly env s (.updateEntity p) := by
  refine leavesNoTrace_iff (o := updateEntity env s p) rfl ?_
  unfold updateEntity
  cases found : s.store.get p.collection p.entityId with
  | error e =>
    refine .inr (.inl ⟨.refl s, fun old there => ?_⟩)
    cases found.symm.trans there
  | ok old =>
    have present := ((s.store.get_eq_ok ..).mp found).1
    have early : FailsEarly env s (.updateEntity p) ↔
        DeclaredEncode s.fieldIndexes p.collection (assign old p.assignments)
          ((s.schemas[p.collection]?.map CollectionSchema.indexes).getD []) := by
      constructor
      · exact fun all => all old found
      · intro encode old' there
        cases found.symm.trans there
        exact encode
    rw [early]
    simp only [store_logTx, Store.insert, present, if_true]
    have encodes := updateFieldEntries_ok_iff s.fieldIndexes p.collection old
      (assign old p.assignments) ((s.schemas[p.collection]?.map CollectionSchema.indexes).getD [])
      (s.store.putEntity p.collection (assign old p.assignments))
    split
    · rename_i failed
      refine .inr (.inr ⟨⟨_, rfl⟩, traced env.ts p.collection rfl rfl, fun encode => ?_⟩)
      cases failed.symm.trans (encodes.mpr encode)
    · rename_i done
      exact .inl ⟨⟨_, rfl⟩, encodes.mp done⟩

/-- The statements that define a collection or an edge type or put an entity. -/
def Write.puts : Write → Bool
  | .createCollection _ | .createEdgeType _ | .insert _ | .updateEntity _ => true
  | _ => false

theorem puts_traces (env : Env) (s : State) (w : Write) (puts : w.puts = true) :
    LeavesNoTrace env s w ↔ FailsEarly env s w := by
  cases w with
  | createCollection p => exact createCollection_traces env s p
  | createEdgeType p => exact createEdgeType_traces env s p
  | insert p => exact insert_traces env s p
  | updateEntity p => exact updateEntity_traces env s p
  | _ => cases puts

/-- Whatever the state a run starts from, its failing statements all leave no trace iff each
of them fails early. -/
theorem failures_leave_no_trace_iff (s : State) (as : List Step) :
    (∀ p ∈ Run.taken State.step s as, p.2.2.puts = true → LeavesNoTrace p.2.1 p.1 p.2.2) ↔
      ∀ p ∈ Run.taken State.step s as, p.2.2.puts = true → FailsEarly p.2.1 p.1 p.2.2 := by
  constructor
  · intro leaves p there puts
    exact (puts_traces p.2.1 p.1 p.2.2 puts).mp (leaves p there puts)
  · intro early p there puts
    exact (puts_traces p.2.1 p.1 p.2.2 puts).mpr (early p there puts)

end Statements

section Examples
attribute [local instance] headerOnly

def createNotes : Write := .createCollection ⟨"notes", [], [], [], none⟩

/-- The second CREATE COLLECTION fails behind its commit. -/
theorem recreated_collection_traced :
    let s := (State.init default).step (.idle, createNotes)
    createNotes.puts = true ∧ ¬ LeavesNoTrace .idle s createNotes := by
  refine ⟨rfl, fun leaves => ?_⟩
  have failed : ¬ succeeds .idle ((State.init default).step (.idle, createNotes)) createNotes := by
    unfold succeeds
    decide
  have committed := (leaves failed).committed
  revert committed
  decide

end Examples
end TronDB.Engine
