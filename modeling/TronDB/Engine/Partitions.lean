import TronDB.Engine.Failure
import TronDB.Engine.Open
import TronDB.Lib.SecondaryIndex

/-! What the loops over the field indexes do to each partition. -/
namespace TronDB.Engine
open TronDB.Core Binary Wal

/-! ### Loops that stop at a failure -/

/-- The elements up to the first one that fails, that one included. -/
def upToFailure {α : Type} (fails : α → Bool) : List α → List α
  | [] => []
  | a :: rest => if fails a then [a] else a :: upToFailure fails rest

def behindFailure {α : Type} (fails : α → Bool) : List α → List α
  | [] => []
  | a :: rest => if fails a then rest else behindFailure fails rest

theorem upToFailure_append {α : Type} (fails : α → Bool) (as : List α) :
    upToFailure fails as ++ behindFailure fails as = as := by
  induction as with
  | nil => rfl
  | cons a rest ih =>
    unfold upToFailure behindFailure
    split
    · rfl
    · rw [List.cons_append, ih]

theorem behindFailure_congr {α : Type} {fails fails' : α → Bool} {as : List α}
    (same : ∀ a ∈ as, fails a = fails' a) : behindFailure fails as = behindFailure fails' as := by
  induction as with
  | nil => rfl
  | cons a rest ih =>
    rw [List.forall_mem_cons] at same
    rw [behindFailure, behindFailure, same.1, ih same.2]

/-! ### Loops over indexes -/

/-- A loop whose steps change one partition each changes every partition once. -/
theorem partition_foldl {α : Type} (step : Store → α → Store) (collection : String) (name : α → String)
    (change : α → FinMap (List UInt8) LogicalId → FinMap (List UInt8) LogicalId)
    (as : List α) (each : ∀ a ∈ as, ∀ store c index, (step store a).indexPartition c index =
      if (collection, name a) = (c, index) then change a (store.indexPartition c index)
      else store.indexPartition c index) (distinct : (as.map name).Nodup) (store : Store) :
    (∀ a ∈ as, (as.foldl step store).indexPartition collection (name a) =
        change a (store.indexPartition collection (name a))) ∧
      ∀ c index, (c = collection → index ∉ as.map name) →
        (as.foldl step store).indexPartition c index = store.indexPartition c index := by
  induction as generalizing store with
  | nil => simp
  | cons a rest ih =>
    rw [List.map_cons, List.nodup_cons] at distinct
    rw [List.forall_mem_cons] at each
    obtain ⟨changed, others⟩ := ih each.2 distinct.2 (step store a)
    constructor
    · intro b there
      rcases List.mem_cons.mp there with rfl | later
      · rw [List.foldl_cons, others _ _ fun _ => distinct.1, each.1, if_pos rfl]
      · have apart : ¬ (collection, name a) = (collection, name b) := by
          intro same
          rw [(Prod.mk.inj same).2] at distinct
          exact distinct.1 (List.mem_map_of_mem later)
        rw [List.foldl_cons, changed b later, each.1, if_neg apart]
    · intro c index other
      rw [List.map_cons] at other
      have away : ¬ (collection, name a) = (c, index) := by
        intro same
        obtain ⟨rfl, rfl⟩ := Prod.mk.inj same
        exact other rfl List.mem_cons_self
      rw [List.foldl_cons, others c index fun own there => other own (List.mem_cons_of_mem _ there),
        each.1, if_neg away]

theorem partition_removeFieldEntry (collection : String) (e : Entity) (store : Store)
    (idx : String × List (String × FieldType)) (c index : String) :
    (removeFieldEntry collection e store idx).indexPartition c index =
      if (collection, idx.1) = (c, index) then
        SecondaryIndex.take (store.indexPartition c index) (entryKey idx.2 e)
      else store.indexPartition c index := by
  refine FinMap.ext fun k => ?_
  rw [indexPartition_removeFieldEntry]
  by_cases here : (collection, idx.1) = (c, index)
  · rw [if_pos here, SecondaryIndex.get_take]
    simp only [here, true_and]
  · rw [if_neg here, if_neg fun both => here both.1]

theorem partition_removeFieldEntries (collection : String) (e : Entity)
    (indexes : List (String × List (String × FieldType))) (distinct : (indexes.map Prod.fst).Nodup)
    (store : Store) :
    (∀ idx ∈ indexes, (removeFieldEntries store collection e indexes).indexPartition collection idx.1 =
        SecondaryIndex.take (store.indexPartition collection idx.1) (entryKey idx.2 e)) ∧
      ∀ c index, (c = collection → index ∉ indexes.map Prod.fst) →
        (removeFieldEntries store collection e indexes).indexPartition c index =
          store.indexPartition c index :=
  partition_foldl (removeFieldEntry collection e) collection Prod.fst
    (fun idx partition => SecondaryIndex.take partition (entryKey idx.2 e)) indexes
    (fun idx _ store c index => partition_removeFieldEntry collection e store idx c index)
    distinct store

theorem partition_insertEntry {store store' : Store} {collection index : String}
    {types : List (String × FieldType)} {id : LogicalId} {values : List Value}
    (inserted : insertEntry store collection index types id values = .ok store') (c i : String) :
    store'.indexPartition c i = if (collection, index) = (c, i) then
        SecondaryIndex.put (store.indexPartition c i) id (fullKey (types.map Prod.snd) id values).toOption
      else store.indexPartition c i := by
  unfold insertEntry FieldIndex.insert FieldIndex.types at inserted
  cases encoded : fullKey (types.map Prod.snd) id values with
  | error e =>
    rw [encoded] at inserted
    cases inserted
  | ok key =>
    rw [encoded] at inserted
    cases inserted
    dsimp only
    rw [indexPartition_set]
    by_cases here : (collection, index) = (c, i)
    · cases here
      rfl
    · rw [if_neg here, if_neg here]

def putFieldEntry (collection : String) (e : Entity) (store : Store)
    (idx : String × List (String × FieldType)) : Store :=
  if (indexedValues idx.2 e).length = idx.2.length then
    match insertEntry store collection idx.1 idx.2 e.id (indexedValues idx.2 e) with
    | .ok store' => store'
    | .error _ => store
  else store

theorem partition_putFieldEntry (collection : String) (e : Entity) (store : Store)
    (idx : String × List (String × FieldType)) (c index : String) :
    (putFieldEntry collection e store idx).indexPartition c index =
      if (collection, idx.1) = (c, index) then
        SecondaryIndex.put (store.indexPartition c index) e.id (entryKey idx.2 e)
      else store.indexPartition c index := by
  unfold putFieldEntry entryKey
  dsimp only
  split
  · cases inserted : insertEntry store collection idx.1 idx.2 e.id (indexedValues idx.2 e) with
    | ok store' => exact partition_insertEntry inserted c index
    | error err =>
      dsimp only
      unfold insertEntry FieldIndex.insert FieldIndex.types at inserted
      cases encoded : fullKey (idx.2.map Prod.snd) e.id (indexedValues idx.2 e) with
      | ok key =>
        rw [encoded] at inserted
        cases inserted
      | error err => exact (ite_self _).symm
  · exact (ite_self _).symm

/-- The entity has a value for every field of the index, and one that is not of its type. -/
def entryFails (e : Entity) (idx : String × List (String × FieldType)) : Bool :=
  (indexedValues idx.2 e).length = idx.2.length && (entryKey idx.2 e).isNone

theorem insertFieldEntries_cons (collection : String) (e : Entity)
    (idx : String × List (String × FieldType)) (rest : List (String × List (String × FieldType)))
    (store : Store) :
    if entryFails e idx then putFieldEntry collection e store idx = store ∧
      ∃ err, insertFieldEntries store collection e (idx :: rest) = (.error err, store)
    else insertFieldEntries store collection e (idx :: rest) =
      insertFieldEntries (putFieldEntry collection e store idx) collection e rest := by
  obtain ⟨index, types⟩ := idx
  rw [insertFieldEntries, putFieldEntry]
  dsimp only
  by_cases full : (indexedValues types e).length = types.length
  · rw [if_pos full, if_pos full]
    unfold insertEntry FieldIndex.insert FieldIndex.types
    cases encoded : fullKey (types.map Prod.snd) e.id (indexedValues types e) with
    | error err =>
      have fails : entryFails e (index, types) = true := by
        simp [entryFails, entryKey, full, encoded, Except.toOption]
      rw [if_pos fails]
      exact ⟨rfl, err, rfl⟩
    | ok key =>
      have passes : ¬ entryFails e (index, types) = true := by
        simp [entryFails, entryKey, full, encoded, Except.toOption]
      rw [if_neg passes]
  · have passes : ¬ entryFails e (index, types) = true := by simp [entryFails, full]
    rw [if_neg full, if_neg full, if_neg passes]

theorem insertFieldEntries_foldl (collection : String) (e : Entity)
    (indexes : List (String × List (String × FieldType))) (store : Store) :
    (insertFieldEntries store collection e indexes).2 =
      (upToFailure (entryFails e) indexes).foldl (putFieldEntry collection e) store := by
  induction indexes generalizing store with
  | nil => rfl
  | cons idx rest ih =>
    have step := insertFieldEntries_cons collection e idx rest store
    unfold upToFailure
    by_cases fails : entryFails e idx = true
    · rw [if_pos fails] at step ⊢
      obtain ⟨same, err, ended⟩ := step
      rw [ended, List.foldl_cons, same]
      rfl
    · rw [if_neg fails] at step ⊢
      rw [step, List.foldl_cons]
      exact ih _

theorem behindFailure_of_ok {collection : String} {e : Entity}
    {indexes : List (String × List (String × FieldType))} {store : Store}
    (done : (insertFieldEntries store collection e indexes).1 = .ok ()) :
    behindFailure (entryFails e) indexes = [] := by
  induction indexes generalizing store with
  | nil => rfl
  | cons idx rest ih =>
    have step := insertFieldEntries_cons collection e idx rest store
    unfold behindFailure
    by_cases fails : entryFails e idx = true
    · rw [if_pos fails] at step
      obtain ⟨-, err, ended⟩ := step
      rw [ended] at done
      cases done
    · rw [if_neg fails] at step ⊢
      exact ih (step ▸ done)

/-- The entity is put into the open indexes up to the one it cannot be put into. -/
theorem partition_insertFieldEntries (collection : String) (e : Entity)
    (indexes : List (String × List (String × FieldType))) (distinct : (indexes.map Prod.fst).Nodup)
    (store : Store) :
    (∀ idx ∈ indexes, (insertFieldEntries store collection e indexes).2.indexPartition collection idx.1 =
        if idx ∈ behindFailure (entryFails e) indexes then store.indexPartition collection idx.1
        else SecondaryIndex.put (store.indexPartition collection idx.1) e.id (entryKey idx.2 e)) ∧
      ∀ c index, (c = collection → index ∉ indexes.map Prod.fst) →
        (insertFieldEntries store collection e indexes).2.indexPartition c index =
          store.indexPartition c index := by
  have parts := upToFailure_append (entryFails e) indexes
  have names : (upToFailure (entryFails e) indexes).map Prod.fst ++
      (behindFailure (entryFails e) indexes).map Prod.fst = indexes.map Prod.fst := by
    rw [← List.map_append, parts]
  rw [← names, List.nodup_append] at distinct
  obtain ⟨changed, others⟩ := partition_foldl (putFieldEntry collection e) collection Prod.fst
    (fun idx partition => SecondaryIndex.put partition e.id (entryKey idx.2 e))
    (upToFailure (entryFails e) indexes)
    (fun idx _ store c index => partition_putFieldEntry collection e store idx c index) distinct.1 store
  rw [insertFieldEntries_foldl]
  constructor
  · intro idx there
    split
    · rename_i behind
      refine others _ _ fun _ reached => ?_
      exact distinct.2.2 _ reached _ (List.mem_map_of_mem behind) rfl
    · rename_i reached
      rw [← parts, List.mem_append] at there
      exact changed idx (there.resolve_right reached)
  · intro c index other
    refine others c index fun own there => other own ?_
    rw [← names]
    exact List.mem_append_left _ there

theorem distinct_indexes (fieldIndexes : FieldIndexes) (collection : String) :
    ((fieldIndexes.toList.filter fun idx => idx.1.1 = collection).map fun idx => idx.1.2).Nodup := by
  have keys := FinMap.nodup_toList fieldIndexes
  rw [List.nodup_iff_pairwise_ne, List.pairwise_map] at keys ⊢
  refine (keys.sublist List.filter_sublist).imp_of_mem fun {a b} inA inB apart same => ?_
  have first := of_decide_eq_true (List.mem_filter.mp inA).2
  have second := of_decide_eq_true (List.mem_filter.mp inB).2
  exact apart (Prod.ext (first.trans second.symm) same)

theorem mem_indexes (fieldIndexes : FieldIndexes) (collection index : String) :
    index ∈ (fieldIndexes.toList.filter fun idx => idx.1.1 = collection).map (fun idx => idx.1.2) ↔
      ∃ types, fieldIndexes[(collection, index)]? = some types := by
  constructor
  · intro there
    obtain ⟨⟨⟨c, i⟩, types⟩, listed, rfl⟩ := List.mem_map.mp there
    obtain ⟨stored, own⟩ := List.mem_filter.mp listed
    cases of_decide_eq_true own
    exact ⟨types, (FinMap.mem_toList _ _ _).mp stored⟩
  · rintro ⟨types, there⟩
    refine List.mem_map.mpr ⟨((collection, index), types), List.mem_filter.mpr ⟨?_, ?_⟩, rfl⟩
    · exact (FinMap.mem_toList _ _ _).mpr there
    · exact decide_eq_true rfl

/-! ### Missing values as NULL -/

theorem fullKey_valuesOrNull {idx : StoredIndex} {types : List (String × FieldType)}
    (fields : types.map Prod.fst = idx.fields) (e : Entity) :
    (fullKey (types.map Prod.snd) e.id (valuesOrNull idx e)).toOption = entryKey types e := by
  have values : valuesOrNull idx e = types.map fun t => e.metadata[t.1]?.getD .null := by
    rw [valuesOrNull, ← fields, List.map_map]
    rfl
  have ends (types : List (String × FieldType)) :
      indexedValues types e = types.map (fun t => e.metadata[t.1]?.getD .null) ∨
        (indexedValues types e).length < types.length ∧ ∃ err, encodeCompoundKey
          (types.map fun t => e.metadata[t.1]?.getD .null) (types.map Prod.snd) = .error err := by
    induction types with
    | nil => exact .inl rfl
    | cons t rest ih =>
      unfold indexedValues at ih ⊢
      cases value : e.metadata[t.1]? with
      | none =>
        refine .inr ⟨?_, .invalidFieldType t.2 .null, ?_⟩
        · rw [List.filterMap_cons, value]
          exact Nat.lt_succ_of_le (List.length_filterMap_le _ rest)
        · rw [List.map_cons, List.map_cons, value]
          cases type : t.2 <;> rfl
      | some v =>
        rw [List.filterMap_cons, value, List.map_cons, List.map_cons, value]
        rcases ih with whole | ⟨short, err, failed⟩
        · exact .inl (congrArg (v :: ·) whole)
        · refine .inr ⟨Nat.succ_lt_succ short, ?_⟩
          unfold encodeCompoundKey
          dsimp only [Option.getD_some]
          rw [failed]
          cases encodeSortable v t.2 with
          | error err => exact ⟨err, rfl⟩
          | ok bytes => exact ⟨err, rfl⟩
  unfold entryKey
  rw [values]
  rcases ends types with whole | ⟨short, err, failed⟩
  · have full : (indexedValues types e).length = types.length := by rw [whole, List.length_map]
    dsimp only
    rw [if_pos full, whole]
  · dsimp only
    rw [if_neg (Nat.ne_of_lt short), fullKey, failed]
    rfl

/-- The key the open index lists the entity under. -/
def openKey (fieldIndexes : FieldIndexes) (collection : String) (idx : StoredIndex) (e : Entity) :
    Option (List UInt8) :=
  fieldIndexes[(collection, idx.name)]?.bind fun types => entryKey types e

/-- The declared indexes are open, with a type for each of their fields. -/
def OpenFor (fieldIndexes : FieldIndexes) (collection : String) (indexes : List StoredIndex) : Prop :=
  ∀ idx ∈ indexes, ∃ types, fieldIndexes[(collection, idx.name)]? = some types ∧
    types.map Prod.fst = idx.fields

def removeDeclaredEntry (fieldIndexes : FieldIndexes) (collection : String) (e : Entity) (store : Store)
    (idx : StoredIndex) : Store :=
  match fieldIndexes[(collection, idx.name)]? with
  | some types => removeEntry store collection idx.name types e.id (valuesOrNull idx e)
  | none => store

theorem partition_removeEntry (store : Store) (collection index : String)
    (types : List (String × FieldType)) (id : LogicalId) (values : List Value) (c i : String) :
    (removeEntry store collection index types id values).indexPartition c i =
      if (collection, index) = (c, i) then
        SecondaryIndex.take (store.indexPartition c i) (fullKey (types.map Prod.snd) id values).toOption
      else store.indexPartition c i := by
  refine FinMap.ext fun k => ?_
  rw [indexPartition_removeEntry]
  by_cases here : (collection, index) = (c, i)
  · rw [if_pos here, SecondaryIndex.get_take]
    cases encoded : fullKey (types.map Prod.snd) id values <;> simp [here, Except.toOption]
  · rw [if_neg here, if_neg fun both => here both.1]

theorem partition_removeDeclaredEntries {fieldIndexes : FieldIndexes} {collection : String}
    {indexes : List StoredIndex} (open_ : OpenFor fieldIndexes collection indexes) (e : Entity)
    (distinct : (indexes.map StoredIndex.name).Nodup) (store : Store) :
    (∀ idx ∈ indexes,
      (removeDeclaredEntries store fieldIndexes collection e indexes).indexPartition collection idx.name =
        SecondaryIndex.take (store.indexPartition collection idx.name)
          (openKey fieldIndexes collection idx e)) ∧
      ∀ c index, (c = collection → index ∉ indexes.map StoredIndex.name) →
        (removeDeclaredEntries store fieldIndexes collection e indexes).indexPartition c index =
          store.indexPartition c index := by
  refine partition_foldl (removeDeclaredEntry fieldIndexes collection e) collection StoredIndex.name
    (fun idx partition => SecondaryIndex.take partition (openKey fieldIndexes collection idx e)) indexes
    (fun idx there store c index => ?_) distinct store
  obtain ⟨types, known, fields⟩ := open_ idx there
  unfold removeDeclaredEntry openKey
  rw [known]
  dsimp only [Option.bind_some]
  rw [partition_removeEntry, fullKey_valuesOrNull fields]

def replaceEntry (fieldIndexes : FieldIndexes) (collection : String) (old new : Entity) (store : Store)
    (idx : StoredIndex) : Store :=
  match fieldIndexes[(collection, idx.name)]? with
  | some types =>
    let store := removeEntry store collection idx.name types new.id (valuesOrNull idx old)
    match insertEntry store collection idx.name types new.id (valuesOrNull idx new) with
    | .ok store' => store'
    | .error _ => store
  | none => store

section Update
variable {fieldIndexes : FieldIndexes} {collection : String}

theorem insertEntry_key (new : Entity) {idx : StoredIndex} {types : List (String × FieldType)}
    (known : fieldIndexes[(collection, idx.name)]? = some types) (fields : types.map Prod.fst = idx.fields)
    (store : Store) :
    (insertEntry store collection idx.name types new.id (valuesOrNull idx new)).toOption =
      (openKey fieldIndexes collection idx new).map fun key =>
        store.setIndexPartition collection idx.name
          ((store.indexPartition collection idx.name).insert key new.id) := by
  unfold openKey
  rw [known]
  dsimp only [Option.bind_some]
  rw [← fullKey_valuesOrNull fields]
  unfold insertEntry FieldIndex.insert FieldIndex.types
  cases fullKey (types.map Prod.snd) new.id (valuesOrNull idx new) <;> rfl

variable {old new : Entity}

theorem partition_replaceEntry {idx : StoredIndex} {types : List (String × FieldType)}
    (known : fieldIndexes[(collection, idx.name)]? = some types) (fields : types.map Prod.fst = idx.fields)
    (same : new.id = old.id) (store : Store) (c index : String) :
    (replaceEntry fieldIndexes collection old new store idx).indexPartition c index =
      if (collection, idx.name) = (c, index) then
        SecondaryIndex.put (SecondaryIndex.take (store.indexPartition c index)
          (openKey fieldIndexes collection idx old)) new.id (openKey fieldIndexes collection idx new)
      else store.indexPartition c index := by
  have removed (c index : String) :
      (removeEntry store collection idx.name types new.id (valuesOrNull idx old)).indexPartition c index =
        if (collection, idx.name) = (c, index) then
          SecondaryIndex.take (store.indexPartition c index) (openKey fieldIndexes collection idx old)
        else store.indexPartition c index := by
    rw [partition_removeEntry, same, fullKey_valuesOrNull fields]
    unfold openKey
    rw [known]
    rfl
  have inserted := insertEntry_key new known fields
    (removeEntry store collection idx.name types new.id (valuesOrNull idx old))
  unfold replaceEntry
  rw [known]
  dsimp only
  cases ended : insertEntry (removeEntry store collection idx.name types new.id (valuesOrNull idx old))
      collection idx.name types new.id (valuesOrNull idx new) with
  | error err =>
    rw [ended] at inserted
    have none_ : openKey fieldIndexes collection idx new = none := Option.map_eq_none_iff.mp inserted.symm
    rw [none_]
    exact removed c index
  | ok store' =>
    have key : openKey fieldIndexes collection idx new =
        (fullKey (types.map Prod.snd) new.id (valuesOrNull idx new)).toOption := by
      rw [fullKey_valuesOrNull fields, openKey, known]
      rfl
    dsimp only
    rw [partition_insertEntry ended, removed, key]
    split <;> rfl

theorem updateFieldEntries_foldl (indexes : List StoredIndex)
    (open_ : OpenFor fieldIndexes collection indexes) (store : Store) :
    (updateFieldEntries store fieldIndexes collection old new indexes).2 =
      (upToFailure (fun idx => (openKey fieldIndexes collection idx new).isNone) indexes).foldl
        (replaceEntry fieldIndexes collection old new) store := by
  induction indexes generalizing store with
  | nil => rfl
  | cons idx rest ih =>
    obtain ⟨⟨types, known, fields⟩, later⟩ := List.forall_mem_cons.mp open_
    have full : (valuesOrNull idx new).length = types.length := by
      rw [valuesOrNull, List.length_map, ← fields, List.length_map]
    have inserted := insertEntry_key new known fields
      (removeEntry store collection idx.name types new.id (valuesOrNull idx old))
    unfold updateFieldEntries upToFailure
    rw [known]
    dsimp only
    rw [if_pos full]
    cases ended : insertEntry (removeEntry store collection idx.name types new.id (valuesOrNull idx old))
        collection idx.name types new.id (valuesOrNull idx new) with
    | error err =>
      rw [ended] at inserted
      have none_ : openKey fieldIndexes collection idx new = none :=
        Option.map_eq_none_iff.mp inserted.symm
      rw [none_, if_pos Option.isNone_none, List.foldl_cons, replaceEntry, known]
      dsimp only
      rw [ended]
      rfl
    | ok store' =>
      rw [ended] at inserted
      obtain ⟨key, some_, -⟩ := Option.map_eq_some_iff.mp inserted.symm
      rw [some_, if_neg (by simp), List.foldl_cons, replaceEntry, known]
      dsimp only
      rw [ended]
      exact ih later store'

/-- The entries of an updated entity are replaced up to the first new one that cannot be encoded;
of that one the old entry is gone. -/
theorem partition_updateFieldEntries {indexes : List StoredIndex}
    (open_ : OpenFor fieldIndexes collection indexes) (same : new.id = old.id)
    (distinct : (indexes.map StoredIndex.name).Nodup) (store : Store) :
    (∀ idx ∈ indexes, (updateFieldEntries store fieldIndexes collection old new indexes).2.indexPartition
        collection idx.name =
      if idx ∈ behindFailure (fun idx => (openKey fieldIndexes collection idx new).isNone) indexes then
        store.indexPartition collection idx.name
      else SecondaryIndex.put (SecondaryIndex.take (store.indexPartition collection idx.name)
        (openKey fieldIndexes collection idx old)) new.id (openKey fieldIndexes collection idx new)) ∧
      ∀ c index, (c = collection → index ∉ indexes.map StoredIndex.name) →
        (updateFieldEntries store fieldIndexes collection old new indexes).2.indexPartition c index =
          store.indexPartition c index := by
  rw [updateFieldEntries_foldl indexes open_]
  generalize (fun idx : StoredIndex => (openKey fieldIndexes collection idx new).isNone) = fails
  have parts := upToFailure_append fails indexes
  have names : (upToFailure fails indexes).map StoredIndex.name ++
      (behindFailure fails indexes).map StoredIndex.name = indexes.map StoredIndex.name := by
    rw [← List.map_append, parts]
  rw [← names, List.nodup_append] at distinct
  obtain ⟨changed, others⟩ := partition_foldl (replaceEntry fieldIndexes collection old new) collection
    StoredIndex.name (fun idx partition => SecondaryIndex.put (SecondaryIndex.take partition
      (openKey fieldIndexes collection idx old)) new.id (openKey fieldIndexes collection idx new))
    (upToFailure fails indexes) (fun idx there store c index => by
      obtain ⟨types, known, fields⟩ := open_ idx (parts ▸ List.mem_append_left _ there)
      exact partition_replaceEntry known fields same store c index) distinct.1 store
  constructor
  · intro idx there
    split
    · rename_i behind
      refine others _ _ fun _ reached => ?_
      exact distinct.2.2 _ reached _ (List.mem_map_of_mem behind) rfl
    · rename_i reached
      rw [← parts, List.mem_append] at there
      exact changed idx (there.resolve_right reached)
  · intro c index other
    refine others c index fun own there => other own ?_
    rw [← names]
    exact List.mem_append_left _ there

end Update

theorem partition_rebuildFieldEntries (fieldIndexes : FieldIndexes) (collection : String) (e : Entity)
    (store : Store) :
    (∀ index types, fieldIndexes[(collection, index)]? = some types →
      (rebuildFieldEntries fieldIndexes collection store e).indexPartition collection index =
        SecondaryIndex.put (store.indexPartition collection index) e.id (entryKey types e)) ∧
      ∀ c index, (c = collection → fieldIndexes[(collection, index)]? = none) →
        (rebuildFieldEntries fieldIndexes collection store e).indexPartition c index =
          store.indexPartition c index := by
  obtain ⟨changed, others⟩ := partition_foldl
    (fun store (idx : (String × String) × List (String × FieldType)) =>
      putFieldEntry collection e store (idx.1.2, idx.2)) collection (fun idx => idx.1.2)
    (fun idx partition => SecondaryIndex.put partition e.id (entryKey idx.2 e))
    (fieldIndexes.toList.filter fun idx => idx.1.1 = collection)
    (fun idx _ store c index => partition_putFieldEntry collection e store (idx.1.2, idx.2) c index)
    (distinct_indexes fieldIndexes collection) store
  constructor
  · intro index types open_
    refine changed ((collection, index), types) (List.mem_filter.mpr ⟨?_, decide_eq_true rfl⟩)
    exact (FinMap.mem_toList _ _ _).mpr open_
  · intro c index closed
    refine others c index fun own there => ?_
    obtain ⟨types, open_⟩ := (mem_indexes _ _ _).mp there
    exact Option.some_ne_none types (open_.symm.trans (closed own))

theorem mem_fieldIndexesOf (s : State) (env : Env) (collection : String)
    (idx : String × List (String × FieldType)) :
    idx ∈ s.fieldIndexesOf env collection ↔ s.fieldIndexes[(collection, idx.1)]? = some idx.2 := by
  unfold State.fieldIndexesOf
  rw [← FinMap.mem_toList, ← (env.indexOrder.perm _).mem_iff, List.mem_map]
  constructor
  · rintro ⟨⟨⟨c, i⟩, types⟩, listed, rfl⟩
    obtain ⟨stored, own⟩ := List.mem_filter.mp listed
    cases of_decide_eq_true own
    exact stored
  · intro listed
    exact ⟨((collection, idx.1), idx.2), List.mem_filter.mpr ⟨listed, decide_eq_true rfl⟩, rfl⟩

theorem distinct_fieldIndexesOf (s : State) (env : Env) (collection : String) :
    ((s.fieldIndexesOf env collection).map Prod.fst).Nodup := by
  have shuffled := ((env.indexOrder.perm s.fieldIndexes.toList).filter
    fun idx => idx.1.1 = collection).map fun idx : (String × String) × _ => idx.1.2
  unfold State.fieldIndexesOf
  rw [List.map_map]
  exact shuffled.nodup_iff.mpr (distinct_indexes s.fieldIndexes collection)

end TronDB.Engine
